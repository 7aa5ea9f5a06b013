import Rkvdec.Engine.RpsPrediction

/-! The fixed-size arrays of the H.265 slice header. The counts of the reference picture sets are
limited where they are parsed; the numbers of active references are not limited anywhere, and the
weight flags are kept in arrays of 16. -/
namespace Rkvdec.Bitstream

open Lib
open Engine.Rps (Returns)

/-- An index lies inside its array. -/
def ReadOp.InBounds : ReadOp → Prop
  | .access size i => i < size
  | _ => True

instance : ∀ op : ReadOp, Decidable op.InBounds
  | .access size i => inferInstanceAs (Decidable (i < size))
  | .u _ | .ue | .eof | .moreRbspData | .bitPos | .len | .failed | .fail =>
    inferInstanceAs (Decidable True)

section Rules

variable {σ α β : Type} {Pre : σ → Prop} {p : Parser σ α} {s : σ} {br : BitReader}

/-- Every index the parser computes lies inside its array. -/
def InBounds (p : Parser σ α) (s : σ) (br : BitReader) : Prop :=
  (p.run.run s).All ReadOp.handle (fun op _ => op.InBounds) br

instance (p : Parser σ α) (s : σ) (br : BitReader) : Decidable (InBounds p s br) :=
  inferInstanceAs (Decidable ((p.run.run s).All ReadOp.handle (fun op _ => op.InBounds) br))

theorem inBounds_bind {f : α → Parser σ β} : InBounds (p >>= f) s br ↔
    InBounds p s br ∧ ∀ a s' br', exec p s br = ((.ok a, s'), br') → InBounds (f a) s' br' := by
  have hrun : (p >>= f).run.run s = p.run.run s >>= fun r =>
      match r with
      | (.ok a, s') => (f a).run.run s'
      | (.error status, s') => pure (.error status, s') := by
    refine congrArg (p.run.run s >>= ·) (funext fun r => ?_)
    obtain ⟨res, s'⟩ := r
    cases res <;> rfl
  unfold InBounds exec
  rw [hrun, Prog.all_bind]
  refine and_congr_right fun _ => ?_
  cases (p.run.run s).run ReadOp.handle br with
  | mk r br' =>
    obtain ⟨res, s'⟩ := r
    cases res with
    | ok a =>
      constructor
      · intro h b s₁ br₁ heq
        cases heq
        exact h
      · intro h
        exact h a s' br' rfl
    | error status =>
      refine iff_of_true (Prog.all_pure _) ?_
      intro b s₁ br₁ heq
      cases heq

/-- From a result with `Pre` no index is out of bounds. -/
def Safe (Pre : σ → Prop) (p : Parser σ α) : Prop := ∀ s br, Pre s → InBounds p s br

/-- From no result an index is out of bounds. -/
abbrev Plain (p : Parser σ α) : Prop := Safe (fun _ => True) p

theorem Safe.of_plain (h : Plain p) : Safe Pre p := fun s br _ => h s br trivial

theorem Safe.bind {Q : α → σ → Prop} {f : α → Parser σ β} (hp : Safe Pre p) (hgives : Gives Pre p Q)
    (hf : ∀ a, Safe (Q a) (f a)) : Safe Pre (p >>= f) := by
  intro s br hs
  refine inBounds_bind.mpr ⟨hp s br hs, ?_⟩
  intro a s' br' hexec
  exact hf a s' br' (hgives s br a s' br' hs hexec)

theorem Safe.after {f : α → Parser σ β} (hp : Safe Pre p) (hf : ∀ a, Plain (f a)) :
    Safe Pre (p >>= f) := by
  intro s br hs
  refine inBounds_bind.mpr ⟨hp s br hs, ?_⟩
  intro a s' br' _
  exact hf a s' br' trivial

/-- The branches of an `if`, as in `Keeps.cond`. -/
theorem Safe.cond {c : Prop} [Decidable c] {q : Parser σ α} (hq : Safe Pre q)
    (hp : Safe Pre q → Safe Pre p) : Safe Pre (if c then p else q) := by
  split
  · exact hp hq
  · exact hq

theorem Safe.ite {c : Prop} [Decidable c] {q : Parser σ α} (hp : c → Safe Pre p)
    (hq : ¬c → Safe Pre q) : Safe Pre (if c then p else q) := by
  split
  · rename_i hc
    exact hp hc
  · rename_i hc
    exact hq hc

theorem safe_throw_bind {e : ParseError} {f : α → Parser σ β} : Safe Pre (throw e >>= f) := by
  intro s br _
  refine inBounds_bind.mpr ⟨trivial, ?_⟩
  intro a s' br' hexec
  cases hexec

/-- The parser gives up in one case. -/
theorem Safe.guard {c : Prop} [Decidable c] {e : ParseError} {f : PUnit → Parser σ α}
    (hf : ¬c → Safe Pre (f PUnit.unit)) : Safe Pre (if c then throw e >>= f else f PUnit.unit) :=
  .ite (fun _ => safe_throw_bind) hf

@[simp] theorem plain_pure (a : α) : Plain (pure a : Parser σ α) := fun _ _ _ => trivial

@[simp] theorem plain_throw (e : ParseError) : Plain (throw e : Parser σ α) := fun _ _ _ => trivial

@[simp] theorem plain_get : Plain (get : Parser σ σ) := fun _ _ _ => trivial

@[simp] theorem plain_modify (g : σ → σ) : Plain (modify g : Parser σ PUnit) := fun _ _ _ => trivial

theorem plain_ask (op : ReadOp) (h : op.InBounds) : Plain (ask op : Parser σ op.Ans) :=
  fun _ _ _ => ⟨h, trivial⟩

@[simp] theorem plain_brU (n : Nat) : Plain (brU n : Parser σ Nat) := plain_ask (.u n) trivial
@[simp] theorem plain_brU1 : Plain (brU1 : Parser σ Nat) := plain_brU 1
@[simp] theorem plain_brUe : Plain (brUe : Parser σ Nat) := plain_ask .ue trivial
@[simp] theorem plain_brBitPos : Plain (brBitPos : Parser σ Nat) := plain_ask .bitPos trivial
@[simp] theorem plain_brLen : Plain (brLen : Parser σ Nat) := plain_ask .len trivial
@[simp] theorem plain_brFail : Plain (brFail : Parser σ Unit) := plain_ask .fail trivial

theorem plain_access {size i : Nat} (h : i < size) : Plain (access size i : Parser σ Unit) :=
  plain_ask (.access size i) h

@[simp] theorem plain_flag : Plain (flag : Parser σ Bool) := plain_brU1.after fun _ => plain_pure _

@[simp] theorem plain_brSe : Plain (brSe : Parser σ Int) := plain_brUe.after fun _ => plain_pure _

theorem Safe.skip {p : Parser σ Unit} (hp : Plain p) (n : Nat) : Plain (skip n p) := by
  induction n with
  | zero => exact plain_pure ()
  | succ n ih => exact hp.after fun _ => ih

/-- What a parser returns limits what follows it. -/
theorem Safe.returned {Q : α → Prop} {f : α → Parser σ β} (hp : Plain p) (hret : Returns p Q)
    (hf : ∀ a, Q a → Plain (f a)) : Plain (p >>= f) := by
  intro s br _
  refine inBounds_bind.mpr ⟨hp s br trivial, ?_⟩
  intro a s' br' hexec
  exact hf a (hret s br a s' br' trivial hexec) s' br' trivial

/-- A value that is read in one case only. -/
theorem Safe.branch {c : Prop} [Decidable c] {Q : α → Prop} {q : Parser σ α} {f : α → Parser σ β}
    (hp : Plain p) (hq : Plain q) (hpret : Returns p Q) (hqret : Returns q Q)
    (hf : ∀ a, Q a → Plain (f a)) : Plain (if c then p >>= f else q >>= f) :=
  .ite (fun _ => .returned hp hpret hf) fun _ => .returned hq hqret hf

end Rules

end Rkvdec.Bitstream
namespace Rkvdec.Bitstream.H265

open Lib Engine.Rps

@[simp] theorem plain_brU8 (n : Nat) : Plain (brU8 n) := (plain_brU n).after fun _ => plain_pure _

@[simp] theorem plain_brUe8 : Plain brUe8 := plain_brUe.after fun _ => plain_pure _

@[simp] theorem plain_setSlice (g : SliceHeader → SliceHeader) : Plain (setSlice g) :=
  plain_modify _

section Sets

variable {ref : ShortTermRps} {flags : List (Nat × Bool)} {d : Int} {sps : Sps} {idx num : Nat}

theorem plain_parsePredictionFlags (n j : Nat) (h : j + n ≤ maxRefs + 1) :
    Plain (parsePredictionFlags n j) := by
  induction n generalizing j with
  | zero => exact plain_pure _
  | succ n ih =>
    have hrest := ih (j + 1) (by omega)
    unfold parsePredictionFlags
    refine (plain_access (by omega)).after fun _ => (plain_brU8 1).after fun used =>
      .cond ?_ fun _ => ?_
    · exact (plain_pure _).after fun _ => hrest.after fun _ => plain_pure _
    · exact plain_flag.after fun _ => hrest.after fun _ => plain_pure _

theorem plain_predictFrom {keep : Int → Bool} {l : List Nat} (h : ∀ i ∈ l, i < maxRefs) :
    Plain (predictFrom ref flags d keep l) := by
  induction l with
  | nil => exact plain_pure _
  | cons i l ih =>
    have hi : i < maxRefs := h i List.mem_cons_self
    have hrest := ih fun j hj => h j (List.mem_cons_of_mem i hj)
    unfold predictFrom
    refine (plain_access hi).after fun _ => (plain_access (by omega)).after fun _ => ?_
    exact hrest.after fun _ => plain_pure _

theorem returns_predicted {keep : Int → Bool} (l : List Nat) :
    Returns (predictFrom ref flags d keep l) (· = l.filterMap (predictEntry ref flags d keep)) := by
  intro s br a s' br' _ hexec
  rw [exec_predictFrom] at hexec
  cases hexec
  rfl

/-- An entry goes to one side at most. -/
theorem length_predicted (ref : ShortTermRps) (flags : List (Nat × Bool)) (d : Int) (l : List Nat) :
    (l.filterMap (predictEntry ref flags d fun x => x < 0)).length +
      (l.filterMap (predictEntry ref flags d fun x => 0 < x)).length ≤ l.length := by
  induction l with
  | nil => exact le_rfl
  | cons i l ih =>
    have hside : (predictEntry ref flags d (fun x => x < 0) i).toList.length +
        (predictEntry ref flags d (fun x => 0 < x) i).toList.length ≤ 1 := by
      unfold predictEntry
      generalize i32 (ref.deltaPoc.getD i 0 + d) = poc
      by_cases hneg : poc < 0
      · have hpos : ¬0 < poc := by omega
        simp only [hneg, hpos, decide_true, decide_false, Bool.false_and, Bool.false_eq_true,
          if_false]
        split <;> simp
      · simp only [hneg, decide_false, Bool.false_and, Bool.false_eq_true, if_false]
        split <;> simp
    simp only [List.filterMap_cons]
    cases hn : predictEntry ref flags d (fun x => x < 0) i with
    | none =>
      cases hp : predictEntry ref flags d (fun x => 0 < x) i with
      | none => simpa using Nat.le_succ_of_le ih
      | some e =>
        simp only [List.length_cons]
        omega
    | some e =>
      cases hp : predictEntry ref flags d (fun x => 0 < x) i with
      | none =>
        simp only [List.length_cons]
        omega
      | some e' => simp [hn, hp] at hside

theorem length_predictPivot (flags : List (Nat × Bool)) (d : Int) (nRef : Nat) :
    (predictPivot flags nRef d fun x => x < 0).length +
      (predictPivot flags nRef d fun x => 0 < x).length ≤ 1 := by
  unfold predictPivot
  dsimp only
  by_cases hneg : d < 0
  · have hpos : ¬0 < d := by omega
    simp only [hneg, hpos, decide_true, decide_false, Bool.false_and, Bool.false_eq_true, if_false]
    split <;> simp
  · simp only [hneg, decide_false, Bool.false_and, Bool.false_eq_true, if_false]
    split <;> simp

/-- A set is predicted from one of the SPS, whose counts are limited. -/
theorem plain_parseInterRps (h : SetsAre SetsOk sps) (hidx : idx ≤ maxShortTermRps)
    (out : ShortTermRps) :
    Plain (parseInterRps sps.stRps idx num out) := by
  unfold parseInterRps
  refine .branch plain_brUe (plain_pure 0) returns_brUe (returns_pure (by decide))
    fun delta hdelta => ?_
  have hu32 : u32 (delta + 1) = delta + 1 := Nat.mod_eq_of_lt hdelta
  dsimp only
  rw [hu32]
  refine .guard fun hle => plain_brU1.after fun sign => plain_brUe.after fun abs => ?_
  refine (plain_access (by omega)).after fun _ => ?_
  have hok := ok_getD h (idx - (delta + 1))
  generalize sps.stRps.getD (idx - (delta + 1)) {} = ref at hok
  have hcount := hok.count
  have hbound := hok.bound
  refine .guard fun _ => (plain_parsePredictionFlags _ _ (by omega)).after fun flags => ?_
  generalize i32 ((1 - 2 * (sign : Int)) * i32 (u32 (abs + 1))) = deltaRps
  have hnegatives : ∀ i ∈ List.range ref.numNegativePics, i < maxRefs := by
    intro i hi
    have := List.mem_range.mp hi
    omega
  have hpositives : ∀ i ∈ (List.range ref.numPositivePics).map (ref.numNegativePics + ·),
      i < maxRefs := by
    intro i hi
    obtain ⟨j, hj, rfl⟩ := List.mem_map.mp hi
    have := List.mem_range.mp hj
    omega
  refine .returned (plain_predictFrom fun i hi => hpositives i (List.mem_reverse.mp hi))
    (returns_predicted _) fun neg₁ hneg₁ => ?_
  refine .returned (plain_predictFrom hnegatives) (returns_predicted _) fun neg₂ hneg₂ => ?_
  refine .returned (plain_predictFrom fun i hi => hnegatives i (List.mem_reverse.mp hi))
    (returns_predicted _) fun pos₁ hpos₁ => ?_
  refine .returned (plain_predictFrom hpositives) (returns_predicted _) fun pos₂ hpos₂ => ?_
  have hpivot := length_predictPivot flags deltaRps ref.numDeltaPocs
  have hfromPos := length_predicted ref flags deltaRps
    ((List.range ref.numPositivePics).map (ref.numNegativePics + ·))
  have hfromNeg := length_predicted ref flags deltaRps
    (List.range ref.numNegativePics)
  rw [List.filterMap_reverse] at hneg₁ hpos₁
  subst hneg₁ hneg₂ hpos₁ hpos₂
  rw [List.length_map, List.length_range] at hfromPos
  rw [List.length_range] at hfromNeg
  refine .cond ?_ fun htail => ?_
  · exact .guard fun _ => plain_pure _
  · refine (plain_access ?_).after fun _ => htail
    simp only [List.length_append, List.length_reverse]
    omega

theorem plain_parseDeltas (sign : Int) (n j : Nat) (prev : Int) (out : ShortTermRps)
    (h : j + n ≤ maxRefs) :
    Plain (parseDeltas sign n j prev out) := by
  induction n generalizing j prev out with
  | zero => exact plain_pure _
  | succ n ih =>
    unfold parseDeltas
    refine plain_brUe.after fun delta => (plain_access (by omega)).after fun _ => ?_
    exact (plain_brU8 1).after fun used => ih _ _ _ (by omega)

theorem plain_parseDirectRps (out : ShortTermRps) : Plain (parseDirectRps out) := by
  unfold parseDirectRps
  refine plain_brUe.after fun numNeg => plain_brUe.after fun numPos => .guard fun hfew => ?_
  have hu32 : u32 (numNeg + numPos) = numNeg + numPos := by
    unfold u32 maxRefs at *
    omega
  rw [hu32] at hfew
  refine (plain_parseDeltas _ _ _ _ _ (by omega)).after fun out₁ => ?_
  exact plain_parseDeltas _ _ _ _ _ (by omega)

theorem plain_parseStRps {mark : Nat → P Unit} (hmark : ∀ n, Plain (mark n))
    (h : SetsAre SetsOk sps) (hidx : idx ≤ maxShortTermRps) :
    Plain (parseStRps mark sps.stRps idx num) := by
  have htail (inter : Nat) : Plain (do
      mark (u8 inter)
      let out : ShortTermRps := { interRefPicSetPredictionFlag := u8 inter }
      if inter ≠ 0 then parseInterRps sps.stRps idx num out else parseDirectRps out) :=
    (hmark _).after fun _ => .cond (plain_parseDirectRps _) fun _ => plain_parseInterRps h hidx _
  unfold parseStRps
  exact .cond ((plain_pure 0).after htail) fun _ => plain_brU1.after htail

end Sets

section Tables

theorem plain_parseWeightFlags (n i : Nat) (h : i + n ≤ 16) : Plain (parseWeightFlags n i) := by
  induction n generalizing i with
  | zero => exact plain_pure _
  | succ n ih =>
    unfold parseWeightFlags
    refine (plain_access (by omega)).after fun _ => plain_flag.after fun weight => ?_
    exact (ih (i + 1) (by omega)).after fun _ => plain_pure _

theorem plain_skipWeights (n i : Nat) (luma chroma : List Bool) (h : i + n ≤ 16) :
    Plain (skipWeights n i luma chroma) := by
  induction n generalizing i with
  | zero => exact plain_pure _
  | succ n ih =>
    have hrest := ih (i + 1) (by omega)
    unfold skipWeights
    refine (plain_access (by omega)).after fun _ => ?_
    with_reducible repeat' first
      | assumption | refine Safe.after ?_ fun _ => ?_ | refine .cond ?_ fun _ => ?_ | simp

/-- The flags that do not fit the array are the ones that are counted too many. -/
theorem inBounds_parseWeightFlags {n i : Nat} {o : ParseResult} {br : BitReader} (hi : i ≤ 16) :
    InBounds (parseWeightFlags n i) o br ↔ i + n ≤ 16 := by
  constructor
  · intro h
    induction n generalizing i br with
    | zero => exact hi
    | succ n ih =>
      unfold parseWeightFlags at h
      obtain ⟨haccess, h⟩ := inBounds_bind.mp h
      have hlt : i < 16 := haccess.1
      obtain ⟨-, h⟩ := inBounds_bind.mp (h _ _ _ rfl)
      obtain ⟨hrest, -⟩ := inBounds_bind.mp (h _ _ _ rfl)
      have := ih hlt hrest
      omega
  · intro h
    exact plain_parseWeightFlags n i h o br trivial

theorem inBounds_parseListWeights {chroma : Bool} {n : Nat} {o : ParseResult} {br : BitReader} :
    InBounds (parseListWeights chroma n) o br ↔ n ≤ 16 := by
  constructor
  · intro h
    have hflags := (inBounds_bind.mp h).1
    simpa using (inBounds_parseWeightFlags (Nat.zero_le 16)).mp hflags
  · intro h
    have hflags : Plain (parseWeightFlags n 0) := plain_parseWeightFlags n 0 (by omega)
    have hskip (luma chroma : List Bool) : Plain (skipWeights n 0 luma chroma) :=
      plain_skipWeights n 0 luma chroma (by omega)
    have hsafe : Plain (parseListWeights chroma n) := by
      unfold parseListWeights
      refine hflags.after fun luma => .cond ?_ fun _ => ?_
      · exact (plain_pure _).after fun _ => hskip _ _
      · exact hflags.after fun _ => hskip _ _
    exact hsafe o br trivial

end Tables

section Lockstep

variable {α β γ : Type} {Pre Q : ParseResult → Prop} {p : P α} {counts : List Nat}

/-- A parser that never gives up. -/
def Total (p : P α) : Prop := ∀ s br, ∃ a s' br', exec p s br = ((.ok a, s'), br')

theorem Total.bind {f : α → P β} (hp : Total p) (hf : ∀ a, Total (f a)) : Total (p >>= f) := by
  intro s br
  obtain ⟨a, s₁, br₁, hfirst⟩ := hp s br
  obtain ⟨b, s₂, br₂, hrest⟩ := hf a s₁ br₁
  refine ⟨b, s₂, br₂, ?_⟩
  rw [exec_bind, hfirst]
  exact hrest

theorem Total.cond {c : Prop} [Decidable c] {q : P α} (hq : Total q) (hp : Total q → Total p) :
    Total (if c then p else q) := by
  split
  · exact hp hq
  · exact hq

@[simp] theorem total_pure (a : α) : Total (pure a : P α) := fun s br => ⟨a, s, br, rfl⟩

@[simp] theorem total_get : Total (get : P ParseResult) := fun s br => ⟨s, s, br, rfl⟩

@[simp] theorem total_setSlice (g : SliceHeader → SliceHeader) : Total (setSlice g) :=
  fun _ br => ⟨(), _, br, rfl⟩

theorem total_ask (op : ReadOp) : Total (ask op) :=
  fun s br => ⟨(op.handle br).1, s, (op.handle br).2, rfl⟩

@[simp] theorem total_brUe : Total brUe := total_ask .ue
@[simp] theorem total_access (size i : Nat) : Total (access size i) := total_ask (.access size i)
@[simp] theorem total_brU (n : Nat) : Total (brU n) := total_ask (.u n)
@[simp] theorem total_brU8 (n : Nat) : Total (brU8 n) := (total_brU n).bind fun _ => total_pure _
@[simp] theorem total_brUe8 : Total brUe8 := total_brUe.bind fun _ => total_pure _
@[simp] theorem total_flag : Total flag := (total_brU 1).bind fun _ => total_pure _
@[simp] theorem total_brSe : Total brSe := total_brUe.bind fun _ => total_pure _

theorem Total.skip {p : P Unit} (hp : Total p) (n : Nat) : Total (skip n p) := by
  induction n with
  | zero => exact total_pure ()
  | succ n ih => exact hp.bind fun _ => ih

/-- The indices of the parser are in bounds if and only if the counts are at most 16. -/
def Limits (Pre : ParseResult → Prop) (p : P α) (counts : List Nat) : Prop :=
  ∀ s br, Pre s → (InBounds p s br ↔ ∀ n ∈ counts, n ≤ 16)

theorem Limits.of_safe (h : Safe Pre p) : Limits Pre p [] :=
  fun s br hs => iff_of_true (h s br hs) (by simp)

/-- What comes first is harmless and never gives up. -/
theorem Limits.after {f : α → P β} (hp : Safe Pre p) (htotal : Total p)
    (hgives : Gives Pre p fun _ => Q) (hf : ∀ a, Limits Q (f a) counts) :
    Limits Pre (p >>= f) counts := by
  intro s br hs
  rw [inBounds_bind]
  constructor
  · rintro ⟨-, hrest⟩
    obtain ⟨a, s', br', hexec⟩ := htotal s br
    exact (hf a s' br' (hgives s br a s' br' hs hexec)).mp (hrest a s' br' hexec)
  · intro hcounts
    refine ⟨hp s br hs, ?_⟩
    intro a s' br' hexec
    exact (hf a s' br' (hgives s br a s' br' hs hexec)).mpr hcounts

/-- What comes last is harmless. -/
theorem Limits.then {f : α → P β} (hp : Limits Pre p counts) (hf : ∀ a, Plain (f a)) :
    Limits Pre (p >>= f) counts := by
  intro s br hs
  rw [inBounds_bind, hp s br hs]
  refine and_iff_left ?_
  intro a s' br' _
  exact hf a s' br' trivial

/-- An element that is stored, in one case only. -/
theorem Limits.optional {c : Prop} [Decidable c] {r : P γ} {k : γ → P PUnit} {f : PUnit → P α}
    (hr : Plain r) (htotal : Total r) (hkeeps : Leaves Pre r) (hk : ∀ x, Plain (k x))
    (hktotal : ∀ x, Total (k x)) (hstores : ∀ x, Leaves Pre (k x))
    (hf : Limits Pre (f PUnit.unit) counts) :
    Limits Pre (if c then r >>= fun x => k x >>= f else f PUnit.unit) counts := by
  split
  · exact .after (.of_plain hr) htotal hkeeps fun x =>
      .after (.of_plain (hk x)) (hktotal x) (hstores x) fun _ => hf
  · exact hf

theorem Limits.ite {c : Prop} [Decidable c] {q : P α} (hp : c → Limits Pre p counts)
    (hq : ¬c → Limits Pre q counts) : Limits Pre (if c then p else q) counts := by
  split
  · rename_i hc
    exact hp hc
  · rename_i hc
    exact hq hc

/-- The indices of `p` are in bounds if and only if the counts that `q` returns, if it does, are at
most 16. -/
def Tells (Pre : ParseResult → Prop) (p : P α) (q : P (List Nat)) : Prop :=
  ∀ s br, Pre s → (InBounds p s br ↔
    ∀ counts s' br', exec q s br = ((.ok counts, s'), br') → ∀ n ∈ counts, n ≤ 16)

theorem Tells.of_limits (h : Limits Pre p counts) : Tells Pre p (pure counts) := by
  intro s br hs
  rw [h s br hs]
  constructor
  · intro hcounts counts' s' br' hexec
    cases hexec
    exact hcounts
  · intro hall
    exact hall counts s br rfl

/-- Both start with the same. -/
theorem Tells.same {R : γ → ParseResult → Prop} {r : P γ} {f : γ → P α} {g : γ → P (List Nat)}
    (hr : Safe Pre r) (hgives : Gives Pre r R) (hf : ∀ c, Tells (R c) (f c) (g c)) :
    Tells Pre (r >>= f) (r >>= g) := by
  intro s br hs
  rw [inBounds_bind]
  constructor
  · rintro ⟨-, hrest⟩ counts s' br' hexec
    obtain ⟨c, s₁, br₁, hfirst, hexec⟩ := exec_bind_ok hexec
    exact (hf c s₁ br₁ (hgives s br c s₁ br₁ hs hfirst)).mp (hrest c s₁ br₁ hfirst) counts
      s' br' hexec
  · intro hall
    refine ⟨hr s br hs, ?_⟩
    intro c s₁ br₁ hfirst
    refine (hf c s₁ br₁ (hgives s br c s₁ br₁ hs hfirst)).mpr ?_
    intro counts s' br' hexec
    refine hall counts s' br' ?_
    rw [exec_bind, hfirst]
    exact hexec

theorem Tells.then {q : P (List Nat)} {f : α → P β} (hp : Tells Pre p q) (hf : ∀ a, Plain (f a)) :
    Tells Pre (p >>= f) q := by
  intro s br hs
  rw [inBounds_bind, ← hp s br hs]
  refine and_iff_left ?_
  intro a s' br' _
  exact hf a s' br' trivial

theorem Tells.ite {c : Prop} [Decidable c] {p' : P α} {q q' : P (List Nat)} (hp : c → Tells Pre p q)
    (hq : ¬c → Tells Pre p' q') : Tells Pre (if c then p else p') (if c then q else q') := by
  split
  · rename_i hc
    exact hp hc
  · rename_i hc
    exact hq hc

/-- Both give up in one case. -/
theorem Tells.guard {c : Prop} [Decidable c] {e : ParseError} {f : PUnit → P α}
    {g : PUnit → P (List Nat)} (hf : ¬c → Tells Pre (f PUnit.unit) (g PUnit.unit)) :
    Tells Pre (if c then throw e >>= f else f PUnit.unit) (if c then throw e >>= g
    else g PUnit.unit) := by
  refine .ite (fun _ => ?_) hf
  intro s br hs
  refine iff_of_true (safe_throw_bind s br hs) ?_
  intro counts s' br' hexec
  rw [exec_bind] at hexec
  cases hexec

/-- An element that both store, in one case only. -/
theorem Tells.optional {c : Prop} [Decidable c] {r : P γ} {k : γ → P PUnit} {f : PUnit → P α}
    {g : PUnit → P (List Nat)} (hr : Plain r) (hkeeps : Leaves Pre r) (hk : ∀ x, Plain (k x))
    (hstores : ∀ x, Leaves Pre (k x)) (hf : Tells Pre (f PUnit.unit) (g PUnit.unit)) :
    Tells Pre (if c then r >>= fun x => k x >>= f else f PUnit.unit)
      (if c then r >>= fun x => k x >>= g else g PUnit.unit) :=
  .ite (fun _ => .same (.of_plain hr) hkeeps fun x =>
    .same (.of_plain (hk x)) (hstores x) fun _ => hf)
    fun _ => hf

/-- The same, of what is parsed in one case only. -/
theorem Tells.sometimes {c : Prop} [Decidable c] {r : P PUnit} {f : PUnit → P α}
    {g : PUnit → P (List Nat)} (hr : Plain r) (hkeeps : Leaves Pre r)
    (hf : Tells Pre (f PUnit.unit) (g PUnit.unit)) :
    Tells Pre (if c then r >>= f else f PUnit.unit) (if c then r >>= g else g PUnit.unit) :=
  .ite (fun _ => .same (.of_plain hr) hkeeps fun _ => hf) fun _ => hf

end Lockstep

section Header

variable {α : Type} {o : ParseResult} {pps : Pps} {sps : Sps} {st l0 l1 : Nat} {counts : List Nat}

/-- The reference picture set of the slice is within the limits, also before the header has one. -/
structure Ready (o : ParseResult) : Prop where
  idx : o.slice.shortTermRefPicSetIdx < maxShortTermRps
  own : Ok o.slice.stRpsSlice

/-- What `Ready` is about, and the type of the slice. -/
def readyView (o : ParseResult) : Nat × ShortTermRps × Nat :=
  (o.slice.shortTermRefPicSetIdx, o.slice.stRpsSlice, o.slice.sliceType)

/-- The slice type is stored. -/
def Typed (st : Nat) (o : ParseResult) : Prop := Ready o ∧ o.slice.sliceType = st

theorem Ready.congr {o' : ParseResult} (h : Ready o) (hview : readyView o' = readyView o) :
    Ready o' := by
  obtain ⟨hidx, hown, -⟩ : _ ∧ _ ∧ _ := by simpa [readyView] using hview
  exact ⟨hidx ▸ h.idx, hown ▸ h.own⟩

theorem leaves_ready {p : P α} (h : Keeps readyView p) : Leaves Ready p := by
  intro s br a s' br' hs hexec
  have hview := h s br
  rw [hexec] at hview
  exact hs.congr hview

theorem leaves_typed {p : P α} (h : Keeps readyView p) : Leaves (Typed st) p := by
  intro s br a s' br' hs hexec
  have hview := h s br
  rw [hexec] at hview
  exact ⟨hs.1.congr hview, (congrArg (fun v => v.2.2) hview).trans hs.2⟩

theorem keeps_ready_set {g : SliceHeader → SliceHeader} (hg : ∀ s : SliceHeader,
    (g s).shortTermRefPicSetIdx = s.shortTermRefPicSetIdx ∧ (g s).stRpsSlice = s.stRpsSlice ∧
      (g s).sliceType = s.sliceType) : Keeps readyView (setSlice g) :=
  .modify fun o => by
    obtain ⟨hidx, hown, htype⟩ := hg o.slice
    simp only [readyView, hidx, hown, htype]

theorem returns_brU8_lt (n : Nat) : Returns (brU8 n) (· < 2 ^ n) := by
  intro s br a s' br' _ hexec
  have hlt := uLoop_lt n 0 br
  have hmod := Nat.mod_le (br.u n).1 (2 ^ 8)
  cases hexec
  rw [Nat.zero_add, Nat.one_mul] at hlt
  exact lt_of_le_of_lt hmod hlt

theorem ceilLog2_le : ∀ n ≤ maxShortTermRps, ceilLog2 n ≤ 6 := by decide

theorem plain_parseSliceRps (h : SetsAre SetsOk sps) : Plain (parseSliceRps sps) := by
  have hsets := @plain_parseStRps sps sps.numShortTermRefPicSets sps.numShortTermRefPicSets
      _ (fun n => plain_setSlice fun s =>
    { s with stRpsSlice := { s.stRpsSlice with interRefPicSetPredictionFlag := n } }) h h.few
  unfold parseSliceRps
  with_reducible repeat' first
    | assumption | refine Safe.after ?_ fun _ => ?_ | refine .cond ?_ fun _ => ?_ | simp

theorem gives_parseStRps {mark : Nat → P Unit} (rpsList : List ShortTermRps) (idx num : Nat)
    (hmark : ∀ n, Keeps (fun o => o.slice.shortTermRefPicSetIdx) (mark n)) :
    Gives Ready (parseStRps mark rpsList idx num) fun rps o =>
      Ok rps ∧ o.slice.shortTermRefPicSetIdx < maxShortTermRps := by
  intro s br rps s' br' hs hexec
  have hidx := keeps_parseStRps hmark rpsList idx num s br
  rw [hexec] at hidx
  exact ⟨returns_parseStRps _ _ _ _ s br rps s' br' trivial hexec, hidx ▸ hs.idx⟩

theorem ready_parseSliceRps (h : SetsAre SetsOk sps) : Leaves Ready (parseSliceRps sps) := by
  unfold parseSliceRps
  refine Gives.bind (leaves_ready (keeps_brU _)) fun lsb => ?_
  refine Gives.bind (leaves_ready (keeps_ready_set fun _ => ⟨rfl, rfl, rfl⟩)) fun _ => ?_
  refine Gives.bind (leaves_ready (keeps_brU8 1)) fun spsFlag => ?_
  refine Gives.bind (leaves_ready (keeps_ready_set fun _ => ⟨rfl, rfl, rfl⟩)) fun _ => ?_
  refine Gives.bind (leaves_ready keeps_brBitPos) fun bitBegin => ?_
  refine Gives.cond (fun _ => ?_) fun _ => Gives.cond (fun hnum => ?_) fun _ => leaves_ready ?_
  · refine Gives.bind (gives_parseStRps _ _ _ fun n => .modify fun _ => rfl) fun rps =>
      Gives.bind (Q := fun _ => Ready) (gives_modify ?_) fun _ => leaves_ready ?_
    · rintro o ⟨hok, hidx⟩
      exact ⟨hidx, hok⟩
    · with_reducible repeat' first
        | assumption | exact keeps_ready_set fun _ => ⟨rfl, rfl, rfl⟩ | refine .bind ?_ fun _ => ?_
        | refine .cond ?_ fun _ => ?_ | simp
  · refine Gives.bind (Q := fun idx o => idx < maxShortTermRps ∧ Ready o) ?_
      fun idx => Gives.bind (Q := fun _ => Ready) (gives_modify ?_) fun _ => leaves_ready ?_
    · intro s br idx s' br' hs hexec
      have hidx := returns_brU8_lt _ s br idx s' br' trivial hexec
      have hpow := Nat.pow_le_pow_right Nat.two_pos (ceilLog2_le _ h.few)
      exact ⟨hidx.trans_le hpow, leaves_ready (keeps_brU8 _) s br idx s' br' hs hexec⟩
    · rintro o ⟨hidx, hready⟩
      exact ⟨hidx, hready.own⟩
    · with_reducible repeat' first
        | assumption | exact keeps_ready_set fun _ => ⟨rfl, rfl, rfl⟩ | refine .bind ?_ fun _ => ?_
        | refine .cond ?_ fun _ => ?_ | simp
  · with_reducible repeat' first
      | assumption | exact keeps_ready_set fun _ => ⟨rfl, rfl, rfl⟩ | refine .bind ?_ fun _ => ?_
      | refine .cond ?_ fun _ => ?_ | simp

theorem keeps_type_set {g : SliceHeader → SliceHeader} (hg : ∀ s, (g s).sliceType = s.sliceType) :
    Keeps (fun o => o.slice.sliceType) (setSlice g) := .modify fun o => hg o.slice

theorem typed_parseSliceRps (h : SetsAre SetsOk sps) : Leaves (Typed st) (parseSliceRps sps) := by
  intro s br a s' br' hs hexec
  have htype : Keeps (fun o => o.slice.sliceType) (parseSliceRps sps) := by
    unfold parseSliceRps
    with_reducible repeat' first
      | assumption | refine keeps_parseStRps (fun _ => ?_) _ _ _ | exact keeps_type_set fun _ => rfl
      | refine .bind ?_ fun _ => ?_ | refine .cond ?_ fun _ => ?_ | simp
  have hview := htype s br
  rw [hexec] at hview
  exact ⟨ready_parseSliceRps h s br a s' br' hs.1 hexec, hview.trans hs.2⟩

/-- The references of the list that has weights. -/
structure Counted (st l0 l1 : Nat) (o : ParseResult) : Prop where
  type : o.slice.sliceType = st
  l0 : o.slice.numRefIdxL0ActiveMinus1 = l0
  l1 : st = sliceTypeB → o.slice.numRefIdxL1ActiveMinus1 = l1

def countedView (o : ParseResult) : Nat × Nat × Nat :=
  (o.slice.sliceType, o.slice.numRefIdxL0ActiveMinus1, o.slice.numRefIdxL1ActiveMinus1)

theorem leaves_counted {p : P α} (h : Keeps countedView p) : Leaves (Counted st l0 l1) p := by
  intro s br a s' br' hs hexec
  have hview := h s br
  rw [hexec] at hview
  obtain ⟨htype, hl0, hl1⟩ : _ ∧ _ ∧ _ := by simpa [countedView] using hview
  exact ⟨htype.trans hs.type, hl0.trans hs.l0, fun hb => hl1.trans (hs.l1 hb)⟩

theorem keeps_counted_set {g : SliceHeader → SliceHeader} (hg : ∀ s : SliceHeader,
    (g s).sliceType = s.sliceType ∧ (g s).numRefIdxL0ActiveMinus1 = s.numRefIdxL0ActiveMinus1 ∧
      (g s).numRefIdxL1ActiveMinus1 = s.numRefIdxL1ActiveMinus1) : Keeps countedView (setSlice g) :=
  .modify fun o => by
    obtain ⟨htype, hl0, hl1⟩ := hg o.slice
    simp only [countedView, htype, hl0, hl1]

/-- The numbers of references that the lists of a slice have weights for. -/
def weighted (pps : Pps) (st l0 l1 : Nat) : List Nat :=
  if (pps.weightedPredFlag ≠ 0 ∧ st = sliceTypeP) ∨
    (pps.weightedBipredFlag ≠ 0 ∧ st = sliceTypeB) then
    if st = sliceTypeB then [l0 + 1, l1 + 1] else [l0 + 1]
  else []

theorem total_parseListWeights (chroma : Bool) (n : Nat) : Total (parseListWeights chroma n) := by
  have hflags (n i : Nat) : Total (parseWeightFlags n i) := by
    induction n generalizing i with
    | zero => exact total_pure _
    | succ n ih =>
      refine (total_access _ _).bind fun _ => total_flag.bind fun _ => ?_
      exact (ih _).bind fun _ => total_pure _
  have hskip (n i : Nat) (luma chroma : List Bool) : Total (skipWeights n i luma chroma) := by
    induction n generalizing i with
    | zero => exact total_pure _
    | succ n ih =>
      have hrest := ih (i + 1)
      unfold skipWeights
      with_reducible repeat' first
        | assumption | refine .bind ?_ fun _ => ?_ | refine .cond ?_ fun _ => ?_ | simp
  refine (hflags _ _).bind fun _ => .cond ?_ fun _ => ?_
  · exact (total_pure _).bind fun _ => hskip _ _ _ _
  · exact (hflags _ _).bind fun _ => hskip _ _ _ _

theorem inBounds_get {f : ParseResult → P α} {br : BitReader} :
    InBounds (get >>= f) o br ↔ InBounds (f o) o br := by
  rw [inBounds_bind]
  constructor
  · rintro ⟨-, hrest⟩
    exact hrest o o br rfl
  · intro h
    refine ⟨trivial, ?_⟩
    intro a s' br' hexec
    cases hexec
    exact h

theorem leaves_eq {p : P α} (h : Keeps id p) : Leaves (· = o) p := h.gives (· = o) fun _ ho => ho

/-- The weight table takes lists of at most 16 references. -/
theorem limits_parsePredWeightTable : Limits (Counted st l0 l1) (parsePredWeightTable sps)
    (if st = sliceTypeB then [l0 + 1, l1 + 1] else [l0 + 1]) := by
  intro o br ho
  have hlists (chroma : Bool) : Limits (· = o) (do
      parseListWeights chroma (o.slice.numRefIdxL0ActiveMinus1 + 1)
      if o.slice.sliceType = sliceTypeB then
        parseListWeights chroma (o.slice.numRefIdxL1ActiveMinus1 + 1))
      (if st = sliceTypeB then [l0 + 1, l1 + 1] else [l0 + 1]) := by
    intro s br _
    rw [inBounds_bind, inBounds_parseListWeights, ho.type, ho.l0]
    obtain ⟨a, s', br', hexec⟩ := total_parseListWeights chroma (l0 + 1) s br
    by_cases hb : st = sliceTypeB
    · simp only [hb, if_true, List.forall_mem_cons, List.not_mem_nil, false_imp_iff, forall_const,
        and_true, inBounds_parseListWeights, ho.l1 hb]
      exact and_congr_right fun _ => ⟨fun hall => hall a s' br' hexec, fun h _ _ _ _ => h⟩
    · simp only [hb, if_false, List.forall_mem_cons, List.not_mem_nil, false_imp_iff, forall_const,
        and_true]
      exact and_iff_left fun _ s' br' _ => plain_pure _ s' br' trivial
  unfold parsePredWeightTable
  rw [inBounds_get]
  have htail := hlists (decide (sps.chromaFormatIdc ≠ 0))
  refine Limits.after (.of_plain plain_brUe : Safe (· = o) brUe) total_brUe (leaves_eq keeps_brUe)
    (fun _ => ?_)
    o br rfl
  refine .ite (fun _ => ?_) fun _ => htail
  exact .after (.of_plain plain_brSe) total_brSe (leaves_eq keeps_brSe) fun _ => htail

theorem plain_countUsed {rps : ShortTermRps} (n i : Nat) (h : i + n ≤ maxRefs) :
    Plain (countUsed rps n i) := by
  induction n generalizing i with
  | zero => exact plain_pure _
  | succ n ih =>
    unfold countUsed
    exact (plain_access (by omega)).after fun _ => (ih (i + 1) (by omega)).after fun _ =>
      plain_pure _

theorem total_countUsed {rps : ShortTermRps} (n i : Nat) : Total (countUsed rps n i) := by
  induction n generalizing i with
  | zero => exact total_pure _
  | succ n ih => exact (total_access _ _).bind fun _ => (ih _).bind fun _ => total_pure _

/-- The set of the slice is one of the SPS or its own, and has at most 16 pictures. -/
theorem safe_parseListsModification (h : SetsAre SetsOk sps) :
    Safe Ready (parseListsModification pps sps) := by
  intro o br ho
  unfold parseListsModification
  rw [inBounds_get]
  refine (Safe.ite (fun _ => ?_) fun _ => ?_ : Plain _) o br trivial
  · refine (plain_access ho.idx).after fun _ => ?_
    refine .returned (plain_pure _) (returns_pure (ok_getD h _) : Returns _ Ok) fun rps hok => ?_
    have hbound := hok.bound
    refine (plain_countUsed _ _ (by omega)).after fun totalRefs => ?_
    with_reducible repeat' first
      | assumption | refine Safe.after ?_ fun _ => ?_ | refine .cond ?_ fun _ => ?_
      | refine .skip ?_ _ | simp
  · refine .returned (Q := Ok) (plain_pure _) (returns_pure ho.own) fun rps hok => ?_
    have hbound := hok.bound
    refine (plain_countUsed _ _ (by omega)).after fun totalRefs => ?_
    with_reducible repeat' first
      | assumption | refine Safe.after ?_ fun _ => ?_ | refine .cond ?_ fun _ => ?_
      | refine .skip ?_ _ | simp

theorem total_parseListsModification : Total (parseListsModification pps sps) := by
  unfold parseListsModification
  with_reducible repeat' first
    | assumption | exact total_countUsed _ _ | refine .bind ?_ fun _ => ?_
    | refine .cond ?_ fun _ => ?_ | refine .skip ?_ _ | simp

end Header
section Stored

/-- The counts of the stored parameter sets are limited. -/
structure Stored (o : ParseResult) : Prop where
  pps : ∀ pps ∈ o.pps, pps.spsId < maxSps
  sps : ∀ sps ∈ o.sps, SetsAre SetsOk sps

variable {o : ParseResult}

theorem setsOk_blank : SetsAre SetsOk ({} : Sps) := by
  refine ⟨?_, Nat.zero_le _⟩
  intro rps hrps
  rw [List.eq_of_mem_replicate hrps]
  exact ok_blank

theorem stored_init : Stored {} := by
  refine ⟨?_, ?_⟩
  · intro pps hpps
    rw [List.eq_of_mem_replicate hpps]
    decide
  · intro sps hsps
    rw [List.eq_of_mem_replicate hsps]
    exact setsOk_blank

theorem Stored.pps_getD (h : Stored o) (i : Nat) : (o.pps.getD i {}).spsId < maxSps := by
  rw [List.getD_eq_getElem?_getD]
  cases hget : o.pps[i]? with
  | none => decide
  | some pps => exact h.pps pps (List.mem_of_getElem? hget)

theorem Stored.sps_getD (h : Stored o) (i : Nat) : SetsAre SetsOk (o.sps.getD i {}) := by
  rw [List.getD_eq_getElem?_getD]
  cases hget : o.sps[i]? with
  | none => exact setsOk_blank
  | some sps => exact h.sps sps (List.mem_of_getElem? hget)

theorem Stored.congr (h : Stored o) {o' : ParseResult} (hsps : o'.sps = o.sps)
    (hpps : o'.pps = o.pps) :
    Stored o' := ⟨hpps ▸ h.pps, hsps ▸ h.sps⟩

end Stored

section Slices

variable {α : Type} {o : ParseResult} {pps : Pps} {sps : Sps} {st l0 l1 nalUnitType : Nat}

/-- What follows the numbers of references of a P or B slice. -/
def parseListSyntax (pps : Pps) (sps : Sps) (st : Nat) : P Unit := do
  parseListsModification pps sps
  if st = sliceTypeB then
    let mvdL1Zero ← brU8 1
    setSlice fun s => { s with mvdL1ZeroFlag := mvdL1Zero }
  if pps.cabacInitPresentFlag ≠ 0 then
    let cabacInit ← brU8 1
    setSlice fun s => { s with cabacInitFlag := cabacInit }
  parseCollocated
  if (pps.weightedPredFlag ≠ 0 ∧ st = sliceTypeP) ∨
      (pps.weightedBipredFlag ≠ 0 ∧ st = sliceTypeB) then
    parsePredWeightTable sps
  let mergeCand ← brUe8
  setSlice fun s => { s with fiveMinusMaxNumMergeCand := mergeCand }

/-- The numbers of references of a P or B slice that its weight table is for. -/
def weightedCounts (pps : Pps) (st : Nat) : P (List Nat) := do
  let overrideFlag ← brU8 1
  setSlice fun s => { s with numRefIdxActiveOverrideFlag := overrideFlag }
  if overrideFlag ≠ 0 then
    let l0 ← brUe8
    setSlice fun s => { s with numRefIdxL0ActiveMinus1 := l0 }
    if st = sliceTypeB then
      let l1 ← brUe8
      setSlice fun s => { s with numRefIdxL1ActiveMinus1 := l1 }
      return weighted pps st l0 l1
    else return weighted pps st l0 0
  else
    setSlice fun s => { s with
      numRefIdxL0ActiveMinus1 := pps.numRefIdxL0DefaultActiveMinus1
      numRefIdxL1ActiveMinus1 := pps.numRefIdxL1DefaultActiveMinus1 }
    return weighted pps st pps.numRefIdxL0DefaultActiveMinus1 pps.numRefIdxL1DefaultActiveMinus1

/-- The same of an independent segment, from behind its address on. -/
def independentCounts (nalUnitType : Nat) (pps : Pps) (sps : Sps) : P (List Nat) := do
  skip pps.numExtraSliceHeaderBits do
    let _ ← brU1
  let st ← brUe8
  setSlice fun s => { s with sliceType := st }
  if sliceTypeI < st then throw .invalid
  if pps.outputFlagPresentFlag ≠ 0 then
    let picOutput ← brU8 1
    setSlice fun s => { s with picOutputFlag := picOutput }
  if sps.separateColourPlaneFlag ≠ 0 then
    let colourPlaneId ← brU8 2
    setSlice fun s => { s with colourPlaneId := colourPlaneId }
  if isIdrType nalUnitType = false then parseSliceRps sps
  if sps.sampleAdaptiveOffsetEnabledFlag ≠ 0 then
    let saoLuma ← brU8 1
    setSlice fun s => { s with sliceSaoLumaFlag := saoLuma }
    if sps.chromaFormatIdc ≠ 0 then
      let saoChroma ← brU8 1
      setSlice fun s => { s with sliceSaoChromaFlag := saoChroma }
  if st = sliceTypeP ∨ st = sliceTypeB then weightedCounts pps st else return []

/-- The numbers of references that a slice header has weights for, one for each list. What stands
before them is parsed as the code does. -/
def readCounts (nalUnitType : Nat) : P (List Nat) := do
  let (pps, sps) ← parseSliceSets nalUnitType
  parseSegmentAddress pps sps
  if (← get).slice.dependentSliceSegmentFlag = 0 then independentCounts nalUnitType pps sps
  else return []

theorem keeps_counted_parseCollocated : Keeps countedView parseCollocated := by
  unfold parseCollocated
  with_reducible repeat' first
    | assumption | exact keeps_counted_set fun _ => ⟨rfl, rfl, rfl⟩ | refine .bind ?_ fun _ => ?_
    | refine .cond ?_ fun _ => ?_ | simp

theorem plain_parseCollocated : Plain parseCollocated := by
  unfold parseCollocated
  with_reducible repeat' first
    | assumption | refine Safe.after ?_ fun _ => ?_ | refine .cond ?_ fun _ => ?_ | simp

theorem total_parseCollocated : Total parseCollocated := by
  unfold parseCollocated
  with_reducible repeat' first
    | assumption | refine .bind ?_ fun _ => ?_ | refine .cond ?_ fun _ => ?_ | simp

theorem limits_parseListSyntax (h : SetsAre SetsOk sps) :
    Limits (fun o => Ready o ∧ Counted st l0 l1 o) (parseListSyntax pps sps st)
      (weighted pps st l0 l1) := by
  have hmerge : Plain (do
      let mergeCand ← brUe8
      setSlice fun s => { s with fiveMinusMaxNumMergeCand := mergeCand }) :=
    plain_brUe8.after fun _ => plain_setSlice _
  have hset {g : SliceHeader → SliceHeader} (hg : ∀ s : SliceHeader, (g s).sliceType = s.sliceType ∧
      (g s).numRefIdxL0ActiveMinus1 = s.numRefIdxL0ActiveMinus1 ∧
        (g s).numRefIdxL1ActiveMinus1 = s.numRefIdxL1ActiveMinus1) :
      Leaves (Counted st l0 l1) (setSlice g) := leaves_counted (keeps_counted_set hg)
  have hread : Leaves (Counted st l0 l1) (brU8 1) := leaves_counted (keeps_brU8 1)
  unfold parseListSyntax
  refine .after (Q := Counted st l0 l1) (fun o br ho => safe_parseListsModification h o br ho.1)
    total_parseListsModification ?_ fun _ => ?_
  · intro o br a o' br' ho hexec
    exact leaves_counted (keeps_parseListsModification pps sps) o br a o' br' ho.2 hexec
  refine .optional (plain_brU8 1) (total_brU8 1) hread (fun _ => plain_setSlice _)
    (fun _ => total_setSlice _) (fun _ => hset fun _ => ⟨rfl, rfl, rfl⟩) ?_
  refine .optional (plain_brU8 1) (total_brU8 1) hread (fun _ => plain_setSlice _)
    (fun _ => total_setSlice _) (fun _ => hset fun _ => ⟨rfl, rfl, rfl⟩) ?_
  refine .after (.of_plain plain_parseCollocated) total_parseCollocated
    (leaves_counted keeps_counted_parseCollocated) fun _ => ?_
  unfold weighted
  split
  · exact limits_parsePredWeightTable.then fun _ => hmerge
  · exact .of_safe (.of_plain hmerge)

theorem tells_parseInterSlice (h : SetsAre SetsOk sps) :
    Tells (Typed st) (parseInterSlice pps sps st) (weightedCounts pps st) := by
  have hlists (l0 l1 : Nat) : Tells (fun o => Ready o ∧ Counted st l0 l1 o)
      (parseListSyntax pps sps st)
      (pure (weighted pps st l0 l1)) := .of_limits (limits_parseListSyntax h)
  unfold parseInterSlice weightedCounts
  refine .same (.of_plain (plain_brU8 1)) (leaves_typed (keeps_brU8 1)) fun overrideFlag => ?_
  refine .same (.of_plain (plain_setSlice _))
    (leaves_typed (keeps_ready_set fun _ => ⟨rfl, rfl, rfl⟩))
    fun _ => .ite (fun _ => ?_) fun _ => ?_
  · refine .same (.of_plain plain_brUe8) (leaves_typed keeps_brUe8) fun l0 => ?_
    refine .same (.of_plain (plain_setSlice _)) (gives_modify ?_ : Gives _ _ fun _ o =>
      Typed st o ∧ o.slice.numRefIdxL0ActiveMinus1 = l0) fun _ => .ite (fun hb => ?_) fun hb => ?_
    · intro o ho
      exact ⟨⟨⟨ho.1.idx, ho.1.own⟩, ho.2⟩, rfl⟩
    · refine .same (.of_plain plain_brUe8) (?_ : Gives _ _ fun _ o =>
        Typed st o ∧ o.slice.numRefIdxL0ActiveMinus1 = l0) fun l1 => ?_
      · exact (keeps_brUe8 : Keeps id brUe8).gives (fun o => Typed st o ∧
          o.slice.numRefIdxL0ActiveMinus1 = l0)
          fun _ ho => ho
      · refine .same (.of_plain (plain_setSlice _)) (gives_modify ?_) fun _ => hlists l0 l1
        intro o ho
        exact ⟨⟨ho.1.1.idx, ho.1.1.own⟩, ho.1.2, ho.2, fun _ => rfl⟩
    · intro o br ho
      exact hlists l0 0 o br ⟨ho.1.1, ho.1.2, ho.2, fun hb' => absurd hb' hb⟩
  · refine .same (.of_plain (plain_setSlice _)) (gives_modify ?_) fun _ => hlists _ _
    intro o ho
    exact ⟨⟨ho.1.idx, ho.1.own⟩, ho.2, rfl, fun _ => rfl⟩

theorem plain_parseSliceDeblocking : Plain (parseSliceDeblocking pps) := by
  unfold parseSliceDeblocking
  with_reducible repeat' first
    | assumption | refine Safe.after ?_ fun _ => ?_ | refine .cond ?_ fun _ => ?_ | simp

theorem tells_parseIndependent (h : SetsAre SetsOk sps) :
    Tells Ready (parseIndependent nalUnitType pps sps) (independentCounts nalUnitType pps sps) := by
  have hdeblocking := @plain_parseSliceDeblocking pps
  have hbit : Plain (do let _ ← brU1 : P Unit) := plain_brU1.after fun _ => plain_pure _
  have hskip : Leaves Ready (skip pps.numExtraSliceHeaderBits (do let _ ← brU1) : P Unit) :=
    leaves_ready (.skip (keeps_brU1.bind fun _ => keeps_pure _) _)
  have hset (st : Nat) {g : SliceHeader → SliceHeader} (hg : ∀ s : SliceHeader,
      (g s).shortTermRefPicSetIdx = s.shortTermRefPicSetIdx ∧ (g s).stRpsSlice = s.stRpsSlice ∧
        (g s).sliceType = s.sliceType) : Leaves (Typed st) (setSlice g) :=
    leaves_typed (keeps_ready_set hg)
  have hread (st n : Nat) : Leaves (Typed st) (brU8 n) := leaves_typed (keeps_brU8 n)
  unfold parseIndependent independentCounts
  refine .same (.of_plain (Safe.skip hbit _)) hskip fun _ => ?_
  refine .same (.of_plain plain_brUe8) (leaves_ready keeps_brUe8) fun st => ?_
  refine .same (.of_plain (plain_setSlice _)) (R := fun _ => Typed st) (gives_modify ?_)
    fun _ => .guard fun _ => ?_
  · intro o ho
    exact ⟨⟨ho.idx, ho.own⟩, rfl⟩
  have hinter {f : PUnit → P Unit} (hf : ∀ a, Plain (f a)) : Tells (Typed st)
      (if st = sliceTypeP ∨ st = sliceTypeB then parseInterSlice pps sps st >>= f else f PUnit.unit)
      (if st = sliceTypeP ∨ st = sliceTypeB then weightedCounts pps st else pure []) :=
    .ite (fun _ => .then (tells_parseInterSlice h) hf) fun _ =>
      .of_limits (.of_safe (.of_plain (hf _)))
  refine .optional (plain_brU8 1) (hread st 1) (fun _ => plain_setSlice _)
    (fun _ => hset st fun _ => ⟨rfl, rfl, rfl⟩) ?_
  refine .optional (plain_brU8 2) (hread st 2) (fun _ => plain_setSlice _)
    (fun _ => hset st fun _ => ⟨rfl, rfl, rfl⟩) ?_
  refine .sometimes (plain_parseSliceRps h) (typed_parseSliceRps h) ?_
  refine .ite (fun _ => ?_) fun _ => hinter fun _ => ?_
  · refine .same (.of_plain (plain_brU8 1)) (hread st 1) fun _ => ?_
    refine .same (.of_plain (plain_setSlice _)) (hset st fun _ => ⟨rfl, rfl, rfl⟩) fun _ => ?_
    refine .optional (plain_brU8 1) (hread st 1) (fun _ => plain_setSlice _)
      (fun _ => hset st fun _ => ⟨rfl, rfl, rfl⟩) (hinter fun _ => ?_)
    with_reducible repeat' first
      | assumption | refine Safe.after ?_ fun _ => ?_ | refine .cond ?_ fun _ => ?_ | simp
  · with_reducible repeat' first
      | assumption | refine Safe.after ?_ fun _ => ?_ | refine .cond ?_ fun _ => ?_ | simp

theorem gives_parseSliceSets : Gives Stored (parseSliceSets nalUnitType) fun sets o =>
    SetsAre SetsOk sets.2 ∧ Ready o := by
  intro o br sets o' br' ho hexec
  rcases exec_parseSliceSets nalUnitType o.pps o.sps br with herror | ⟨slice, br₁, hslice, hrun⟩
  · obtain ⟨e, he⟩ := herror o rfl rfl
    rw [hexec] at he
    cases he
  · rw [hrun o rfl rfl] at hexec
    cases hexec
    have hidx : slice.shortTermRefPicSetIdx = 0 :=
      congrArg PictureFields.shortTermRefPicSetIdx hslice
    have hown : slice.stRpsSlice = {} := congrArg PictureFields.stRpsSlice hslice
    refine ⟨ho.sps_getD _, ?_, ?_⟩
    · change slice.shortTermRefPicSetIdx < maxShortTermRps
      rw [hidx]
      decide
    · change Ok slice.stRpsSlice
      rw [hown]
      exact ok_blank

theorem safe_parseSliceSets : Safe Stored (parseSliceSets nalUnitType) := by
  have hset (g : SliceHeader → SliceHeader) : Leaves Stored (setSlice g) :=
    gives_modify fun o ho => ⟨ho.pps, ho.sps⟩
  have hread {α : Type} {p : P α} (hp : Keeps id p) : Leaves Stored p :=
    hp.gives Stored fun _ ho => ho
  have hid : Safe Stored (do
      let ppsId ← brUe8
      setSlice fun s => { s with slicePicParameterSetId := ppsId }
      if maxPps ≤ ppsId then throw .invalid
      access maxPps ppsId
      let pps := (← get).pps.getD ppsId {}
      if pps.valid = false then throw .invalid
      modify fun o => { o with activePpsId := ppsId }
      access maxSps pps.spsId
      let sps := (← get).sps.getD pps.spsId {}
      if sps.valid = false then throw .invalid
      modify fun o => { o with activeSpsId := pps.spsId }
      return (pps, sps) : P (Pps × Sps)) := by
    refine .bind (.of_plain plain_brUe8) (hread keeps_brUe8) fun ppsId => ?_
    refine .bind (.of_plain (plain_setSlice _)) (hset _) fun _ => .guard fun hlt => ?_
    refine .bind (.of_plain (plain_access (by omega))) (hread (keeps_access _ _)) fun _ => ?_
    refine .bind (.of_plain plain_get) gives_get fun o => ?_
    rintro o' br ⟨rfl, ho⟩
    have hbound := ho.pps_getD ppsId
    refine (Safe.guard fun _ => ?_ : Plain _) o br trivial
    refine (plain_modify _).after fun _ => (plain_access hbound).after fun _ =>
      plain_get.after fun _ => ?_
    exact .guard fun _ => (plain_modify _).after fun _ => plain_pure _
  unfold parseSliceSets
  refine .bind (.of_plain (plain_setSlice _)) (hset _) fun _ => ?_
  refine .bind (.of_plain (plain_brU8 1)) (hread (keeps_brU8 1)) fun first => ?_
  refine .bind (.of_plain (plain_setSlice _)) (hset _) fun _ => ?_
  refine .bind (Q := fun _ => Stored) (.of_plain (plain_modify _))
    (gives_modify fun o ho => ⟨ho.pps, ho.sps⟩)
    fun _ => .cond hid fun hid => ?_
  refine .bind (.of_plain (plain_brU8 1)) (hread (keeps_brU8 1)) fun noOutput => ?_
  exact .bind (.of_plain (plain_setSlice _)) (hset _) fun _ => hid

theorem plain_parseSegmentAddress : Plain (parseSegmentAddress pps sps) := by
  unfold parseSegmentAddress
  with_reducible repeat' first
    | assumption | refine Safe.after ?_ fun _ => ?_ | refine .cond ?_ fun _ => ?_ | simp

theorem keeps_ready_parseSegmentAddress : Keeps readyView (parseSegmentAddress pps sps) := by
  unfold parseSegmentAddress
  with_reducible repeat' first
    | assumption | exact keeps_ready_set fun _ => ⟨rfl, rfl, rfl⟩ | refine .bind ?_ fun _ => ?_
    | refine .cond ?_ fun _ => ?_ | simp

theorem plain_parseEntryPoints : Plain (parseEntryPoints pps sps) := by
  unfold parseEntryPoints
  with_reducible repeat' first
    | assumption | refine Safe.after ?_ fun _ => ?_ | refine .cond ?_ fun _ => ?_
    | refine .skip ?_ _ | simp

theorem plain_parseHeaderExtension : Plain (parseHeaderExtension pps) := by
  unfold parseHeaderExtension
  with_reducible repeat' first
    | assumption | refine Safe.after ?_ fun _ => ?_ | refine .cond ?_ fun _ => ?_
    | refine .skip ?_ _ | simp

theorem plain_alignLoop (turns : Nat) : Plain (alignLoop turns) := by
  induction turns with
  | zero => exact plain_pure ()
  | succ turns ih =>
    unfold alignLoop
    exact plain_brBitPos.after fun _ => .cond (plain_pure _) fun _ => plain_brU1.after fun _ => ih

theorem tells_parseSegment (h : SetsAre SetsOk sps) :
    Tells Ready (parseSegment nalUnitType pps sps) (do
      parseSegmentAddress pps sps
      if (← get).slice.dependentSliceSegmentFlag = 0 then independentCounts nalUnitType pps sps
      else return []) := by
  have htail : Plain (do
      parseEntryPoints pps sps
      parseHeaderExtension pps
      let _ ← brU1
      alignLoop 8
      let headerBits ← brBitPos
      setSlice fun s => { s with headerBitSize := u32 headerBits }) :=
    plain_parseEntryPoints.after fun _ => plain_parseHeaderExtension.after fun _ =>
      plain_brU1.after fun _ =>
      (plain_alignLoop 8).after fun _ => plain_brBitPos.after fun _ => plain_setSlice _
  unfold parseSegment
  refine .same (.of_plain plain_parseSegmentAddress)
    (leaves_ready keeps_ready_parseSegmentAddress) fun _ => ?_
  refine .same (R := fun _ => Ready) (.of_plain plain_get) (leaves_ready keeps_get) fun o => ?_
  refine .ite (fun _ => ?_) fun _ => .of_limits (.of_safe (.of_plain htail))
  exact .then (tells_parseIndependent h) fun _ => htail

/-- The indices of a slice header are in bounds if and only if its weight table is for at most 16
references of each list. -/
theorem tells_parseSliceHeader :
    Tells Stored (parseSliceHeader nalUnitType) (readCounts nalUnitType) := by
  rw [parseSliceHeader_eq]
  unfold readCounts
  refine .same safe_parseSliceSets gives_parseSliceSets fun sets => ?_
  rintro o br ⟨hsets, ho⟩
  exact tells_parseSegment hsets o br ho

end Slices

section Runs

variable {α : Type} {o : ParseResult} {br : BitReader} {s : Au}

/-- A parser of parameter sets stores what it has read behind the check of the reader. -/
theorem stored_of_fields {fields : P α} {Q : α → Prop} {store : α → ParseResult → ParseResult}
    (hkeeps : Keeps id fields) (hret : Returns fields Q)
    (hstore : ∀ a o, Q a → Stored o → Stored (store a o)) (h : Stored o) :
    Stored (exec (do
      let tmp ← fields
      checkFailed
      modify (store tmp)) o br).1.2 := by
  have hfields := hkeeps o br
  rw [exec_bind]
  cases hexec : exec fields o br with
  | mk r br₁ =>
    obtain ⟨res, o₁⟩ := r
    rw [hexec] at hfields
    obtain rfl : o₁ = o := hfields
    cases res with
    | error e => exact h
    | ok a =>
      have hcheck := (keeps_checkFailed : Keeps id (checkFailed : P Unit)) o₁ br₁
      dsimp only
      rw [exec_bind]
      cases hexec' : exec checkFailed o₁ br₁ with
      | mk r br₂ =>
        obtain ⟨res, o₂⟩ := r
        rw [hexec'] at hcheck
        obtain rfl : o₂ = o₁ := hcheck
        cases res with
        | error e => exact h
        | ok u => exact hstore a o₂ (hret o₂ br a o₂ br₁ trivial hexec) h

theorem stored_parseSps (h : Stored o) : Stored (exec parseSps o br).1.2 := by
  refine stored_of_fields keeps_parseSpsFields returns_parseSpsFields ?_ h
  intro tmp o htmp ho
  refine ⟨ho.pps, ?_⟩
  intro sps hsps
  rcases List.mem_or_eq_of_mem_set hsps with hsps | rfl
  · exact ho.sps sps hsps
  · exact htmp

theorem returns_parsePpsHead {ppsId spsId : Nat} (h : spsId < maxSps) :
    Returns (parsePpsHead ppsId spsId) (·.spsId < maxSps) := by
  have hid : u8 spsId < maxSps := lt_of_le_of_lt (Nat.mod_le _ _) h
  unfold parsePpsHead
  iterate 11 refine .after _ fun _ => ?_
  refine .branch fun _ => ?_
  iterate 8 refine .after _ fun _ => ?_
  exact returns_pure hid

theorem returns_parseTiles {tmp : Pps} (h : tmp.spsId < maxSps) :
    Returns (parseTiles tmp) (·.spsId < maxSps) := by
  unfold parseTiles
  refine .cond (fun _ => returns_pure h) fun _ => .after _ fun ncols => .after _ fun nrows =>
    .guard fun _ => ?_
  refine .after _ fun uniform => .cond (fun _ => .after _ fun _ => .after _ fun _ => ?_) fun _ => ?_
  · exact .after _ fun _ => returns_pure h
  · exact .after _ fun _ => returns_pure h

theorem returns_parsePpsDeblocking {tmp : Pps} (h : tmp.spsId < maxSps) :
    Returns (parsePpsDeblocking tmp) (·.spsId < maxSps) := by
  unfold parsePpsDeblocking
  refine .after _ fun control => .cond (fun _ => returns_pure h) fun _ => ?_
  refine .after _ fun _ => .after _ fun _ => .cond (fun _ => returns_pure h) fun _ => ?_
  exact .after _ fun _ => .after _ fun _ => returns_pure h

theorem returns_parsePpsFields : Returns parsePpsFields (·.spsId < maxSps) := by
  unfold parsePpsFields
  refine .after _ fun ppsId => .guard fun _ => .after _ fun spsId => .guard fun hid =>
    .after _ fun o => ?_
  refine .guard fun _ => (returns_parsePpsHead (not_le.mp hid)).bind fun tmp h => ?_
  refine (returns_parseTiles h).bind fun tmp h => .after _ fun _ => ?_
  refine Returns.bind (Q := (·.spsId < maxSps)) (returns_parsePpsDeblocking ?_) fun tmp h => ?_
  · exact h
  refine .after _ fun _ => .branch fun _ => .after _ fun _ => .after _ fun _ => .after _ fun _ => ?_
  exact returns_pure h

theorem stored_parsePps (h : Stored o) : Stored (exec parsePps o br).1.2 := by
  refine stored_of_fields keeps_parsePpsFields returns_parsePpsFields ?_ h
  intro tmp o htmp ho
  refine ⟨?_, ho.sps⟩
  intro pps hpps
  rcases List.mem_or_eq_of_mem_set hpps with hpps | rfl
  · exact ho.pps pps hpps
  · exact htmp

theorem stored_of_keeps {p : P α} (hp : Keeps (fun o => (o.sps, o.pps)) p) (h : Stored o) :
    Stored (exec p o br).1.2 := by
  obtain ⟨hsps, hpps⟩ := Prod.ext_iff.mp (hp o br)
  exact h.congr hsps hpps

theorem stored_parseVps (h : Stored o) : Stored (exec parseVps o br).1.2 :=
  stored_of_keeps (keeps_parseVps.comp fun o => (o.sps, o.pps)) h

theorem stored_parseSliceHeader {nalUnitType : Nat} (h : Stored o) :
    Stored (exec (parseSliceHeader nalUnitType) o br).1.2 :=
  stored_of_keeps ((keeps_parseSliceHeader nalUnitType).comp fun o => (o.sps, o.pps)) h

/-- The parameter sets are within the limits, and were so for every slice header. -/
structure Sound (s : Au) : Prop where
  now : Stored s.result.1
  slices : ∀ u ∈ s.units, u.kind = .slice → Stored u.before ∧ ∃ t, u.parser = parseSliceHeader t

theorem Sound.parse (h : Sound s) {u : UnitRun ParseResult} (hu : Stored u.outcome.1.2)
    (hslice : u.kind = .slice → Stored u.before ∧ ∃ t, u.parser = parseSliceHeader t) :
    Sound (s.parse u) where
  now := hu
  slices v hv := by
    rcases List.mem_append.mp hv with hv | hv
    · exact h.slices v hv
    · rw [List.mem_singleton] at hv
      exact hv ▸ hslice

theorem Sound.finishSlice (h : Sound s) (nalUnitType temporalIdP1 : Nat) (payload : List Byte)
    (headerBits : Nat) : Sound (finishSlice s nalUnitType temporalIdP1 payload headerBits) := by
  unfold H265.finishSlice
  dsimp only
  split
  · exact ⟨h.now.congr rfl rfl, h.slices⟩
  · exact ⟨h.now.congr rfl rfl, h.slices⟩

theorem Sound.visit (h : Sound s) (rbsp : List Byte) : Sound (visit s rbsp) := by
  unfold H265.visit
  dsimp only
  split_ifs
  · exact h.parse (stored_parseVps h.now) fun hk => by cases hk
  · exact h.parse (stored_parseSps h.now) fun hk => by cases hk
  · exact h.parse (stored_parsePps h.now) fun hk => by cases hk
  · exact h.parse (stored_parseSliceHeader h.now) fun _ => ⟨h.now, _, rfl⟩
  · refine Sound.finishSlice ?_ _ _ _ _
    exact h.parse (stored_parseSliceHeader h.now) fun _ => ⟨h.now, _, rfl⟩
  · exact h

theorem auUnits_sound (buf : List Byte) (scratchSize : Nat) (h : Stored o) :
    Sound (auUnits buf scratchSize o) :=
  auLoop_rule (P := Sound) (fun _ rbsp _ hs => hs.visit rbsp)
    (fun _ _ hs => ⟨hs.now, hs.slices⟩) _ _ _ rfl
    ⟨h.congr rfl rfl, by simp⟩

theorem stored_parseAccessUnit (buf : List Byte) (scratchSize : Nat) (h : Stored o) :
    Stored (parseAccessUnit buf scratchSize o).2 := by
  have hunits := auUnits_sound buf scratchSize h
  unfold parseAccessUnit
  dsimp only
  split
  · exact hunits.now
  · split_ifs
    · exact hunits.now
    · exact hunits.now
    · exact hunits.now.congr rfl rfl

/-- The units parsed in a run of access units, each given with the size of its scratch buffer. -/
def parseRun : List (List Byte × Nat) → ParseResult → List (UnitRun ParseResult)
  | [], _ => []
  | (buf, scratchSize) :: rest, out =>
    (auUnits buf scratchSize out).units ++ parseRun rest (parseAccessUnit buf scratchSize out).2

theorem parseRun_slices (aus : List (List Byte × Nat)) (h : Stored o) {u : UnitRun ParseResult}
    (hu : u ∈ parseRun aus o) (hslice : u.kind = .slice) :
    Stored u.before ∧ ∃ t, u.parser = parseSliceHeader t := by
  induction aus generalizing o with
  | nil => simp [parseRun] at hu
  | cons au rest ih =>
    rcases List.mem_append.mp hu with hu | hu
    · exact (auUnits_sound _ _ h).slices u hu hslice
    · exact ih (stored_parseAccessUnit _ _ h) hu

/-- In every run of access units the indices a slice header is parsed with are in bounds if and only
if the weight table it has, if any, is for at most 16 references of each list. -/
theorem slice_indices_in_bounds_iff (aus : List (List Byte × Nat)) (u : UnitRun ParseResult)
    (hu : u ∈ parseRun aus {}) (hslice : u.kind = .slice) :
    ∃ nalUnitType, u.parser = parseSliceHeader nalUnitType ∧
      (InBounds u.parser u.before u.reader ↔
        ∀ counts s br, exec (readCounts nalUnitType) u.before u.reader = ((.ok counts, s), br) →
          ∀ n ∈ counts, n ≤ 16) := by
  obtain ⟨hstored, t, ht⟩ := parseRun_slices aus stored_init hu hslice
  refine ⟨t, ht, ?_⟩
  rw [ht]
  exact tells_parseSliceHeader u.before u.reader hstored

/-- An SPS with one reference picture set, a PPS with weighted prediction and the default `l0` for
the references of list 0, and a P slice. -/
abbrev weightedAu (pps slice : List Byte) : List Byte :=
  framed [[0x42, 0x01, 0x01, 0x01, 0xff, 0xff, 0xff, 0xff, 0xff, 0xff, 0xff, 0xff, 0xff, 0xff, 0x1e,
    0xa0, 0x88, 0x45, 0xff, 0xf0, 0x4b, 0x82], pps, slice]

abbrev oneReference : List (UnitRun ParseResult) :=
  parseRun [(weightedAu [0x44, 0x01, 0xc0, 0x71, 0xa0, 0x12] [0x02, 0x01, 0xd0, 0xd9, 0xc0], 64)] {}

abbrev seventeenReferences : List (UnitRun ParseResult) :=
  parseRun [(weightedAu [0x44, 0x01, 0xc0, 0x04, 0x71, 0xa0, 0x12]
    [0x02, 0x01, 0xd0, 0xd8, 0x00, 0x00, 0x03, 0x00, 0x01, 0xc0], 64)] {}

theorem oneReference_units : oneReference.length = 3 := by decide +kernel

theorem seventeenReferences_units : seventeenReferences.length = 3 := by decide +kernel

abbrev oneSlice : UnitRun ParseResult := oneReference.get ⟨2, by rw [oneReference_units]; decide⟩

abbrev seventeenSlice : UnitRun ParseResult :=
  seventeenReferences.get ⟨2, by rw [seventeenReferences_units]; decide⟩

theorem one_reference_in_bounds : (∃ nalUnitType, oneSlice.parser = parseSliceHeader nalUnitType ∧
    (InBounds oneSlice.parser oneSlice.before oneSlice.reader ↔
      ∀ counts s br, exec (readCounts nalUnitType) oneSlice.before oneSlice.reader =
        ((.ok counts, s), br) → ∀ n ∈ counts, n ≤ 16)) ∧
    InBounds oneSlice.parser oneSlice.before oneSlice.reader :=
  ⟨slice_indices_in_bounds_iff _ _ (List.get_mem _ _) (by decide +kernel), by decide +kernel⟩

/-- The PPS has 17 references in list 0 by default. The slice header is accepted, and its weight
flags are written past the end of their array. -/
theorem weights_out_of_bounds : seventeenSlice ∈ seventeenReferences ∧
    seventeenSlice.kind = .slice ∧
    seventeenSlice.outcome.1.1.isOk = true ∧
    ¬InBounds seventeenSlice.parser seventeenSlice.before seventeenSlice.reader :=
  ⟨List.get_mem _ _, by decide +kernel, by decide +kernel, by decide +kernel⟩

end Runs

end Rkvdec.Bitstream.H265
