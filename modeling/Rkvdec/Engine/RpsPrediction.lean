import Rkvdec.Bitstream.Segments
import Rkvdec.Engine.RpsTable

/-! The short-term reference picture sets that the syntax elements of an SPS or a slice header give,
and what `parse_st_rps` makes of them. -/
namespace Rkvdec.Engine.Rps

open Bitstream (BitReader Parser ParseError exec exec_bind exec_bind_ok i16 i32
  i32_add_i32 i32_i32_add i32_mul_i32 u8 u32 flag access brU brU1 brUe)

attribute [local simp] i32_add_i32 i32_i32_add i32_mul_i32

open Bitstream.H265
  (P ParseResult ShortTermRps Sps Pps maxRefs maxShortTermRps brU8 parseSps parseSpsFields)

section Meaning

/-- A set with its POC deltas and used flags: the pictures before in decreasing order, and those
after in increasing order. -/
structure RefPicSet where
  s0 : List (Int × Nat)
  s1 : List (Int × Nat)
deriving DecidableEq

def RefPicSet.numDeltaPocs (set : RefPicSet) : Nat := set.s0.length + set.s1.length

/-- The syntax elements of `short_term_ref_pic_set`; the flags are `used_by_curr_pic_flag[j]` and
`use_delta_flag[j]`. -/
inductive Coded where
  | predicted (deltaIdxMinus1 deltaRpsSign absDeltaRpsMinus1 : Nat) (flags : List (Nat × Bool))
  | explicit (s0 s1 : List (Nat × Nat))

/-- The pictures that a prediction may take, from the last one to the first, with their flags. The
picture of the reference set itself has the delta 0. -/
def RefPicSet.candidates (ref : RefPicSet) (flags : List (Nat × Bool)) : List (Int × Nat × Bool) :=
  (List.range ref.s1.length).reverse.map
      (fun j => ((ref.s1.getD j (0, 0)).1, flags.getD (ref.s0.length + j) (0, false))) ++
    [(0, flags.getD ref.numDeltaPocs (0, false))] ++
    (List.range ref.s0.length).map fun j => ((ref.s0.getD j (0, 0)).1, flags.getD j (0, false))

/-- A candidate moved by `deltaRps`, when it is used and on the side to keep. -/
def moved (deltaRps : Int) (keep : Int → Bool) (c : Int × Nat × Bool) : Option (Int × Nat) :=
  if keep (c.1 + deltaRps) && c.2.2 then some (c.1 + deltaRps, c.2.1) else none

def RefPicSet.predict (ref : RefPicSet) (deltaRps : Int) (flags : List (Nat × Bool)) :
    RefPicSet where
  s0 := (ref.candidates flags).filterMap (moved deltaRps fun d => d < 0)
  s1 := (ref.candidates flags).reverse.filterMap (moved deltaRps fun d => 0 < d)

/-- Coded differences added up; `sign` is the direction in which they leave `prev`. -/
def accumulate (sign : Int) : Int → List (Nat × Nat) → List (Int × Nat)
  | _, [] => []
  | prev, (deltaMinus1, used) :: rest =>
    (prev + sign * (deltaMinus1 + 1), used) :: accumulate sign
      (prev + sign * (deltaMinus1 + 1)) rest

/-- The set that the elements of set `idx` give, when `table` are the sets before it. -/
def Coded.derive (table : List RefPicSet) (idx : Nat) : Coded → RefPicSet
  | .predicted deltaIdxMinus1 deltaRpsSign absDeltaRpsMinus1 flags =>
    (table.getD (idx - (deltaIdxMinus1 + 1)) ⟨[], []⟩).predict
      ((1 - 2 * deltaRpsSign) * (absDeltaRpsMinus1 + 1)) flags
  | .explicit s0 s1 => ⟨accumulate (-1) 0 s0, accumulate 1 0 s1⟩

/-- Below 0 and decreasing, above 0 and increasing. -/
structure Canonical (set : RefPicSet) : Prop where
  below : ∀ e ∈ set.s0, e.1 < 0
  above : ∀ e ∈ set.s1, 0 < e.1
  decreasing : set.s0.Pairwise fun e e' => e'.1 < e.1
  increasing : set.s1.Pairwise fun e e' => e.1 < e'.1

def Fits16 (d : Int) : Prop := -2 ^ 15 ≤ d ∧ d < 2 ^ 15

instance (d : Int) : Decidable (Fits16 d) := inferInstanceAs (Decidable (_ ∧ _))

def RefPicSet.Fits (set : RefPicSet) : Prop := ∀ e ∈ set.s0 ++ set.s1, Fits16 e.1

instance (set : RefPicSet) : Decidable set.Fits := inferInstanceAs (Decidable (∀ _ ∈ _, _))

/-- What a stored set says, by its two counts. -/
def meaning (rps : ShortTermRps) : RefPicSet where
  s0 := (List.range rps.numNegativePics).map fun j =>
    (rps.deltaPoc.getD j 0, rps.usedByCurrPicFlag.getD j 0)
  s1 := (List.range rps.numPositivePics).map fun j =>
    (rps.deltaPoc.getD (rps.numNegativePics + j) 0,
      rps.usedByCurrPicFlag.getD (rps.numNegativePics + j) 0)

/-- The stored set is the set. -/
structure Holds (rps : ShortTermRps) (set : RefPicSet) : Prop where
  meaning : meaning rps = set
  count : rps.numDeltaPocs = set.numDeltaPocs

end Meaning

section Syntax

def readFlags : Nat → P (List (Nat × Bool))
  | 0 => pure []
  | n + 1 => do
    let used ← brU8 1
    let useDelta ← if used = 0 then flag else pure true
    return (used, useDelta) :: (← readFlags n)

def readDeltas : Nat → P (List (Nat × Nat))
  | 0 => pure []
  | n + 1 => do
    let deltaMinus1 ← brUe
    let used ← brU8 1
    return (deltaMinus1, used) :: (← readDeltas n)

def readPredicted (table : List RefPicSet) (idx num : Nat) : P Coded := do
  let deltaIdxMinus1 ← if idx = num then brUe else pure 0
  let deltaRpsSign ← brU1
  let absDeltaRpsMinus1 ← brUe
  let ref := table.getD (idx - (deltaIdxMinus1 + 1)) ⟨[], []⟩
  let flags ← readFlags (ref.numDeltaPocs + 1)
  return .predicted deltaIdxMinus1 deltaRpsSign absDeltaRpsMinus1 flags

def readExplicit : P Coded := do
  let numNegativePics ← brUe
  let numPositivePics ← brUe
  let s0 ← readDeltas numNegativePics
  let s1 ← readDeltas numPositivePics
  return .explicit s0 s1

/-- `short_term_ref_pic_set(idx)`; a set with the index `num` is that of a slice header. -/
def readCoded (table : List RefPicSet) (idx num : Nat) : P Coded := do
  let inter ← if idx ≠ 0 then brU1 else pure 0
  if inter ≠ 0 then readPredicted table idx num
  else readExplicit

def readSet (table : List RefPicSet) (idx num : Nat) : P RefPicSet := do
  let coded ← readCoded table idx num
  return coded.derive table idx

/-- `n` more sets of an SPS with `num` sets. -/
def readSets (num : Nat) : Nat → List RefPicSet → P (List RefPicSet)
  | 0, table => pure table
  | n + 1, table => do
    let set ← readSet table table.length num
    readSets num n (table ++ [set])

end Syntax

section Agreement

variable {σ α β γ δ : Type} {p : Parser σ α} {q : Parser σ β} {M : α → β → Prop}

/-- A parser that only reads and never gives up. -/
def Reader (p : Parser σ α) : Prop := ∀ br, ∃ a br', ∀ s, exec p s br = ((.ok a, s), br')

theorem Reader.bind {f : α → Parser σ β} (hp : Reader p) (hf : ∀ a, Reader (f a)) :
    Reader (p >>= f) := by
  intro br
  obtain ⟨a, br₁, hfirst⟩ := hp br
  obtain ⟨b, br₂, hrest⟩ := hf a br₁
  refine ⟨b, br₂, ?_⟩
  intro s
  rw [exec_bind, hfirst s]
  exact hrest s

theorem Reader.cond {c : Prop} [Decidable c] {p q : Parser σ α} (hp : Reader p) (hq : Reader q) :
    Reader (if c then p else q) := by
  split
  · exact hp
  · exact hq

theorem reader_pure (a : α) : Reader (pure a : Parser σ α) := fun br => ⟨a, br, fun _ => rfl⟩

theorem reader_ask (op : Bitstream.ReadOp) : Reader (Bitstream.ask op : Parser σ op.Ans) :=
  fun br => ⟨(op.handle br).1, (op.handle br).2, fun _ => rfl⟩

theorem reader_brU (n : Nat) : Reader (brU n : Parser σ Nat) := reader_ask (.u n)
theorem reader_brU1 : Reader (brU1 : Parser σ Nat) := reader_ask (.u 1)
theorem reader_brUe : Reader (brUe : Parser σ Nat) := reader_ask .ue

theorem reader_brU8 (n : Nat) : Reader (brU8 n) := (reader_brU n).bind fun _ => reader_pure _

theorem reader_flag : Reader (flag : Parser σ Bool) := reader_brU1.bind fun _ => reader_pure _

/-- Whenever `p` returns, `q` returns behind the same bits with something that `M` relates to it.
`q` only reads. -/
def Agrees (p : Parser σ α) (q : Parser σ β) (M : α → β → Prop) : Prop :=
  ∀ s br a s' br', exec p s br = ((.ok a, s'), br') →
    ∃ b, (∀ s₀, exec q s₀ br = ((.ok b, s₀), br')) ∧ M a b

theorem agrees_pure {a : α} {b : β} (h : M a b) : Agrees (pure a : Parser σ α) (pure b) M := by
  intro s br a' s' br' hexec
  cases hexec
  exact ⟨b, fun _ => rfl, h⟩

theorem Agrees.bind {f : α → Parser σ γ} {g : β → Parser σ δ} {N : γ → δ → Prop} (hp : Agrees p q M)
    (hf : ∀ a b, M a b → Agrees (f a) (g b) N) : Agrees (p >>= f) (q >>= g) N := by
  intro s br c s' br' hexec
  obtain ⟨a, s₁, br₁, hfirst, hrest⟩ := exec_bind_ok hexec
  obtain ⟨b, hq, hab⟩ := hp s br a s₁ br₁ hfirst
  obtain ⟨d, hg, hcd⟩ := hf a b hab s₁ br₁ c s' br' hrest
  refine ⟨d, ?_, hcd⟩
  intro s₀
  rw [exec_bind, hq s₀]
  exact hg s₀

/-- What `p` computes without reading. -/
theorem Agrees.value {f : α → Parser σ γ} {N : γ → β → Prop} {a : α}
    (hp : ∀ s br, ∃ s', exec p s br = ((.ok a, s'), br)) (hf : Agrees (f a) q N) :
    Agrees (p >>= f) q N := by
  intro s br c s' br' hexec
  obtain ⟨s₁, hfirst⟩ := hp s br
  rw [exec_bind, hfirst] at hexec
  exact hf s₁ br c s' br' hexec

theorem Agrees.cond {c : Prop} [Decidable c] {p₁ p₂ : Parser σ α} {q₁ q₂ : Parser σ β}
    (h₁ : c → Agrees p₁ q₁ M) (h₂ : ¬c → Agrees p₂ q₂ M) :
    Agrees (if c then p₁ else p₂) (if c then q₁ else q₂) M := by
  split
  · rename_i hc
    exact h₁ hc
  · rename_i hc
    exact h₂ hc

theorem Agrees.map {g : β → δ} {N : α → δ → Prop} (hp : Agrees p q M)
    (h : ∀ a b, M a b → N a (g b)) :
    Agrees p (q >>= fun b => pure (g b)) N := by
  intro s br a s' br' hexec
  obtain ⟨b, hq, hab⟩ := hp s br a s' br' hexec
  refine ⟨g b, ?_, h a b hab⟩
  intro s₀
  rw [exec_bind, hq s₀]
  rfl

/-- Both read the same first, which has the property. -/
theorem Agrees.readWith {Q : α → Prop} {f : α → Parser σ γ} {g : α → Parser σ δ} {N : γ → δ → Prop}
    (hp : Reader p) (hQ : Returns p Q) (hf : ∀ a, Q a → Agrees (f a) (g a) N) :
    Agrees (p >>= f) (p >>= g) N := by
  refine Agrees.bind (M := fun a b => a = b ∧ Q a) ?_ fun a b hab => hab.1 ▸ hf a hab.2
  intro s br a s' br' hexec
  have hQa := hQ s br a s' br' trivial hexec
  obtain ⟨a₀, br₀, hread⟩ := hp br
  rw [hread s] at hexec
  cases hexec
  exact ⟨a, hread, rfl, hQa⟩

/-- Both read the same first. -/
theorem Agrees.read {f : α → Parser σ γ} {g : α → Parser σ δ} {N : γ → δ → Prop} (hp : Reader p)
    (hf : ∀ a, Agrees (f a) (g a) N) : Agrees (p >>= f) (p >>= g) N := by
  refine Agrees.readWith hp (Q := fun _ => True) ?_ fun a _ => hf a
  exact fun _ _ _ _ _ _ _ => trivial

/-- What both read first in one case only. -/
theorem Agrees.branch {c : Prop} [Decidable c] {p p' : Parser σ α} {Q : α → Prop}
    {f : α → Parser σ γ} {g : α → Parser σ δ} {N : γ → δ → Prop} (hp : Reader p) (hp' : Reader p')
    (hQ : Returns p Q) (hQ' : Returns p' Q) (hf : ∀ a, Q a → Agrees (f a) (g a) N) :
    Agrees (if c then p >>= f else p' >>= f) (if c then p >>= g else p' >>= g) N :=
  .cond (fun _ => .readWith hp hQ hf) fun _ => .readWith hp' hQ' hf

theorem Agrees.guard {c : Prop} [Decidable c] {e : ParseError} {f : PUnit → Parser σ α}
    (hf : ¬c → Agrees (f PUnit.unit) q M) :
    Agrees (if c then throw e >>= f else f PUnit.unit) q M := by
  split
  · intro s br a s' br' hexec
    rw [exec_bind] at hexec
    cases hexec
  · rename_i hc
    exact hf hc

theorem Agrees.access {f : PUnit → Parser σ α} {size i : Nat} (hf : Agrees (f PUnit.unit) q M) :
    Agrees (access size i >>= f) q M := .value (fun s _ => ⟨s, rfl⟩) hf

theorem ue_lt (br : BitReader) : br.ue.1 + 1 < 2 ^ 32 := by
  unfold BitReader.ue
  dsimp only
  generalize BitReader.countZeros (br.bits - br.bitPos) br = zeros
  split_ifs with hend hmany
  · exact (by decide : 0 + 1 < 2 ^ 32)
  · exact (by decide : 0 + 1 < 2 ^ 32)
  · have hsuffix := Bitstream.H265.uLoop_lt zeros.1 0 zeros.2
    have hle : 2 ^ zeros.1 ≤ 2 ^ 31 := Nat.pow_le_pow_right (by decide) (by omega)
    have hmod := Nat.mod_le (2 ^ zeros.1 - 1 + (zeros.2.u zeros.1).1) (2 ^ 32)
    unfold BitReader.u at *
    omega

theorem returns_brUe : Returns (brUe : Parser σ Nat) (· + 1 < 2 ^ 32) := by
  intro s br a s' br' _ hexec
  cases hexec
  exact ue_lt br

theorem Agrees.accessIf {c : Prop} [Decidable c] {f : PUnit → Parser σ α} {size i : Nat}
    (hf : Agrees (f PUnit.unit) q M) :
    Agrees (if c then Bitstream.access size i >>= f else f PUnit.unit) q M := by
  split
  · exact hf.access
  · exact hf

end Agreement

section Narrowing

variable {d x y : Int}

theorem i16_eq (h : Fits16 d) : i16 d = d := by
  obtain ⟨hlow, hhigh⟩ := h
  exact Int.bmod_eq_of_le_mul_two (by omega) (by omega)

theorem i32_eq (h : Fits16 d) : i32 d = d := by
  obtain ⟨hlow, hhigh⟩ := h
  exact Int.bmod_eq_of_le_mul_two (by omega) (by omega)

theorem i16_i32 (d : Int) : i16 (i32 d) = i16 d :=
  Int.bmod_bmod_of_dvd (by decide)

@[simp] theorem i32_u32 (n : Nat) : i32 (u32 n) = i32 n := by
  unfold i32 u32
  rw [Int.natCast_emod]
  exact Int.emod_bmod n (2 ^ 32)

end Narrowing

section Predicted

variable {ref : ShortTermRps} {set : RefPicSet} {flags : List (Nat × Bool)} {deltaRps codeRps : Int}
  {keep : Int → Bool}

/-- What the code makes of entry `i` of the reference set. -/
def predictEntry (ref : ShortTermRps) (flags : List (Nat × Bool)) (deltaRps : Int)
    (keep : Int → Bool) (i : Nat) : Option (Int × Nat) :=
  if keep (i32 (ref.deltaPoc.getD i 0 + deltaRps)) && (flags.getD i (0, false)).2 then
    some (i16 (i32 (ref.deltaPoc.getD i 0 + deltaRps)), (flags.getD i (0, false)).1)
  else none

theorem exec_predictFrom (l : List Nat) (s : ParseResult) (br : BitReader) :
    exec (Bitstream.H265.predictFrom ref flags deltaRps keep l) s br =
      ((.ok (l.filterMap (predictEntry ref flags deltaRps keep)), s), br) := by
  induction l with
  | nil => rfl
  | cons i l ih =>
    unfold Bitstream.H265.predictFrom
    simp only [exec_bind, Bitstream.exec_access, ih, Bitstream.exec_pure, List.filterMap_cons,
      predictEntry]
    split <;> rfl

/-- A used candidate goes to one of the two sides, or its delta is 0. -/
theorem fits_candidate {c : Int × Nat × Bool} (hfits : (set.predict deltaRps flags).Fits)
    (hc : c ∈ set.candidates flags) (hused : c.2.2 = true) : Fits16 (c.1 + deltaRps) := by
  rcases lt_trichotomy (c.1 + deltaRps) 0 with hneg | hzero | hpos
  · refine hfits (c.1 + deltaRps, c.2.1) (List.mem_append_left _ ?_)
    exact List.mem_filterMap.mpr ⟨c, hc, by simp [moved, hneg, hused]⟩
  · rw [hzero]
    exact ⟨by decide, by decide⟩
  · refine hfits (c.1 + deltaRps, c.2.1) (List.mem_append_right _ ?_)
    exact List.mem_filterMap.mpr ⟨c, List.mem_reverse.mpr hc, by simp [moved, hpos, hused]⟩

theorem predictEntry_eq {i : Nat} {d : Int} (hd : ref.deltaPoc.getD i 0 = d)
    (hrps : i32 codeRps = i32 deltaRps)
    (hfits : (flags.getD i (0, false)).2 = true → Fits16 (d + deltaRps)) :
    predictEntry ref flags codeRps keep i = moved deltaRps keep (d, flags.getD i (0, false)) := by
  unfold predictEntry moved
  cases hused : (flags.getD i (0, false)).2 with
  | false => simp
  | true =>
    have hmove : i32 (d + codeRps) = d + deltaRps := by
      rw [← i32_add_i32, hrps, i32_add_i32]
      exact i32_eq (hfits hused)
    rw [hd, hmove, i16_eq (hfits hused)]

theorem predictPivot_eq {n : Nat} (hrps : codeRps = i32 deltaRps)
    (hfits : (flags.getD n (0, false)).2 = true → Fits16 deltaRps) :
    Bitstream.H265.predictPivot flags n codeRps keep =
      [((0 : Int), flags.getD n (0, false))].filterMap (moved deltaRps keep) := by
  unfold Bitstream.H265.predictPivot
  generalize flags.getD n (0, false) = f at hfits ⊢
  obtain ⟨used, useDelta⟩ := f
  cases useDelta with
  | false => simp [moved]
  | true =>
    have hcode : codeRps = deltaRps := hrps.trans (i32_eq (hfits rfl))
    rw [hcode]
    cases hkeep : keep deltaRps with
    | false => simp [moved, hkeep]
    | true => simp [moved, hkeep, i16_eq (hfits rfl)]

theorem s0_getD {j : Nat} (hj : j < ref.numNegativePics) :
    ((meaning ref).s0.getD j (0, 0)).1 = ref.deltaPoc.getD j 0 := by
  simp [meaning, List.getD_eq_getElem?_getD, hj]

theorem s1_getD {j : Nat} (hj : j < ref.numPositivePics) :
    ((meaning ref).s1.getD j (0, 0)).1 = ref.deltaPoc.getD (ref.numNegativePics + j) 0 := by
  simp [meaning, List.getD_eq_getElem?_getD, hj]

@[simp] theorem length_s0 (rps : ShortTermRps) : (meaning rps).s0.length = rps.numNegativePics := by
  simp [meaning]

@[simp] theorem length_s1 (rps : ShortTermRps) : (meaning rps).s1.length = rps.numPositivePics := by
  simp [meaning]

/-- The two sides as the code builds them. -/
theorem predict_sides (hset : Holds ref set) (hrps : codeRps = i32 deltaRps)
    (hfits : (set.predict deltaRps flags).Fits) (keep : Int → Bool) :
    (List.range ref.numNegativePics).filterMap (predictEntry ref flags codeRps keep) =
        ((List.range set.s0.length).map fun j =>
        ((set.s0.getD j (0, 0)).1, flags.getD j (0, false))).filterMap
          (moved deltaRps keep) ∧
      Bitstream.H265.predictPivot flags ref.numDeltaPocs codeRps keep =
        [((0 : Int), flags.getD set.numDeltaPocs (0, false))].filterMap (moved deltaRps keep) ∧
      ((List.range ref.numPositivePics).map (ref.numNegativePics + ·)).filterMap
          (predictEntry ref flags codeRps keep) =
        ((List.range set.s1.length).map fun j =>
          ((set.s1.getD j (0, 0)).1, flags.getD (set.s0.length + j) (0, false))).filterMap
          (moved deltaRps keep) := by
  have hfit := fun c hc hused => fits_candidate (c := c) hfits hc hused
  have hcode : i32 codeRps = i32 deltaRps := by
    have hzero := i32_add_i32 0 deltaRps
    rw [zero_add, zero_add] at hzero
    rw [hrps, hzero]
  obtain ⟨rfl, hcount⟩ := hset
  refine ⟨?_, ?_, ?_⟩
  · rw [List.filterMap_map, length_s0]
    refine List.filterMap_congr ?_
    intro j hj
    refine predictEntry_eq (s0_getD (List.mem_range.mp hj)).symm hcode fun hused =>
      hfit (((meaning ref).s0.getD j (0, 0)).1, flags.getD j (0, false)) ?_ hused
    refine List.mem_append_right _ (List.mem_map.mpr ⟨j, ?_, rfl⟩)
    simpa using hj
  · rw [hcount]
    refine predictPivot_eq hrps fun hused => ?_
    have hpivot :=
      hfit (0, flags.getD (meaning ref).numDeltaPocs (0, false)) (by simp [RefPicSet.candidates])
      hused
    simpa using hpivot
  · rw [List.filterMap_map, List.filterMap_map, length_s0, length_s1]
    refine List.filterMap_congr ?_
    intro j hj
    refine predictEntry_eq (s1_getD (List.mem_range.mp hj)).symm hcode fun hused =>
      hfit (((meaning ref).s1.getD j (0, 0)).1, flags.getD (ref.numNegativePics + j) (0, false)) ?_
        hused
    refine List.mem_append_left
      _ (List.mem_append_left _ (List.mem_map.mpr ⟨j, ?_, by rw [length_s0]⟩))
    simpa using hj

/-- The two lists of the code are those of the prediction. -/
theorem predict_eq (hset : Holds ref set) (hrps : codeRps = i32 deltaRps)
    (hfits : (set.predict deltaRps flags).Fits) :
    ((List.range ref.numPositivePics).map (ref.numNegativePics + ·)).reverse.filterMap
          (predictEntry ref flags codeRps fun d => d < 0) ++
          Bitstream.H265.predictPivot flags ref.numDeltaPocs codeRps (fun d => d < 0) ++
        (List.range ref.numNegativePics).filterMap (predictEntry ref flags codeRps fun d => d < 0) =
      (set.predict deltaRps flags).s0 ∧
    (List.range ref.numNegativePics).reverse.filterMap
      (predictEntry ref flags codeRps fun d => 0 < d) ++
          Bitstream.H265.predictPivot flags ref.numDeltaPocs codeRps (fun d => 0 < d) ++
        ((List.range ref.numPositivePics).map (ref.numNegativePics + ·)).filterMap
          (predictEntry ref flags codeRps fun d => 0 < d) =
      (set.predict deltaRps flags).s1 := by
  obtain ⟨hneg, hpivot, hpos⟩ := predict_sides hset hrps hfits fun d => d < 0
  obtain ⟨hneg', hpivot', hpos'⟩ := predict_sides hset hrps hfits fun d => 0 < d
  rw [List.filterMap_reverse, List.filterMap_reverse, hneg, hpivot, hpos, hneg', hpivot', hpos']
  constructor
  · simp only [RefPicSet.predict, RefPicSet.candidates, List.filterMap_append, List.map_reverse,
      List.filterMap_reverse]
  · simp only [RefPicSet.predict, RefPicSet.candidates, List.reverse_append, List.map_reverse,
      List.reverse_reverse, List.filterMap_append, List.reverse_singleton, List.filterMap_reverse,
      List.append_assoc]

/-- The set with the entries in its first places. -/
theorem meaning_entries {neg pos : List (Int × Nat)} {rest : List Int} {rest' : List Nat}
    {rps : ShortTermRps} (hneg : rps.numNegativePics = neg.length)
    (hpos : rps.numPositivePics = pos.length)
    (hpoc : rps.deltaPoc = (neg ++ pos).map Prod.fst ++ rest)
    (hused : rps.usedByCurrPicFlag = (neg ++ pos).map Prod.snd ++ rest') :
    meaning rps = ⟨neg, pos⟩ := by
  simp only [meaning, hneg, hpos, hpoc, hused, RefPicSet.mk.injEq]
  constructor
  · refine List.ext_getElem (by simp) ?_
    intro j hj hj'
    simp [List.getD_eq_getElem?_getD, List.getElem?_append, hj']
  · refine List.ext_getElem (by simp) ?_
    intro j hj hj'
    simp [List.getD_eq_getElem?_getD, List.getElem?_append, hj']

theorem holds_entries {neg pos : List (Int × Nat)} (hneg : neg = set.s0) (hpos : pos = set.s1)
    (hfew : ¬maxRefs < (neg ++ pos).length) (out : ShortTermRps) :
    Holds { out with
      numNegativePics := u8 neg.length
      numPositivePics := u8 pos.length
      numDeltaPocs := u8 (neg ++ pos).length
      deltaPoc := (neg ++ pos).map Prod.fst ++ out.deltaPoc.drop (neg ++ pos).length
      usedByCurrPicFlag := (neg ++ pos).map Prod.snd ++ out.usedByCurrPicFlag.drop
        (neg ++ pos).length } set := by
  have hlen : (neg ++ pos).length = neg.length + pos.length := List.length_append
  rw [hlen] at hfew
  unfold maxRefs at hfew
  refine ⟨?_, ?_⟩
  · refine (meaning_entries ?_ ?_ rfl rfl).trans (by rw [hneg, hpos])
    · exact Nat.mod_eq_of_lt (by omega)
    · exact Nat.mod_eq_of_lt (by omega)
  · rw [RefPicSet.numDeltaPocs, ← hneg, ← hpos, ← hlen]
    exact Nat.mod_eq_of_lt (by omega)

/-- The prediction flags are read alike. -/
theorem agrees_flags (n j : Nat) :
    Agrees (Bitstream.H265.parsePredictionFlags n j) (readFlags n) Eq := by
  induction n generalizing j with
  | zero => exact agrees_pure rfl
  | succ n ih =>
    unfold Bitstream.H265.parsePredictionFlags readFlags
    refine .access (.read (reader_brU8 1) fun used => ?_)
    refine .cond (fun _ => .read reader_flag fun useDelta => ?_) fun _ =>
      .read (reader_pure true) fun useDelta => ?_
    · exact (ih (j + 1)).bind fun rest rest' hrest => agrees_pure (hrest ▸ rfl)
    · exact (ih (j + 1)).bind fun rest rest' hrest => agrees_pure (hrest ▸ rfl)

end Predicted

section Order

variable {table : List RefPicSet} {set : RefPicSet} {num idx : Nat}

theorem accumulate_below (prev : Int) (l : List (Nat × Nat)) :
    (∀ e ∈ accumulate (-1) prev l, e.1 < prev) ∧ (accumulate (-1) prev l).Pairwise fun e e' =>
    e'.1 < e.1 := by
  induction l generalizing prev with
  | nil => exact ⟨nofun, .nil⟩
  | cons e l ih =>
    obtain ⟨hbelow, hdecreasing⟩ := ih (prev + -1 * (e.1 + 1))
    refine ⟨?_, List.pairwise_cons.mpr ⟨hbelow, hdecreasing⟩⟩
    intro e' he'
    rcases List.mem_cons.mp he' with rfl | he'
    · dsimp only
      omega
    · have hlt := hbelow e' he'
      omega

theorem accumulate_above (prev : Int) (l : List (Nat × Nat)) :
    (∀ e ∈ accumulate 1 prev l, prev < e.1) ∧ (accumulate 1 prev l).Pairwise fun e e' =>
    e.1 < e'.1 := by
  induction l generalizing prev with
  | nil => exact ⟨nofun, .nil⟩
  | cons e l ih =>
    obtain ⟨habove, hincreasing⟩ := ih (prev + 1 * (e.1 + 1))
    refine ⟨?_, List.pairwise_cons.mpr ⟨habove, hincreasing⟩⟩
    intro e' he'
    rcases List.mem_cons.mp he' with rfl | he'
    · dsimp only
      omega
    · have hlt := habove e' he'
      omega

/-- The candidates of a set in order count down. -/
theorem candidates_decreasing (h : Canonical set) (flags : List (Nat × Bool)) :
    (set.candidates flags).Pairwise fun c c' => c'.1 < c.1 := by
  have hfirsts (l : List (Int × Nat)) :
      (List.range l.length).map (fun j => (l.getD j (0, 0)).1) = l.map Prod.fst := by
    refine List.ext_getElem (by simp) ?_
    intro j hj hj'
    simp [List.getD_eq_getElem?_getD, (by simpa using hj : j < l.length)]
  have hdeltas : (set.candidates flags).map Prod.fst =
      (set.s1.map Prod.fst).reverse ++ [0] ++ set.s0.map Prod.fst := by
    rw [← hfirsts set.s1, ← hfirsts set.s0, ← List.map_reverse, RefPicSet.candidates,
      List.map_append, List.map_append, List.map_map, List.map_map]
    rfl
  have hpairwise : ((set.candidates flags).map Prod.fst).Pairwise fun d d' => d' < d := by
    rw [hdeltas, List.pairwise_append, List.pairwise_append, List.pairwise_reverse,
      List.pairwise_map, List.pairwise_map]
    refine ⟨⟨h.increasing, List.pairwise_singleton _ _, ?_⟩, h.decreasing, ?_⟩
    · simpa using fun d n he => h.above (d, n) he
    · intro d hd d' hd'
      obtain ⟨e', he', rfl⟩ := List.mem_map.mp hd'
      have hbelow := h.below e' he'
      rcases List.mem_append.mp hd with hd | hd
      · obtain ⟨e, he, rfl⟩ := List.mem_map.mp (List.mem_reverse.mp hd)
        exact hbelow.trans (h.above e he)
      · rwa [List.mem_singleton.mp hd]
  exact List.pairwise_map.mp hpairwise

/-- Of candidates that count down the prediction keeps the order. -/
theorem predict_canonical (h : Canonical set) (deltaRps : Int) (flags : List (Nat × Bool)) :
    Canonical (set.predict deltaRps flags) := by
  have hmoved {keep : Int → Bool} {c : Int × Nat × Bool} {e : Int × Nat}
      (hc : moved deltaRps keep c = some e) :
      keep e.1 = true ∧ e.1 = c.1 + deltaRps := by
    unfold moved at hc
    split at hc
    · rename_i hkeep
      cases hc
      exact ⟨(Bool.and_eq_true_iff.mp hkeep).1, rfl⟩
    · cases hc
  have hcandidates := candidates_decreasing h flags
  refine ⟨?_, ?_, ?_, ?_⟩
  · intro e he
    obtain ⟨c, -, hc⟩ := List.mem_filterMap.mp he
    exact of_decide_eq_true (hmoved hc).1
  · intro e he
    obtain ⟨c, -, hc⟩ := List.mem_filterMap.mp he
    exact of_decide_eq_true (hmoved hc).1
  · refine List.pairwise_filterMap.mpr (hcandidates.imp ?_)
    intro c c' hlt e hc e' hc'
    rw [(hmoved hc).2, (hmoved hc').2]
    omega
  · refine List.pairwise_filterMap.mpr ((List.pairwise_reverse.mpr hcandidates).imp ?_)
    intro c c' hlt e hc e' hc'
    rw [(hmoved hc).2, (hmoved hc').2]
    omega

theorem canonical_getD (htable : ∀ set ∈ table, Canonical set) (i : Nat) :
    Canonical (table.getD i ⟨[], []⟩) := by
  rw [List.getD_eq_getElem?_getD]
  cases hi : table[i]? with
  | none => exact ⟨nofun, nofun, .nil, .nil⟩
  | some set => exact htable set (List.mem_of_getElem? hi)

theorem derive_canonical (htable : ∀ set ∈ table, Canonical set) (coded : Coded) :
    Canonical (coded.derive table idx) := by
  cases coded with
  | predicted deltaIdxMinus1 deltaRpsSign absDeltaRpsMinus1 flags =>
    exact predict_canonical (canonical_getD htable _) _ flags
  | explicit s0 s1 =>
    obtain ⟨hbelow, hdecreasing⟩ := accumulate_below 0 s0
    obtain ⟨habove, hincreasing⟩ := accumulate_above 0 s1
    exact ⟨hbelow, habove, hdecreasing, hincreasing⟩

end Order

section Sets

variable {rpsList : List ShortTermRps} {table : List RefPicSet} {idx num : Nat} {out : ShortTermRps}

/-- The sets before `idx` are stored. -/
def TableHolds (rpsList : List ShortTermRps) (table : List RefPicSet) (idx : Nat) : Prop :=
  ∀ i, i < idx → Holds (rpsList.getD i {}) (table.getD i ⟨[], []⟩)

theorem i32_deltaRps (sign absDelta : Nat) :
    i32 ((1 - 2 * (sign : Int)) * i32 (u32 (absDelta + 1))) =
    i32 ((1 - 2 * (sign : Int)) * (absDelta + 1)) := by
  rw [i32_u32, i32_mul_i32]
  push_cast
  rfl

theorem agrees_inter (htable : TableHolds rpsList table idx) :
    Agrees (Bitstream.H265.parseInterRps rpsList idx num out) (readPredicted table idx num)
      fun rps coded => (coded.derive table idx).Fits → Holds rps (coded.derive table idx) := by
  unfold Bitstream.H265.parseInterRps readPredicted
  refine .branch reader_brUe (reader_pure 0) returns_brUe (returns_pure (by decide)) fun d hd => ?_
  have hu32 : u32 (d + 1) = d + 1 := Nat.mod_eq_of_lt hd
  dsimp only
  rw [hu32]
  refine .guard fun hidx => .read reader_brU1 fun sign =>
    .read reader_brUe fun absDelta => .access ?_
  have href := htable (idx - (d + 1)) (by omega)
  rw [← href.count]
  refine .guard fun _ => (agrees_flags _ 0).bind fun flags flags' hflags => ?_
  subst hflags
  refine .value (fun s br => ⟨s, exec_predictFrom _ s br⟩) ?_
  refine .value (fun s br => ⟨s, exec_predictFrom _ s br⟩) ?_
  refine .value (fun s br => ⟨s, exec_predictFrom _ s br⟩) ?_
  refine .value (fun s br => ⟨s, exec_predictFrom _ s br⟩) ?_
  refine .accessIf (.guard fun hfew => agrees_pure fun hfits => ?_)
  obtain ⟨hneg, hpos⟩ := predict_eq href (i32_deltaRps sign absDelta) hfits
  exact holds_entries hneg hpos hfew out

/-- The entries stored from place `j` on. -/
def setAll {α : Type} (l : List α) : Nat → List α → List α
  | _, [] => l
  | j, v :: vs => setAll (l.set j v) (j + 1) vs

theorem setAll_eq {α : Type} {l vs : List α} {j : Nat} (h : j + vs.length ≤ l.length) :
    setAll l j vs = l.take j ++ vs ++ l.drop (j + vs.length) := by
  induction vs generalizing l j with
  | nil => simp [setAll]
  | cons v vs ih =>
    rw [List.length_cons] at h
    have hlt : j < l.length := by omega
    have hplace : j + 1 + vs.length = j + (vs.length + 1) := by omega
    rw [setAll, ih (by rw [List.length_set]; omega),
      List.take_succ_eq_append_getElem (by rwa [List.length_set]), List.take_set_of_le le_rfl,
      List.getElem_set_self, List.drop_set_of_lt (by omega), hplace]
    simp

theorem setAll_setAll {α : Type} {l v w : List α} (h : v.length + w.length ≤ l.length) :
    setAll (setAll l 0 v) v.length w = v ++ w ++ l.drop (v.length + w.length) := by
  have hfirst : setAll l 0 v = v ++ l.drop v.length := by
    rw [setAll_eq (by omega), List.take_zero, Nat.zero_add, List.nil_append]
  rw [hfirst, setAll_eq (by rw [List.length_append, List.length_drop]; omega), List.take_left,
    List.drop_append, List.drop_drop]
  simp

@[simp] theorem length_accumulate (sign prev : Int) (l : List (Nat × Nat)) :
    (accumulate sign prev l).length = l.length := by
  induction l generalizing prev with
  | nil => rfl
  | cons e l ih => rw [accumulate, List.length_cons, List.length_cons, ih]

theorem setAll_pairs {α : Type} {neg pos : List (Int × Nat)} {l : List α} {n : Nat}
    (h : neg.length = n ∧ n + pos.length ≤ l.length) (f : Int × Nat → α) :
    setAll (setAll l 0 (neg.map f)) n (pos.map f) =
    (neg ++ pos).map f ++ l.drop (n + pos.length) := by
  obtain ⟨rfl, hle⟩ := h
  have hall := setAll_setAll (v := neg.map f) (w := pos.map f) (by simpa using hle)
  rwa [List.length_map, List.length_map, ← List.map_append] at hall

/-- A coded set as it is stored, in 16 bits. -/
def narrow (l : List (Int × Nat)) : List (Int × Nat) := l.map fun e => (i16 e.1, e.2)

theorem narrow_eq {l : List (Int × Nat)} (h : ∀ e ∈ l, Fits16 e.1) : narrow l = l := by
  refine (List.map_congr_left ?_).trans (List.map_id l)
  intro e he
  exact Prod.ext (i16_eq (h e he)) rfl

/-- The differences are read alike, and what is stored is up to 32 bits of the one before. -/
theorem agrees_deltas (sign : Int) (n j : Nat) {code prev : Int} (hprev : i32 code = i32 prev)
    (out : ShortTermRps) :
    Agrees (Bitstream.H265.parseDeltas sign n j code out) (readDeltas n) fun out' l =>
    l.length = n ∧
      out' = { out with
        deltaPoc := setAll out.deltaPoc j ((narrow (accumulate sign prev l)).map Prod.fst)
        usedByCurrPicFlag := setAll out.usedByCurrPicFlag j
          ((narrow (accumulate sign prev l)).map Prod.snd) } := by
  induction n generalizing j code prev out with
  | zero => exact agrees_pure ⟨rfl, rfl⟩
  | succ n ih =>
    unfold Bitstream.H265.parseDeltas readDeltas
    refine .read reader_brUe fun delta => .access (.read (reader_brU8 1) fun used => ?_)
    have hnext : i32 (code + sign * i32 (i32 delta + 1)) = i32 (prev + sign * (delta + 1)) := by
      rw [i32_i32_add, ← i32_add_i32, i32_mul_i32, i32_add_i32, ← i32_i32_add, hprev, i32_i32_add]
    have hstored : i16 (i32 (code + sign * i32 (i32 delta + 1))) =
        i16 (prev + sign * (delta + 1)) := by
      rw [hnext, i16_i32]
    have hcongr : i32 (i32 (code + sign * i32 (i32 delta + 1))) =
        i32 (prev + sign * (delta + 1)) := by
      rw [hnext]
      exact Int.bmod_bmod
    refine (ih (j + 1) hcongr _).map ?_
    rintro out' l ⟨hlen, rfl⟩
    refine ⟨by rw [List.length_cons, hlen], ?_⟩
    rw [hstored]
    rfl

theorem agrees_direct {interRps : Nat} :
    Agrees (Bitstream.H265.parseDirectRps { interRefPicSetPredictionFlag := interRps }) readExplicit
      fun rps coded => (coded.derive table idx).Fits → Holds rps (coded.derive table idx) := by
  unfold Bitstream.H265.parseDirectRps readExplicit
  refine .read reader_brUe fun numNeg => .read reader_brUe fun numPos => .guard fun hfew => ?_
  have hu32 : u32 (numNeg + numPos) = numNeg + numPos := by
    unfold u32 maxRefs at *
    omega
  rw [hu32] at hfew
  refine (agrees_deltas (-1) numNeg 0 rfl _).bind ?_
  rintro out₁ l ⟨hlen, rfl⟩
  refine (agrees_deltas 1 numPos numNeg rfl _).map ?_
  rintro out₂ l' ⟨hlen', rfl⟩ hfits
  have hneg := narrow_eq fun e he => hfits e (List.mem_append_left _ he)
  have hpos := narrow_eq fun e he => hfits e (List.mem_append_right _ he)
  simp only [Coded.derive] at hneg hpos
  rw [hneg, hpos]
  unfold maxRefs at hfew
  subst hlen hlen'
  refine ⟨?_, ?_⟩
  · refine meaning_entries ?_ ?_ (setAll_pairs ?_ Prod.fst) (setAll_pairs ?_ Prod.snd)
    · rw [length_accumulate]
      exact Nat.mod_eq_of_lt (by omega)
    · rw [length_accumulate]
      exact Nat.mod_eq_of_lt (by omega)
    · simp [maxRefs]
      omega
    · simp [maxRefs]
      omega
  · simp only [RefPicSet.numDeltaPocs, Coded.derive, length_accumulate]
    exact Nat.mod_eq_of_lt (by omega)

/-- The set is in canonical order if those it is predicted from are, and is stored if it fits. -/
structure ReadAs (table : List RefPicSet) (rps : ShortTermRps) (set : RefPicSet) : Prop where
  canonical : (∀ s ∈ table, Canonical s) → Canonical set
  holds : set.Fits → Holds rps set

/-- A set is read as the syntax has it. -/
theorem agrees_parseStRps {mark : Nat → P Unit}
    (hmark : ∀ n s br, ∃ s', exec (mark n) s br = ((.ok (), s'), br))
    (htable : TableHolds rpsList table idx) :
    Agrees (Bitstream.H265.parseStRps mark rpsList idx num) (readSet table idx num)
      (ReadAs table) := by
  have hcoded : Agrees (Bitstream.H265.parseStRps mark rpsList idx num) (readCoded table idx num)
      fun rps coded => (coded.derive table idx).Fits → Holds rps (coded.derive table idx) := by
    unfold Bitstream.H265.parseStRps readCoded
    refine .cond (fun _ => .read reader_brU1 fun inter => ?_) fun _ =>
      .read (reader_pure 0) fun inter => ?_
    · exact .value (hmark _) (.cond (fun _ => agrees_inter htable) fun _ => agrees_direct)
    · exact .value (hmark _) (.cond (fun _ => agrees_inter htable) fun _ => agrees_direct)
  exact hcoded.map fun rps coded h => ⟨fun hcanonical => derive_canonical hcanonical coded, h⟩

theorem reader_readFlags (n : Nat) : Reader (readFlags n) := by
  induction n with
  | zero => exact reader_pure _
  | succ n ih =>
    refine (reader_brU8 1).bind fun used => .cond (reader_flag.bind fun _ => ?_)
      ((reader_pure _).bind fun _ => ?_)
    · exact ih.bind fun _ => reader_pure _
    · exact ih.bind fun _ => reader_pure _

theorem reader_readDeltas (n : Nat) : Reader (readDeltas n) := by
  induction n with
  | zero => exact reader_pure _
  | succ n ih =>
    exact reader_brUe.bind fun _ => (reader_brU8 1).bind fun _ => ih.bind fun _ => reader_pure _

theorem reader_readSet (table : List RefPicSet) (idx num : Nat) :
    Reader (readSet table idx num) := by
  have hpredicted : Reader (readPredicted table idx num) := by
    have htail (d : Nat) : Reader (do
        let deltaRpsSign ← brU1
        let absDeltaRpsMinus1 ← brUe
        let ref := table.getD (idx - (d + 1)) ⟨[], []⟩
        let flags ← readFlags (ref.numDeltaPocs + 1)
        return Coded.predicted d deltaRpsSign absDeltaRpsMinus1 flags) :=
      reader_brU1.bind fun _ => reader_brUe.bind fun _ => (reader_readFlags _).bind fun _ =>
        reader_pure _
    exact .cond (reader_brUe.bind htail) ((reader_pure 0).bind htail)
  have hexplicit : Reader readExplicit :=
    reader_brUe.bind fun _ => reader_brUe.bind fun _ => (reader_readDeltas _).bind fun _ =>
      (reader_readDeltas _).bind fun _ => reader_pure _
  have hcoded : Reader (readCoded table idx num) :=
    .cond (reader_brU1.bind fun _ => .cond hpredicted hexplicit)
      ((reader_pure 0).bind fun _ => .cond hpredicted hexplicit)
  exact hcoded.bind fun _ => reader_pure _

theorem reader_readSets (num n : Nat) (table : List RefPicSet) : Reader (readSets num n table) := by
  induction n generalizing table with
  | zero => exact reader_pure _
  | succ n ih => exact (reader_readSet _ _ _).bind fun _ => ih _

end Sets

section Tables

variable {table sets : List RefPicSet} {tmp tmp' : Sps} {s s' s₀ s₀' : ParseResult}
  {br br' br₀ : BitReader}
  {num n : Nat} {rps : ShortTermRps} {set : RefPicSet}

/-- The stored values fit 16 bits. -/
theorem Holds.fits (h : Holds rps set) (hok : Ok rps) : set.Fits := by
  obtain ⟨rfl, -⟩ := h
  intro e he
  rcases List.mem_append.mp he with he | he
  · obtain ⟨j, -, rfl⟩ := List.mem_map.mp he
    exact hok.poc_getD j
  · obtain ⟨j, -, rfl⟩ := List.mem_map.mp he
    exact hok.poc_getD _

theorem readSets_canonical (htable : ∀ set ∈ table, Canonical set)
    (hread : exec (readSets num n table) s br = ((.ok sets, s'), br')) :
    ∀ set ∈ sets, Canonical set := by
  induction n generalizing table br s with
  | zero =>
    cases hread
    exact htable
  | succ n ih =>
    obtain ⟨set, s₁, br₁, hset, hrest⟩ := exec_bind_ok hread
    refine ih ?_ hrest
    obtain ⟨coded, s₂, br₂, -, hderive⟩ := exec_bind_ok hset
    cases hderive
    intro set hset
    rcases List.mem_append.mp hset with hset | hset
    · exact htable set hset
    · rw [List.mem_singleton.mp hset]
      exact derive_canonical htable coded

theorem readSets_extends (hread : exec (readSets num n table) s br = ((.ok sets, s'), br')) :
    table <+: sets ∧ sets.length = table.length + n := by
  induction n generalizing table br s with
  | zero =>
    cases hread
    exact ⟨List.prefix_rfl, rfl⟩
  | succ n ih =>
    obtain ⟨set, s₁, br₁, -, hrest⟩ := exec_bind_ok hread
    obtain ⟨hextends, hlen⟩ := ih hrest
    refine ⟨(List.prefix_append table [set]).trans hextends, ?_⟩
    rw [hlen, List.length_append, List.length_singleton]
    omega

/-- The sets are read and stored one after the other as long as they fit. -/
theorem parseRpsTable_holds (table : List RefPicSet) (hnum : tmp.numShortTermRefPicSets = num)
    (hcode : exec (Bitstream.H265.parseRpsTable n table.length tmp) s br = ((.ok tmp', s'), br'))
    (hread : exec (readSets num n table) s₀ br = ((.ok sets, s₀'), br₀))
    (hfits : ∀ set ∈ sets, set.Fits) (hroom : table.length + n ≤ tmp.stRps.length)
    (htable : TableHolds tmp.stRps table table.length) :
    TableHolds tmp'.stRps sets sets.length := by
  induction n generalizing table tmp br s s₀ with
  | zero =>
    cases hcode
    cases hread
    exact htable
  | succ n ih =>
    unfold Bitstream.H265.parseRpsTable at hcode
    obtain ⟨u, s₁, br₁, haccess, hcode⟩ := exec_bind_ok hcode
    cases haccess
    obtain ⟨rps, s₂, br₂, hrps, hcode⟩ := exec_bind_ok hcode
    obtain ⟨set, s₃, br₃, hset, hread⟩ := exec_bind_ok hread
    rw [hnum] at hrps
    obtain ⟨set', hset', hholds⟩ :=
      agrees_parseStRps (fun _ s _ => ⟨s, rfl⟩) htable s br rps s₂ br₂ hrps
    rw [hset' s₀] at hset
    cases hset
    have hmem : set ∈ sets := (readSets_extends hread).1.subset (by simp)
    have hlen : (table ++ [set]).length = table.length + 1 := by
      rw [List.length_append, List.length_singleton]
    rw [← hlen] at hcode
    refine ih _ ?_ hcode hread ?_ ?_
    · exact hnum
    · rw [hlen, List.length_set]
      omega
    · intro i hi
      rw [hlen] at hi
      rcases (Nat.lt_succ_iff.mp hi).lt_or_eq with hlt | rfl
      · rw [List.getD_eq_getElem?_getD, List.getD_eq_getElem?_getD, List.getElem?_set_ne hlt.ne',
          List.getElem?_append_left hlt, ← List.getD_eq_getElem?_getD, ← List.getD_eq_getElem?_getD]
        exact htable i hlt
      · rw [List.getD_eq_getElem?_getD, List.getD_eq_getElem?_getD,
          List.getElem?_set_self (by omega), List.getElem?_concat_length]
        exact hholds.holds (hfits set hmem)

/-- `num` sets stored from an empty table on. -/
theorem parseRpsTable_first {num : Nat}
    (hcode : exec (Bitstream.H265.parseRpsTable num 0 tmp) s br = ((.ok tmp', s'), br'))
    (hnum : tmp.numShortTermRefPicSets = num) (hroom : num ≤ tmp.stRps.length) :
    ∃ sets br₀, (∀ s₀, exec (readSets num num []) s₀ br = ((.ok sets, s₀), br₀)) ∧
    sets.length = num ∧
      ((∀ set ∈ sets, set.Fits) → TableHolds tmp'.stRps sets sets.length) := by
  obtain ⟨sets, br₀, hread⟩ := reader_readSets num num [] br
  refine ⟨sets, br₀, hread, ?_, ?_⟩
  · simpa using (readSets_extends (hread s)).2
  · intro hfits
    exact parseRpsTable_holds [] hnum hcode (hread s) hfits (by simpa using hroom) nofun

end Tables

section Headers

/-- The sets that an SPS codes. What stands before them is parsed as the code does. -/
def readSpsSets : P (List RefPicSet) := do
  let tmp ← Bitstream.H265.parseSpsHead
  let tmp ← Bitstream.H265.parseConformanceWindow tmp
  let luma ← Bitstream.H265.brUe8
  let chroma ← Bitstream.H265.brUe8
  let log2MaxLsb ← Bitstream.H265.brUe8
  let tmp := { tmp with
    bitDepthLumaMinus8 := luma
    bitDepthChromaMinus8 := chroma
    log2MaxPicOrderCntLsbMinus4 := log2MaxLsb }
  let tmp ← Bitstream.H265.parseSubLayerOrdering tmp
  let tmp ← Bitstream.H265.parseBlockSizes tmp
  let tmp ← Bitstream.H265.parseSpsScalingList tmp
  let amp ← brU8 1
  let sao ← brU8 1
  let _ ← Bitstream.H265.parsePcm { tmp with
    ampEnabledFlag := amp
    sampleAdaptiveOffsetEnabledFlag := sao }
  let num ← Bitstream.H265.brUe8
  readSets num num []

/-- The set that the header of an independent segment codes, behind the sets of its SPS. -/
def readSliceSet (nalUnitType : Nat) (table : List RefPicSet) : P RefPicSet := do
  let (pps, sps) ← Bitstream.H265.parseSliceSets nalUnitType
  Bitstream.H265.parseSegmentAddress pps sps
  Bitstream.skip pps.numExtraSliceHeaderBits do
    let _ ← brU1
  let _ ← Bitstream.H265.brUe8
  let _ ← if pps.outputFlagPresentFlag ≠ 0 then brU8 1 else pure 0
  let _ ← if sps.separateColourPlaneFlag ≠ 0 then brU8 2 else pure 0
  let _ ← brU (sps.log2MaxPicOrderCntLsbMinus4 + 4)
  let _ ← brU8 1
  readSet table sps.numShortTermRefPicSets sps.numShortTermRefPicSets

/-- The SPS has the sets, each in canonical order. -/
structure SpsRight (sps : Sps) (sets : List RefPicSet) : Prop where
  number : sps.numShortTermRefPicSets = sets.length
  holds : TableHolds sps.stRps sets sets.length
  canonical : ∀ set ∈ sets, Canonical set

section Following

variable {σ α β γ δ : Type} {M : α → β → Prop}

/-- Whenever `p` returns, `q` returns with something that `M` relates to it. -/
def Along (p : Parser σ α) (q : Parser σ β) (M : α → β → Prop) : Prop :=
  ∀ s br a s' br', exec p s br = ((.ok a, s'), br') →
    ∃ b s₁ br₁, exec q s br = ((.ok b, s₁), br₁) ∧ M a b

/-- Both start with the same. -/
theorem Along.same {p : Parser σ γ} {Q : γ → Prop} {f : γ → Parser σ α} {g : γ → Parser σ β}
    (hp : Returns p Q) (hf : ∀ c, Q c → Along (f c) (g c) M) : Along (p >>= f) (p >>= g) M := by
  intro s br a s' br' hexec
  obtain ⟨c, s₁, br₁, hfirst, hrest⟩ := exec_bind_ok hexec
  obtain ⟨b, s₂, br₂, hq, hab⟩ := hf c (hp s br c s₁ br₁ trivial hfirst) s₁ br₁ a s' br' hrest
  refine ⟨b, s₂, br₂, ?_, hab⟩
  rw [exec_bind, hfirst]
  exact hq

theorem Along.after (p : Parser σ γ) {f : γ → Parser σ α} {g : γ → Parser σ β}
    (hf : ∀ c, Along (f c) (g c) M) : Along (p >>= f) (p >>= g) M :=
  .same (Q := fun _ => True) (fun _ _ _ _ _ _ _ => trivial) fun c _ => hf c

theorem Along.guard {c : Prop} [Decidable c] {e : ParseError} {f : PUnit → Parser σ α}
    {q : Parser σ β} (hf : ¬c → Along (f PUnit.unit) q M) :
    Along (if c then throw e >>= f else f PUnit.unit) q M := by
  split
  · intro s br a s' br' hexec
    rw [exec_bind] at hexec
    cases hexec
  · rename_i hc
    exact hf hc

end Following

theorem returns_number (n i : Nat) {num : Nat} {tmp : Sps} (h : tmp.numShortTermRefPicSets = num) :
    Returns (Bitstream.H265.parseRpsTable n i tmp) fun sps => sps.numShortTermRefPicSets = num := by
  induction n generalizing i tmp with
  | zero => exact returns_pure h
  | succ n ih =>
    unfold Bitstream.H265.parseRpsTable
    exact .after _ fun _ => .after _ fun _ => ih _ h

/-- There is room for all the sets. -/
abbrev HasRoom (sets : List ShortTermRps) (_ : Nat) : Prop := sets.length = maxShortTermRps

theorem along_parseSpsFields : Along Bitstream.H265.parseSpsFields readSpsSets fun sps sets =>
    sps.numShortTermRefPicSets = sets.length ∧ (∀ set ∈ sets, Canonical set) ∧
      ((∀ set ∈ sets, set.Fits) → TableHolds sps.stRps sets sets.length) := by
  unfold Bitstream.H265.parseSpsFields readSpsSets
  refine .same (returns_parseSpsHead (K := HasRoom) List.length_replicate) fun tmp h => ?_
  refine .same (returns_parseConformanceWindow (K := HasRoom) h) fun tmp h => ?_
  refine .after _ fun luma => .after _ fun chroma => .after _ fun log2MaxLsb => ?_
  dsimp only
  refine .same (returns_parseSubLayerOrdering (K := HasRoom) h) fun tmp h => ?_
  refine .same (returns_parseBlockSizes (K := HasRoom) h) fun tmp h => ?_
  refine .same (returns_parseSpsScalingList (K := HasRoom) h) fun tmp h => ?_
  refine .after _ fun amp => .after _ fun sao => ?_
  refine .same (returns_parsePcm (K := HasRoom) h) fun tmp h => .after _ fun num =>
    .guard fun hfew => ?_
  intro s br sps s' br' hexec
  obtain ⟨tmp', s₁, br₁, htable, hexec⟩ := exec_bind_ok hexec
  obtain ⟨sets, br₀, hread, hlen, hholds⟩ :=
    parseRpsTable_first htable rfl (h.ge.trans' (not_lt.mp hfew))
  have hnum : tmp'.numShortTermRefPicSets = num :=
    returns_number num 0 rfl s br tmp' s₁ br₁ trivial htable
  -- the rest of the SPS leaves the sets alone
  let K : List ShortTermRps → Nat → Prop := fun sets num =>
    sets = tmp'.stRps ∧ num = tmp'.numShortTermRefPicSets
  obtain ⟨tmp₁, s₂, br₂, hlong, hexec⟩ := exec_bind_ok hexec
  have hlong : SetsAre K tmp₁ :=
    returns_parseLongTerm (K := K) ⟨rfl, rfl⟩ s₁ br₁ tmp₁ s₂ br₂ trivial hlong
  have hrest : Returns (do
      let temporalMvp ← brU8 1
      let strongIntra ← brU8 1
      Bitstream.H265.deriveCtbs { tmp₁ with
        spsTemporalMvpEnabledFlag := temporalMvp
        strongIntraSmoothingEnabledFlag := strongIntra }) (SetsAre K) :=
    .after _ fun _ => .after _ fun _ => returns_deriveCtbs (K := K) hlong
  obtain ⟨hsets, hcount⟩ := hrest s₂ br₂ sps s' br' trivial hexec
  refine ⟨sets, s, br₀, hread s, ?_, ?_, ?_⟩
  · rw [hcount, hnum, hlen]
  · exact readSets_canonical (by simp) (hread s)
  · rw [hsets]
    exact hholds

/-- Of an accepted SPS the sets are right if and only if they fit. -/
theorem sps_sets_iff {o o₁ : ParseResult} {br br₁ : BitReader} {sps : Sps}
    (h : exec parseSpsFields o br = ((.ok sps, o₁), br₁)) :
    ∃ sets o₂ br₂, exec readSpsSets o br = ((.ok sets, o₂), br₂) ∧
      (SpsRight sps sets ↔ ∀ set ∈ sets, set.Fits) := by
  have hok := returns_parseSpsFields o br sps o₁ br₁ trivial h
  obtain ⟨sets, o₂, br₂, hread, hnum, hcanonical, hholds⟩ := along_parseSpsFields o br sps o₁ br₁ h
  refine ⟨sets, o₂, br₂, hread, ?_, fun hfits => ⟨hnum, hholds hfits, hcanonical⟩⟩
  intro hright set hset
  obtain ⟨i, hi, rfl⟩ := List.getElem_of_mem hset
  have hheld := hright.holds i hi
  rw [List.getD_eq_getElem?_getD, List.getD_eq_getElem?_getD, List.getElem?_eq_getElem hi,
    Option.getD_some, ← List.getD_eq_getElem?_getD] at hheld
  exact hheld.fits (ok_getD hok i)

end Headers

section Slices

variable {α β γ δ : Type} {V : Type} {view : ParseResult → V} {N : V → β → Prop}
  {Pre : ParseResult → Prop}
  {p : P α} {q : P β}

/-- Whenever `p` returns from a result with `Pre`, `q` returns from the same bits with something
that `N` relates to what `p` stored. `q` only reads. -/
def Stores (Pre : ParseResult → Prop) (p : P α) (q : P β) (view : ParseResult → V)
    (N : V → β → Prop) : Prop :=
  ∀ s br a s' br', Pre s → exec p s br = ((.ok a, s'), br') →
    ∃ b br₁, (∀ s₀, exec q s₀ br = ((.ok b, s₀), br₁)) ∧ N (view s') b

theorem Stores.read {p : P γ} {f : γ → P α} {g : γ → P β} (hp : Reader p)
    (hf : ∀ c, Stores Pre (f c) (g c) view N) : Stores Pre (p >>= f) (p >>= g) view N := by
  intro s br a s' br' hs hexec
  obtain ⟨c, br₁, hread⟩ := hp br
  rw [exec_bind, hread s] at hexec
  obtain ⟨b, br₂, hq, hb⟩ := hf c s br₁ a s' br' hs hexec
  refine ⟨b, br₂, ?_, hb⟩
  intro s₀
  rw [exec_bind, hread s₀]
  exact hq s₀

/-- What only `p` does, without reading. -/
theorem Stores.silent {Q : ParseResult → Prop} {p : P γ} {f : γ → P α}
    (hp : ∀ s br, Pre s → ∃ c s', exec p s br = ((.ok c, s'), br) ∧ Q s')
    (hf : ∀ c, Stores Q (f c) q view N) : Stores Pre (p >>= f) q view N := by
  intro s br a s' br' hs hexec
  obtain ⟨c, s₁, hfirst, hs₁⟩ := hp s br hs
  rw [exec_bind, hfirst] at hexec
  exact hf c s₁ br a s' br' hs₁ hexec

theorem Stores.guard {c : Prop} [Decidable c] {e : ParseError} {f : PUnit → P α}
    (hf : ¬c → Stores Pre (f PUnit.unit) q view N) :
    Stores Pre (if c then throw e >>= f else f PUnit.unit) q view N := by
  split
  · intro s br a s' br' _ hexec
    rw [exec_bind] at hexec
    cases hexec
  · rename_i hc
    exact hf hc

theorem Stores.keeping {f : α → P γ} (hp : Stores Pre p q view N)
    (hf : ∀ a, Bitstream.Keeps view (f a)) :
    Stores Pre (p >>= f) q view N := by
  intro s br c s' br' hs hexec
  obtain ⟨a, s₁, br₁, hfirst, hrest⟩ := exec_bind_ok hexec
  obtain ⟨b, br₂, hq, hb⟩ := hp s br a s₁ br₁ hs hfirst
  have hview := hf a s₁ br₁
  rw [hrest] at hview
  exact ⟨b, br₂, hq, hview ▸ hb⟩

theorem Stores.vacuous (hq : Reader q) (hp : Bitstream.Keeps view p)
    (h : ∀ s b, Pre s → N (view s) b) :
    Stores Pre p q view N := by
  intro s br a s' br' hs hexec
  obtain ⟨b, br₁, hread⟩ := hq br
  have hview := hp s br
  rw [hexec] at hview
  exact ⟨b, br₁, hread, hview ▸ h s b hs⟩

/-- An element that `p` stores, in one case only. -/
theorem Stores.optional {c : Prop} [Decidable c] {r : P γ} {d : γ} {k : γ → P PUnit}
    {f : PUnit → P α} {g : γ → P β} (hr : Reader r)
    (hk : ∀ x s br, Pre s → ∃ s', exec (k x) s br = ((.ok (), s'), br) ∧ Pre s')
    (hf : ∀ x, Stores Pre (f PUnit.unit) (g x) view N) :
    Stores Pre (if c then r >>= fun x => k x >>= f else f PUnit.unit)
      (if c then r >>= g else pure d >>= g) view N := by
  split
  · refine .read hr fun x => .silent (Q := Pre) ?_ fun _ => hf x
    intro s br hs
    obtain ⟨s', hexec, hs'⟩ := hk x s br hs
    exact ⟨_, s', hexec, hs'⟩
  · exact hf d

/-- What `p` returns is stored next, and stays. -/
theorem Stores.store {M : α → β → Prop} {Q : α → Prop} {k : α → P PUnit} {f : PUnit → P γ}
    (hp : Agrees p q M) (hQ : Returns p Q)
    (hk : ∀ a s br, ∃ s', exec (k a) s br = ((.ok (), s'), br) ∧ ∀ b, M a b → Q a → N (view s') b)
    (hf : Bitstream.Keeps view (f PUnit.unit)) :
    Stores Pre (p >>= fun a => k a >>= f) q view N := by
  intro s br c s' br' _ hexec
  obtain ⟨a, s₁, br₁, hfirst, hrest⟩ := exec_bind_ok hexec
  obtain ⟨b, hq, hab⟩ := hp s br a s₁ br₁ hfirst
  obtain ⟨s₂, hstore, hN⟩ := hk a s₁ br₁
  rw [exec_bind, hstore] at hrest
  dsimp only at hrest
  have hview := hf s₂ br₁
  rw [hrest] at hview
  exact ⟨b, br₁, hq, hview ▸ hN b hab (hQ s br a s₁ br₁ trivial hfirst)⟩

/-- What a header has stored of its own set. -/
def rpsView (o : ParseResult) : Nat × ShortTermRps :=
  (o.slice.shortTermRefPicSetSpsFlag, o.slice.stRpsSlice)

theorem keeps_rps_of_details {p : P α} (hp : Bitstream.Keeps Bitstream.H265.sansDetails p) :
    Bitstream.Keeps rpsView p :=
  hp.comp fun x => (x.2.2.2.2.2.shortTermRefPicSetSpsFlag, x.2.2.2.2.2.stRpsSlice)

theorem keeps_setRps {g : Bitstream.H265.SliceHeader → Bitstream.H265.SliceHeader}
    (hg : ∀ s, (g s).shortTermRefPicSetSpsFlag = s.shortTermRefPicSetSpsFlag ∧
      (g s).stRpsSlice = s.stRpsSlice) : Bitstream.Keeps rpsView (Bitstream.H265.setSlice g) :=
  .modify fun o => by rw [rpsView, rpsView, ← (hg o.slice).1, ← (hg o.slice).2]

/-- A set of the header's own is stored as it is read. -/
def StoredAs (table : List RefPicSet) (v : Nat × ShortTermRps) (set : RefPicSet) : Prop :=
  v.1 = 0 → Ok v.2 ∧ ReadAs table v.2 set

theorem stores_parseSliceRps {sps : Sps} {table : List RefPicSet}
    (htable : TableHolds sps.stRps table sps.numShortTermRefPicSets) :
    Stores (fun _ => True) (Bitstream.H265.parseSliceRps sps)
      (do
        let _ ← brU (sps.log2MaxPicOrderCntLsbMinus4 + 4)
        let _ ← brU8 1
        readSet table sps.numShortTermRefPicSets sps.numShortTermRefPicSets) rpsView
          (StoredAs table) := by
  unfold Bitstream.H265.parseSliceRps
  refine .read (reader_brU _) fun lsb =>
    .silent (Q := fun _ => True) (fun s br _ => ⟨_, _, rfl, trivial⟩) fun _ => ?_
  refine .read (reader_brU8 1) fun spsFlag => ?_
  refine .silent (Q := fun o => o.slice.shortTermRefPicSetSpsFlag = spsFlag)
    (fun s br _ => ⟨_, _, rfl, rfl⟩) fun _ => ?_
  refine .silent (Q := fun o => o.slice.shortTermRefPicSetSpsFlag = spsFlag)
    (fun s br hs => ⟨_, _, rfl, hs⟩) fun bitBegin => ?_
  dsimp only
  by_cases hown : spsFlag = 0
  · rw [if_pos hown]
    refine .store (agrees_parseStRps (fun n s br => ⟨_, rfl⟩) htable)
      (returns_parseStRps _ _ _ _) ?_ ?_
    · intro rps s br
      exact ⟨_, rfl, fun set hset hok _ => ⟨hok, hset⟩⟩
    · with_reducible repeat' first
        | assumption | exact keeps_setRps fun _ => ⟨rfl, rfl⟩ | refine .bind ?_ fun _ => ?_
        | refine .cond ?_ fun _ => ?_ | simp
  · rw [if_neg hown]
    refine .vacuous (reader_readSet _ _ _) ?_ ?_
    · with_reducible repeat' first
        | assumption | exact keeps_setRps fun _ => ⟨rfl, rfl⟩ | refine .bind ?_ fun _ => ?_
        | refine .cond ?_ fun _ => ?_ | simp
    · intro o set ho hzero
      exact absurd (ho.symm.trans hzero) hown

theorem reader_skip {σ : Type} (n : Nat) {p : Parser σ Unit} (hp : Reader p) :
    Reader (Bitstream.skip n p) := by
  induction n with
  | zero => exact reader_pure ()
  | succ n ih => exact hp.bind fun _ => ih

/-- The elements of the header of an independent segment, as `readSliceSet` reads them. -/
theorem stores_parseIndependent {nalUnitType : Nat} (pps : Pps) {sps : Sps} {table : List RefPicSet}
    (hidr : Bitstream.H265.isIdrType nalUnitType = false)
    (htable : TableHolds sps.stRps table sps.numShortTermRefPicSets) :
    Stores (fun _ => True) (Bitstream.H265.parseIndependent nalUnitType pps sps)
      (do
        Bitstream.skip pps.numExtraSliceHeaderBits do
          let _ ← brU1
        let _ ← Bitstream.H265.brUe8
        let _ ← if pps.outputFlagPresentFlag ≠ 0 then brU8 1 else pure 0
        let _ ← if sps.separateColourPlaneFlag ≠ 0 then brU8 2 else pure 0
        let _ ← brU (sps.log2MaxPicOrderCntLsbMinus4 + 4)
        let _ ← brU8 1
        readSet table sps.numShortTermRefPicSets sps.numShortTermRefPicSets) rpsView
          (StoredAs table) := by
  unfold Bitstream.H265.parseIndependent
  refine .read (reader_skip _ (reader_brU1.bind fun _ => reader_pure _)) fun _ => ?_
  refine .read (reader_brUe.bind fun _ => reader_pure _) fun st => ?_
  refine .silent (Q := fun _ => True) (fun s br _ => ⟨_, _, rfl, trivial⟩) fun _ =>
    .guard fun _ => ?_
  refine .optional (reader_brU8 1) (fun x s br _ => ⟨_, rfl, trivial⟩) fun _ => ?_
  refine .optional (reader_brU8 2) (fun x s br _ => ⟨_, rfl, trivial⟩) fun _ => ?_
  rw [if_pos hidr]
  refine .keeping (stores_parseSliceRps htable) fun _ => ?_
  with_reducible repeat' first
    | assumption | exact keeps_setRps fun _ => ⟨rfl, rfl⟩
    | exact keeps_rps_of_details (Bitstream.H265.keeps_parseInterSlice _ _ _)
    | exact keeps_rps_of_details (Bitstream.H265.keeps_parseSliceDeblocking _)
    | refine .bind ?_ fun _ => ?_ | refine .cond ?_ fun _ => ?_ | simp

/-- The header of an independent segment has a set of its own. -/
structure CodesSet (nalUnitType : Nat) (o : ParseResult) : Prop where
  notIdr : Bitstream.H265.isIdrType nalUnitType = false
  independent : o.slice.dependentSliceSegmentFlag = 0
  own : o.slice.shortTermRefPicSetSpsFlag = 0

theorem activeSps_of_header {nalUnitType : Nat} {o o₁ o' : ParseResult} {br br₁ br' : BitReader}
    {sets : Pps × Sps}
    (hsets : exec (Bitstream.H265.parseSliceSets nalUnitType) o br = ((.ok sets, o₁), br₁))
    (hsegment : exec (Bitstream.H265.parseSegment nalUnitType sets.1 sets.2) o₁ br₁ =
    ((.ok (), o'), br')) :
    Bitstream.H265.activeSps o' = sets.2 := by
  obtain ⟨res, slice, br₂, hrun⟩ :=
    Bitstream.H265.onSlice_parseSegment nalUnitType sets.1 sets.2 o₁.slice br₁
  rw [hrun o₁ rfl] at hsegment
  cases hsegment
  rcases Bitstream.H265.exec_parseSliceSets nalUnitType o.pps o.sps br with herror |
    ⟨first, br₃, -, hfirst⟩
  · obtain ⟨e, he⟩ := herror o rfl rfl
    rw [hsets] at he
    cases he
  · rw [hfirst o rfl rfl] at hsets
    cases hsets
    rfl

theorem along_parseSliceHeader {nalUnitType : Nat} {o o' : ParseResult} {br br' : BitReader}
    {table : List RefPicSet}
    (h : exec (Bitstream.H265.parseSliceHeader nalUnitType) o br = ((.ok (), o'), br'))
    (hcodes : CodesSet nalUnitType o') (hsps : SpsRight (Bitstream.H265.activeSps o') table) :
    ∃ set o₂ br₂, exec (readSliceSet nalUnitType table) o br = ((.ok set, o₂), br₂) ∧
      StoredAs table (rpsView o') set := by
  rw [Bitstream.H265.parseSliceHeader_eq] at h
  obtain ⟨sets, o₁, br₁, hsets, h⟩ := exec_bind_ok h
  have hactive : Bitstream.H265.activeSps o' = sets.2 := activeSps_of_header hsets h
  rw [hactive] at hsps
  unfold Bitstream.H265.parseSegment at h
  obtain ⟨u, o₂, br₂, haddress, h⟩ := exec_bind_ok h
  obtain ⟨o₂', o₃, br₃, hget, h⟩ := exec_bind_ok h
  cases hget
  have htail : Bitstream.Keeps Bitstream.H265.sansDetails (do
      Bitstream.H265.parseEntryPoints sets.1 sets.2
      Bitstream.H265.parseHeaderExtension sets.1
      let _ ← brU1
      Bitstream.H265.alignLoop 8
      let headerBits ← Bitstream.brBitPos
      Bitstream.H265.setSlice fun s => { s with headerBitSize := u32 headerBits }) := by
    with_reducible repeat' first
      | assumption | exact Bitstream.H265.keeps_setDetail fun _ => rfl | refine .bind ?_ fun _ => ?_
      | simp
  dsimp only at h
  split at h
  · have hstores := stores_parseIndependent sets.1 hcodes.notIdr (hsps.number ▸ hsps.holds)
    obtain ⟨u', o₄, br₄, hindependent, hrest⟩ := exec_bind_ok h
    obtain ⟨set, br₅, hread, hset⟩ := hstores o₂ br₂ u' o₄ br₄ trivial hindependent
    have hview := keeps_rps_of_details htail o₄ br₄
    rw [hrest] at hview
    refine ⟨set, o₂, br₅, ?_, by rw [hview]; exact hset⟩
    rw [readSliceSet, exec_bind, hsets]
    dsimp only
    rw [exec_bind, haddress]
    exact hread o₂
  · rename_i hdependent
    have hview := Bitstream.H265.keeps_dependent_of_details htail o₂ br₂
    rw [h] at hview
    exact absurd (hview.symm.trans hcodes.independent) hdependent

end Slices

/-- The sets of an accepted SPS, and the own set of an accepted slice header behind it, are those
that the equations give, in canonical order, if and only if all their POC deltas fit 16 bits. -/
theorem short_term_sets_right_iff {o o' : ParseResult} {br br' : BitReader}
    (h : exec parseSps o br = ((.ok (), o'), br')) :
    ∃ sps o₁ br₁ sets o₂ br₂, exec parseSpsFields o br = ((.ok sps, o₁), br₁) ∧
      o'.sps = o.sps.set sps.spsId { sps with valid := true } ∧
      exec readSpsSets o br = ((.ok sets, o₂), br₂) ∧
      (SpsRight sps sets ↔ ∀ set ∈ sets, set.Fits) ∧
      ∀ nalUnitType p p' bs bs',
        exec (Bitstream.H265.parseSliceHeader nalUnitType) p bs = ((.ok (), p'), bs') →
        Bitstream.H265.activeSps p' = { sps with valid := true } → CodesSet nalUnitType p' →
          ((∃ set p₁ bs₁, exec (readSliceSet nalUnitType sets) p bs = ((.ok set, p₁), bs₁) ∧
              SpsRight sps sets ∧ Holds p'.slice.stRpsSlice set ∧ Canonical set) ↔
            ∃ set p₁ bs₁, exec (readSliceSet nalUnitType sets) p bs = ((.ok set, p₁), bs₁) ∧
              (∀ s ∈ sets, s.Fits) ∧ set.Fits) := by
  obtain ⟨sps, o₁, br₁, hfields, hstored⟩ := parseSps_stores h
  obtain ⟨sets, o₂, br₂, hread, hiff⟩ := sps_sets_iff hfields
  refine ⟨sps, o₁, br₁, sets, o₂, br₂, hfields, hstored, hread, hiff, ?_⟩
  intro nalUnitType p p' bs bs' hslice hactive hcodes
  have halong (hright : SpsRight sps sets) : ∃ set p₁ bs₁,
      exec (readSliceSet nalUnitType sets) p bs = ((.ok set, p₁), bs₁) ∧
      StoredAs sets (rpsView p') set := by
    refine along_parseSliceHeader hslice hcodes ?_
    rw [hactive]
    exact ⟨hright.number, hright.holds, hright.canonical⟩
  constructor
  · rintro ⟨set, p₁, bs₁, hset, hright, hheld, -⟩
    obtain ⟨set', p₂, bs₂, hset', hstoredAs⟩ := halong hright
    rw [hset] at hset'
    cases hset'
    exact ⟨set, p₁, bs₁, hset, hiff.mp hright, hheld.fits (hstoredAs hcodes.own).1⟩
  · rintro ⟨set, p₁, bs₁, hset, hfits, hsetFits⟩
    have hright := hiff.mpr hfits
    obtain ⟨set', p₂, bs₂, hset', hstoredAs⟩ := halong hright
    rw [hset] at hset'
    cases hset'
    obtain ⟨-, hreadAs⟩ := hstoredAs hcodes.own
    exact ⟨set, p₁, bs₁, hset, hright, hreadAs.holds hsetFits, hreadAs.canonical hright.canonical⟩

/-- The theorem on the SPS with a predicted set. -/
theorem short_term_sets_right_predicted : ∃ sps o₁ br₁ sets,
    exec parseSpsFields {} predictedSps = ((.ok sps, o₁), br₁) ∧ SpsRight sps sets ∧
      sets = [⟨[(-1, 1)], []⟩, ⟨[(-1, 1), (-2, 1)], []⟩] := by
  obtain ⟨u, o', br', hparse⟩ :=
    exists_of_isOk (r := exec parseSps {} predictedSps) (by decide +kernel)
  obtain ⟨sps, o₁, br₁, sets, o₂, br₂, hfields, -, hread, hiff, -⟩ :=
    short_term_sets_right_iff hparse
  have hsets : (exec readSpsSets {} predictedSps).1.1.toOption =
      some [⟨[(-1, 1)], []⟩, ⟨[(-1, 1), (-2, 1)], []⟩] := by decide +kernel
  rw [hread] at hsets
  obtain rfl := Option.some.inj hsets
  exact ⟨sps, o₁, br₁, _, hfields, hiff.mpr (by decide), rfl⟩

/-- An SPS with a set of one picture, which is 2 ^ 15 + 1 before the current one. -/
def wideSps : BitReader :=
  .init [0x01, 0x01, 0x60, 0x00, 0x00, 0x00, 0x90, 0x00, 0x00, 0x00, 0x00, 0x00, 0x1e, 0xa0, 0x20,
    0x81, 0x05, 0xff, 0xf0, 0x4a, 0x00, 0x02, 0x00, 0x06, 0x10]

/-- The picture is stored as one after the current one. -/
theorem wide_delta_wraps : (exec parseSps {} wideSps).1.1.isOk = true ∧
    (exec readSpsSets {} wideSps).1.1.toOption = some [⟨[(-(2 ^ 15 + 1), 1)], []⟩] ∧
    (exec parseSpsFields {} wideSps).1.1.toOption.map (fun sps =>
      (sps.numShortTermRefPicSets, meaning (sps.stRps.getD 0 {}))) = some
      (1, ⟨[(2 ^ 15 - 1, 1)], []⟩) := by
  refine ⟨?_, ?_, ?_⟩
  · decide +kernel
  · decide +kernel
  · decide +kernel

end Rkvdec.Engine.Rps
