import Rkvdec.Engine.RpsPrediction
import Rkvdec.Bitstream.Elements

/-! The short-term reference picture set of H.265 as the syntax table of the standard writes it, and
that `parse_st_rps` reads it back. -/
namespace Rkvdec

open Lib (golomb)
open Bitstream (Parser ParseError Decodes decodes_pure decodes_brU decodes_brU1 decodes_brUe
  decodes_flag i16 i32 u8 u32 i32_mul_i32)

namespace Bitstream.H265

section Elements

variable {s : ParseResult}

theorem decodes_brU8 {n v : Nat} (hn : n ≤ 8) (hv : v < 2 ^ n) :
    Decodes (brU8 n) s (Lib.bitsOf n v) v s := by
  have hread := (decodes_brU (s := s) (hn.trans (by decide)) hv).last (g := u8)
  have hsmall : u8 v = v := Nat.mod_eq_of_lt (hv.trans_le (Nat.pow_le_pow_right (by decide) hn))
  rw [hsmall] at hread
  exact hread

theorem decodes_brUe8 {v : Nat} (hv : v < 2 ^ 8) : Decodes brUe8 s (golomb v) v s := by
  have hread := (decodes_brUe (s := s) (v := v) (by omega)).last (g := u8)
  have hsmall : u8 v = v := Nat.mod_eq_of_lt hv
  rw [hsmall] at hread
  exact hread

theorem decodes_bit (b : Bool) : Decodes (brU8 1) s [b] b.toNat s := by
  have hread := (decodes_brU1 (s := s) b).last (g := u8)
  have hsmall : u8 b.toNat = b.toNat := Nat.mod_eq_of_lt ((Bool.toNat_le b).trans_lt (by decide))
  rw [hsmall] at hread
  exact hread

end Elements

end Bitstream.H265

namespace Engine.Rps

open Bitstream.H265
  (P ParseResult ShortTermRps maxRefs decodes_bit parsePredictionFlags parseDeltas parseInterRps
    parseDirectRps parseStRps predictFrom)

section Syntax

/-- A flag that the set keeps as a number. -/
def writeBit (v : Nat) : List Bool := [decide (v ≠ 0)]

def writeFlags (flags : List (Nat × Bool)) : List Bool :=
  flags.flatMap fun f => writeBit f.1 ++ (if f.1 = 0 then [f.2] else [])

def writeDeltas (l : List (Nat × Nat)) : List Bool := l.flatMap fun e => golomb e.1 ++ writeBit e.2

/-- `short_term_ref_pic_set(idx)`; a set with the index `num` is that of a slice header. -/
def writeCoded (idx num : Nat) : Coded → List Bool
  | .predicted deltaIdxMinus1 deltaRpsSign absDeltaRpsMinus1 flags =>
    (if idx ≠ 0 then [true] else []) ++ ((if idx = num then golomb deltaIdxMinus1 else []) ++
      (writeBit deltaRpsSign ++ (golomb absDeltaRpsMinus1 ++ writeFlags flags)))
  | .explicit s0 s1 =>
    (if idx ≠ 0 then [false] else []) ++
      (golomb s0.length ++ (golomb s1.length ++ (writeDeltas s0 ++ writeDeltas s1)))

/-- The elements have values that their syntax can express. -/
def Coded.Writable (table : List RefPicSet) (idx num : Nat) : Coded → Prop
  | .predicted deltaIdxMinus1 deltaRpsSign absDeltaRpsMinus1 flags =>
    (deltaIdxMinus1 < idx ∧ deltaIdxMinus1 ≤ 2 ^ 32 - 2 ∧ (idx ≠ num → deltaIdxMinus1 = 0)) ∧
    deltaRpsSign ≤ 1 ∧ absDeltaRpsMinus1 ≤ 2 ^ 32 - 2 ∧
    flags.length = (table.getD (idx - (deltaIdxMinus1 + 1)) ⟨[], []⟩).numDeltaPocs + 1 ∧
    ∀ f ∈ flags, f.1 ≤ 1 ∧ (f.1 ≠ 0 → f.2 = true)
  | .explicit s0 s1 => ∀ e ∈ s0 ++ s1, e.1 ≤ 2 ^ 32 - 2 ∧ e.2 ≤ 1

/-- The set has pictures and deltas as the standard allows them. -/
structure RefPicSet.InRange (set : RefPicSet) : Prop where
  fits : set.Fits
  few : set.numDeltaPocs ≤ 16

def Coded.isPredicted : Coded → Bool
  | .predicted _ _ _ _ => true
  | .explicit _ _ => false

end Syntax

section Reading

variable {s : ParseResult} {table : List RefPicSet} {rpsList : List ShortTermRps} {idx num : Nat}

theorem decodes_writeBit {v : Nat} (hv : v ≤ 1) :
    Decodes (Bitstream.H265.brU8 1) s (writeBit v) v s := by
  have hread := decodes_bit (s := s) (decide (v ≠ 0))
  have hback : (decide (v ≠ 0)).toNat = v := by
    interval_cases v
    · rfl
    · rfl
  rwa [hback] at hread

theorem decodes_sign {v : Nat} (hv : v ≤ 1) :
    Decodes (Bitstream.brU1 : P Nat) s (writeBit v) v s := by
  have hread := decodes_brU1 (s := s) (decide (v ≠ 0))
  have hback : (decide (v ≠ 0)).toNat = v := by
    interval_cases v
    · rfl
    · rfl
  rwa [hback] at hread

theorem decodes_predictionFlags {flags : List (Nat × Bool)}
    (hflags : ∀ f ∈ flags, f.1 ≤ 1 ∧ (f.1 ≠ 0 → f.2 = true)) (j : Nat) :
    Decodes (parsePredictionFlags flags.length j) s (writeFlags flags) flags s := by
  induction flags generalizing j with
  | nil => exact decodes_pure [] s
  | cons f flags ih =>
    obtain ⟨hused, huse⟩ := hflags f List.mem_cons_self
    have hrest := ih (fun f' hf' => hflags f' (List.mem_cons_of_mem _ hf')) (j + 1)
    have hbits : writeFlags (f :: flags) =
        writeBit f.1 ++ ((if f.1 = 0 then [f.2] else []) ++ writeFlags flags) := by
      rw [writeFlags, List.flatMap_cons, List.append_assoc]
      rfl
    have hboth : (f.1, f.2) = f := rfl
    rw [hbits]
    refine .access ((decodes_writeBit hused).bind ?_)
    by_cases hzero : f.1 = 0
    · rw [if_pos hzero, if_pos hzero]
      exact (decodes_flag f.2).bind hrest.last
    · rw [if_neg hzero, if_neg hzero]
      refine (decodes_pure true s).bind ?_
      rw [← huse hzero]
      exact hrest.last

theorem decodes_deltas {l : List (Nat × Nat)} (hl : ∀ e ∈ l, e.1 ≤ 2 ^ 32 - 2 ∧ e.2 ≤ 1)
    (sign prev : Int) (j : Nat) (out : ShortTermRps) :
    ∃ out', Decodes (parseDeltas sign l.length j prev out) s (writeDeltas l) out' s ∧
      out'.interRefPicSetPredictionFlag = out.interRefPicSetPredictionFlag := by
  induction l generalizing j prev out with
  | nil => exact ⟨out, decodes_pure out s, rfl⟩
  | cons e l ih =>
    obtain ⟨hdelta, hused⟩ := hl e List.mem_cons_self
    have hbits : writeDeltas (e :: l) = golomb e.1 ++ (writeBit e.2 ++ writeDeltas l) := by
      rw [writeDeltas, List.flatMap_cons, List.append_assoc]
      rfl
    obtain ⟨out', hrest, hinter⟩ := ih (fun e' he' => hl e' (List.mem_cons_of_mem _ he'))
      (i32 (prev + sign * i32 (i32 e.1 + 1))) (j + 1)
      { out with
        deltaPoc := out.deltaPoc.set j (i16 (i32 (prev + sign * i32 (i32 e.1 + 1))))
        usedByCurrPicFlag := out.usedByCurrPicFlag.set j e.2 }
    refine ⟨out', ?_, hinter⟩
    rw [hbits]
    exact (decodes_brUe hdelta).bind (.access ((decodes_writeBit hused).bind hrest))

theorem decodes_readDeltas {l : List (Nat × Nat)} (hl : ∀ e ∈ l, e.1 ≤ 2 ^ 32 - 2 ∧ e.2 ≤ 1) :
    Decodes (readDeltas l.length) s (writeDeltas l) l s := by
  induction l with
  | nil => exact decodes_pure [] s
  | cons e l ih =>
    obtain ⟨hdelta, hused⟩ := hl e List.mem_cons_self
    have hrest := ih fun e' he' => hl e' (List.mem_cons_of_mem _ he')
    have hbits : writeDeltas (e :: l) = golomb e.1 ++ (writeBit e.2 ++ writeDeltas l) := by
      rw [writeDeltas, List.flatMap_cons, List.append_assoc]
      rfl
    rw [hbits]
    exact (decodes_brUe hdelta).bind ((decodes_writeBit hused).bind hrest.last)

theorem Agrees.decoded {α β : Type} {M : α → β → Prop} {p : P α} {q : P β} {a : α} {b : β}
    {w : List Bool} {s' : ParseResult} (h : Agrees p q M) (hp : Decodes p s w a s')
    (hq : Decodes q s w b s) : M a b := by
  obtain ⟨data, rest, hdata⟩ := Bitstream.exists_data w
  obtain ⟨b', hread, hab⟩ := h s (.init data) a s' _ (hp (.init data) rest hdata)
  have hsame := (hread s).symm.trans (hq (.init data) rest hdata)
  simp only [Prod.mk.injEq, Except.ok.injEq] at hsame
  rw [hsame.1.1] at hab
  exact hab

theorem decodes_parseDirectRps {s0 s1 : List (Nat × Nat)}
    (hwrite : (Coded.explicit s0 s1).Writable table idx num)
    (hrange : ((Coded.explicit s0 s1).derive table idx).InRange) (inter : Nat) :
    ∃ rps, Decodes (parseDirectRps { interRefPicSetPredictionFlag := inter }) s
        (golomb s0.length ++ (golomb s1.length ++ (writeDeltas s0 ++ writeDeltas s1))) rps s ∧
      Holds rps ((Coded.explicit s0 s1).derive table idx) ∧
      rps.interRefPicSetPredictionFlag = inter := by
  have hneg := decodes_deltas (s := s) (l := s0) fun e he => hwrite e (List.mem_append_left _ he)
  have hpos := decodes_deltas (s := s) (l := s1) fun e he => hwrite e (List.mem_append_right _ he)
  have hfew : s0.length + s1.length ≤ 16 := by
    have hcount := hrange.few
    simp only [RefPicSet.numDeltaPocs, Coded.derive, length_accumulate] at hcount
    exact hcount
  have hu32 : u32 (s0.length + s1.length) = s0.length + s1.length := Nat.mod_eq_of_lt (by omega)
  obtain ⟨out₁, hneg, hinter⟩ := hneg (-1) 0 0 {
    interRefPicSetPredictionFlag := inter
    numNegativePics := u8 s0.length
    numPositivePics := u8 s1.length
    numDeltaPocs := u8 (s0.length + s1.length) }
  obtain ⟨out₂, hpos, hinter'⟩ := hpos 1 0 s0.length out₁
  have hparse : Decodes (parseDirectRps { interRefPicSetPredictionFlag := inter }) s
      (golomb s0.length ++ (golomb s1.length ++ (writeDeltas s0 ++ writeDeltas s1))) out₂ s := by
    unfold parseDirectRps
    refine (decodes_brUe (by omega)).bind ((decodes_brUe (by omega)).bind ?_)
    rw [if_neg (by rw [hu32]; unfold maxRefs; omega)]
    exact hneg.bind hpos
  have hread : Decodes readExplicit s
      (golomb s0.length ++ (golomb s1.length ++ (writeDeltas s0 ++ writeDeltas s1)))
        (.explicit s0 s1) s := by
    unfold readExplicit
    refine (decodes_brUe (by omega)).bind ((decodes_brUe (by omega)).bind ?_)
    refine (decodes_readDeltas fun e he => hwrite e (List.mem_append_left _ he)).bind ?_
    exact (decodes_readDeltas fun e he => hwrite e (List.mem_append_right _ he)).last
  exact ⟨out₂, hparse, agrees_direct.decoded hparse hread hrange.fits, hinter'.trans hinter⟩

theorem decodes_predictFrom {ref : ShortTermRps} {flags : List (Nat × Bool)} {deltaRps : Int}
    {keep : Int → Bool} (l : List Nat) : Decodes (predictFrom ref flags deltaRps keep l) s []
      (l.filterMap (predictEntry ref flags deltaRps keep)) s :=
  fun br _ _ => exec_predictFrom l s br

theorem decodes_parseInterRps {d sign absDelta : Nat} {flags : List (Nat × Bool)}
    (hwrite : (Coded.predicted d sign absDelta flags).Writable table idx num)
    (htable : TableHolds rpsList table idx)
    (hfew : ∀ set ∈ table, set.numDeltaPocs ≤ 16)
    (hrange : ((Coded.predicted d sign absDelta flags).derive table idx).InRange) (inter : Nat) :
    ∃ rps, Decodes (parseInterRps rpsList idx num { interRefPicSetPredictionFlag := inter }) s
        ((if idx = num then golomb d else []) ++
          (writeBit sign ++ (golomb absDelta ++ writeFlags flags))) rps s ∧
      Holds rps ((Coded.predicted d sign absDelta flags).derive table idx) ∧
      rps.interRefPicSetPredictionFlag = inter := by
  obtain ⟨⟨hidx, hd, hother⟩, hsign, habs, hlen, hflags⟩ := hwrite
  have hu32 : u32 (d + 1) = d + 1 := Nat.mod_eq_of_lt (by omega)
  have href := htable (idx - (d + 1)) (by omega)
  have hcount : ¬maxRefs < (rpsList.getD (idx - (d + 1)) {}).numDeltaPocs := by
    rw [href.count]
    unfold maxRefs
    rw [List.getD_eq_getElem?_getD]
    cases hget : table[idx - (d + 1)]? with
    | none => decide
    | some set =>
      have hset := hfew set (List.mem_of_getElem? hget)
      exact Nat.not_lt.mpr hset
  obtain ⟨hneg, hpos⟩ := predict_eq href (i32_deltaRps sign absDelta) hrange.fits
  have hentries : ¬maxRefs < (((Coded.predicted d sign absDelta flags).derive table idx).s0 ++
      ((Coded.predicted d sign absDelta flags).derive table idx).s1).length := by
    rw [List.length_append]
    exact Nat.not_lt.mpr hrange.few
  refine ⟨_, ?_, holds_entries rfl rfl hentries { interRefPicSetPredictionFlag := inter }, rfl⟩
  have hlen' : flags.length = (rpsList.getD (idx - (d + 1)) {}).numDeltaPocs + 1 := by
    rw [hlen, href.count]
  unfold parseInterRps
  refine .branch (fun _ => decodes_brUe hd) (fun hslice => ?_) ?_
  · rw [hother hslice]
    exact decodes_pure 0 s
  dsimp only
  rw [hu32, if_neg (by omega)]
  refine (decodes_sign hsign).bind ((decodes_brUe habs).bind (.access ?_))
  rw [if_neg hcount, ← hlen', ← List.append_nil (writeFlags flags)]
  refine (decodes_predictionFlags hflags 0).bind ?_
  refine (decodes_predictFrom _).silent ((decodes_predictFrom _).silent ?_)
  refine (decodes_predictFrom _).silent ((decodes_predictFrom _).silent ?_)
  rw [hneg, hpos]
  refine .accessIf (.cond (fun hmany => absurd hmany hentries) fun _ => ?_)
  exact decodes_pure _ s

/-- A set is read as it was written, and stored as the syntax elements derive it. -/
theorem decodes_parseStRps {g : Nat → ParseResult → ParseResult} {coded : Coded}
    (hwrite : coded.Writable table idx num) (htable : TableHolds rpsList table idx)
    (hfew : ∀ set ∈ table, set.numDeltaPocs ≤ 16) (hrange : (coded.derive table idx).InRange) :
    ∃ rps, Decodes (parseStRps (fun n => modify (g n)) rpsList idx num) s
      (writeCoded idx num coded) rps
        (g coded.isPredicted.toNat s) ∧
      Holds rps (coded.derive table idx) ∧
      rps.interRefPicSetPredictionFlag = coded.isPredicted.toNat := by
  unfold parseStRps
  cases coded with
  | predicted d sign absDelta flags =>
    obtain ⟨rps, hparse, hholds, hflag'⟩ :=
      decodes_parseInterRps (s := g 1 s) hwrite htable hfew hrange 1
    refine ⟨rps, ?_, hholds, hflag'⟩
    refine .branch (fun _ => decodes_brU1 true) (fun hzero => ?_) ?_
    · exact absurd hwrite.1.1 (by omega)
    exact .update hparse
  | explicit s0 s1 =>
    obtain ⟨rps, hparse, hholds, hflag'⟩ := decodes_parseDirectRps (s := g 0 s) hwrite hrange 0
    refine ⟨rps, ?_, hholds, hflag'⟩
    refine .branch (fun _ => decodes_brU1 false) (fun _ => decodes_pure 0 s) ?_
    exact .update hparse

end Reading

end Engine.Rps

end Rkvdec
