import Mathlib.Data.Int.Bitwise
import Rkvdec.Av1.MotionField

/-! The references of the skip mode: the search of the parser over its saved states and that of the
register builder over its own table, beside section 5.9.22 of the standard, along the runs of the
engine. -/
namespace Rkvdec.Av1

section Parser

/-- The search of `compute_skip_mode`: the hints and the references, -1 where there is none. -/
structure ParserSearch where
  ob : Int := -1
  oa : Int := -1
  obIdx : Int := -1
  oaIdx : Int := -1

/-- `get_relative_dist` of a hint and one that a search holds. -/
def hintDist (bits : Nat) (refpoc : Nat) (held : Int) : Int :=
  (getRelativeDist bits (BitVec.ofNat 32 refpoc) (BitVec.ofInt 32 held)).toInt

/-- A turn of the first loop. -/
def ParserSearch.step (bits cur : Nat) (hint : Fin 7 → Option Nat) (s : ParserSearch) (i : Fin 7) :
    ParserSearch :=
  match hint i with
  | none => s
  | some refpoc =>
    let diff := hintDist bits refpoc cur
    if 0 < diff then
      if s.oa < 0 ∨ hintDist bits refpoc s.oa < 0 then { s with
        oa := refpoc, oaIdx := i.val } else s
    else if diff < 0 then
      if s.ob < 0 ∨ 0 < hintDist bits refpoc s.ob then { s with
        ob := refpoc, obIdx := i.val } else s
    else s

/-- A turn of the second loop, on `ob2` and `ob2_idx`. -/
def secondStep (bits : Nat) (ob : Int) (hint : Fin 7 → Option Nat) (s : Int × Int) (i : Fin 7) :
    Int × Int :=
  match hint i with
  | none => s
  | some refpoc =>
    if hintDist bits refpoc ob < 0 then
      if s.1 < 0 ∨ 0 < hintDist bits refpoc s.1 then (refpoc, i.val) else s
    else s

/-- The hint of the slot that a reference has; a slot that is not valid is skipped. -/
def savedHint (prev : Slot → Option FrameHeader) (hdr : FrameHeader) (i : Fin 7) : Option Nat :=
  (prev (hdr.refidx i)).map FrameHeader.frameOffset

/-- `compute_skip_mode`: `skip_mode_refs` where `skip_mode_allowed` is set. -/
def computeSkipMode (seqOrderHintBits : Nat) (prev : Slot → Option FrameHeader)
    (hdr : FrameHeader) : Option (Int × Int) :=
  if seqOrderHintBits = 0 then none
  else
    let hint := savedHint prev hdr
    let s := (List.finRange 7).foldl (ParserSearch.step seqOrderHintBits hdr.frameOffset hint) {}
    if 0 ≤ Int.lor s.ob s.oa then some (min s.obIdx s.oaIdx, max s.obIdx s.oaIdx)
    else if 0 ≤ s.ob then
      let t := (List.finRange 7).foldl (secondStep seqOrderHintBits s.ob hint) (-1, -1)
      if 0 ≤ t.1 then some (min s.obIdx t.2, max s.obIdx t.2) else none
    else none

end Parser

section Builder

/-- The search of the register builder: -1 for a reference that there is not, and the hints. -/
structure BuilderSearch where
  forwardIdx : Int := -1
  backwardIdx : Int := -1
  forwardHint : Int := 0
  backwardHint : Int := 0

/-- `order_hint_dist` of a hint and one that a search holds. -/
def builderDist (bits : Nat) (rh : Nat) (held : Int) : Int :=
  (orderHintDist bits (BitVec.ofNat 32 rh) (BitVec.ofInt 32 held)).toInt

def BuilderSearch.step (bits cur : Nat) (hint : Fin 7 → Option Nat) (s : BuilderSearch)
    (i : Fin 7) : BuilderSearch :=
  match hint i with
  | none => s
  | some rh =>
    let d := builderDist bits rh cur
    if d < 0 then
      if s.forwardIdx < 0 ∨ 0 < builderDist bits rh s.forwardHint then { s with
        forwardIdx := i.val, forwardHint := rh } else s
    else if 0 < d then
      if s.backwardIdx < 0 ∨ builderDist bits rh s.backwardHint < 0 then { s with
        backwardIdx := i.val, backwardHint := rh }
      else s
    else s

/-- The loop for `second_idx` and `second_hint`. -/
def builderSecondStep (bits : Nat) (forwardHint : Int) (hint : Fin 7 → Option Nat) (s : Int × Int)
    (i : Fin 7) : Int × Int :=
  match hint i with
  | none => s
  | some rh =>
    if builderDist bits rh forwardHint < 0 then
      if s.1 < 0 ∨ 0 < builderDist bits rh s.2 then (i.val, rh) else s
    else s

/-- The hint of the slot in the table of the builder. -/
def Dpb.hint (dpb : Dpb) (hdr : FrameHeader) (i : Fin 7) : Option Nat :=
  (dpb.slots (hdr.refidx i)).map DpbSlot.frameOffset

/-- The frames that the builder searches for. -/
def Dpb.Searches (dpb : Dpb) (hdr : FrameHeader) : Prop :=
  hdr.frameType.isKeyOrIntra = false ∧ hdr.allowIntrabc = false ∧ dpb.orderHintBits ≠ 0

instance (dpb : Dpb) (hdr : FrameHeader) : Decidable (dpb.Searches hdr) :=
  inferInstanceAs (Decidable (_ ∧ _ ∧ _))

/-- The pair that the builder finds for itself, counted from 1. -/
def builderSkipRefs (dpb : Dpb) (hdr : FrameHeader) : Int × Int :=
  if dpb.Searches hdr then
    let hint := dpb.hint hdr
    let s := (List.finRange 7).foldl (BuilderSearch.step dpb.orderHintBits hdr.frameOffset hint) {}
    if 0 ≤ s.forwardIdx ∧ 0 ≤ s.backwardIdx then
      (min s.forwardIdx s.backwardIdx + 1, max s.forwardIdx s.backwardIdx + 1)
    else if 0 ≤ s.forwardIdx then
      let t :=
        (List.finRange 7).foldl (builderSecondStep dpb.orderHintBits s.forwardHint hint) (-1, 0)
      if 0 ≤ t.1 then (min s.forwardIdx t.1 + 1, max s.forwardIdx t.1 + 1) else (1, 1)
    else (1, 1)
  else (1, 1)

/-- What the parser leaves in `skip_mode_refs` of an inter frame: it searches where
`reference_select` is set. `none`: `skip_mode_allowed` is 0. -/
def parsedSkipRefs (referenceSelect : Bool) (seqOrderHintBits : Nat)
    (prev : Slot → Option FrameHeader) (hdr : FrameHeader) : Option (Int × Int) :=
  if referenceSelect then computeSkipMode seqOrderHintBits prev hdr else none

/-- `sw_skip_ref0` and `sw_skip_ref1`: the pair of the parser where it found one, else the
builder's. -/
def swSkipRefs (parsed : Option (Int × Int)) (dpb : Dpb) (hdr : FrameHeader) : Int × Int :=
  match parsed with
  | some refs => (refs.1 + 1, refs.2 + 1)
  | none => builderSkipRefs dpb hdr

end Builder

section Standard

/-- A reference and its hint. -/
abbrev Found := Option (Fin 7 × Nat)

/-- The reference takes the place of the one that is held when its hint is closer. -/
def takeCloser (closer : Nat → Nat → Bool) (held : Found) (i : Fin 7) (hint : Nat) : Found :=
  match held with
  | none => some (i, hint)
  | some f => if closer hint f.2 then some (i, hint) else held

variable (dist : Nat → Nat → Int) (hint : Fin 7 → Option Nat)

/-- `forwardIdx` with `forwardHint`: the closest reference before the frame. -/
def forwardStep (cur : Nat) (held : Found) (i : Fin 7) : Found :=
  match hint i with
  | none => held
  | some refHint =>
    if dist refHint cur < 0 then takeCloser (fun a b => 0 < dist a b) held i refHint else held

/-- `backwardIdx` with `backwardHint`: the closest reference behind it. -/
def backwardStep (cur : Nat) (held : Found) (i : Fin 7) : Found :=
  match hint i with
  | none => held
  | some refHint =>
    if 0 < dist refHint cur then takeCloser (fun a b => dist a b < 0) held i refHint else held

def forwardRef (cur : Nat) : Found := (List.finRange 7).foldl (forwardStep dist hint cur) none
def backwardRef (cur : Nat) : Found := (List.finRange 7).foldl (backwardStep dist hint cur) none

/-- `SkipModeFrame[]` of `skip_mode_params()`, counted from LAST; `none` where `skipModeAllowed` is
0. With no reference behind the frame it takes the closest one before `forwardHint`. -/
def skipModeFrame (cur : Nat) : Option (Fin 7 × Fin 7) :=
  (forwardRef dist hint cur).bind fun forward =>
    match backwardRef dist hint cur with
    | some backward => some (min forward.1 backward.1, max forward.1 backward.1)
    | none =>
      (forwardRef dist hint forward.2).map fun second =>
        (min forward.1 second.1, max forward.1 second.1)

end Standard

section Agreement

variable {bits cur : Nat} {hint : Fin 7 → Option Nat}

theorem hintDist_eq (hbits : bits ≤ 8) (a b : Nat) : hintDist bits a b = relativeDist bits a b :=
  getRelativeDist_eq hbits

theorem builderDist_eq (a : Nat) (held : Int) : builderDist bits a held = hintDist bits a held := by
  rw [builderDist, orderHintDist_eq, hintDist]

/-- A hint and a reference that stand for what is found: -1 for nothing. -/
structure Marks (hintOf idx : Int) (f : Found) : Prop where
  hint : hintOf = (f.map fun f => (f.2 : Int)).getD (-1)
  idx : idx = (f.map fun f => (f.1.val : Int)).getD (-1)

/-- The same where the reference says whether there is anything. -/
structure MarksIdx (hintOf idx : Int) (f : Found) : Prop where
  hint : ∀ x, f = some x → hintOf = x.2
  idx : idx = (f.map fun f => (f.1.val : Int)).getD (-1)

variable {hintOf idx : Int} {f : Found} {C : Int → Prop} [DecidablePred C] {i : Fin 7} {n : Nat}

theorem marks_some (i : Fin 7) (n : Nat) : Marks n i.val (some (i, n)) := ⟨rfl, rfl⟩

theorem marksIdx_some (i : Fin 7) (n : Nat) : MarksIdx n i.val (some (i, n)) := by
  refine ⟨?_, rfl⟩
  rintro x ⟨⟩
  rfl

theorem marksIdx_none (hintOf : Int) : MarksIdx hintOf (-1) none := by
  refine ⟨?_, rfl⟩
  rintro x ⟨⟩

theorem Marks.nonneg_iff (h : Marks hintOf idx f) : 0 ≤ hintOf ↔ f.isSome := by
  rw [h.hint]
  cases f with
  | none => decide
  | some x => exact iff_of_true (Int.natCast_nonneg _) rfl

theorem MarksIdx.nonneg_iff (h : MarksIdx hintOf idx f) : 0 ≤ idx ↔ f.isSome := by
  rw [h.idx]
  cases f with
  | none => decide
  | some x => exact iff_of_true (Int.natCast_nonneg _) rfl

/-- The parser takes a closer reference as the standard does. -/
theorem Marks.take (hbits : bits ≤ 8) (h : Marks hintOf idx f) :
    takeCloser (fun a b => C (relativeDist bits a b)) f i n =
    if hintOf < 0 ∨ C (hintDist bits n hintOf) then some (i, n) else f := by
  cases f with
  | none =>
    rw [if_pos (.inl (by rw [h.hint]; decide))]
    rfl
  | some x =>
    have hheld : hintOf = (x.2 : Int) := h.hint
    have hpos : ¬(x.2 : Int) < 0 := by omega
    rw [hheld, hintDist_eq hbits]
    simp only [or_iff_right hpos, takeCloser, decide_eq_true_iff]

theorem MarksIdx.take (hbits : bits ≤ 8) (h : MarksIdx hintOf idx f) :
    takeCloser (fun a b => C (relativeDist bits a b)) f i n =
    if idx < 0 ∨ C (builderDist bits n hintOf) then some (i, n) else f := by
  cases f with
  | none =>
    rw [if_pos (.inl (by rw [h.idx]; decide))]
    rfl
  | some x =>
    have hheld : hintOf = (x.2 : Int) := h.hint x rfl
    have hidx : idx = (x.1.val : Int) := h.idx
    have hpos : ¬(x.1.val : Int) < 0 := by omega
    rw [hheld, hidx, builderDist_eq, hintDist_eq hbits]
    simp only [or_iff_right hpos, takeCloser, decide_eq_true_iff]

theorem parser_forward (hbits : bits ≤ 8) (s : ParserSearch) (h : Marks s.ob s.obIdx f) :
    Marks (s.step bits cur hint i).ob (s.step bits cur hint i).obIdx
      (forwardStep (relativeDist bits) hint cur f i) := by
  unfold ParserSearch.step forwardStep
  cases hint i with
  | none => exact h
  | some refpoc =>
    dsimp only
    rw [hintDist_eq hbits, Marks.take (C := fun d => 0 < d) hbits h]
    by_cases hneg : relativeDist bits refpoc cur < 0
    · rw [if_neg (by omega), if_pos hneg, if_pos hneg]
      split
      · exact marks_some i refpoc
      · exact h
    · rw [if_neg hneg, if_neg hneg]
      split
      · split
        · exact h
        · exact h
      · exact h

theorem parser_backward (hbits : bits ≤ 8) (s : ParserSearch) (h : Marks s.oa s.oaIdx f) :
    Marks (s.step bits cur hint i).oa (s.step bits cur hint i).oaIdx
      (backwardStep (relativeDist bits) hint cur f i) := by
  unfold ParserSearch.step backwardStep
  cases hint i with
  | none => exact h
  | some refpoc =>
    dsimp only
    rw [hintDist_eq hbits, Marks.take (C := fun d => d < 0) hbits h]
    by_cases hpos : 0 < relativeDist bits refpoc cur
    · rw [if_pos hpos, if_pos hpos]
      split
      · exact marks_some i refpoc
      · exact h
    · rw [if_neg hpos, if_neg hpos]
      split
      · split
        · exact h
        · exact h
      · exact h

theorem parser_second (hbits : bits ≤ 8) (s : Int × Int) (h : Marks s.1 s.2 f) :
    Marks (secondStep bits cur hint s i).1 (secondStep bits cur hint s i).2
      (forwardStep (relativeDist bits) hint cur f i) := by
  unfold secondStep forwardStep
  cases hint i with
  | none => exact h
  | some refpoc =>
    dsimp only
    rw [hintDist_eq hbits, Marks.take (C := fun d => 0 < d) hbits h]
    split
    · split
      · exact marks_some i refpoc
      · exact h
    · exact h

theorem builder_forward (hbits : bits ≤ 8) (s : BuilderSearch)
    (h : MarksIdx s.forwardHint s.forwardIdx f) :
    MarksIdx (s.step bits cur hint i).forwardHint (s.step bits cur hint i).forwardIdx
      (forwardStep (relativeDist bits) hint cur f i) := by
  unfold BuilderSearch.step forwardStep
  cases hint i with
  | none => exact h
  | some rh =>
    dsimp only
    rw [builderDist_eq, hintDist_eq hbits, MarksIdx.take (C := fun d => 0 < d) hbits h]
    split
    · split
      · exact marksIdx_some i rh
      · exact h
    · split
      · split
        · exact h
        · exact h
      · exact h

theorem builder_backward (hbits : bits ≤ 8) (s : BuilderSearch)
    (h : MarksIdx s.backwardHint s.backwardIdx f) :
    MarksIdx (s.step bits cur hint i).backwardHint (s.step bits cur hint i).backwardIdx
      (backwardStep (relativeDist bits) hint cur f i) := by
  unfold BuilderSearch.step backwardStep
  cases hint i with
  | none => exact h
  | some rh =>
    dsimp only
    rw [builderDist_eq, hintDist_eq hbits, MarksIdx.take (C := fun d => d < 0) hbits h]
    by_cases hpos : 0 < relativeDist bits rh cur
    · rw [if_neg (by omega), if_pos hpos, if_pos hpos]
      split
      · exact marksIdx_some i rh
      · exact h
    · rw [if_neg hpos, if_neg hpos]
      split
      · split
        · exact h
        · exact h
      · exact h

theorem builder_second (hbits : bits ≤ 8) (s : Int × Int) (h : MarksIdx s.2 s.1 f) :
    MarksIdx (builderSecondStep bits cur hint s i).2 (builderSecondStep bits cur hint s i).1
      (forwardStep (relativeDist bits) hint cur f i) := by
  unfold builderSecondStep forwardStep
  cases hint i with
  | none => exact h
  | some rh =>
    dsimp only
    rw [builderDist_eq, hintDist_eq hbits, MarksIdx.take (C := fun d => 0 < d) hbits h]
    split
    · split
      · exact marksIdx_some i rh
      · exact h
    · exact h

/-- A sign bit in either of them. -/
theorem lor_nonneg_iff (a b : Int) : 0 ≤ Int.lor a b ↔ 0 ≤ a ∧ 0 ≤ b := by
  cases a with
  | ofNat m =>
    cases b with
    | ofNat n =>
      exact iff_of_true (Int.natCast_nonneg _) ⟨Int.natCast_nonneg _, Int.natCast_nonneg _⟩
    | negSucc n =>
      exact iff_of_false (Int.not_le.mpr (Int.negSucc_lt_zero _)) fun h =>
        absurd h.2 (Int.not_le.mpr (Int.negSucc_lt_zero _))
  | negSucc m =>
    have hneg : ¬(0 ≤ Int.negSucc m ∧ 0 ≤ b) :=
      fun h => absurd h.1 (Int.not_le.mpr (Int.negSucc_lt_zero _))
    cases b with
    | ofNat n => exact iff_of_false (Int.not_le.mpr (Int.negSucc_lt_zero _)) hneg
    | negSucc n => exact iff_of_false (Int.not_le.mpr (Int.negSucc_lt_zero _)) hneg

/-- The pair as the parser stores it. -/
def pairInt (p : Fin 7 × Fin 7) : Int × Int := ((p.1.val : Int), (p.2.val : Int))

theorem pairInt_minMax (i j : Fin 7) :
    pairInt (min i j, max i j) = (min (i.val : Int) j.val, max (i.val : Int) j.val) := by
  unfold pairInt
  rcases le_total i j with h | h
  · rw [min_eq_left h, max_eq_right h, min_eq_left (Int.ofNat_le.mpr h),
      max_eq_right (Int.ofNat_le.mpr h)]
  · rw [min_eq_right h, max_eq_left h, min_eq_right (Int.ofNat_le.mpr h),
      max_eq_left (Int.ofNat_le.mpr h)]

/-- The pair that the builder writes, counted from 1, and the value without one. -/
def pairRegs (p : Option (Fin 7 × Fin 7)) : Int × Int :=
  (p.map fun p => ((p.1.val : Int) + 1, (p.2.val : Int) + 1)).getD (1, 1)

theorem pairRegs_minMax (i j : Fin 7) :
    pairRegs (some (min i j, max i j)) =
    (min (i.val : Int) j.val + 1, max (i.val : Int) j.val + 1) := by
  have hpair := pairInt_minMax i j
  exact congrArg (fun p : Int × Int => (p.1 + 1, p.2 + 1)) hpair

/-- The parser finds the pair of the standard, with the hints of its saved states. -/
theorem computeSkipMode_eq (hbits : bits ≤ 8) (henabled : bits ≠ 0)
    (prev : Slot → Option FrameHeader) (hdr : FrameHeader) :
    computeSkipMode bits prev hdr =
    (skipModeFrame (relativeDist bits) (savedHint prev hdr) hdr.frameOffset).map pairInt := by
  unfold computeSkipMode
  rw [if_neg henabled]
  dsimp only
  have hforward : Marks
      ((List.finRange 7).foldl (ParserSearch.step bits hdr.frameOffset (savedHint prev hdr)) {}).ob
      ((List.finRange 7).foldl (ParserSearch.step bits hdr.frameOffset (savedHint prev hdr))
        {}).obIdx
      (forwardRef (relativeDist bits) (savedHint prev hdr) hdr.frameOffset) :=
    List.foldl_rel (r := fun (s : ParserSearch) f => Marks s.ob s.obIdx f) ⟨rfl, rfl⟩
      fun i _ s f h => parser_forward hbits s h
  have hbackward : Marks
      ((List.finRange 7).foldl (ParserSearch.step bits hdr.frameOffset (savedHint prev hdr)) {}).oa
      ((List.finRange 7).foldl (ParserSearch.step bits hdr.frameOffset (savedHint prev hdr))
        {}).oaIdx
      (backwardRef (relativeDist bits) (savedHint prev hdr) hdr.frameOffset) :=
    List.foldl_rel (r := fun (s : ParserSearch) f => Marks s.oa s.oaIdx f) ⟨rfl, rfl⟩
      fun i _ s f h => parser_backward hbits s h
  generalize (List.finRange 7).foldl (ParserSearch.step bits hdr.frameOffset (savedHint prev hdr))
    {} = s at hforward hbackward
  have hboth := lor_nonneg_iff s.ob s.oa
  have hone := hforward.nonneg_iff
  rw [hforward.nonneg_iff, hbackward.nonneg_iff] at hboth
  unfold skipModeFrame
  generalize forwardRef (relativeDist bits) (savedHint prev hdr) hdr.frameOffset = forward
    at hforward hboth hone
  generalize backwardRef (relativeDist bits) (savedHint prev hdr) hdr.frameOffset = backward
    at hbackward hboth
  cases forward with
  | none =>
    rw [if_neg (fun h => Bool.noConfusion (hboth.mp h).1),
      if_neg (fun h => Bool.noConfusion (hone.mp h))]; rfl
  | some x =>
    have hidx : s.obIdx = (x.1.val : Int) := hforward.idx
    have hheld : s.ob = (x.2 : Int) := hforward.hint
    cases backward with
    | some y =>
      have hother : s.oaIdx = (y.1.val : Int) := hbackward.idx
      rw [if_pos (hboth.mpr ⟨rfl, rfl⟩), hidx, hother, ← pairInt_minMax]
      rfl
    | none =>
      have hsecond :
          Marks ((List.finRange 7).foldl (secondStep bits s.ob (savedHint prev hdr)) (-1, -1)).1
          ((List.finRange 7).foldl (secondStep bits s.ob (savedHint prev hdr)) (-1, -1)).2
          (forwardRef (relativeDist bits) (savedHint prev hdr) x.2) := by
        rw [hheld]
        exact List.foldl_rel (r := fun (s : Int × Int) f => Marks s.1 s.2 f) ⟨rfl, rfl⟩
          fun i _ s f h => parser_second hbits s h
      rw [if_neg (fun h => Bool.noConfusion (hboth.mp h).2), if_pos (hone.mpr rfl)]
      generalize (List.finRange 7).foldl (secondStep bits s.ob (savedHint prev hdr)) (-1, -1) =
        t at hsecond
      have hfound := hsecond.nonneg_iff
      rw [Option.bind_some]
      dsimp only
      generalize forwardRef (relativeDist bits) (savedHint prev hdr) x.2 = second at hsecond hfound
      cases second with
      | none => exact if_neg fun h => Bool.noConfusion (hfound.mp h)
      | some z =>
        have hother : t.2 = (z.1.val : Int) := hsecond.idx
        rw [if_pos (hfound.mpr rfl), hidx, hother, ← pairInt_minMax]
        rfl

/-- The builder finds the pair of the standard, with the hints and the width of its table. -/
theorem builderSkipRefs_eq {dpb : Dpb} {hdr : FrameHeader} (hbits : dpb.orderHintBits ≤ 8)
    (happlies : dpb.Searches hdr) :
    builderSkipRefs dpb hdr =
      pairRegs (skipModeFrame (relativeDist dpb.orderHintBits) (dpb.hint hdr) hdr.frameOffset) := by
  unfold builderSkipRefs
  rw [if_pos happlies]
  dsimp only
  generalize dpb.orderHintBits = bits at hbits
  have hforward : MarksIdx
      ((List.finRange 7).foldl (BuilderSearch.step bits hdr.frameOffset (dpb.hint hdr))
      {}).forwardHint
      ((List.finRange 7).foldl (BuilderSearch.step bits hdr.frameOffset (dpb.hint hdr))
        {}).forwardIdx
      (forwardRef (relativeDist bits) (dpb.hint hdr) hdr.frameOffset) :=
    List.foldl_rel (r := fun (s : BuilderSearch) f => MarksIdx s.forwardHint s.forwardIdx f)
      (marksIdx_none 0) fun i _ s f h => builder_forward hbits s h
  have hbackward : MarksIdx
      ((List.finRange 7).foldl (BuilderSearch.step bits hdr.frameOffset (dpb.hint hdr))
      {}).backwardHint
      ((List.finRange 7).foldl (BuilderSearch.step bits hdr.frameOffset (dpb.hint hdr))
        {}).backwardIdx
      (backwardRef (relativeDist bits) (dpb.hint hdr) hdr.frameOffset) :=
    List.foldl_rel (r := fun (s : BuilderSearch) f => MarksIdx s.backwardHint s.backwardIdx f)
      (marksIdx_none 0) fun i _ s f h => builder_backward hbits s h
  generalize (List.finRange 7).foldl (BuilderSearch.step bits hdr.frameOffset (dpb.hint hdr)) {} = s
    at hforward hbackward
  have hone := hforward.nonneg_iff
  have hother := hbackward.nonneg_iff
  unfold skipModeFrame
  generalize forwardRef (relativeDist bits) (dpb.hint hdr) hdr.frameOffset = forward
    at hforward hone
  generalize backwardRef (relativeDist bits) (dpb.hint hdr) hdr.frameOffset = backward
    at hbackward hother
  cases forward with
  | none =>
    rw [if_neg (fun h => Bool.noConfusion (hone.mp h.1)),
      if_neg (fun h => Bool.noConfusion (hone.mp h))]
    rfl
  | some x =>
    have hidx : s.forwardIdx = (x.1.val : Int) := hforward.idx
    have hheld : s.forwardHint = (x.2 : Int) := hforward.hint x rfl
    cases backward with
    | some y =>
      have hbehind : s.backwardIdx = (y.1.val : Int) := hbackward.idx
      rw [if_pos ⟨hone.mpr rfl, hother.mpr rfl⟩, hidx, hbehind, ← pairRegs_minMax]
      rfl
    | none =>
      have hsecond : MarksIdx
          ((List.finRange 7).foldl (builderSecondStep bits s.forwardHint (dpb.hint hdr)) (-1, 0)).2
          ((List.finRange 7).foldl (builderSecondStep bits s.forwardHint (dpb.hint hdr)) (-1, 0)).1
          (forwardRef (relativeDist bits) (dpb.hint hdr) x.2) := by
        rw [hheld]
        exact List.foldl_rel (r := fun (s : Int × Int) f => MarksIdx s.2 s.1 f) (marksIdx_none 0)
          fun i _ s f h => builder_second hbits s h
      rw [if_neg (fun h => Bool.noConfusion (hother.mp h.2)), if_pos (hone.mpr rfl)]
      generalize (List.finRange 7).foldl (builderSecondStep bits s.forwardHint (dpb.hint hdr))
        (-1, 0) = t at hsecond
      have hfound := hsecond.nonneg_iff
      rw [Option.bind_some]
      dsimp only
      generalize forwardRef (relativeDist bits) (dpb.hint hdr) x.2 = second at hsecond hfound
      cases second with
      | none => exact if_neg fun h => Bool.noConfusion (hfound.mp h)
      | some z =>
        have hbefore : t.1 = (z.1.val : Int) := hsecond.idx
        rw [if_pos (hfound.mpr rfl), hidx, hbefore, ← pairRegs_minMax]
        rfl

end Agreement

section Runs

variable (defaultCdfs : Fin 4 → Cdf)

/-- The headers of the frames that the reference slots hold by the standard: a frame goes to the
slots of its mask, and a key frame that is shown again to all of them. -/
def heldHeaders (e : RefState) (held : Slot → Option FrameHeader) :
    RefEvent → Slot → Option FrameHeader
  | .picture (.coded x) _ => if e.seqHdr.isSome then refresh x.flags (some x.header) held else held
  | .picture (.showExisting idx) _ =>
    if e.seqHdr.isSome && (held idx).any (fun h => h.frameType == .key) then fun _ =>
      held idx else held
  | .flush => fun _ => none
  | _ => held

def skipStep (s : RefState × (Slot → Option FrameHeader)) (ev : RefEvent) :
    RefState × (Slot → Option FrameHeader) :=
  (s.1.step defaultCdfs ev, heldHeaders s.1 s.2 ev)

/-- An inter frame that is parsed with order hints: the pair of the parser, and that of the builder
where it searches, are the pair of the standard with the hint width of the sequence, and so is what
is written to the registers when one of the two searches. -/
def SkipRefsAgree (s : RefState × (Slot → Option FrameHeader)) : RefEvent → Prop
  | .picture (.coded x) _ =>
    ∀ bits, s.1.seqHdr = some bits → bits ≠ 0 → x.frameType.isKeyOrIntra = false →
    let standard := skipModeFrame (relativeDist bits) (savedHint s.2 x.header) x.frameOffset
    computeSkipMode bits s.1.savedStates x.header = standard.map pairInt ∧
      (s.1.dpb.Searches x.header → builderSkipRefs s.1.dpb x.header = pairRegs standard) ∧
      ∀ referenceSelect, referenceSelect = true ∨ s.1.dpb.Searches x.header →
        swSkipRefs (parsedSkipRefs referenceSelect bits s.1.savedStates x.header) s.1.dpb x.header =
          pairRegs standard
  | _ => True

/-- A sequence header has the hint width that the table of the builder took from the first frame, or
no order hints, and a key frame that is shown again is in every slot. A width is at most 8. -/
def KeepsHints (s : RefState × (Slot → Option FrameHeader)) : RefEvent → Prop
  | .sequenceHeader bits =>
    bits ≤ 8 ∧ (bits = 0 ∨ s.1.dpb.orderHintBits = 0 ∨ bits = s.1.dpb.orderHintBits)
  | .picture (.showExisting idx) _ =>
    s.1.seqHdr.isSome → s.1.HoldsKey idx → ∀ i, s.1.savedStates i = s.1.savedStates idx
  | _ => True

/-- The saved states and the table of the builder have the hints of the slots, and the width of the
sequence. -/
structure HintsHeld (s : RefState × (Slot → Option FrameHeader)) : Prop where
  saved : s.1.savedStates = s.2
  table : ∀ i, (s.1.dpb.slots i).map DpbSlot.frameOffset = (s.2 i).map FrameHeader.frameOffset
  width : s.1.dpb.orderHintBits ≤ 8
  sequence : ∀ bits, s.1.seqHdr = some bits → bits ≤ 8 ∧
    (bits = 0 ∨ s.1.dpb.orderHintBits = 0 ∨ bits = s.1.dpb.orderHintBits)

variable {defaultCdfs} {e : RefState} {held : Slot → Option FrameHeader}

theorem refresh_map {α β : Type} (f : α → β) (mask : BitVec 8) (x : α) (t : Slot → Option α)
    (i : Slot) :
    (refresh mask (some x) t i).map f = refresh mask (some (f x)) (fun i => (t i).map f) i := by
  unfold refresh
  split
  · rfl
  · rfl

/-- Both tables take the frame. -/
theorem hintsHeld_postDecode {bits : Nat} (hdr : FrameHeader) (h : HintsHeld (e, held))
    (hbits : e.seqHdr = some bits) :
    HintsHeld (e.postDecode bits hdr, refresh hdr.refreshFrameFlags (some hdr) held) := by
  obtain ⟨hle, hwidth⟩ := h.sequence bits hbits
  have hsaved : e.savedStates = held := h.saved
  have hdpb := h.width
  refine ⟨?_, fun i => ?_, ?_, ?_⟩
  · change refresh hdr.refreshFrameFlags (some hdr) e.savedStates = _
    rw [hsaved]
  · have hslots : (fun i => (e.dpb.slots i).map DpbSlot.frameOffset) =
        fun i => (held i).map FrameHeader.frameOffset :=
      funext h.table
    change (refresh hdr.refreshFrameFlags (some (e.dpb.record hdr)) e.dpb.slots i).map
        DpbSlot.frameOffset = _
    rw [refresh_map, refresh_map, hslots]
    rfl
  · change (if e.dpb.orderHintBits = 0 then bits else e.dpb.orderHintBits) ≤ 8
    split
    · exact hle
    · exact hdpb
  · intro bits' hbits'
    change e.seqHdr = some bits' at hbits'
    rw [hbits] at hbits'
    cases hbits'
    refine ⟨hle, ?_⟩
    change bits = 0 ∨ (if e.dpb.orderHintBits = 0 then bits else e.dpb.orderHintBits) = 0 ∨
      bits = if e.dpb.orderHintBits = 0 then bits else e.dpb.orderHintBits
    split
    · exact .inr (.inr rfl)
    · exact hwidth

/-- What `hwKick` changes is not looked at. -/
theorem HintsHeld.congr {e' : RefState} (h : HintsHeld (e, held))
    (hsaved : e'.savedStates = e.savedStates) (hdpb : e'.dpb = e.dpb)
    (hseq : e'.seqHdr = e.seqHdr) : HintsHeld (e', held) := by
  refine ⟨hsaved.trans h.saved, ?_, ?_, ?_⟩
  · rw [hdpb]
    exact h.table
  · rw [hdpb]
    exact h.width
  · rw [hdpb, hseq]
    exact h.sequence

theorem hwKick_keeps (hdr : FrameHeader) (slot : PoolSlot) (r : KickResult) :
    (e.hwKick defaultCdfs hdr slot r).savedStates = e.savedStates ∧
    (e.hwKick defaultCdfs hdr slot r).dpb = e.dpb ∧
      (e.hwKick defaultCdfs hdr slot r).seqHdr = e.seqHdr := by
  unfold RefState.hwKick
  split
  · exact ⟨rfl, rfl, rfl⟩
  · exact ⟨rfl, rfl, rfl⟩

theorem hintsHeld_decode {bits : Nat} {x : CodedSyntax} (r : KickResult) (h : HintsHeld (e, held))
    (hbits : e.seqHdr = some bits) :
    HintsHeld (e.decode defaultCdfs bits x.header r, refresh x.flags (some x.header) held) := by
  have hkicked : ∀ slot, HintsHeld (if e.hardware then e.hwKick defaultCdfs x.header slot r
      else e, held) ∧
      (if e.hardware then e.hwKick defaultCdfs x.header slot r else e).seqHdr = some bits := by
    intro slot
    obtain ⟨hsaved, hdpb, hseq⟩ := @hwKick_keeps defaultCdfs e x.header slot r
    split
    · exact ⟨h.congr hsaved hdpb hseq, hseq.trans hbits⟩
    · exact ⟨h, hbits⟩
  obtain ⟨hheld, hseq⟩ := hkicked (pickSlot e.dpbToPool e.submitCount)
  exact (hintsHeld_postDecode x.header hheld hseq).congr rfl rfl rfl

theorem hintsHeld_showExisting {bits : Nat} (idx : Slot) (h : HintsHeld (e, held))
    (hbits : e.seqHdr = some bits) :
    HintsHeld (e.showExisting bits idx, held) := by
  unfold RefState.showExisting
  split
  · exact h
  · have hshown := hintsHeld_postDecode (shownHeader e.savedStates idx) h hbits
    have hnone : refresh (shownHeader e.savedStates idx).refreshFrameFlags
        (some (shownHeader e.savedStates idx)) held = held :=
      refresh_zero _ _
    rwa [hnone] at hshown

theorem hintsHeld_step {s : RefState × (Slot → Option FrameHeader)} {ev : RefEvent}
    (h : HintsHeld s) (hkeeps : KeepsHints s ev) : HintsHeld (skipStep defaultCdfs s ev) := by
  obtain ⟨e, held⟩ := s
  have hsaved : e.savedStates = held := h.saved
  cases ev with
  | sequenceHeader bits =>
    obtain ⟨hle, hwidth⟩ := hkeeps
    refine ⟨h.saved, h.table, h.width, ?_⟩
    rintro bits' ⟨⟩
    exact ⟨hle, hwidth⟩
  | unparsed => exact h
  | flush => exact ⟨rfl, fun _ => rfl, Nat.zero_le 8, fun _ hbits => by cases hbits⟩
  | picture p r =>
    unfold skipStep RefState.step heldHeaders
    dsimp only
    cases hseq : e.seqHdr with
    | none =>
      cases p with
      | coded x => exact h
      | showExisting idx => exact h
    | some bits =>
      cases p with
      | coded x => exact hintsHeld_decode r h hseq
      | showExisting idx =>
        have hshown := hintsHeld_showExisting idx h hseq
        dsimp only
        split
        · rename_i hkey
          rw [Option.isSome_some, Bool.true_and, Option.any_eq_true] at hkey
          obtain ⟨f, hf, hftype⟩ := hkey
          have hall := hkeeps (by rw [hseq]; rfl) ⟨f, by rw [hsaved, hf], beq_iff_eq.mp hftype⟩
          have hconst : (fun _ => held idx) = held := by
            funext i
            rw [← hsaved]
            exact (hall i).symm
          rw [hconst]
          exact hshown
        · exact hshown

/-- The registers get the pair that both searches find. -/
theorem swSkipRefs_eq {bits : Nat} {prev : Slot → Option FrameHeader} {dpb : Dpb}
    {hdr : FrameHeader} {standard : Option (Fin 7 × Fin 7)} {referenceSelect : Bool}
    (hparsed : computeSkipMode bits prev hdr = standard.map pairInt)
    (hbuilder : dpb.Searches hdr → builderSkipRefs dpb hdr = pairRegs standard)
    (hsearch : referenceSelect = true ∨ dpb.Searches hdr) :
    swSkipRefs (parsedSkipRefs referenceSelect bits prev hdr) dpb hdr = pairRegs standard := by
  cases referenceSelect with
  | false => exact hbuilder (hsearch.resolve_left Bool.false_ne_true)
  | true =>
    rw [parsedSkipRefs, if_pos rfl, hparsed]
    cases standard with
    | some pair => rfl
    | none =>
      by_cases happlies : dpb.Searches hdr
      · exact hbuilder happlies
      · exact if_neg happlies

/-- Where the hints and their width are held, both searches find the pair of the standard. -/
theorem skipRefsAgree_of_held {s : RefState × (Slot → Option FrameHeader)} {ev : RefEvent}
    (h : HintsHeld s) :
    SkipRefsAgree s ev := by
  cases ev with
  | sequenceHeader bits => trivial
  | unparsed => trivial
  | flush => trivial
  | picture p r =>
    cases p with
    | showExisting idx => trivial
    | coded x =>
      intro bits hseq henabled hinter standard
      obtain ⟨hle, hwidth⟩ := h.sequence bits hseq
      have hparsed : computeSkipMode bits s.1.savedStates x.header = standard.map pairInt := by
        rw [computeSkipMode_eq hle henabled, h.saved]
        rfl
      have hbuilder : s.1.dpb.Searches x.header →
          builderSkipRefs s.1.dpb x.header = pairRegs standard := by
        intro happlies
        have hsame : s.1.dpb.orderHintBits = bits := by
          rcases hwidth with hzero | hzero | hsame
          · exact absurd hzero henabled
          · exact absurd hzero happlies.2.2
          · exact hsame.symm
        have htable : s.1.dpb.hint x.header = savedHint s.2 x.header :=
          funext fun i => h.table (x.header.refidx i)
        rw [builderSkipRefs_eq h.width happlies, hsame, htable]
        rfl
      exact ⟨hparsed, hbuilder, fun _ => swSkipRefs_eq hparsed hbuilder⟩

end Runs

/-- Along every run whose sequence headers keep the hint width and whose key frames that are shown
again are in every slot, parser and builder find the pair of the standard for each inter frame;
their distances agree anyway. -/
theorem skip_mode_refs_agree (defaultCdfs : Fin 4 → Cdf) (hardware : Bool) (events : List RefEvent)
    (h : Lib.Along (skipStep defaultCdfs) KeepsHints ({ hardware := hardware }, fun _ => none)
    events) :
    Lib.Along (skipStep defaultCdfs) SkipRefsAgree ({ hardware := hardware },
    fun _ => none) events ∧
      ∀ bits a b, orderHintDist bits a b = getRelativeDist bits a b := by
  refine ⟨Lib.Along.of_inv
    (fun s ev hheld hkeeps => ⟨skipRefsAgree_of_held hheld, hintsHeld_step hheld hkeeps⟩) ?_ h,
    orderHintDist_eq⟩
  exact ⟨rfl, fun _ => rfl, Nat.zero_le 8, fun _ hbits => by cases hbits⟩

/-- A shown frame with an order hint, its references and its mask. -/
def hintedFrame (frameType : FrameType) (frameOffset : Nat) (refidx : Fin 7 → Slot)
    (mask : BitVec 8) : CodedSyntax :=
  { keyFrame with frameType := frameType, frameOffset := frameOffset, refidx := refidx,
                  refreshFrameFlags := mask }

/-- The references are the slots 0, 1 and 2 and then 1 again. -/
def threeRefs : Fin 7 → Slot := fun i => if i.val = 0 then 0 else if i.val = 2 then 2 else 1

/-- A sequence with hints of 3 bits, then one with hints of 8 bits: the slots 0, 1 and 2 have the
hints 5, 0 and 4. -/
def twoWidths : List RefEvent :=
  [.sequenceHeader 3, .picture (.coded (hintedFrame .key 0 threeRefs 0xff)) ⟨true, []⟩,
    .sequenceHeader 8, .picture (.coded (hintedFrame .inter 4 threeRefs 0x04)) ⟨true, []⟩,
    .picture (.coded (hintedFrame .inter 5 threeRefs 0x01)) ⟨true, []⟩]

/-- The same hints in one sequence, and an inter frame with the hint 6. -/
def oneWidth : List RefEvent :=
  [.sequenceHeader 8, .picture (.coded (hintedFrame .key 0 threeRefs 0xff)) ⟨true, []⟩,
    .picture (.coded (hintedFrame .inter 4 threeRefs 0x04)) ⟨true, []⟩,
    .picture (.coded (hintedFrame .inter 5 threeRefs 0x01)) ⟨true, []⟩,
    .picture (.coded (hintedFrame .inter 6 threeRefs 0x00)) ⟨true, []⟩]

/-- For the hint 6 the builder, with 3 bits, takes slot 1 for a later frame. That pair is written
when `reference_select` is 0, so that the parser does not search. -/
theorem skip_mode_refs_differ :
    let s := twoWidths.foldl (skipStep fun _ => []) ({ hardware := true }, fun _ => none)
    let next := hintedFrame .inter 6 threeRefs 0
    computeSkipMode 8 s.1.savedStates next.header = some (0, 2) ∧
      builderSkipRefs s.1.dpb next.header = (1, 2) ∧
      swSkipRefs (parsedSkipRefs false 8 s.1.savedStates next.header) s.1.dpb next.header = (1, 2) ∧
      swSkipRefs (parsedSkipRefs true 8 s.1.savedStates next.header) s.1.dpb next.header = (1, 3) ∧
      ¬SkipRefsAgree s (.picture (.coded next) ⟨true, []⟩) := by
  intro s next
  refine ⟨by decide, by decide, by decide, by decide, fun h => ?_⟩
  have hbuilder := (h 8 rfl (by decide) rfl).2.1 (by decide)
  exact absurd hbuilder (by decide)

/-- The pair is found there. -/
theorem skip_mode_refs_agree_one_width :
    computeSkipMode 8
        ((oneWidth.take 4).foldl (skipStep fun _ => [])
          ({ hardware := true }, fun _ => none)).1.savedStates
        (hintedFrame .inter 6 threeRefs 0x00).header = some (0, 2) ∧
      Lib.Along (skipStep fun _ => []) SkipRefsAgree ({ hardware := true },
      fun _ => none) oneWidth :=
  ⟨by decide, (skip_mode_refs_agree (fun _ => []) true oneWidth
    ⟨⟨by decide, .inr (.inl rfl)⟩, trivial, trivial, trivial, trivial, trivial⟩).1⟩

end Rkvdec.Av1
