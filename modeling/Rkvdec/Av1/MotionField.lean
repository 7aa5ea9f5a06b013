import Rkvdec.Av1.ShortSignaling

/-! The sources of the motion field: the references that the register builder of AV1 selects to
project from, beside section 7.9.1 of the standard. -/
namespace Rkvdec.Av1

section Builder

/-- `order_hint_dist`. -/
def orderHintDist (bits : Nat) (h0 h1 : BitVec 32) : BitVec 32 :=
  if bits = 0 then 0
  else
    let diff := h0 - h1
    let m := 1#32 <<< (bits - 1)
    (diff &&& (1#32 <<< bits - 1)) - (diff &&& m) * 2

/-- `mf_types` and `refs_selected` up to `ref_ind`, which is their length, and `ref_stamp`. -/
structure MfSelection where
  mfTypes : List Nat := []
  refsSelected : List (Fin 7) := []
  refStamp : Int := 2
deriving DecidableEq

/-- `slot_for`. -/
def Dpb.slotFor (dpb : Dpb) (hdr : FrameHeader) (bufIdx : Fin 7) : Option DpbSlot :=
  dpb.slots (hdr.refidx bufIdx)

/-- `same_dims`. -/
def sameDims (hdr : FrameHeader) (s : DpbSlot) : Bool :=
  (s.codedWidth + 7) >>> 3 == (hdr.width + 7) >>> 3 &&
    (s.codedHeight + 7) >>> 3 == (hdr.height + 7) >>> 3

/-- The slot is there and has no other size and no intra picture. -/
def usableSource (hdr : FrameHeader) (slot : Option DpbSlot) : Bool :=
  slot.any fun s => sameDims hdr s && !s.frameType.isKeyOrIntra

/-- The slot is there and its picture comes after the current one. -/
def future (dpb : Dpb) (hdr : FrameHeader) (slot : Option DpbSlot) : Bool :=
  slot.any fun s =>
    decide
      (0 < (orderHintDist dpb.orderHintBits (BitVec.ofNat 32 s.frameOffset)
      (BitVec.ofNat 32 hdr.frameOffset)).toInt)

namespace MfSelection

def push (s : MfSelection) (bufIdx : Fin 7) : MfSelection :=
  { s with mfTypes := s.mfTypes ++ [bufIdx.val + 1], refsSelected := s.refsSelected ++ [bufIdx] }

def spend (s : MfSelection) : MfSelection := { s with refStamp := s.refStamp - 1 }

/-- The part for LAST, which spends its place also for an overlay. -/
def considerLast (hdr : FrameHeader) (gldOff : Nat) (lst : Option DpbSlot) (s : MfSelection) :
    MfSelection :=
  match lst with
  | none => s
  | some l =>
    let isLstOverlay := l.savedOrderHints 6 == gldOff
    (if !isLstOverlay && sameDims hdr l && !l.frameType.isKeyOrIntra then s.push 0 else s).spend

/-- The part for another source, which spends a place only when it is selected. -/
def consider (use : MfSelection → Bool) (bufIdx : Fin 7) (s : MfSelection) : MfSelection :=
  if use s then (s.push bufIdx).spend else s

end MfSelection

/-- The selection in `rkmpp_av1_build_regs`. -/
def selectSources (dpb : Dpb) (hdr : FrameHeader) : MfSelection :=
  let slot := dpb.slotFor hdr
  let gldOff := ((slot 3).map DpbSlot.frameOffset).getD 0
  let s := MfSelection.considerLast hdr gldOff (slot 0) {}
  let s := s.consider (fun _ => future dpb hdr (slot 4) && usableSource hdr (slot 4)) 4
  let s := s.consider (fun _ => future dpb hdr (slot 5) && usableSource hdr (slot 5)) 5
  let s :=
    s.consider (fun s => decide (0 ≤ s.refStamp) && future dpb hdr (slot 6) &&
      usableSource hdr (slot 6)) 6
  s.consider (fun s => decide (0 ≤ s.refStamp) && usableSource hdr (slot 1)) 1

end Builder

section Standard

/-- `MFMV_STACK_SIZE`. -/
def mfmvStackSize : Int := 3

/-- `OrderHints[]`; a slot that was never filled has 0. -/
def Dpb.orderHints (dpb : Dpb) (hdr : FrameHeader) (src : Fin 7) : Nat :=
  ((dpb.slots (hdr.refidx src)).map DpbSlot.frameOffset).getD 0

/-- `MiCols` and `MiRows` for a size. -/
def miSize (n : Nat) : Nat := 2 * ((n + 7) / 8)

/-- The projection process of 7.9.2 does not end at once: the source has a picture of the size of
the frame, and not an intra one. -/
def projects (dpb : Dpb) (hdr : FrameHeader) (src : Fin 7) : Bool :=
  (dpb.slots (hdr.refidx src)).any fun s =>
    miSize s.codedWidth == miSize hdr.width && miSize s.codedHeight == miSize hdr.height &&
      !s.frameType.isKeyOrIntra

/-- A source is projected if it should be and can be, which takes one from the stamp. -/
def projection (dpb : Dpb) (hdr : FrameHeader) (use : Int → Bool) (src : Fin 7)
    (s : List (Fin 7) × Int) :
    List (Fin 7) × Int :=
  if use s.2 && projects dpb hdr src then (s.1 ++ [src], s.2 - 1) else s

/-- The source comes after the frame. -/
def laterSource (dpb : Dpb) (hdr : FrameHeader) (src : Fin 7) : Bool :=
  decide (0 < relativeDist dpb.orderHintBits (dpb.orderHints hdr src) hdr.frameOffset)

/-- The sources that 7.9.1 projects, in its order, with `refStamp` from `stamp` on. -/
def motionFieldSources (dpb : Dpb) (hdr : FrameHeader) (stamp : Int) : List (Fin 7) :=
  let lastAltOrderHint := ((dpb.slots (hdr.refidx 0)).map fun s => s.savedOrderHints 6).getD 0
  let useLast := lastAltOrderHint != dpb.orderHints hdr 3
  let last : List (Fin 7) := if useLast && projects dpb hdr 0 then [0] else []
  let s := projection dpb hdr (fun _ => laterSource dpb hdr 4) 4 (last, stamp)
  let s := projection dpb hdr (fun _ => laterSource dpb hdr 5) 5 s
  let s := projection dpb hdr (fun refStamp => laterSource dpb hdr 6 && decide (0 ≤ refStamp)) 6 s
  (projection dpb hdr (fun refStamp => decide (0 ≤ refStamp)) 1 s).1

end Standard

section Agreement

variable {dpb : Dpb} {hdr : FrameHeader}

theorem and_pow_of_le {bits : Nat} (h : bits < 32) :
    (1#32 <<< (bits + 1) - 1) &&& 1#32 <<< bits = 1#32 <<< bits := by
  interval_cases bits <;> rfl

/-- The two functions for a distance differ only in where they mask. -/
theorem orderHintDist_eq (bits : Nat) (a b : BitVec 32) :
    orderHintDist bits a b = getRelativeDist bits a b := by
  unfold orderHintDist getRelativeDist
  by_cases hzero : bits = 0
  · rw [if_pos hzero, if_pos hzero]
  rw [if_neg hzero, if_neg hzero]
  dsimp only
  obtain ⟨k, rfl⟩ : ∃ k, bits = k + 1 := ⟨bits - 1, by omega⟩
  rw [Nat.add_sub_cancel]
  have htwice : ∀ x : BitVec 32, x * (2 : BitVec 32) = x <<< 1 :=
    fun x => (BitVec.shiftLeft_eq_mul_twoPow x 1).symm
  have htop : (a - b) &&& (1#32 <<< (k + 1) - 1) &&& 1#32 <<< k = (a - b) &&& 1#32 <<< k := by
    rcases Nat.lt_or_ge k 32 with hk | hk
    · rw [BitVec.and_assoc, and_pow_of_le hk]
    · rw [BitVec.shiftLeft_eq_zero hk, BitVec.and_zero, BitVec.and_zero]
  rw [htop, htwice]

theorem miSize_eq_iff (a b : Nat) : miSize a = miSize b ↔ (a + 7) >>> 3 = (b + 7) >>> 3 := by
  unfold miSize
  rw [Nat.shiftRight_eq_div_pow, Nat.shiftRight_eq_div_pow]
  omega

theorem usableSource_eq (src : Fin 7) :
    usableSource hdr (dpb.slotFor hdr src) = projects dpb hdr src := by
  unfold usableSource projects Dpb.slotFor
  cases dpb.slots (hdr.refidx src) with
  | none => rfl
  | some s =>
    rw [Option.any_some, Option.any_some, sameDims, Bool.eq_iff_iff]
    simp only [Bool.and_eq_true, beq_iff_eq, miSize_eq_iff]

/-- A source that is there comes after the frame for the builder as for the standard. -/
theorem future_eq (hbits : dpb.orderHintBits ≤ 8) (src : Fin 7) :
    (future dpb hdr (dpb.slotFor hdr src) && usableSource hdr (dpb.slotFor hdr src)) =
      (laterSource dpb hdr src && projects dpb hdr src) := by
  rw [usableSource_eq]
  unfold future laterSource projects Dpb.slotFor Dpb.orderHints
  cases dpb.slots (hdr.refidx src) with
  | none => rw [Option.any_none, Option.any_none, Bool.and_false, Bool.and_false]
  | some s => rw [Option.any_some, orderHintDist_eq, getRelativeDist_eq hbits]; rfl

/-- The selection and the stamp of the standard after the same sources. -/
def Follows (s : MfSelection) (p : List (Fin 7) × Int) : Prop :=
  s.refsSelected = p.1 ∧ s.refStamp = p.2 ∧ s.mfTypes = s.refsSelected.map (fun src => src.val + 1)

theorem Follows.consider {s : MfSelection} {p : List (Fin 7) × Int} (h : Follows s p)
    (use : MfSelection → Bool) (use' : Int → Bool) (src : Fin 7)
    (huse : use s = (use' s.refStamp && projects dpb hdr src)) :
    Follows (s.consider use src) (projection dpb hdr use' src p) := by
  obtain ⟨hsel, hstamp, htypes⟩ := h
  unfold MfSelection.consider projection
  rw [← hstamp, ← huse]
  split
  · refine ⟨congrArg (· ++ [src]) hsel, rfl, ?_⟩
    change s.mfTypes ++ [src.val + 1] = (s.refsSelected ++ [src]).map (fun src => src.val + 1)
    rw [htypes, List.map_append]
    rfl
  · exact ⟨hsel, hstamp, htypes⟩

/-- What the stamp is where the standard sets it: LAST has spent one unless its slot is empty. -/
def stampAfterLast (dpb : Dpb) (hdr : FrameHeader) : Int :=
  if (dpb.slots (hdr.refidx 0)).isSome then mfmvStackSize - 2 else mfmvStackSize - 1

/-- LAST is selected as it is projected. -/
theorem follows_last : Follows
    (MfSelection.considerLast hdr (dpb.orderHints hdr 3) (dpb.slotFor hdr 0) {})
    (if ((dpb.slots (hdr.refidx 0)).map fun s => s.savedOrderHints 6).getD 0 != dpb.orderHints hdr
    3 && projects dpb hdr 0
      then [0] else [], stampAfterLast dpb hdr) := by
  have husable := @usableSource_eq dpb hdr 0
  unfold stampAfterLast
  unfold Dpb.slotFor usableSource at husable
  unfold Dpb.slotFor MfSelection.considerLast
  generalize hslot : dpb.slots (hdr.refidx 0) = slot at husable
  cases slot with
  | none =>
    rw [← husable, Option.any_none, Bool.and_false]
    exact ⟨rfl, rfl, rfl⟩
  | some l =>
    rw [← husable, Option.any_some, Option.map_some, Option.getD_some, ← Bool.and_assoc]
    dsimp only
    rw [bne]
    split
    · exact ⟨rfl, rfl, rfl⟩
    · exact ⟨rfl, rfl, rfl⟩

theorem selectSources_follows (hbits : dpb.orderHintBits ≤ 8) :
    (selectSources dpb hdr).refsSelected = motionFieldSources dpb hdr (stampAfterLast dpb hdr) ∧
      (selectSources dpb hdr).mfTypes = (selectSources dpb hdr).refsSelected.map
      (fun src => src.val + 1) := by
  have hbwd := (@follows_last dpb hdr).consider
    (fun _ => future dpb hdr (dpb.slotFor hdr 4) && usableSource hdr (dpb.slotFor hdr 4))
    (fun _ => laterSource dpb hdr 4) 4 (future_eq hbits 4)
  have halt2 := hbwd.consider
    (fun _ => future dpb hdr (dpb.slotFor hdr 5) && usableSource hdr (dpb.slotFor hdr 5))
    (fun _ => laterSource dpb hdr 5) 5 (future_eq hbits 5)
  have hguard : ∀ s : MfSelection,
      (decide (0 ≤ s.refStamp) && future dpb hdr (dpb.slotFor hdr 6) &&
      usableSource hdr (dpb.slotFor hdr 6)) =
        (laterSource dpb hdr 6 && decide (0 ≤ s.refStamp) && projects dpb hdr 6) := by
    intro s
    rw [Bool.and_assoc, future_eq hbits 6, ← Bool.and_assoc, Bool.and_comm (laterSource dpb hdr 6)]
  have halt := halt2.consider
    (fun s => decide (0 ≤ s.refStamp) && future dpb hdr (dpb.slotFor hdr 6) &&
      usableSource hdr (dpb.slotFor hdr 6))
    (fun refStamp => laterSource dpb hdr 6 && decide (0 ≤ refStamp)) 6 (hguard _)
  have hlast2 :=
    halt.consider (fun s => decide (0 ≤ s.refStamp) && usableSource hdr (dpb.slotFor hdr 1))
    (fun refStamp => decide (0 ≤ refStamp)) 1 (congrArg (decide _ && ·) (usableSource_eq 1))
  exact ⟨hlast2.1, hlast2.2.2⟩

/-- The other sources that can be projected. -/
def otherSources (dpb : Dpb) (hdr : FrameHeader) : List (Fin 7) :=
  [4, 5, 6].filter (fun src => laterSource dpb hdr src && projects dpb hdr src) ++
    [1].filter (projects dpb hdr)

/-- One source: whether it can be projected, and whether the stamp counts. -/
def spendOn (able guarded : Bool) (src : Fin 7) (s : List (Fin 7) × Int) : List (Fin 7) × Int :=
  if able && (!guarded || decide (0 ≤ s.2)) then (s.1 ++ [src], s.2 - 1) else s

theorem projection_free (able : Bool) (src : Fin 7) (s : List (Fin 7) × Int) :
    projection dpb hdr (fun _ => able) src s =
    spendOn (able && projects dpb hdr src) false src s := by
  rw [projection, spendOn, Bool.not_false, Bool.true_or, Bool.and_true]

theorem projection_guarded (able : Bool) (src : Fin 7) (s : List (Fin 7) × Int) :
    projection dpb hdr (fun refStamp => able && decide (0 ≤ refStamp)) src s =
      spendOn (able && projects dpb hdr src) true src s := by
  rw [projection, spendOn, Bool.not_true, Bool.false_or, Bool.and_assoc, Bool.and_assoc,
    Bool.and_comm (projects dpb hdr src)]

/-- One more to spend makes a difference when there are three sources for it. -/
theorem motionFieldSources_stamp : motionFieldSources dpb hdr 2 = motionFieldSources dpb hdr 1 ↔
    (otherSources dpb hdr).length ≤ 2 := by
  have hlast2 : ∀ s, projection dpb hdr (fun refStamp => decide (0 ≤ refStamp)) 1 s =
      spendOn (projects dpb hdr 1) true 1 s := fun s => projection_guarded true 1 s
  unfold motionFieldSources otherSources
  dsimp only
  generalize (if ((dpb.slots (hdr.refidx 0)).map fun s => s.savedOrderHints 6).getD 0 !=
    dpb.orderHints hdr 3 &&
    projects dpb hdr 0 then [0] else [] : List (Fin 7)) = last
  rw [hlast2, hlast2, projection_guarded, projection_guarded, projection_free, projection_free,
    projection_free, projection_free]
  simp only [List.filter_cons, List.filter_nil]
  generalize (laterSource dpb hdr 4 && projects dpb hdr 4) = bwd
  generalize (laterSource dpb hdr 5 && projects dpb hdr 5) = alt2
  generalize (laterSource dpb hdr 6 && projects dpb hdr 6) = alt
  generalize projects dpb hdr 1 = last2
  cases bwd <;> cases alt2 <;> cases alt <;> cases last2 <;> simp [spendOn]

end Agreement

section Bounds

variable {dpb : Dpb} {hdr : FrameHeader} {s : MfSelection} {use : MfSelection → Bool}
  {src : Fin 7} {k : Int}

/-- The sources that are selected have their places, and at least `k` are left. -/
def Budgeted (k : Int) (s : MfSelection) : Prop := s.refsSelected.length + s.refStamp ≤ 2 ∧
    k ≤ s.refStamp

theorem Budgeted.pushed (h : Budgeted k s) (src : Fin 7) : Budgeted (k - 1) (s.push src).spend := by
  have hlength : ((s.refsSelected ++ [src]).length : Int) = s.refsSelected.length + 1 := by
    rw [List.length_append, List.length_singleton]
    rfl
  obtain ⟨hsum, hleft⟩ := h
  refine ⟨?_, sub_le_sub_right hleft 1⟩
  change ((s.refsSelected ++ [src]).length : Int) + (s.refStamp - 1) ≤ 2
  omega

theorem Budgeted.consider (h : Budgeted k s) : Budgeted (k - 1) (s.consider use src) := by
  unfold MfSelection.consider
  split
  · exact h.pushed src
  · exact ⟨h.1, (sub_le_self k (by decide)).trans h.2⟩

/-- With a place left as a condition, the stamp stops at -1. -/
theorem Budgeted.guarded (h : Budgeted (-1) s) (huse : use s = true → 0 ≤ s.refStamp) :
    Budgeted (-1) (s.consider use src) := by
  unfold MfSelection.consider
  split
  · exact Budgeted.pushed (k := 0) ⟨h.1, huse ‹_›⟩ src
  · exact h

theorem budgeted_last (gldOff : Nat) (lst : Option DpbSlot) :
    Budgeted 1 (MfSelection.considerLast hdr gldOff lst {}) := by
  have hempty : Budgeted 2 {} := ⟨by decide, by decide⟩
  unfold MfSelection.considerLast
  cases lst with
  | none => exact ⟨hempty.1, (by decide : (1 : Int) ≤ 2).trans hempty.2⟩
  | some l =>
    dsimp only
    split
    · exact hempty.pushed 0
    · exact ⟨by decide, by decide⟩

/-- The arrays have three entries. -/
theorem length_refsSelected : (selectSources dpb hdr).refsSelected.length ≤ 3 := by
  have hselected : Budgeted (-1) (selectSources dpb hdr) := by
    refine Budgeted.guarded (Budgeted.guarded (budgeted_last _ _).consider.consider fun huse => ?_)
      fun huse => ?_
    · rw [Bool.and_assoc, Bool.and_eq_true, decide_eq_true_iff] at huse
      exact huse.1
    · rw [Bool.and_eq_true, decide_eq_true_iff] at huse
      exact huse.1
  obtain ⟨hsum, hleft⟩ := hselected
  omega

end Bounds

/-- The builder selects the sources of 7.9.1, except that the place of a LAST that is not there goes
to another source; that makes a difference just when three others can be projected. -/
theorem motion_field_sources (dpb : Dpb) (hdr : FrameHeader) (hbits : dpb.orderHintBits ≤ 8) :
    (selectSources dpb hdr).refsSelected = motionFieldSources dpb hdr (stampAfterLast dpb hdr) ∧
      (selectSources dpb hdr).mfTypes = (selectSources dpb hdr).refsSelected.map
      (fun src => src.val + 1) ∧
      (selectSources dpb hdr).refsSelected.length ≤ 3 ∧
      ((selectSources dpb hdr).refsSelected = motionFieldSources dpb hdr (mfmvStackSize - 2) ↔
        (dpb.slots (hdr.refidx 0)).isSome ∨ (otherSources dpb hdr).length ≤ 2) := by
  obtain ⟨hsources, htypes⟩ := @selectSources_follows _ hdr hbits
  refine ⟨hsources, htypes, length_refsSelected, ?_⟩
  rw [hsources]
  unfold stampAfterLast
  by_cases hlast : (dpb.slots (hdr.refidx 0)).isSome
  · rw [if_pos hlast]
    exact iff_of_true rfl (.inl hlast)
  · rw [if_neg hlast]
    exact motionFieldSources_stamp.trans (or_iff_right hlast).symm

/-- A picture of 64x64 with the order hint `n`. -/
def smallSlot (n : Nat) : DpbSlot := ⟨.inter, n, 64, 64, 64, 0, fun _ => 0⟩

/-- The frame with the hint 4 refers to the slots 0 to 6 in turn. -/
def smallInter : FrameHeader :=
  { frameType := .inter, frameOffset := 4, width := 64, height := 64,
    refidx := fun i => i.castLE (by decide) }

/-- The slot of LAST is empty and the others come after the frame. -/
def withoutLast : Dpb :=
  { orderHintBits := 4, slots := fun s => if s = 0 then none else some (smallSlot (4 + s.val)) }

/-- Three sources where the standard has two. -/
theorem motion_field_extra_source :
    (selectSources withoutLast smallInter).refsSelected = [4, 5, 6] ∧
      motionFieldSources withoutLast smallInter (mfmvStackSize - 2) = [4, 5] := by
  exact ⟨by decide, by decide⟩

/-- With LAST in its slot both have it and one from each side. -/
def withLast : Dpb :=
  { orderHintBits := 4, slots := fun s => some (smallSlot (s.val + 1)) }

theorem motion_field_sources_with_last :
    (selectSources withLast smallInter).refsSelected = motionFieldSources withLast smallInter
    (mfmvStackSize - 2) ∧
      (selectSources withLast smallInter).refsSelected = [0, 4, 5] := by
  have hsources := motion_field_sources withLast smallInter (by decide)
  exact ⟨hsources.2.2.2.mpr (.inl rfl), hsources.1.trans (by decide)⟩

end Rkvdec.Av1
