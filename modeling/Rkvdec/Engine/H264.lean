import Rkvdec.Engine.Dpb

/-! The H.264 decoded-picture buffer: slot selection, sliding window and memory management
control operations. -/
namespace Rkvdec.Engine.H264

/-- What a slot holds as a decoded picture. -/
structure RefState where
  inUse : Bool
  isRef : Bool
  longTerm : Bool
  fields : Nat
  frameNum : BitVec 16
  topPoc : Int
  bottomPoc : Int
  longTermFrameIdx : BitVec 16

/-- `H264Mmco`. -/
structure Mmco where
  op : Nat
  differenceOfPicNumsMinus1 : BitVec 32
  longTermPicNum : BitVec 32
  longTermFrameIdx : BitVec 32
  maxLongTermFrameIdxPlus1 : BitVec 32

structure Marking where
  maxNumRefFrames : Nat
  maxFrameNum : Nat
  currPicNum : BitVec 16
  maxLongTermFrameIdx : Int
  pendingAdaptive : Bool
  pendingMmco : List Mmco
  pendingCurrPicNum : BitVec 16
  lastBumpedPoc : Int

abbrev DpbCtx := Dpb RefState Marking

/-- The fields of `H264ParseResult` that the DPB and the reorder queue read. -/
structure Parsed where
  hasSps : Bool
  hasSlice : Bool
  isIdr : Bool
  idrLongTermReferenceFlag : Bool
  nalRefIdc : Nat
  frameNum : BitVec 16
  topFieldOrderCnt : Int
  bottomFieldOrderCnt : Int
  adaptiveRefPicMarkingModeFlag : Bool
  mmco : List Mmco
  maxNumRefFrames : Nat
  log2MaxFrameNumMinus4 : Nat

def int32Min : Int := -2147483648
def frameRef : Nat := 3

def RefState.cleared : RefState := ⟨false, false, false, 0, 0, 0, 0, 0⟩

/-- A slot that may be used as a short-term reference. -/
def RefState.isShortTerm (s : RefState) : Bool := s.inUse && s.isRef && !s.longTerm

def RefState.isLongTerm (s : RefState) : Bool := s.inUse && s.isRef && s.longTerm

/-- `slot_clear`: the reference state goes, lifecycle flags and epoch stay. -/
def slotClear (d : DpbCtx) (i : SlotIdx) : DpbCtx := d.modifyRef i fun _ => .cleared

def allSlots : List SlotIdx := List.finRange poolSize

/-- `find_short_term_by_pic_num`. -/
def findShortTermByPicNum (d : DpbCtx) (picNumX : BitVec 32) : Option SlotIdx :=
  allSlots.find? fun i =>
    (d.slots i).ref.isShortTerm && (d.slots i).ref.frameNum.setWidth 32 == picNumX

/-- `find_long_term_by_lt_pic_num` and `find_long_term_by_frame_idx`: one scan under two names. -/
def findLongTerm (d : DpbCtx) (idx : BitVec 32) : Option SlotIdx :=
  allSlots.find? fun i =>
    (d.slots i).ref.isLongTerm && (d.slots i).ref.longTermFrameIdx.setWidth 32 == idx

def clearUnlessCur (cur : SlotIdx) (d : DpbCtx) : Option SlotIdx → DpbCtx
  | none => d
  | some i => if i = cur then d else slotClear d i

def setLongTerm (d : DpbCtx) (i : SlotIdx) (idx : BitVec 32) : DpbCtx :=
  d.modifyRef i fun s => { s with longTerm := true, longTermFrameIdx := idx.setWidth 16 }

/-- The range check of operations 3 and 6 (H.264 7.4.3.3), on the value as a signed integer. -/
def longTermIdxRejected (d : DpbCtx) (idx : BitVec 32) : Bool :=
  d.codec.maxLongTermFrameIdx < 0 || d.codec.maxLongTermFrameIdx < idx.toInt

def picNumX (currPicNum : BitVec 16) (m : Mmco) : BitVec 32 :=
  currPicNum.setWidth 32 - (m.differenceOfPicNumsMinus1 + 1)

/-- One turn of `apply_mmco_ops`. -/
def applyMmco (currPicNum : BitVec 16) (cur : SlotIdx) (d : DpbCtx) (m : Mmco) : DpbCtx :=
  match m.op with
  | 1 => clearUnlessCur cur d (findShortTermByPicNum d (picNumX currPicNum m))
  | 2 => clearUnlessCur cur d (findLongTerm d m.longTermPicNum)
  | 3 =>
    if longTermIdxRejected d m.longTermFrameIdx then d
    else
      let d := clearUnlessCur cur d (findLongTerm d m.longTermFrameIdx)
      match findShortTermByPicNum d (picNumX currPicNum m) with
      | none => d
      | some i => setLongTerm d i m.longTermFrameIdx
  | 4 =>
    let newMax := m.maxLongTermFrameIdxPlus1.toInt - 1
    let d := { d with codec := { d.codec with maxLongTermFrameIdx := newMax } }
    allSlots.foldl (fun d i =>
      if (d.slots i).ref.isLongTerm &&
          (newMax < 0 || newMax < ((d.slots i).ref.longTermFrameIdx.toNat : Int)) then
        clearUnlessCur cur d (some i)
      else d) d
  | 5 =>
    let d := allSlots.foldl (fun d i => clearUnlessCur cur d (some i)) d
    let d := { d with codec := { d.codec with maxLongTermFrameIdx := -1 } }
    d.modifyRef cur fun s => { s with frameNum := 0 }
  | 6 =>
    if longTermIdxRejected d m.longTermFrameIdx then d
    else
      let d := clearUnlessCur cur d (findLongTerm d m.longTermFrameIdx)
      setLongTerm d cur m.longTermFrameIdx
  | _ => d

/-- `apply_mmco_ops`. -/
def applyMmcoOps (d : DpbCtx) (cur : SlotIdx) : DpbCtx :=
  d.codec.pendingMmco.foldl (applyMmco d.codec.pendingCurrPicNum cur) d

/-- `find_free`. -/
def findFree (d : DpbCtx) : Option SlotIdx :=
  allSlots.find? fun i => !(d.slots i).ref.inUse && !(d.slots i).held

/-- FrameNumWrap of a slot, relative to the current picture. -/
def frameNumWrap (d : DpbCtx) (i : SlotIdx) : Int :=
  let fn : Int := (d.slots i).ref.frameNum.toNat
  let maxFn : Int := if d.codec.maxFrameNum ≠ 0 then d.codec.maxFrameNum else 16
  if (d.codec.currPicNum.toNat : Int) < fn then fn - maxFn else fn

/-- One turn of the scan of `evict_oldest_short_term`. -/
def olderShortTerm (d : DpbCtx) (oldest : Option SlotIdx) (i : SlotIdx) : Option SlotIdx :=
  if (d.slots i).ref.isShortTerm then
    match oldest with
    | none => some i
    | some o => if frameNumWrap d i < frameNumWrap d o then some i else some o
  else oldest

/-- The first short-term slot of least FrameNumWrap. -/
def oldestShortTerm (d : DpbCtx) : Option SlotIdx :=
  allSlots.foldl (olderShortTerm d) none

/-- `evict_oldest_short_term`. -/
def evictOldestShortTerm (d : DpbCtx) : DpbCtx :=
  match oldestShortTerm d with
  | none => d
  | some i =>
    slotClear { d with codec := { d.codec with lastBumpedPoc := (d.slots i).ref.topPoc } } i

def shortTermCount (d : DpbCtx) : Nat :=
  allSlots.countP fun i => (d.slots i).ref.isShortTerm

/-- The sliding-window loop. Every turn evicts a slot, so `poolSize` turns are enough. -/
def slideWindow (maxRefs : Nat) : Nat → DpbCtx → DpbCtx
  | 0, d => d
  | fuel + 1, d =>
    if shortTermCount d ≤ maxRefs then d
    else slideWindow maxRefs fuel (evictOldestShortTerm d)

inductive DpbStatus where
  | ok
  | invalidInput
  | full
deriving DecidableEq, Repr

/-- The slot `Dpb_Select` settles on, with what finding it did to the pool. -/
def pickSlot (d : DpbCtx) : Option SlotIdx × DpbCtx :=
  match findFree d with
  | some i => (some i, d)
  | none =>
    let d := evictOldestShortTerm d
    (findFree d, d)

/-- `Dpb_Select`, up to the selected slot; `none` is a failed assertion. -/
def select (d : DpbCtx) (parsed : Parsed) : Option (DpbStatus × Option SlotIdx × DpbCtx) :=
  if parsed.hasSlice = false then some (.invalidInput, none, d)
  else
    let d :=
      if parsed.isIdr then
        let d := allSlots.foldl slotClear d
        { d with codec := { d.codec with
            maxLongTermFrameIdx := if parsed.idrLongTermReferenceFlag then 0 else -1 } }
      else d
    match pickSlot d with
    | (none, d) => some (.full, none, d)
    | (some slot, d) =>
      if (d.slots slot).ref.inUse || (d.slots slot).held || (d.slots slot).ref.isRef ||
          d.currentIdx == some slot then none
      else
        let ref : RefState :=
          { inUse := true
            isRef := parsed.nalRefIdc != 0
            longTerm := parsed.isIdr && parsed.idrLongTermReferenceFlag
            fields := frameRef
            frameNum := parsed.frameNum
            topPoc := parsed.topFieldOrderCnt
            bottomPoc := parsed.bottomFieldOrderCnt
            longTermFrameIdx := 0 }
        some (.ok, some slot,
          { d with
            slots := Function.update d.slots slot
              { d.slots slot with ref := ref, epoch := d.currentEpoch }
            currentIdx := some slot
            codec := { d.codec with
              pendingAdaptive := !parsed.isIdr && parsed.adaptiveRefPicMarkingModeFlag
              pendingMmco := if parsed.isIdr then [] else parsed.mmco
              pendingCurrPicNum := parsed.frameNum
              maxNumRefFrames := if parsed.maxNumRefFrames = 0 then 1 else parsed.maxNumRefFrames
              maxFrameNum := 2 ^ (parsed.log2MaxFrameNumMinus4 + 4) % 2 ^ 32
              currPicNum := parsed.frameNum } })

def dropPending (d : DpbCtx) : DpbCtx :=
  { d with codec := { d.codec with pendingAdaptive := false, pendingMmco := [] } }

/-- `Dpb_OnDecodeComplete`. -/
def onDecodeComplete (d : DpbCtx) : DpbCtx :=
  let d := { d with codec := { d.codec with lastBumpedPoc := int32Min } }
  match d.currentIdx with
  | none => d
  | some cur =>
    let d := { d with currentIdx := none }
    if (d.slots cur).ref.isRef = false then dropPending (slotClear d cur)
    else if d.codec.pendingAdaptive then dropPending (applyMmcoOps d cur)
    else
      let maxRefs := if d.codec.maxNumRefFrames ≠ 0 then d.codec.maxNumRefFrames else 1
      dropPending (slideWindow maxRefs poolSize d)

/-- `Dpb_OnDecodeFailed`. -/
def onDecodeFailed (d : DpbCtx) : DpbCtx :=
  let d := { d with codec := { d.codec with lastBumpedPoc := int32Min } }
  match d.currentIdx with
  | none => dropPending d
  | some cur => dropPending (slotClear { d with currentIdx := none } cur)

/-- `Dpb_Flush`: consumer-held slots keep their picture data but stop being references. -/
def flush (d : DpbCtx) : Option DpbCtx :=
  if allSlots.any fun i => (d.slots i).pendingReorder || (d.slots i).pendingReady then none
  else
    let d := allSlots.foldl (fun d i =>
      if (d.slots i).heldByConsumer = false then slotClear d i
      else d.modifyRef i fun s => { s with inUse := false, isRef := false, longTerm := false }) d
    some { d with currentIdx := none, currentEpoch := d.currentEpoch + 1 }

/-- `Dpb_Init`. -/
def init : DpbCtx where
  slots := fun _ => ⟨.cleared, false, false, false, 0⟩
  currentIdx := none
  currentEpoch := 0
  codec := ⟨0, 0, 0, -1, false, [], 0, 0⟩

variable {d : DpbCtx} {i : SlotIdx} {maxRefs fuel : Nat}

theorem slots_slotClear {j : SlotIdx} :
    ((slotClear d i).slots j).ref = if j = i then .cleared else (d.slots j).ref := by
  by_cases h : j = i
  · subst h
    simp [slotClear, Dpb.modifyRef]
  · simp [slotClear, Dpb.modifyRef, h]

theorem shortTermCount_slotClear (h : (d.slots i).ref.isShortTerm = true) :
    shortTermCount (slotClear d i) + 1 = shortTermCount d := by
  have hpred : ∀ j, ((slotClear d i).slots j).ref.isShortTerm =
      (j != i && (d.slots j).ref.isShortTerm) := by
    intro j
    rw [slots_slotClear]
    by_cases hj : j = i
    · simp [hj, RefState.isShortTerm, RefState.cleared]
    · simp [hj]
  have hmem : i ∈ allSlots.filter fun j => (d.slots j).ref.isShortTerm := by
    simp [allSlots, h]
  have hnodup : (allSlots.filter fun j => (d.slots j).ref.isShortTerm).Nodup :=
    (List.nodup_finRange poolSize).filter _
  unfold shortTermCount
  simp only [List.countP_eq_length_filter, hpred, ← List.filter_filter]
  rw [← hnodup.erase_eq_filter, List.length_erase_of_mem hmem]
  have := List.length_pos_of_mem hmem
  omega

theorem foldl_olderShortTerm {l : List SlotIdx} {o : Option SlotIdx}
    (ho : ∀ i, o = some i → (d.slots i).ref.isShortTerm = true)
    (hex : o.isSome ∨ ∃ i ∈ l, (d.slots i).ref.isShortTerm = true) :
    ∃ i, l.foldl (olderShortTerm d) o = some i ∧ (d.slots i).ref.isShortTerm = true := by
  induction l generalizing o with
  | nil =>
    obtain ⟨i, hi⟩ : ∃ i, o = some i := by simpa [Option.isSome_iff_exists] using hex
    exact ⟨i, hi, ho i hi⟩
  | cons j l ih =>
    rw [List.foldl_cons]
    by_cases hj : (d.slots j).ref.isShortTerm = true
    · apply ih
      · intro i hi
        unfold olderShortTerm at hi
        rw [if_pos hj] at hi
        split at hi
        · exact Option.some.inj hi ▸ hj
        · split at hi
          · exact Option.some.inj hi ▸ hj
          · exact Option.some.inj hi ▸ ho _ rfl
      · left
        unfold olderShortTerm
        rw [if_pos hj]
        split
        · rfl
        · split <;> rfl
    · have hskip : olderShortTerm d o j = o := if_neg hj
      rw [hskip]
      refine ih ho (hex.imp_right ?_)
      rintro ⟨i, hi, hs⟩
      rcases List.mem_cons.mp hi with rfl | hi
      · exact absurd hs hj
      · exact ⟨i, hi, hs⟩

theorem oldestShortTerm_isSome (h : 0 < shortTermCount d) :
    ∃ i, oldestShortTerm d = some i ∧ (d.slots i).ref.isShortTerm = true := by
  obtain ⟨i, hi, hs⟩ := List.countP_pos_iff.mp h
  exact foldl_olderShortTerm (by simp) (.inr ⟨i, hi, hs⟩)

/-- `poolSize` turns of the sliding window are enough for it to stop by itself. -/
theorem shortTermCount_slideWindow (h : shortTermCount d ≤ maxRefs + fuel) :
    shortTermCount (slideWindow maxRefs fuel d) ≤ maxRefs := by
  induction fuel generalizing d with
  | zero => exact h
  | succ fuel ih =>
    unfold slideWindow
    split
    · assumption
    · obtain ⟨i, hi, hshort⟩ := oldestShortTerm_isSome (d := d) (by omega)
      apply ih
      have hcount := shortTermCount_slotClear hshort
      have hevict : shortTermCount (evictOldestShortTerm d) = shortTermCount (slotClear d i) := by
        unfold evictOldestShortTerm
        rw [hi]
        rfl
      omega

end Rkvdec.Engine.H264
