import Rkvdec.Engine.H264

/-! The H.265 decoded-picture buffer: reference marking by the short-term reference picture set,
and the choice of a slot for the current picture. -/
namespace Rkvdec.Engine.H265

open H264 (DpbStatus)

/-- What a slot holds as a decoded picture. -/
structure RefState where
  inUse : Bool
  isRef : Bool
  poc : Int
deriving DecidableEq, Repr

/-- `DpbPoolEntry`. -/
structure PoolEntry where
  outputFrame : BitVec 64
  colmv : BitVec 64
deriving DecidableEq, Repr

/-- The buffers the caller gave to `H265Dpb_Init`, and how many there are. -/
structure Pool where
  entry : SlotIdx → PoolEntry
  size : Nat

abbrev DpbCtx := Dpb RefState Pool

/-- `H265_MAX_REFS`. -/
def maxRefs : Nat := 16

/-- `H265ShortTermRPS`, as far as the DPB reads it. -/
structure ShortTermRps where
  numNegativePics : Nat
  numPositivePics : Nat
  deltaPoc : Fin maxRefs → Int

/-- The fields of `H265Sps` that the DPB and the reorder queue read. -/
structure Sps where
  valid : Bool
  numShortTermRefPicSets : Nat
  stRps : Nat → ShortTermRps
  maxSubLayersMinus1 : Nat
  maxNumReorderPics : Nat → Nat

/-- The fields of `H265ParseResult` that the DPB and the reorder queue read; `activeSps` is the
SPS of `active_sps_id`, when that is not negative. -/
structure Parsed where
  hasSlice : Bool
  isIdr : Bool
  nalRefFlag : Bool
  poc : Int
  activeSps : Option Sps
  shortTermRefPicSetSpsFlag : Bool
  shortTermRefPicSetIdx : Nat
  stRpsSlice : ShortTermRps

def RefState.cleared : RefState := ⟨false, false, 0⟩

/-- The slots below `pool_size`. -/
def poolSlots (d : DpbCtx) : List SlotIdx :=
  (List.finRange poolSize).filter fun i => i.val < d.codec.size

/-- `h265_slot_clear`: lifecycle flags and epoch are not touched. -/
def slotClear (d : DpbCtx) (i : SlotIdx) : DpbCtx := d.modifyRef i fun _ => .cleared

/-- `h265_find_free`: a slot that is no longer a reference first, then an empty one. -/
def findFree (d : DpbCtx) : Option SlotIdx :=
  match (poolSlots d).find? fun i =>
      !(d.slots i).held && (d.slots i).ref.inUse && !(d.slots i).ref.isRef with
  | some i => some i
  | none => (poolSlots d).find? fun i => !(d.slots i).held && !(d.slots i).ref.inUse

/-- `h265_active_strps`. -/
def activeStrps (parsed : Parsed) : Option ShortTermRps :=
  if parsed.shortTermRefPicSetSpsFlag = false then some parsed.stRpsSlice
  else
    match parsed.activeSps with
    | none => none
    | some sps =>
      if sps.valid = false then none
      else if sps.numShortTermRefPicSets ≤ parsed.shortTermRefPicSetIdx then none
      else some (sps.stRps parsed.shortTermRefPicSetIdx)

/-- `needed_pocs`: the POCs of the active short-term RPS, whether the current picture uses them
or only keeps them for later ones. -/
def neededPocs (parsed : Parsed) : List Int :=
  match activeStrps parsed with
  | none => []
  | some rps =>
    ((List.finRange maxRefs).filter fun i =>
      i.val < rps.numNegativePics + rps.numPositivePics).map fun i => parsed.poc + rps.deltaPoc i

/-- The marking loop over the slots in use. -/
def remark (needed : List Int) (d : DpbCtx) : DpbCtx :=
  (poolSlots d).foldl (fun d i =>
    if (d.slots i).ref.inUse = false then d
    else d.modifyRef i fun s => { s with isRef := needed.contains s.poc }) d

/-- `H265DpbSelection`. -/
structure Selection where
  currentSlot : SlotIdx
  currentOutput : BitVec 64
  currentColmv : BitVec 64
  refs : SlotIdx → BitVec 64
  refColmv : SlotIdx → BitVec 64
  refPocs : SlotIdx → Int
  refValidMask : BitVec 16
  curTopPoc : Int
  curBotPoc : Int

/-- `H265_DPB_REF_POC_SENTINEL`. -/
def refPocSentinel : Int := 0x33333333

/-- Slot `i` is packed as a reference of the picture in `slot`. -/
def isActiveRef (d : DpbCtx) (slot i : SlotIdx) : Bool :=
  decide (i.val < d.codec.size) && i != slot && (d.slots i).ref.inUse && (d.slots i).ref.isRef

/-- Step 5 of `H265Dpb_Select`: the references, indexed by DPB slot. -/
def packSelection (d : DpbCtx) (slot : SlotIdx) (parsed : Parsed) : Selection where
  currentSlot := slot
  currentOutput := (d.codec.entry slot).outputFrame
  currentColmv := (d.codec.entry slot).colmv
  refs := fun i => if isActiveRef d slot i then (d.codec.entry i).outputFrame else 0
  refColmv := fun i => if isActiveRef d slot i then (d.codec.entry i).colmv else 0
  refPocs := fun i => if isActiveRef d slot i then (d.slots i).ref.poc else refPocSentinel
  refValidMask := (List.finRange poolSize).foldl
    (fun mask i => if isActiveRef d slot i then mask ||| (1#16 <<< i.val) else mask) 0
  curTopPoc := parsed.poc
  curBotPoc := parsed.poc

/-- Steps 2 and 3 of `H265Dpb_Select`: an IDR clears every slot, any other picture re-marks the
slots by its reference picture set. -/
def markForPicture (d : DpbCtx) (parsed : Parsed) : DpbCtx :=
  if parsed.isIdr then (poolSlots d).foldl slotClear d else remark (neededPocs parsed) d

/-- `H265Dpb_Select`. Unlike its H.264 counterpart it leaves the slot's epoch as it is. -/
def select (d : DpbCtx) (parsed : Parsed) : DpbStatus × Option Selection × DpbCtx :=
  if parsed.hasSlice = false then (.invalidInput, none, d)
  else
    let d := markForPicture d parsed
    match findFree d with
    | none => (.full, none, d)
    | some slot =>
      let d := (slotClear d slot).modifyRef slot fun _ => ⟨true, parsed.nalRefFlag, parsed.poc⟩
      let d := { d with currentIdx := some slot }
      (.ok, some (packSelection d slot parsed), d)

/-- `H265Dpb_OnDecodeComplete`: a picture whose NAL was not a reference is dropped at once. -/
def onDecodeComplete (d : DpbCtx) : DpbCtx :=
  match d.currentIdx with
  | none => d
  | some cur =>
    let d := { d with currentIdx := none }
    if (d.slots cur).ref.isRef = false then slotClear d cur else d

/-- `H265Dpb_OnDecodeFailed`. -/
def onDecodeFailed (d : DpbCtx) : DpbCtx :=
  match d.currentIdx with
  | none => d
  | some cur => slotClear { d with currentIdx := none } cur

/-- `H265Dpb_Flush`; `none` is a failed `RKMPP_VERIFY`. -/
def flush (d : DpbCtx) : Option DpbCtx :=
  if (poolSlots d).any fun i => (d.slots i).pendingReorder || (d.slots i).pendingReady then none
  else
    let d := (poolSlots d).foldl (fun d i =>
      if (d.slots i).heldByConsumer = false then slotClear d i
      else d.modifyRef i fun s => { s with inUse := false, isRef := false }) d
    some { d with currentIdx := none, currentEpoch := d.currentEpoch + 1 }

/-- `H265Dpb_Init` with a pool it accepts. -/
def init (pool : Pool) : DpbCtx where
  slots := fun _ => ⟨.cleared, false, false, false, 0⟩
  currentIdx := none
  currentEpoch := 0
  codec := pool

variable {d d' : DpbCtx} {i j slot : SlotIdx} {parsed : Parsed}

/-- Marking: reference states change, nothing else does. -/
structure Marks (d d' : DpbCtx) : Prop where
  holds : d'.holds = d.holds
  currentIdx : d'.currentIdx = d.currentIdx
  currentEpoch : d'.currentEpoch = d.currentEpoch
  codec : d'.codec = d.codec

theorem Marks.refl : Marks d d := ⟨rfl, rfl, rfl, rfl⟩

theorem Marks.trans {d'' : DpbCtx} (h : Marks d d') (h' : Marks d' d'') : Marks d d'' :=
  ⟨h'.holds.trans h.holds, h'.currentIdx.trans h.currentIdx,
    h'.currentEpoch.trans h.currentEpoch, h'.codec.trans h.codec⟩

theorem Marks.modifyRef {f : RefState → RefState} : Marks d (d.modifyRef i f) :=
  ⟨Dpb.holds_modifyRef, rfl, rfl, rfl⟩

theorem Marks.foldl {α : Type} {f : DpbCtx → α → DpbCtx} (l : List α)
    (hf : ∀ d a, Marks d (f d a)) : Marks d (l.foldl f d) :=
  List.foldlRecOn l f .refl fun d' h a _ => h.trans (hf d' a)

theorem Marks.held (h : Marks d d') : (d'.slots i).held = (d.slots i).held := by
  have hi := congrFun h.holds i
  simp only [Dpb.holds, Prod.mk.injEq] at hi
  simp [Slot.held, hi]

theorem marks_slotClear : Marks d (slotClear d i) := .modifyRef

theorem marks_remark {needed : List Int} : Marks d (remark needed d) := by
  refine .foldl _ fun d i => ?_
  split
  · exact .refl
  · exact .modifyRef

theorem marks_markForPicture : Marks d (markForPicture d parsed) := by
  unfold markForPicture
  split
  · exact .foldl _ fun d i => marks_slotClear
  · exact marks_remark

/-- A free slot is one nobody holds and no marked reference sits in. -/
theorem findFree_some (h : findFree d = some i) : i.val < d.codec.size ∧
    (d.slots i).held = false ∧ ((d.slots i).ref.inUse = false ∨ (d.slots i).ref.isRef = false) := by
  have hmem : ∀ {i}, i ∈ poolSlots d → i.val < d.codec.size := by
    intro i hi
    simpa [poolSlots] using hi
  unfold findFree at h
  split at h
  · rename_i j hj
    obtain rfl := Option.some.inj h
    have hp := List.find?_some hj
    simp only [Bool.and_eq_true, Bool.not_eq_true'] at hp
    exact ⟨hmem (List.mem_of_find?_eq_some hj), hp.1.1, .inr hp.2⟩
  · have hp := List.find?_some h
    simp only [Bool.and_eq_true, Bool.not_eq_true'] at hp
    exact ⟨hmem (List.mem_of_find?_eq_some h), hp.1, .inl hp.2⟩

/-- What `H265Dpb_Select` does: no slot is free and only reference marks changed, or the current
picture is put into the free slot and everything else is as marking left it. -/
theorem select_cases (hslice : parsed.hasSlice = true) :
    (findFree (markForPicture d parsed) = none ∧
        select d parsed = (.full, none, markForPicture d parsed)) ∨
      ∃ slot d', findFree (markForPicture d parsed) = some slot ∧
        select d parsed = (.ok, some (packSelection d' slot parsed), d') ∧
        d'.currentIdx = some slot ∧ d'.holds = d.holds ∧ d'.currentEpoch = d.currentEpoch ∧
        d'.codec = d.codec ∧ (d'.slots slot).ref = ⟨true, parsed.nalRefFlag, parsed.poc⟩ ∧
        ∀ j, j ≠ slot → (d'.slots j).ref = ((markForPicture d parsed).slots j).ref := by
  have hm : Marks d (markForPicture d parsed) := marks_markForPicture
  unfold select
  rw [if_neg (by simp [hslice])]
  dsimp only
  cases hfree : findFree (markForPicture d parsed) with
  | none => exact .inl ⟨rfl, rfl⟩
  | some slot =>
    have hput : Marks d ((slotClear (markForPicture d parsed) slot).modifyRef slot fun _ =>
        ⟨true, parsed.nalRefFlag, parsed.poc⟩) := hm.trans (marks_slotClear.trans .modifyRef)
    refine .inr ⟨slot, _, rfl, rfl, rfl, hput.holds, hput.currentEpoch, hput.codec, ?_, ?_⟩
    · simp [Dpb.modifyRef]
    · intro j hj
      simp [slotClear, Dpb.modifyRef, Function.update_of_ne hj]

end Rkvdec.Engine.H265
