import Mathlib.Tactic

/-! The slot pool both codecs' DPBs share: per-slot lifecycle flags, the stream epoch, and the
hold API. What the codec keeps about a slot as a reference is a parameter. -/
namespace Rkvdec.Engine

/-- `DecodeEngine::kPoolSize`, equal to `DPB_MAX_SLOTS`. -/
def poolSize : Nat := 16

abbrev SlotIdx := Fin poolSize

/-- `DpbHoldReason`. -/
inductive Hold where
  | reorder
  | ready
  | consumer
deriving DecidableEq, Repr

/-- One pool slot: reference state, the three lifecycle flags, and the epoch of its selection. -/
structure Slot (R : Type) where
  ref : R
  pendingReorder : Bool
  pendingReady : Bool
  heldByConsumer : Bool
  epoch : BitVec 32

/-- A DPB context; `codec` holds the fields only one codec's marking uses. -/
structure Dpb (R C : Type) where
  slots : SlotIdx → Slot R
  currentIdx : Option SlotIdx
  currentEpoch : BitVec 32
  codec : C

variable {R C : Type} {d d' : Dpb R C} {i j : SlotIdx} {r r' : Hold} {epoch : BitVec 32}

/-- `h264_flag_get` / `h265_flag_get`. -/
def Slot.flag (s : Slot R) : Hold → Bool
  | .reorder => s.pendingReorder
  | .ready => s.pendingReady
  | .consumer => s.heldByConsumer

/-- `h264_flag_set` / `h265_flag_set` on one slot. -/
def Slot.setFlag (s : Slot R) (v : Bool) : Hold → Slot R
  | .reorder => { s with pendingReorder := v }
  | .ready => { s with pendingReady := v }
  | .consumer => { s with heldByConsumer := v }

/-- `slot_held`. -/
def Slot.held (s : Slot R) : Bool :=
  s.pendingReorder || s.pendingReady || s.heldByConsumer

namespace Dpb

def flag (d : Dpb R C) (r : Hold) (i : SlotIdx) : Bool := (d.slots i).flag r

def setFlag (d : Dpb R C) (r : Hold) (i : SlotIdx) (v : Bool) : Dpb R C :=
  { d with slots := Function.update d.slots i ((d.slots i).setFlag v r) }

/-- Change the reference state of slot `i`. The lifecycle flags and the epoch stay. -/
def modifyRef (d : Dpb R C) (i : SlotIdx) (f : R → R) : Dpb R C :=
  { d with slots := Function.update d.slots i { d.slots i with ref := f (d.slots i).ref } }

/-- `Dpb_AddHold`; `none` is a failed `RKMPP_VERIFY`. -/
def addHold (d : Dpb R C) (i : SlotIdx) (r : Hold) (entryEpoch : BitVec 32) : Option (Dpb R C) :=
  if d.flag r i = true then none
  else if (d.slots i).epoch ≠ entryEpoch then none
  else some (d.setFlag r i true)

/-- `Dpb_ReleaseHold`. -/
def releaseHold (d : Dpb R C) (i : SlotIdx) (r : Hold) : Option (Dpb R C) :=
  if d.flag r i = false then none
  else some (d.setFlag r i false)

/-- `Dpb_TransferHold`. -/
def transferHold (d : Dpb R C) (i : SlotIdx) (src dst : Hold) (entryEpoch : BitVec 32) :
    Option (Dpb R C) :=
  if src = dst then none
  else if d.flag src i = false then none
  else if d.flag dst i = true then none
  else if (d.slots i).epoch ≠ entryEpoch then none
  else some ((d.setFlag src i false).setFlag dst i true)

/-- The hold flags and epochs, all that the hold API reads. -/
def holds (d : Dpb R C) (i : SlotIdx) : Bool × Bool × Bool × BitVec 32 :=
  ((d.slots i).pendingReorder, (d.slots i).pendingReady, (d.slots i).heldByConsumer,
    (d.slots i).epoch)

theorem flag_of_holds (h : d'.holds i = d.holds i) : d'.flag r i = d.flag r i := by
  simp only [holds, Prod.mk.injEq] at h
  cases r <;> simp [flag, Slot.flag, h]

theorem epoch_of_holds (h : d'.holds i = d.holds i) : (d'.slots i).epoch = (d.slots i).epoch := by
  simp only [holds, Prod.mk.injEq] at h
  exact h.2.2.2

@[simp] theorem holds_modifyRef {f : R → R} : (d.modifyRef i f).holds = d.holds := by
  funext j
  by_cases h : j = i
  · subst h
    simp [holds, modifyRef]
  · simp [holds, modifyRef, Function.update_of_ne h]

theorem flag_setFlag {v : Bool} :
    (d.setFlag r i v).flag r' j = if r' = r ∧ j = i then v else d.flag r' j := by
  by_cases hj : j = i
  · subst hj
    cases r <;> cases r' <;> simp [flag, setFlag, Slot.flag, Slot.setFlag]
  · simp [flag, setFlag, hj]

@[simp] theorem epoch_setFlag {v : Bool} :
    ((d.setFlag r i v).slots j).epoch = (d.slots j).epoch := by
  by_cases hj : j = i
  · subst hj
    cases r <;> simp [setFlag, Slot.setFlag]
  · simp [setFlag, Function.update_of_ne hj]

@[simp] theorem ref_setFlag {v : Bool} :
    ((d.setFlag r i v).slots j).ref = (d.slots j).ref := by
  by_cases hj : j = i
  · subst hj
    cases r <;> simp [setFlag, Slot.setFlag]
  · simp [setFlag, Function.update_of_ne hj]

theorem held_eq_false_iff : (d.slots i).held = false ↔ ∀ r, d.flag r i = false := by
  simp only [Slot.held, Bool.or_eq_false_iff]
  constructor
  · rintro ⟨⟨h1, h2⟩, h3⟩ r
    cases r
    · exact h1
    · exact h2
    · exact h3
  · intro h
    exact ⟨⟨h .reorder, h .ready⟩, h .consumer⟩

end Dpb

end Rkvdec.Engine
