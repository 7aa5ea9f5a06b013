import Rkvdec.Lib.Trace
import Rkvdec.Vp9.Engine

/-! Who has the slots of the pool: the reference slots, and the frames that were handed out. The
engine keeps one flag a slot, however many frames of the slot are out. -/
namespace Rkvdec.Vp9

/-- The engine and the slots of the frames that were handed out and are not released yet. -/
structure Held where
  engine : Engine
  outstanding : List PoolSlot := []

/-- What a client calls: a frame is released by its place among those it has. -/
inductive Call
  | decode (bits : List Bool) (kickOk : Bool)
  | release (i : Nat)
  | flush

namespace Held

def decode (s : Held) (out : Outcome) : Held where
  engine := out.engine
  outstanding := (out.frame.bind DecodedFrame.slotIdx).toList ++ s.outstanding

/-- A release of a frame that is not there does nothing. -/
def release (s : Held) (i : Nat) : Held :=
  match s.outstanding[i]? with
  | none => s
  | some slot => ⟨s.engine.step (.release slot), s.outstanding.eraseIdx i⟩

def step (s : Held) : Call → Held
  | .decode bits kickOk => s.decode (s.engine.decodeOne bits kickOk)
  | .release i => s.release i
  | .flush => { s with engine := s.engine.step .flush }

/-- A frame that were decoded now would overwrite neither a reference nor a frame that is out. -/
def TargetFree (s : Held) : Prop :=
  ∀ target, s.engine.freePoolSlot = some target →
    (∀ r d, s.engine.dpb.slots r = some d → d.frameHandle ≠ .poolOutput target) ∧
      target ∉ s.outstanding

/-- The call releases no frame of a slot that has another frame out. -/
def SoleRelease (s : Held) : Call → Prop
  | .release i => ∀ slot, s.outstanding[i]? = some slot → slot ∉ s.outstanding.eraseIdx i
  | _ => True

/-- The slots of the frames that are out are in use. -/
def Marked (s : Held) : Prop := ∀ slot ∈ s.outstanding, s.engine.poolInUse slot = true

variable {s : Held}

theorem target_free (h : s.Marked) : s.TargetFree := by
  intro target htarget
  have hfound := List.find?_some htarget
  simp only [Bool.and_eq_true, Bool.not_eq_true', decide_eq_true_eq] at hfound
  obtain ⟨hunused, hdpb⟩ := hfound
  refine ⟨?_, ?_⟩
  · intro r d hslot hhandle
    exact hdpb r (by rw [hslot, Option.map_some, hhandle])
  · intro hout
    rw [h target hout] at hunused
    cases hunused

/-- The frame of a call is out with its slot in use; the other slots in use stay so. -/
theorem marked_decode (h : s.Marked) (bits : List Bool) (kickOk : Bool) :
    (s.decode (s.engine.decodeOne bits kickOk)).Marked := by
  have hkeep : ∀ slot other, other ∈ slot :: s.outstanding →
      Function.update s.engine.poolInUse slot true other = true := by
    intro slot other hother
    rcases eq_or_ne other slot with rfl | hne
    · exact Function.update_self ..
    · rw [Function.update_of_ne hne]
      exact h other ((List.mem_cons.mp hother).resolve_left hne)
  rcases s.engine.decodeOne_cases bits kickOk with ⟨pp, target, hsub⟩ | ⟨pp, d, slot, hshow⟩ | hidle
  · obtain ⟨regs, -, hout⟩ := hsub.outcome kickOk
    rw [hout]
    cases kickOk with
    | true => exact hkeep target
    | false => exact h
  · rw [hshow.outcome]
    exact hkeep slot
  · have hframe : ((s.engine.decodeOne bits kickOk).frame.bind DecodedFrame.slotIdx) = none := by
      rcases hidle.frame with hframe | hframe <;> rw [hframe] <;> rfl
    intro slot hslot
    rw [decode, hframe] at hslot
    have hpool : (s.engine.decodeOne bits kickOk).engine.poolInUse = s.engine.poolInUse := by
      rcases hidle.engine with hengine | hengine <;> rw [hengine]
    change (s.engine.decodeOne bits kickOk).engine.poolInUse slot = true
    rw [hpool]
    exact h slot hslot

theorem marked_release {i : Nat} (h : s.Marked) (hsole : s.SoleRelease (.release i)) :
    (s.release i).Marked := by
  unfold release
  split
  · exact h
  · rename_i slot hslot
    intro other hother
    have hne : other ≠ slot := by
      rintro rfl
      exact hsole other hslot hother
    change Function.update s.engine.poolInUse slot false other = true
    rw [Function.update_of_ne hne]
    exact h other (List.mem_of_mem_eraseIdx hother)

theorem marked_step (call : Call) (h : s.Marked) (hsole : s.SoleRelease call) :
    (s.step call).Marked := by
  cases call with
  | decode bits kickOk => exact marked_decode h bits kickOk
  | release i => exact marked_release h hsole
  | flush => exact h

end Held

/-- Along every run that releases a slot only with its last frame, the target of a frame is
nobody's. -/
theorem target_belongs_to_nobody (width height : Nat) (calls : List Call)
    (h : Lib.Along Held.step Held.SoleRelease { engine := .init width height } calls) :
    (calls.foldl Held.step { engine := .init width height }).TargetFree := by
  have hinit : Held.Marked { engine := .init width height } := by
    intro slot hslot
    cases hslot
  have hmarked :=
    Lib.Along.foldl_inv (fun s call hs hsole => Held.marked_step call hs hsole) hinit h
  exact Held.target_free hmarked

/-- A frame that is decoded, released and decoded over. -/
theorem target_belongs_to_nobody_released :
    (([.decode keyFrameBits true, .decode keyFrameBits true, .release 1] : List Call).foldl
      Held.step
      { engine := .init 64 64 }).TargetFree := by
  refine target_belongs_to_nobody 64 64 _ ⟨trivial, trivial, ?_, trivial⟩
  change ∀ slot, _ → _
  decide +kernel

/-- A key frame is shown a second time and replaced, and one of its two frames is released: the next
target is the slot of the other. -/
theorem release_frees_shared_slot :
    ¬ (([.decode keyFrameBits true, .decode (showExistingBits 0) true, .decode keyFrameBits true,
      .release 1] : List Call).foldl Held.step { engine := .init 64 64 }).TargetFree := by
  intro h
  have hout := (h 0 (by decide +kernel)).2
  exact hout (by decide +kernel)

end Rkvdec.Vp9
