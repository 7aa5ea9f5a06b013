import Rkvdec.Engine.Calls
import Rkvdec.Lib.Trace

/-! How many reference slots the sliding window of H.264 leaves, over every sequence of calls. -/
namespace Rkvdec.Engine.H264

open Lib (Along along_congr)

def longTermCount (d : DpbCtx) : Nat := allSlots.countP fun i => (d.slots i).ref.isLongTerm

/-- max(max_num_ref_frames, 1). -/
def referenceBound (d : DpbCtx) : Nat := max d.codec.maxNumRefFrames 1

/-- The picture that completes is a reference without adaptive marking. -/
def WindowRuns (d : DpbCtx) : Prop :=
  (d.currentIdx.any fun cur => (d.slots cur).ref.isRef) = true ∧ d.codec.pendingAdaptive = false

instance (d : DpbCtx) : Decidable (WindowRuns d) := inferInstanceAs (Decidable (_ ∧ _))

/-- Behind the sliding window there are no more references than the bound, unless the long-term ones
alone reach it. -/
def Bounded : Option DpbCtx → Call → Prop
  | some d, .decodeComplete =>
    let d' := onDecodeComplete d
    WindowRuns d → longTermCount d' < referenceBound d →
      shortTermCount d' + longTermCount d' ≤ referenceBound d
  | _, _ => True

/-- There is no long-term reference, or there are few enough references before the window runs. -/
def Unmixed : Option DpbCtx → Call → Prop
  | some d, .decodeComplete =>
    WindowRuns d → longTermCount d < referenceBound d →
      longTermCount d = 0 ∨ shortTermCount d + longTermCount d ≤ referenceBound d
  | _, _ => True

instance : ∀ (d : Option DpbCtx) (c : Call), Decidable (Bounded d c)
  | some d, .decodeComplete => inferInstanceAs (Decidable (WindowRuns d →
      longTermCount (onDecodeComplete d) < referenceBound d →
      shortTermCount (onDecodeComplete d) + longTermCount (onDecodeComplete d) ≤ referenceBound d))
  | none, _ | some _, .select _ | some _, .decodeFailed | some _, .flush | some _, .holds _ =>
    .isTrue trivial

section Window

variable {d : DpbCtx} {i : SlotIdx} {n fuel : Nat}

theorem shortTermCount_le (d : DpbCtx) : shortTermCount d ≤ poolSize := List.countP_le_length

theorem shortTermCount_evict (h : 0 < shortTermCount d) :
    shortTermCount (evictOldestShortTerm d) + 1 = shortTermCount d := by
  obtain ⟨hnone, -⟩ | ⟨i, hshort, hsame⟩ := evict_cases d
  · omega
  · have hcount : shortTermCount (evictOldestShortTerm d) = shortTermCount (slotClear d i) := by
      simp only [shortTermCount, hsame]
    rw [hcount, shortTermCount_slotClear hshort]

theorem longTerm_evict (d : DpbCtx) (j : SlotIdx) :
    ((evictOldestShortTerm d).slots j).ref.isLongTerm = (d.slots j).ref.isLongTerm := by
  obtain ⟨-, heq⟩ | ⟨i, hshort, hsame⟩ := evict_cases d
  · rw [heq]
  · rw [hsame, slots_slotClear]
    by_cases hj : j = i
    · subst hj
      simp_all [RefState.isShortTerm, RefState.isLongTerm, RefState.cleared]
    · rw [if_neg hj]

theorem longTermCount_slideWindow (n fuel : Nat) (d : DpbCtx) :
    longTermCount (slideWindow n fuel d) = longTermCount d := by
  induction fuel generalizing d with
  | zero => rfl
  | succ fuel ih =>
    unfold slideWindow
    split
    · rfl
    · rw [ih]
      simp only [longTermCount, longTerm_evict]

/-- The window counts the short-term references only. -/
theorem shortTermCount_slideWindow_eq (h : shortTermCount d ≤ n + fuel) :
    shortTermCount (slideWindow n fuel d) = min (shortTermCount d) n := by
  induction fuel generalizing d with
  | zero => exact (min_eq_left h).symm
  | succ fuel ih =>
    unfold slideWindow
    split
    · rename_i hle
      exact (min_eq_left hle).symm
    · rename_i hmore
      have hcount := shortTermCount_evict (d := d) (by omega)
      rw [ih (by omega)]
      omega

/-- What a completion leaves when the window runs. -/
theorem counts_onDecodeComplete (h : WindowRuns d) :
    shortTermCount (onDecodeComplete d) = min (shortTermCount d) (referenceBound d) ∧
      longTermCount (onDecodeComplete d) = longTermCount d := by
  obtain ⟨hcur, hadaptive⟩ := h
  unfold onDecodeComplete
  cases hidx : d.currentIdx with
  | none =>
    rw [hidx] at hcur
    cases hcur
  | some cur =>
    rw [hidx] at hcur
    have href : (d.slots cur).ref.isRef = true := by simpa using hcur
    have hbound : (if d.codec.maxNumRefFrames ≠ 0 then d.codec.maxNumRefFrames else 1) =
        referenceBound d := by
      unfold referenceBound
      split <;> omega
    simp only [href, hadaptive, hbound, Bool.true_eq_false, Bool.false_eq_true, if_false]
    constructor
    · exact shortTermCount_slideWindow_eq ((shortTermCount_le d).trans (Nat.le_add_left _ _))
    · exact longTermCount_slideWindow _ _ _

end Window

theorem bounded_iff (d : Option DpbCtx) (c : Call) : Bounded d c ↔ Unmixed d c := by
  match d, c with
  | some d, .decodeComplete =>
    have hiff : WindowRuns d → (longTermCount (onDecodeComplete d) < referenceBound d →
        shortTermCount (onDecodeComplete d) + longTermCount (onDecodeComplete d) ≤
        referenceBound d ↔
        longTermCount d < referenceBound d →
          longTermCount d = 0 ∨ shortTermCount d + longTermCount d ≤ referenceBound d) := by
      intro hruns
      obtain ⟨hshort, hlong⟩ := counts_onDecodeComplete hruns
      rw [hshort, hlong]
      omega
    exact forall_congr' hiff
  | none, _ | some _, .select _ | some _, .decodeFailed | some _, .flush | some _, .holds _ =>
    exact Iff.rfl

/-- The bound of 8.2.5.3 is kept if and only if no window runs over a full DPB with long-term
references in it. -/
theorem reference_count_bounded_iff (calls : List Call) :
    Along call Bounded (some init) calls ↔ Along call Unmixed (some init) calls := by
  have hiff : ∀ d c, True → (Bounded d c ↔ Unmixed d c) := fun d c _ => bounded_iff d c
  exact along_congr hiff (fun _ _ _ _ => trivial) trivial

/-- A progressive picture of a stream with `max_num_ref_frames` 2. -/
def windowPicture (idr : Bool) (frameNum : BitVec 16) (poc : Int) : Parsed where
  hasSps := true
  hasSlice := true
  isIdr := idr
  idrLongTermReferenceFlag := idr
  nalRefIdc := 1
  frameNum := frameNum
  topFieldOrderCnt := poc
  bottomFieldOrderCnt := poc
  adaptiveRefPicMarkingModeFlag := false
  mmco := []
  maxNumRefFrames := 2
  log2MaxFrameNumMinus4 := 0

/-- A long-term IDR picture and two pictures behind it: the window counts two references and leaves
three. -/
theorem window_ignores_long_term : ¬ Along call Bounded (some init)
    [.select (windowPicture true 0 0), .decodeComplete, .select (windowPicture false 1 2),
    .decodeComplete,
      .select (windowPicture false 2 4), .decodeComplete] := by
  decide +kernel

end Rkvdec.Engine.H264
