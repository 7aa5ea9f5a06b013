import Rkvdec.Av1d.JobEffects

/-! Where the jobs of the AV1 queue are, and what drives the one in flight. Every job is on one
list, in flight, or held by one thread that is about to link or to free it. -/
namespace Rkvdec.Av1d.JobQueue

open Lib Kernel
open Dispatch (File Ptr)

variable {k k' : Kernel} {F : Multiset Frame} {call : Frame} {calls : List Frame}
  {events : List Event} {r : Request} {good : Bool} {p q : Ptr} {f : File} {G : Guard} {s : Sys}

namespace Frame

/-- The jobs off every list that the call is about to link or to free. -/
def owns : Frame → List Ptr
  | .submitEnqueue _ p => [p]
  | .takeResult p => [p]
  | .release jobs => jobs
  | _ => []

/-- The job the call is about to link. -/
def submits : Frame → List Ptr
  | .submitEnqueue _ p => [p]
  | _ => []

/-- The job the section frees. -/
def frees : Frame → List Ptr
  | .release (p :: _) => [p]
  | _ => []

/-- The job the call is about to start. -/
def starts : Frame → List Ptr
  | .jobStart p => [p]
  | _ => []

/-- The call leads to a completion of the job in flight, or starts it. -/
def drives : Frame → Bool
  | .jobStart _ | .evtDpc _ | .jobComplete .. => true
  | _ => false

/-- The job the call has pinned. -/
def pins : Frame → List Ptr
  | .waitDone p _ => [p]
  | .waitExpired p => [p]
  | .waitReap p => [p]
  | .drainWait _ p => [p]
  | .drainPost _ p _ => [p]
  | _ => []

end Frame

theorem flatMap_wantKick {α : Type} {g : Frame → List α} (h : g .enqueueKickWorker = [])
    (q : Queue) :
    (wantKick q).flatMap g = [] := by
  unfold wantKick
  split <;> simp [h]

theorem countP_wantKick (q : Queue) : (wantKick q).countP Frame.drives = 0 := by
  unfold wantKick
  split <;> rfl

section Sections

@[simp] theorem unpinned_queue (timedOut : Bool) : (unpinned k f p timedOut).queue = k.queue := rfl

@[simp] theorem unpinned_alive (timedOut : Bool) : (unpinned k f p timedOut).alive = k.alive := rfl

@[simp] theorem unpinned_nextPtr (timedOut : Bool) :
    (unpinned k f p timedOut).nextPtr = k.nextPtr := rfl

/-- A store into a job that leaves what `g` reads. -/
theorem setJob_proj {α : Type} (g : RkMppJob → α) {upd : RkMppJob → RkMppJob} (q : Ptr)
    (h : g (upd (k.jobs q)) = g (k.jobs q)) : g ((k.setJob q upd).jobs p) = g (k.jobs p) := by
  by_cases hp : p = q
  · subst hp
    simpa using h
  · simp [hp]

theorem unpinned_proj {α : Type} (g : RkMppJob → α)
    (h : ∀ j b, g { addPin (-1) j with orphanOnComplete := b } = g j) (timedOut : Bool) :
    g ((unpinned k f q timedOut).jobs p) = g (k.jobs p) :=
  setJob_proj g q (h _ _)

theorem Runs.nextPtr (h : Runs k call good k' calls events) : k'.nextPtr = k.nextPtr := by
  cases h <;> rfl

theorem Runs.alive (h : Runs k call good k' calls events) :
    k'.alive p = (k.alive p && decide (p ∉ call.frees)) := by
  induction h with
  | @release q rest _ alive =>
    by_cases hq : p = q <;> simp [hq, Frame.frees]
  | _ => simp [Frame.frees]

/-- No section leaves a submission behind. -/
theorem Runs.submits (h : Runs k call good k' calls events) : calls.flatMap Frame.submits = [] := by
  have hwant := flatMap_wantKick (g := Frame.submits) rfl k.queue
  induction h with
  | completeOrphan | complete => simp [hwant, Frame.submits]
  | enqueueKickWorker => split <;> rfl
  | _ => rfl

end Sections

/-- The jobs accounted for: on a list, in flight, or with a thread. -/
def places (k : Kernel) (F : Multiset Frame) : Multiset Ptr :=
  ↑(k.queue.pending ++ k.queue.completed ++ k.queue.inFlight.toList) + gather Frame.owns F

/-- A section moves jobs between the places, but for the one it frees. -/
theorem Runs.places (h : Runs k call good k' calls events) :
    JobQueue.places k' (↑calls + F) + ↑call.frees = JobQueue.places k (call ::ₘ F) := by
  have key : (k'.queue.pending ++ k'.queue.completed ++ k'.queue.inFlight.toList ++
      calls.flatMap Frame.owns ++ call.frees).Perm
      (k.queue.pending ++ k.queue.completed ++ k.queue.inFlight.toList ++ call.owns) := by
    have hwant := flatMap_wantKick (g := Frame.owns) rfl k.queue
    rw [← Multiset.coe_eq_coe]
    simp only [← Multiset.coe_add]
    induction h with
    | submitStart room free => simp [Frame.owns, Frame.frees, free]
    | submitWait =>
      simp only [setFileLock_queue, setQueue_queue, ← Multiset.coe_add, Frame.owns, Frame.frees,
        List.flatMap_cons, List.flatMap_nil, Multiset.coe_nil, add_zero]
      abel
    | completeOrphan slot =>
      simp [Frame.owns, Frame.frees, slot, hwant]
    | complete slot =>
      simp only [setQueue_queue, setJob_queue, hwant, slot, ← Multiset.coe_add, Frame.owns,
        Frame.frees, Option.toList_none, Option.toList_some, Multiset.coe_nil, add_zero, add_assoc]
    | @release q rest =>
      simp only [free_queue, Frame.owns, Frame.frees, List.flatMap_cons, List.flatMap_nil,
        List.append_nil, ← Multiset.cons_coe, Multiset.coe_nil]
      rw [add_assoc, Multiset.add_cons, add_zero]
    | workerPromote rearm open_ free head | resumePromote free head =>
      simp only [setQueue_queue, free, head, Frame.owns, Frame.frees, List.flatMap_cons,
        List.flatMap_nil, List.append_nil, Option.toList_some, Option.toList_none, Multiset.coe_nil,
        add_zero, ← Multiset.cons_coe, Multiset.cons_add, Multiset.add_cons]
    | waitExpiredPending alive pin pending =>
      simp only [setQueue_queue, setJob_queue, Frame.owns, Frame.frees, List.flatMap_cons,
        List.flatMap_nil, List.append_nil, Multiset.coe_nil, add_zero]
      rw [← coe_erase_add pending, Multiset.coe_singleton]
      abel
    | waitExpiredCompleted alive pin pending completed | waitReap alive pin completed =>
      simp only [setQueue_queue, setJob_queue, Frame.owns, Frame.frees, List.flatMap_cons,
        List.flatMap_nil, List.append_nil, Multiset.coe_nil, add_zero]
      rw [← coe_erase_add completed, Multiset.coe_singleton]
      abel
    | @drainPost f q timedOut =>
      simp only [setQueue_queue, unpinned_queue, Frame.owns, Frame.frees, List.flatMap_cons,
        List.flatMap_nil, List.append_nil, Multiset.coe_nil, add_zero]
      rw [← coe_filter_add k.queue.completed fun p => ((unpinned k f q timedOut).jobs p).owner = f ∧
        ((unpinned k f q timedOut).jobs p).waiterPin = 0]
      abel
    | _ => simp [Frame.owns, Frame.frees]
  rw [← Multiset.coe_eq_coe] at key
  simp only [← Multiset.coe_add] at key
  simp only [JobQueue.places, gather_coe_add, gather_cons, ← Multiset.coe_add]
  calc _ = (↑k'.queue.pending + ↑k'.queue.completed + ↑k'.queue.inFlight.toList +
        ↑(calls.flatMap Frame.owns) + ↑call.frees) + gather Frame.owns F := by abel
    _ = _ := by
      rw [key]
      abel

/-- A request moves jobs between the places, but for the one it makes. -/
theorem Enters.places (h : Enters k r k' calls events) : ∃ fresh : List Ptr,
    JobQueue.places k' (↑calls + F) = ↑fresh + JobQueue.places k F ∧ fresh.Nodup ∧
      (∀ p ∈ fresh, p = k.nextPtr ∧ p < k'.nextPtr) ∧
      (∀ p, k'.alive p = (k.alive p || decide (p ∈ fresh))) ∧ k.nextPtr ≤ k'.nextPtr := by
  have hdrained (f : File) : JobQueue.places (undrained k f) F + ↑(drained k f) =
      JobQueue.places k F := by
    simp only [JobQueue.places, undrained, drained, ofFile, ← Multiset.coe_add]
    rw [← coe_filter_add k.queue.pending fun p => (k.jobs p).owner = f,
      ← coe_filter_add k.queue.completed fun p => (k.jobs p).owner = f]
    abel
  induction h with
  | submit =>
    refine ⟨[k.nextPtr], ?_, List.nodup_singleton _, by simp, fun p => ?_, Nat.le_succ _⟩
    · simp only [JobQueue.places, setFileLock_queue, alloc_queue, setQueue_queue, gather_coe_add,
        List.flatMap_cons, List.flatMap_nil, List.append_nil, Frame.owns]
      abel
    · by_cases hp : p = k.nextPtr <;> simp [hp]
  | waitTake found owner =>
    refine ⟨[], ?_, List.nodup_nil, by simp, by simp, le_rfl⟩
    simp only [JobQueue.places, setQueue_queue, gather_coe_add, ← Multiset.coe_add, Frame.owns,
      List.flatMap_cons, List.flatMap_nil, List.append_nil, Multiset.coe_nil, zero_add]
    rw [← coe_erase_add (List.mem_of_find?_eq_some found), Multiset.coe_singleton]
    abel
  | @drain f | @drainPin f =>
    refine ⟨[], ?_, List.nodup_nil, by simp, by simp, le_rfl⟩
    rw [Multiset.coe_nil, zero_add, ← hdrained f]
    simp only [JobQueue.places, setJob_queue, gather_coe_add, Frame.owns, List.flatMap_cons,
      List.flatMap_nil, List.append_nil]
    abel
  | _ =>
    exact ⟨[], by simp [JobQueue.places, Frame.owns], List.nodup_nil, by simp, by simp, le_rfl⟩

/-- The jobs accounted for are those allocated, each once. -/
structure Ledger (k : Kernel) (F : Multiset Frame) : Prop where
  nodup : (places k F).Nodup
  alive : ∀ p ∈ places k F, k.alive p = true
  placed : ∀ p, k.alive p = true → p ∈ places k F
  bound : ∀ p, k.alive p = true → p < k.nextPtr

namespace Ledger

theorem runs (h : Ledger k (call ::ₘ F)) (hrun : Runs k call good k' calls events) :
    Ledger k' (↑calls + F) := by
  have hplaces := hrun.places (F := F)
  have hN := h.nodup
  rw [← hplaces] at hN
  obtain ⟨hnodup, -, hdisjoint⟩ := Multiset.nodup_add.mp hN
  refine ⟨hnodup, fun p hp => ?_, fun p hp => ?_, fun p hp => ?_⟩
  · rw [hrun.alive, h.alive p (hplaces ▸ Multiset.mem_add.mpr (.inl hp)), Bool.true_and,
      decide_eq_true_iff]
    exact fun hfree => Multiset.disjoint_left.mp hdisjoint hp hfree
  · rw [hrun.alive, Bool.and_eq_true, decide_eq_true_iff] at hp
    have hplaced := h.placed p hp.1
    rw [← hplaces, Multiset.mem_add] at hplaced
    exact hplaced.resolve_right hp.2
  · rw [hrun.alive, Bool.and_eq_true] at hp
    rw [hrun.nextPtr]
    exact h.bound p hp.1

theorem enters (h : Ledger k F) (hrun : Enters k r k' calls events) : Ledger k' (↑calls + F) := by
  obtain ⟨fresh, hplaces, hnodup, hfresh, halive, hnext⟩ := hrun.places (F := F)
  refine ⟨?_, fun p hp => ?_, fun p hp => ?_, fun p hp => ?_⟩
  · rw [hplaces]
    refine Multiset.nodup_add.mpr ⟨hnodup, h.nodup, Multiset.disjoint_left.mpr fun hp hold => ?_⟩
    exact (h.bound _ (h.alive _ hold)).ne (hfresh _ hp).1
  · rw [hplaces] at hp
    rw [halive, Bool.or_eq_true]
    exact (Multiset.mem_add.mp hp).symm.imp (h.alive p) fun hp => decide_eq_true hp
  · rw [halive, Bool.or_eq_true] at hp
    rw [hplaces, Multiset.mem_add]
    exact (hp.imp_left (h.placed p)).symm.imp_left of_decide_eq_true
  · rw [halive, Bool.or_eq_true] at hp
    rcases hp with hp | hp
    · exact (h.bound p hp).trans_le hnext
    · exact (hfresh p (of_decide_eq_true hp)).2

end Ledger

theorem ledger_init : Ledger kernelInit 0 where
  nodup := by simp [places, kernelInit, jobQueueInit]
  alive p hp := by simp [places, kernelInit, jobQueueInit] at hp
  placed p hp := by cases hp
  bound p hp := by simp [kernelInit] at hp

theorem ledger_reachable (h : Reachable G s) : Ledger s.mem s.calls :=
  Reachable.invariant (I := fun _ _ _ => True) (J := fun k F _ => Ledger k F) (fun _ _ => trivial)
    ledger_init (fun _ hj _ hrun => hj.enters hrun) (fun _ hj _ hrun => hj.runs hrun) h

section Places

theorem mem_places : p ∈ places k F ↔ p ∈ k.queue.pending ∨ p ∈ k.queue.completed ∨
    k.queue.inFlight = some p ∨ p ∈ gather Frame.owns F := by
  simp [places, or_assoc]

theorem Ledger.of_linked (h : Ledger k F) (hp : k.linked p = true) :
    k.alive p = true ∧ p ∉ gather Frame.owns F := by
  have hlinked : p ∈ k.queue.pending ++ k.queue.completed ++ k.queue.inFlight.toList := by
    simpa [linked, or_assoc] using hp
  refine ⟨h.alive p (Multiset.mem_add.mpr (.inl hlinked)), fun howned => ?_⟩
  exact Multiset.disjoint_left.mp (Multiset.nodup_add.mp h.nodup).2.2 hlinked howned

theorem linked_pending (h : p ∈ k.queue.pending) : k.linked p = true := by
  simp [linked, h]

theorem linked_completed (h : p ∈ k.queue.completed) : k.linked p = true := by
  simp [linked, h]

theorem linked_inFlight (h : k.queue.inFlight = some p) : k.linked p = true := by
  simp [linked, h]

theorem owned_of_submits (h : p ∈ gather Frame.submits F) : p ∈ gather Frame.owns F := by
  obtain ⟨call, hcall, hp⟩ := mem_gather.mp h
  refine mem_gather.mpr ⟨call, hcall, ?_⟩
  cases call <;> simp_all [Frame.submits, Frame.owns]

theorem Ledger.queue_nodup (h : Ledger k F) :
    (k.queue.pending ++ (k.queue.completed ++ k.queue.inFlight.toList)).Nodup := by
  rw [← List.append_assoc]
  exact Multiset.coe_nodup.mp (Multiset.nodup_add.mp h.nodup).1

theorem Ledger.pending_apart (h : Ledger k F) (hp : p ∈ k.queue.pending) :
    p ∉ k.queue.completed ∧ k.queue.inFlight ≠ some p := by
  have hout := (List.nodup_append.mp h.queue_nodup).2.2 p hp
  refine ⟨fun hc => hout p (List.mem_append_left _ hc) rfl, fun hslot => ?_⟩
  exact hout p (List.mem_append_right _ (by simp [hslot])) rfl

theorem Ledger.completed_apart (h : Ledger k F) (hp : p ∈ k.queue.completed) :
    k.queue.inFlight ≠ some p := fun hslot =>
  (List.nodup_append.mp h.queue_nodup.of_append_right).2.2 p hp p (by simp [hslot]) rfl

end Places

end Rkvdec.Av1d.JobQueue
