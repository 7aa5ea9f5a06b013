import Rkvdec.Av1d.JobDrive

/-! Why no job of the AV1 queue waits forever: with the queue open and a job on `Pending`, something
is in flight or the kick worker comes. -/
namespace Rkvdec.Av1d.JobQueue

open Lib Kernel
open Dispatch (File Ptr)

variable {k k' : Kernel} {F : Multiset Frame} {call : Frame} {calls : List Frame}
  {events : List Event} {r : Request} {good : Bool} {G : Guard} {s : Sys}

namespace Frame

/-- A run of the worker, started or about to be queued. -/
def works : Frame → Bool
  | .workItemEnqueue | .kickWorker => true
  | _ => false

end Frame

/-- The runs of the kick worker that are outstanding. -/
def outstandingRuns (k : Kernel) (F : Multiset Frame) : Nat :=
  F.countP (fun call => call.works = true) + k.workItem

/-- A run of the worker that will look at the queue again is outstanding, or about to be queued. -/
def WorkerComes (k : Kernel) (F : Multiset Frame) : Prop :=
  k.queue.kickRearm = true ∧ 0 < outstandingRuns k F ∨ .enqueueKickWorker ∈ F

/-- The worker's flags say what is outstanding, and unless the queue drains or is about to be
resumed, a waiting job has something in flight before it or a worker coming. -/
structure Awake (k : Kernel) (F : Multiset Frame) : Prop where
  waiting : k.queue.draining = false → .resumeChain ∉ F → k.queue.pending ≠ [] →
    k.queue.inFlight ≠ none ∨ k.queue.kickRearm = true ∨ .enqueueKickWorker ∈ F
  rearm : k.queue.kickRearm = true → k.queue.kickActive = true
  runs : outstandingRuns k F = if k.queue.kickActive then 1 else 0

theorem outstandingRuns_cons :
    outstandingRuns k (call ::ₘ F) = call.works.toNat + outstandingRuns k F := by
  unfold outstandingRuns
  rw [Multiset.countP_cons]
  cases call.works <;> simp [add_comm, add_left_comm]

theorem outstandingRuns_coe_add :
    outstandingRuns k (↑calls + F) = calls.countP Frame.works + outstandingRuns k F := by
  unfold outstandingRuns
  rw [Multiset.countP_add, Multiset.coe_countP]
  simp [add_assoc]

theorem Awake.comes (h : Awake k F) (hdraining : k.queue.draining = false)
    (hresume : .resumeChain ∉ F) :
    k.queue.pending = [] ∨ k.queue.inFlight ≠ none ∨ WorkerComes k F := by
  by_cases hpending : k.queue.pending = []
  · exact .inl hpending
  · rcases h.waiting hdraining hresume hpending with hslot | hrearm | harm
    · exact .inr (.inl hslot)
    · refine .inr (.inr (.inl ⟨hrearm, ?_⟩))
      rw [h.runs, if_pos (h.rearm hrearm)]
      exact Nat.one_pos
    · exact .inr (.inr (.inr harm))

namespace Awake

variable {F' : Multiset Frame}

/-- A step that leaves the worker's flags and runs alone. -/
theorem keep (h : Awake k F) (hrearm : k'.queue.kickRearm = k.queue.kickRearm)
    (hactive : k'.queue.kickActive = k.queue.kickActive)
    (hruns : outstandingRuns k' F' = outstandingRuns k F)
    (harms : .enqueueKickWorker ∈ F → .enqueueKickWorker ∈ F')
    (hwait : k'.queue.draining = false → .resumeChain ∉ F' → k'.queue.pending ≠ [] →
      k'.queue.inFlight ≠ none ∨ .enqueueKickWorker ∈ F' ∨
        k.queue.draining = false ∧ .resumeChain ∉ F ∧ k.queue.pending ≠ [] ∧
          k'.queue.inFlight = k.queue.inFlight) : Awake k' F' where
  waiting hdraining hresume hpending := by
    rcases hwait hdraining hresume hpending with hslot | harm | ⟨hd, hr, hp, hslot⟩
    · exact .inl hslot
    · exact .inr (.inr harm)
    · rw [hslot, hrearm]
      exact (h.waiting hd hr hp).imp_right (.imp_right harms)
  rearm hr := by
    rw [hactive]
    exact h.rearm (hrearm ▸ hr)
  runs := by
    rw [hruns, hactive, h.runs]

theorem runs_step (h : Awake k (call ::ₘ F)) (hrun : Runs k call good k' calls events) :
    Awake k' (↑calls + F) := by
  have hruns := h.runs
  rw [outstandingRuns_cons] at hruns
  -- a section of no worker that adds nothing to `Pending`
  have quiet : k'.queue.kickRearm = k.queue.kickRearm → k'.queue.kickActive = k.queue.kickActive →
      k'.workItem = k.workItem → calls.countP Frame.works = call.works.toNat →
      call ≠ .enqueueKickWorker → call ≠ .resumeChain →
      (k'.queue.draining = false → k'.queue.pending ≠ [] → k'.queue.inFlight ≠ none ∨
        .enqueueKickWorker ∈ calls ∨ k.queue.draining = false ∧ k.queue.pending ≠ [] ∧
          k'.queue.inFlight = k.queue.inFlight) → Awake k' (↑calls + F) := by
    intro hrearm hactive hitem hworks harm hresume hwait
    refine h.keep hrearm hactive ?_ (fun hmem => ?_) fun hdraining hchain hpending => ?_
    · rw [outstandingRuns_cons, outstandingRuns_coe_add, hworks]
      simp [outstandingRuns, hitem]
    · exact Multiset.mem_add.mpr (.inr ((Multiset.mem_cons.mp hmem).resolve_left (Ne.symm harm)))
    · rcases hwait hdraining hpending with hslot | hcall | ⟨hd, hp, hslot⟩
      · exact .inl hslot
      · exact .inr (.inl (Multiset.mem_add.mpr (.inl (by simpa using hcall))))
      · refine .inr (.inr ⟨hd, fun hmem => hchain ?_, hp, hslot⟩)
        exact Multiset.mem_add.mpr
          (.inr ((Multiset.mem_cons.mp hmem).resolve_left (Ne.symm hresume)))
  have hcomplete : ∀ q : Queue, (q.draining = false → q.pending ≠ [] →
      .enqueueKickWorker ∈ wantKick q) ∧ (wantKick q).countP Frame.works = 0 := by
    intro q
    unfold wantKick
    by_cases hq : q.draining = false ∧ q.pending ≠ []
    · rw [if_pos hq]
      exact ⟨fun _ _ => List.mem_singleton_self _, rfl⟩
    · rw [if_neg hq]
      exact ⟨fun hd hp => absurd ⟨hd, hp⟩ hq, rfl⟩
  induction hrun with
  | submitStart =>
    exact quiet rfl rfl rfl rfl (by simp) (by simp) fun _ _ => .inl (by simp)
  | submitWait room later =>
    refine quiet rfl rfl rfl rfl (by simp) (by simp) fun hd _ => .inl fun hslot => later ?_
    exact ⟨hslot, hd⟩
  | completeOrphan | complete =>
    obtain ⟨hcomes, hworks⟩ := hcomplete k.queue
    refine quiet rfl rfl rfl ?_ (by simp) (by simp) fun hd hp => .inr (.inl ?_)
    · simp [hworks, Frame.works]
    · simp [hcomes hd hp]
  | enqueueKickWorker =>
    refine ⟨fun _ _ _ => .inr (.inl rfl), fun _ => rfl, ?_⟩
    rw [outstandingRuns_coe_add]
    cases hactive : k.queue.kickActive <;> simp_all [outstandingRuns, Frame.works]
  | workItemEnqueue =>
    refine ⟨fun hd hchain hp => ?_, h.rearm, ?_⟩
    · have := h.waiting hd (fun hmem => hchain (by simpa using hmem)) hp
      simpa using this
    · rw [outstandingRuns_coe_add, ← hruns]
      simp only [outstandingRuns, Frame.works, Bool.toNat_true, List.countP_nil]
      omega
  | workerExit rearm =>
    refine ⟨fun hd hchain hp => ?_, fun hr => ?_, ?_⟩
    · have := h.waiting hd (fun hmem => hchain (by simpa using hmem)) hp
      simpa using this
    · exact absurd (rearm.symm.trans hr) (by simp)
    · rw [outstandingRuns_coe_add]
      have hle : Frame.kickWorker.works.toNat + outstandingRuns k F ≤ 1 := by
        rw [hruns]
        split <;> simp
      simp only [outstandingRuns, Frame.works, Bool.toNat_true, List.countP_nil, setQueue_workItem,
        setQueue_queue, Bool.false_eq_true, if_false] at hle ⊢
      omega
  | workerIdle rearm stay =>
    refine ⟨fun hd hchain hp => ?_, (fun hr => by cases hr), ?_⟩
    · rcases stay with hstay | hstay | hstay
      · exact absurd (hd.symm.trans hstay) (by simp)
      · exact .inl hstay
      · exact absurd hstay hp
    · rw [outstandingRuns_coe_add]
      exact hruns
  | workerPromote rearm open_ free head =>
    refine ⟨fun _ _ _ => .inl (by simp), (fun hr => by cases hr), ?_⟩
    rw [outstandingRuns_coe_add]
    exact hruns
  | waitExpiredPending =>
    refine quiet rfl rfl rfl rfl (by simp) (by simp) fun hd hp =>
      .inr (.inr ⟨hd, fun hnil => hp ?_, rfl⟩)
    simp [hnil]
  | resumeIdle stay =>
    refine h.keep rfl rfl ?_ (fun hmem => by simpa using hmem) fun _ _ hp => ?_
    · rw [outstandingRuns_cons, outstandingRuns_coe_add]
      rfl
    · exact .inl (stay.resolve_right hp)
  | resumePromote =>
    refine h.keep rfl rfl ?_ (fun hmem => by simpa using hmem) fun _ _ _ => .inl (by simp)
    rw [outstandingRuns_cons, outstandingRuns_coe_add]
    rfl
  | _ => exact quiet rfl rfl rfl rfl (by simp) (by simp) fun hd hp => .inr (.inr ⟨hd, hp, rfl⟩)

theorem enters (h : Awake k F) (hrun : Enters k r k' calls events) : Awake k' (↑calls + F) := by
  have quiet : k'.queue.kickRearm = k.queue.kickRearm → k'.queue.kickActive = k.queue.kickActive →
      calls.countP Frame.works + k'.workItem = k.workItem →
      (k'.queue.draining = false → .resumeChain ∉ calls → k'.queue.pending ≠ [] →
        k.queue.draining = false ∧ k.queue.pending ≠ [] ∧
          k'.queue.inFlight = k.queue.inFlight) → Awake k' (↑calls + F) := by
    intro hrearm hactive hworks hwait
    refine h.keep hrearm hactive ?_ (fun hmem => Multiset.mem_add.mpr (.inr hmem)) ?_
    · rw [outstandingRuns_coe_add]
      simp only [outstandingRuns]
      omega
    · intro hd hchain hp
      obtain ⟨hd', hp', hslot⟩ := hwait hd (fun hmem => hchain (by simp [hmem])) hp
      exact .inr (.inr ⟨hd', fun hmem => hchain (Multiset.mem_add.mpr (.inr hmem)), hp', hslot⟩)
  induction hrun with
  | startWorker item =>
    refine quiet rfl rfl ?_ fun hd _ hp => ⟨hd, hp, rfl⟩
    simp only [List.countP_cons, List.countP_nil, Frame.works, if_true]
    omega
  | drain | drainPin =>
    refine quiet rfl rfl (Nat.zero_add _) fun hd _ hp => ⟨hd, fun hnil => hp ?_, rfl⟩
    simp [undrained, hnil]
  | quiesce => exact quiet rfl rfl (Nat.zero_add _) fun hd => by cases hd
  | resume =>
    exact quiet rfl rfl (Nat.zero_add _) fun _ hchain => absurd (List.mem_singleton_self _) hchain
  | _ => exact quiet rfl rfl (Nat.zero_add _) fun hd _ hp => ⟨hd, hp, rfl⟩

end Awake

theorem awake_init : Awake kernelInit 0 where
  waiting _ _ hp := by simp [kernelInit, jobQueueInit] at hp
  rearm hr := by cases hr
  runs := rfl

theorem awake_reachable (h : Reachable G s) : Awake s.mem s.calls :=
  Reachable.invariant (I := fun _ _ _ => True) (J := fun k F _ => Awake k F) (fun _ _ => trivial)
    awake_init (fun _ hj _ hrun => hj.enters hrun) (fun _ hj _ hrun => hj.runs_step hrun) h

/-- A waiting job is not stranded: when the queue does not drain and no Resume has yet to look at
it, a job is in flight or a run of the worker comes that will look at the queue again. -/
theorem no_av1_job_stranded (h : Reachable .any s) (hopen : s.mem.queue.draining = false)
    (hresume : .resumeChain ∉ s.calls) (hpending : s.mem.queue.pending ≠ []) :
    s.mem.queue.inFlight ≠ none ∨ WorkerComes s.mem s.calls :=
  ((awake_reachable h).comes hopen hresume).resolve_left hpending

/-- A job runs, the next one waits for it, and the first is completed. -/
abbrev slotEmptied : List (Action Request) :=
  .enter (.mapMmio 4096) :: submitBare 1 0 ++ [.run 1 true] ++ submitBare 2 0 ++
    [.enter (.interrupt 0x1100), .run 3 true, .run 3 true]

theorem slotEmptied_runs : (machine.run init slotEmptied).isSome = true := by
  decide +kernel

/-- The worker has yet to be queued. -/
theorem no_av1_job_stranded_emptied :
    ((machine.run init slotEmptied).get slotEmptied_runs).mem.queue.pending = [1] ∧
      (((machine.run init slotEmptied).get slotEmptied_runs).mem.queue.inFlight ≠ none ∨
        WorkerComes ((machine.run init slotEmptied).get slotEmptied_runs).mem
          ((machine.run init slotEmptied).get slotEmptied_runs).calls) :=
  ⟨by decide +kernel, no_av1_job_stranded (.of_get slotEmptied_runs (by decide +kernel))
    (by decide +kernel) (by decide +kernel) (by decide +kernel)⟩

end Rkvdec.Av1d.JobQueue
