import Rkvdec.Av1d.JobWakeup
import Rkvdec.Lib.History

/-! Quiescing the AV1 queue: what the codec and its IOMMU see after `RkMppJobQueueQuiesce` has
returned, and what becomes of the waiting jobs when `RkMppJobQueueResume` has. -/
namespace Rkvdec.Av1d.JobQueue

open Lib Kernel
open Dispatch (File Ptr)

variable {k k' : Kernel} {F : Multiset Frame} {call : Frame} {calls : List Frame}
  {tr events : List Event} {r : Request} {good : Bool} {p : Ptr} {G : Guard} {s : Sys}

/-- `RkMppJobQueueQuiesce` has returned success, and `RkMppJobQueueResume` was not called since. -/
def Gated (tr : List Event) : Prop := ∃ pre post, tr = pre ++ .quiesced :: post ∧ .resuming ∉ post

/-- `RkMppJobStart` is called or writes registers. -/
def Event.starts : Event → Bool
  | .started _ | .programmed _ => true
  | _ => false

namespace Frame

/-- The call is in `RkMppJobQueueQuiesce`. -/
def quiescing : Frame → Bool
  | .quiesceSnapshot | .quiesceWait _ => true
  | _ => false

end Frame

/-- Quiescing and resuming do not overlap up to the lock of the latter, as the framework calls
them. -/
abbrev serial : Guard := requests fun F r =>
  match r with
  | .quiesce => .resumeChain ∉ F
  | .resume => ∀ call ∈ F, call.quiescing = false
  | _ => true

theorem gated_of_append (h : Gated (tr ++ events)) (hnone : .quiesced ∉ events) :
    Gated tr ∧ .resuming ∉ events := by
  obtain ⟨pre, post, heq, hresuming⟩ := h
  rcases List.append_eq_append_iff.mp heq with ⟨l, hpre, hl⟩ | ⟨l, htr, hl⟩
  · rw [hl] at hnone
    simp at hnone
  · cases l with
    | nil =>
      rw [List.nil_append] at hl
      rw [← hl] at hnone
      simp at hnone
    | cons e l =>
      obtain ⟨rfl, rfl⟩ := List.cons.inj hl
      have hresuming : .resuming ∉ l ++ events := hresuming
      rw [List.mem_append, not_or] at hresuming
      exact ⟨⟨pre, l, htr, hresuming.1⟩, hresuming.2⟩

/-- While the queue drains and is not being resumed nothing is launched. -/
theorem Runs.held (h : Runs k call good k' calls events) (hdraining : k.queue.draining = true)
    (hcall : call ≠ .resumeChain) : k'.queue.draining = true ∧ .resumeChain ∉ calls ∧
      (k'.queue.inFlight = k.queue.inFlight ∨ k'.queue.inFlight = none) := by
  have hwant : wantKick k.queue = [] := by simp [wantKick, hdraining]
  induction h with
  | submitStart room free open_ | workerPromote rearm open_ => simp [hdraining] at open_
  | completeOrphan | complete => exact ⟨hdraining, by simp [hwant], .inr rfl⟩
  | enqueueKickWorker => exact ⟨hdraining, by split <;> simp, .inl rfl⟩
  | resumeIdle | resumePromote => exact absurd rfl hcall
  | _ => exact ⟨hdraining, by simp, .inl rfl⟩

/-- What holds while the queue is quiesced: nothing is in flight and nothing resumes. -/
structure Calm (k : Kernel) (F : Multiset Frame) (tr : List Event) : Prop where
  quiescing : ∀ call ∈ F, call.quiescing = true → k.queue.draining = true ∧ .resumeChain ∉ F
  waits : ∀ p, .quiesceWait p ∈ F → p < k.nextPtr ∧
    (k.queue.inFlight = some p ∨ k.queue.inFlight = none)
  gated : Gated tr → k.queue.draining = true ∧ k.queue.inFlight = none ∧ .resumeChain ∉ F
  silent : Each (fun pre e => Gated pre → e.starts = false) tr

namespace Calm

/-- The events of a section that starts a job. -/
theorem starting (hrun : Runs k call good k' calls events) :
    (∀ e ∈ events, e.starts = false) ∨ ∃ p, call = .jobStart p ∧ .quiesced ∉ events := by
  induction hrun with
  | @startFailed p status events good alive events_eq =>
    refine .inr ⟨p, rfl, ?_⟩
    rcases events_eq with rfl | rfl <;> simp
  | @started p | @startedIdle p => exact .inr ⟨p, rfl, by simp⟩
  | _ => exact .inl (by simp [Event.starts])

/-- The section by which Quiesce returns success. -/
theorem returning (hrun : Runs k call good k' calls events) (h : .quiesced ∈ events) :
    call.quiescing = true ∧ k' = k ∧ calls = [] ∧
      (k.queue.inFlight = none ∨ ∃ p, call = .quiesceWait p ∧ (k.jobs p).done = true) := by
  induction hrun with
  | quiesceIdle slot => exact ⟨rfl, rfl, rfl, .inl slot⟩
  | @quiesceDone p alive done => exact ⟨rfl, rfl, rfl, .inr ⟨p, rfl, done⟩⟩
  | startFailed alive events_eq => rcases events_eq with rfl | rfl <;> simp at h
  | _ => simp at h

/-- The section by which Quiesce goes on to wait. -/
theorem waiting {c : Frame} (hrun : Runs k call good k' calls events) (h : c ∈ calls)
    (hq : c.quiescing = true) :
    ∃ p, c = .quiesceWait p ∧ call = .quiesceSnapshot ∧ k.queue.inFlight = some p := by
  cases c with
  | quiesceSnapshot | quiesceWait p =>
    induction hrun with
    | quiesceSnapshot slot => exact ⟨_, List.mem_singleton.mp h, rfl, slot⟩
    | completeOrphan | complete =>
      unfold wantKick at h
      split at h <;> simp at h
    | enqueueKickWorker => split at h <;> simp at h
    | _ => simp at h
  | _ => cases hq

theorem runs (h : Calm k (call ::ₘ F) tr) (hledger : Ledger k (call ::ₘ F))
    (hdrive : Drive k (call ::ₘ F)) (hidle : Idle k (call ::ₘ F))
    (hrun : Runs k call good k' calls events) : Calm k' (↑calls + F) (tr ++ events) := by
  have hnone : ∀ {c : Frame}, c ∉ call ::ₘ F → call ≠ c ∧ c ∉ F := by
    intro c hc
    rw [Multiset.mem_cons, not_or] at hc
    exact ⟨fun heq => hc.1 heq.symm, hc.2⟩
  -- a thread in Quiesce keeps the queue draining
  have hstay : ∀ c ∈ ↑calls + F, c.quiescing = true →
      k.queue.draining = true ∧ .resumeChain ∉ call ::ₘ F := by
    intro c hc hq
    rcases Multiset.mem_add.mp hc with hc | hc
    · obtain ⟨-, -, rfl, -⟩ := waiting hrun hc hq
      exact h.quiescing _ (Multiset.mem_cons_self _ _) rfl
    · exact h.quiescing c (Multiset.mem_cons_of_mem hc) hq
  refine ⟨fun c hc hq => ?_, fun p hp => ?_, fun hgated => ?_, ?_⟩
  · obtain ⟨hdraining, hresume⟩ := hstay c hc hq
    obtain ⟨hcall, hF⟩ := hnone hresume
    obtain ⟨hdraining', hcalls, -⟩ := hrun.held hdraining hcall
    exact ⟨hdraining', fun hmem => (Multiset.mem_add.mp hmem).elim (fun hmem => hcalls hmem) hF⟩
  · obtain ⟨hdraining, hresume⟩ := hstay _ hp rfl
    obtain ⟨-, -, hslot⟩ := hrun.held hdraining (hnone hresume).1
    rw [hrun.nextPtr]
    have hold : p < k.nextPtr ∧ (k.queue.inFlight = some p ∨ k.queue.inFlight = none) := by
      rcases Multiset.mem_add.mp hp with hp | hp
      · obtain ⟨q, heq, -, hslot⟩ := waiting hrun hp rfl
        obtain rfl := Frame.quiesceWait.inj heq
        exact ⟨hledger.bound p (hledger.of_linked (linked_inFlight hslot)).1, .inl hslot⟩
      · exact h.waits p (Multiset.mem_cons_of_mem hp)
    refine ⟨hold.1, ?_⟩
    rcases hslot with hslot | hslot
    · rw [hslot]
      exact hold.2
    · exact .inr hslot
  · by_cases hreturn : .quiesced ∈ events
    · obtain ⟨hquiescing, rfl, rfl, hslot⟩ := returning hrun hreturn
      obtain ⟨hdraining, hresume⟩ := h.quiescing call (Multiset.mem_cons_self _ _) hquiescing
      refine ⟨hdraining, ?_, fun hmem => (hnone hresume).2 (by simpa using hmem)⟩
      rcases hslot with hslot | ⟨p, rfl, hdone⟩
      · exact hslot
      · -- the job it waited for is signalled, so it is not the one in flight
        refine (h.waits p (Multiset.mem_cons_self _ _)).2.resolve_left fun hslot => ?_
        exact absurd ((hidle p (.inr (.inl hslot))).symm.trans hdone) (by simp)
    · obtain ⟨hdraining, hslot, hresume⟩ := h.gated (gated_of_append hgated hreturn).1
      obtain ⟨hdraining', hcalls, hslot'⟩ := hrun.held hdraining (hnone hresume).1
      refine ⟨hdraining', ?_, fun hmem => ?_⟩
      · rcases hslot' with hslot' | hslot'
        · rw [hslot', hslot]
        · exact hslot'
      · exact (Multiset.mem_add.mp hmem).elim (fun hmem => hcalls hmem) (hnone hresume).2
  · refine each_append.mpr ⟨h.silent, ?_⟩
    rcases starting hrun with hnot | ⟨p, rfl, hreturn⟩
    · exact .of_forall fun e he _ _ => hnot e he
    · rintro pre e post rfl hgated
      simp only [List.mem_append, not_or] at hreturn
      have hslot := (h.gated (gated_of_append hgated hreturn.1).1).2.1
      have hstart := hdrive.starts p (mem_gather_cons.mpr (.inl (List.mem_singleton_self p)))
      rw [hslot] at hstart
      cases hstart

theorem enters (h : Calm k F tr) (hguard : serial.enter k F r)
    (hrun : Enters k r k' calls events) : Calm k' (↑calls + F) (tr ++ events) := by
  have hreturn : .quiesced ∉ events := by
    intro he
    rcases hrun.emits he with ⟨f, status, heq⟩ | heq | ⟨heq, -⟩ | ⟨p, -, heq⟩ <;> cases heq
  have hsilent : Each (fun pre e => Gated pre → e.starts = false) (tr ++ events) := by
    refine each_append.mpr ⟨h.silent, .of_forall fun e he _ _ => ?_⟩
    rcases hrun.emits he with ⟨f, status, rfl⟩ | rfl | ⟨rfl, -⟩ | ⟨p, -, rfl⟩ <;> rfl
  have hnext : k.nextPtr ≤ k'.nextPtr := by
    induction hrun with
    | submit => exact Nat.le_succ _
    | _ => exact le_rfl
  have keep : k'.queue.draining = k.queue.draining → k'.queue.inFlight = k.queue.inFlight →
      (∀ c ∈ calls, c.quiescing = false) → .resumeChain ∉ calls →
      Calm k' (↑calls + F) (tr ++ events) := by
    intro hdraining hslot hquiescing hresume
    refine ⟨fun c hc hq => ?_, fun p hp => ?_, fun hgated => ?_, hsilent⟩
    · rcases Multiset.mem_add.mp hc with hc | hc
      · exact absurd (hq.symm.trans (hquiescing c hc)) (by simp)
      · obtain ⟨hd, hF⟩ := h.quiescing c hc hq
        rw [hdraining]
        exact ⟨hd, fun hmem => (Multiset.mem_add.mp hmem).elim (fun hmem => hresume hmem) hF⟩
    · rcases Multiset.mem_add.mp hp with hp | hp
      · exact absurd (hquiescing _ hp) (by simp [Frame.quiescing])
      · rw [hslot]
        exact ⟨(h.waits p hp).1.trans_le hnext, (h.waits p hp).2⟩
    · obtain ⟨hd, hs, hr⟩ := h.gated (gated_of_append hgated hreturn).1
      rw [hdraining, hslot]
      exact ⟨hd, hs, fun hmem => (Multiset.mem_add.mp hmem).elim (fun hmem => hresume hmem) hr⟩
  induction hrun with
  | quiesce =>
    refine ⟨fun c hc hq => ⟨rfl, fun hmem => of_decide_eq_true hguard (by simpa using hmem)⟩,
      fun p hp => ?_,
      fun hgated => ?_, hsilent⟩
    · exact h.waits p (by simpa using hp)
    · obtain ⟨-, hs, hr⟩ := h.gated (gated_of_append hgated hreturn).1
      exact ⟨rfl, hs, fun hmem => hr (by simpa using hmem)⟩
  | resume =>
    refine ⟨fun c hc hq => ?_, fun p hp => ?_, fun hgated => ?_, hsilent⟩
    · rcases Multiset.mem_add.mp hc with hc | hc
      · obtain rfl : c = _ := by simpa using hc
        cases hq
      · exact absurd (hq.symm.trans (of_decide_eq_true hguard c hc)) (by simp)
    · have hp : .quiesceWait p ∈ F := by simpa using hp
      exact absurd (of_decide_eq_true hguard _ hp) (by simp [Frame.quiescing])
    · exact absurd (List.mem_singleton_self _) (gated_of_append hgated hreturn).2
  | waitTake | waitPin | drain | drainPin | submit | interrupt | startWorker =>
    exact keep rfl rfl (by simp [Frame.quiescing]) (by simp)
  | _ => exact keep rfl rfl (by simp) (by simp)

end Calm

theorem calm_init : Calm kernelInit 0 [] where
  quiescing c hc := by simp at hc
  waits p hp := by simp at hp
  gated h := by
    obtain ⟨pre, post, heq, -⟩ := h
    cases pre <;> cases heq
  silent := each_nil

theorem calm_reachable (h : Reachable G s) (hG : ∀ k F r, G.enter k F r → serial.enter k F r) :
    Calm s.mem s.calls s.trace :=
  Reachable.invariant (I := fun k F _ => Ledger k F ∧ Drive k F ∧ Idle k F) (J := Calm)
    (fun _ hs => ⟨ledger_reachable hs, drive_reachable hs, idle_reachable hs⟩) calm_init
    (fun _ hj hguard hrun => hj.enters (hG _ _ _ hguard) hrun)
    (fun hi hj _ hrun => hj.runs hi.1 hi.2.1 hi.2.2 hrun) h

/-- From the success of Quiesce to the next Resume no job is started and `RkMppJobStart` writes no
register of the codec, in every run in which Quiesce and Resume do not overlap. -/
theorem quiesced_starts_nothing (h : Reachable serial s) :
    Each (fun pre e => Gated pre → e.starts = false) s.trace :=
  (calm_reachable h fun _ _ _ hguard => hguard).silent

/-- A job runs and another waits for it. The first is completed and the worker queued, but a third
takes the codec; Quiesce waits until that is completed. -/
abbrev quiesceRunning : List (Action Request) :=
  .enter (.mapMmio 4096) :: submitBare 1 0 ++ [.run 1 true] ++ submitBare 2 0 ++
    [.enter (.interrupt 0x1100)] ++ List.replicate 5 (.run 3 true) ++ submitBare 4 1 ++
    [.run 4 true, .enter .quiesce, .run 5 true, .enter (.interrupt 0x1100)] ++
    List.replicate 3 (.run 6 true) ++ [.run 5 true]

/-- Then the worker runs, a job is submitted, and another device interrupts. -/
abbrev afterQuiesce : List (Action Request) :=
  quiesceRunning ++ [.enter .startWorker, .run 7 true, .run 7 true] ++ submitBare 8 1 ++
    [.enter (.interrupt 0)]

theorem afterQuiesce_runs : (machine.run init afterQuiesce).isSome = true := by
  decide +kernel

abbrev quiescedSystem : Sys := (machine.run init afterQuiesce).get afterQuiesce_runs

theorem quiesced_starts_nothing_waiting :
    quiescedSystem.trace.drop 15 = [.quiesced, .admitted 3, .acknowledged] ∧
      quiescedSystem.mem.queue.pending = [1, 3] ∧ quiescedSystem.mem.workItem = 0 ∧
      Each (fun pre e => Gated pre → e.starts = false) quiescedSystem.trace :=
  ⟨by decide +kernel, by decide +kernel, by decide +kernel,
    quiesced_starts_nothing (.of_get afterQuiesce_runs (by decide +kernel))⟩

section Flush

namespace Frame

/-- The section is the one by which `RkMppJobQueueQuiesce` returns success. -/
def returns (k : Kernel) (good : Bool) : Frame → Bool
  | .quiesceSnapshot => k.queue.inFlight = none
  | .quiesceWait _ => good
  | _ => false

end Frame

/-- Quiesce and Resume do not overlap, and Quiesce returns success when no thread in `RkMppEvtDpc`
has yet to flush the TLB. -/
def settled : Guard where
  enter := serial.enter
  exec := fun k call F good => call.returns k good = true → .flushTlb ∉ F

instance (mem : Kernel) (F : Multiset Frame) (r : Request) : Decidable (settled.enter mem F r) :=
  inferInstanceAs (Decidable (serial.enter mem F r))

instance (mem : Kernel) (call : Frame) (F : Multiset Frame) (good : Bool) :
    Decidable (settled.exec mem call F good) :=
  inferInstanceAs (Decidable (_ → _))

/-- The flush of the TLB is left to the end of `RkMppEvtDpc` alone. -/
theorem Runs.flushes (h : Runs k call good k' calls events) (hmem : .flushTlb ∈ calls) :
    call.drives = true := by
  induction h with
  | dpcSpurious | dpc | dpcError => rfl
  | completeOrphan | complete =>
    unfold wantKick at hmem
    split at hmem <;> simp at hmem
  | enqueueKickWorker => split at hmem <;> simp at hmem
  | _ => simp at hmem

theorem Runs.flushed (h : Runs k call good k' calls events) (hmem : .flushed ∈ events) :
    call = .flushTlb ∧ events = [.flushed] := by
  induction h with
  | flushTlb => exact ⟨rfl, rfl⟩
  | startFailed alive events_eq => rcases events_eq with rfl | rfl <;> simp at hmem
  | _ => simp at hmem

/-- The section by which Quiesce returns success is one the guard speaks of. -/
theorem Runs.returns (h : Runs k call good k' calls events) (hmem : .quiesced ∈ events) :
    call.returns k good = true := by
  induction h with
  | quiesceIdle slot => simp [Frame.returns, slot]
  | quiesceDone => rfl
  | startFailed alive events_eq => rcases events_eq with rfl | rfl <;> simp at hmem
  | _ => simp at hmem

/-- What holds of the flushes while the queue is quiesced. -/
structure Settled (F : Multiset Frame) (tr : List Event) : Prop where
  gated : Gated tr → .flushTlb ∉ F
  silent : Each (fun pre e => Gated pre → e ≠ .flushed) tr

namespace Settled

theorem runs (h : Settled (call ::ₘ F) tr) (hcalm : Calm k (call ::ₘ F) tr)
    (hdrive : Drive k (call ::ₘ F)) (hguard : settled.exec k call F good)
    (hrun : Runs k call good k' calls events) : Settled (↑calls + F) (tr ++ events) := by
  refine ⟨fun hgated hmem => ?_, each_append.mpr ⟨h.silent, ?_⟩⟩
  · by_cases hreturn : .quiesced ∈ events
    · have hflush := hguard (hrun.returns hreturn)
      obtain ⟨-, -, rfl, -⟩ := Calm.returning hrun hreturn
      exact hflush (by simpa using hmem)
    · have hgated := (gated_of_append hgated hreturn).1
      rcases Multiset.mem_add.mp hmem with hmem | hmem
      · -- nothing is in flight, so no thread is in `RkMppEvtDpc` before its completion
        have hidle := (hdrive.idle (hcalm.gated hgated).2.1).2
        rw [drivers_cons, hrun.flushes hmem] at hidle
        simp at hidle
      · exact h.gated hgated (Multiset.mem_cons_of_mem hmem)
  · rintro pre e post heq hgated rfl
    obtain ⟨rfl, hone⟩ := hrun.flushed (heq ▸ by simp)
    rw [hone] at heq
    obtain rfl : pre = [] := by
      cases pre with
      | nil => rfl
      | cons e pre => simp at heq
    rw [List.append_nil] at hgated
    exact h.gated hgated (Multiset.mem_cons_self _ _)

theorem enters (h : Settled F tr) (hrun : Enters k r k' calls events) :
    Settled (↑calls + F) (tr ++ events) := by
  have hemits {e : Event} (he : e ∈ events) : e ≠ .quiesced ∧ e ≠ .flushed := by
    rcases hrun.emits he with ⟨f, status, rfl⟩ | rfl | ⟨rfl, -⟩ | ⟨p, -, rfl⟩ <;> simp
  have hcalls : .flushTlb ∉ calls := by
    cases hrun <;> simp
  refine ⟨fun hgated hmem => ?_,
    each_append.mpr ⟨h.silent, .of_forall fun e he _ _ => (hemits he).2⟩⟩
  have hold := (gated_of_append hgated fun he => (hemits he).1 rfl).1
  exact (Multiset.mem_add.mp hmem).elim hcalls (h.gated hold)

end Settled

theorem settled_reachable (h : Reachable settled s) : Settled s.calls s.trace := by
  have hinit : Settled 0 [] := ⟨fun _ => Multiset.notMem_zero _, each_nil⟩
  have hcalm : ∀ s, Reachable settled s → Calm s.mem s.calls s.trace ∧ Drive s.mem s.calls :=
    fun s hs => ⟨calm_reachable hs fun _ _ _ hguard => hguard, drive_reachable hs⟩
  exact Reachable.invariant (I := fun k F tr => Calm k F tr ∧ Drive k F)
    (J := fun _ F tr => Settled F tr) hcalm hinit
    (fun _ hj _ hrun => hj.enters hrun)
    (fun hi hj hguard hrun => hj.runs hi.1 hi.2 hguard hrun) h

/-- What Quiesce and Resume promise. -/
structure Paused (s : Sys) : Prop where
  /-- After a success of Quiesce and up to the next Resume `RkMppJobStart` writes no register of the
  codec and `RkMppEvtDpc` does not flush the TLB. -/
  silent : Each (fun pre e => Gated pre → e.starts = false ∧ e ≠ .flushed) s.trace
  /-- When Resume has opened the queue no waiting job is stranded. -/
  awake : s.mem.queue.draining = false → .resumeChain ∉ s.calls →
    s.mem.queue.pending = [] ∨ s.mem.queue.inFlight ≠ none ∨ WorkerComes s.mem s.calls

/-- Between Quiesce and Resume the hardware is left alone, and Resume strands no job, in every run
in which the two do not overlap and Quiesce never returns success while `RkMppEvtDpc` has yet to
flush the TLB. -/
theorem quiesced_untouched (h : Reachable settled s) : Paused s where
  silent pre e post heq hgated :=
    ⟨(calm_reachable h fun _ _ _ hguard => hguard).silent pre e post heq hgated,
      (settled_reachable h).silent pre e post heq hgated⟩
  awake := (awake_reachable h).comes

/-- The queue is resumed. -/
abbrev afterResume : List (Action Request) :=
  afterQuiesce ++ [.enter .resume, .run 10 true, .run 10 true]

theorem afterResume_runs : (machine.run init afterResume).isSome = true := by
  decide +kernel

theorem quiesced_untouched_resumed :
    ((machine.run init afterResume).get afterResume_runs).trace.drop 15 =
        [.quiesced, .admitted 3, .acknowledged, .resuming, .launched 1, .started 1, .programmed 1] ∧
      Paused ((machine.run init afterResume).get afterResume_runs) :=
  ⟨by decide +kernel, quiesced_untouched (.of_get afterResume_runs (by decide +kernel))⟩

/-- Quiesce waits for the job that runs. Its completion signals the wait, and Quiesce returns before
`RkMppEvtDpc` goes on. -/
abbrev flushAfterQuiesce : List (Action Request) :=
  .enter (.mapMmio 4096) :: submitBare 1 0 ++ [.run 1 true, .enter .quiesce, .run 2 true,
    .enter (.interrupt 0x1100), .run 3 true, .run 3 true, .run 2 true, .run 3 true]

theorem flushAfterQuiesce_runs : (machine.run init flushAfterQuiesce).isSome = true := by
  decide +kernel

/-- The TLB is flushed although Quiesce has returned success. -/
theorem flushed_after_quiesce : ∃ s : Sys, Reachable .any s ∧
    (∃ pre, s.trace = pre ++ [.quiesced, .flushed]) ∧ ¬ Paused s := by
  obtain ⟨pre, htrace⟩ : ∃ pre,
      ((machine.run init flushAfterQuiesce).get flushAfterQuiesce_runs).trace =
        pre ++ [.quiesced] ++ [.flushed] :=
    ⟨[.launched 0, .admitted 0, .started 0, .programmed 0, .acknowledged, .completed 0],
      by decide +kernel⟩
  refine ⟨_, .of_get flushAfterQuiesce_runs (by decide +kernel), ⟨pre, by simpa using htrace⟩,
    fun h => ?_⟩
  exact (h.silent _ .flushed [] htrace ⟨pre, [], rfl, by simp⟩).2 rfl

end Flush

end Rkvdec.Av1d.JobQueue
