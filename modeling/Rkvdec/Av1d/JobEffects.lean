import Rkvdec.Av1d.JobQueue

/-! The requests and sections of the AV1 queue as relations: one rule for each way one of them can
end. Invariants are proved by cases on the rules. -/
namespace Rkvdec.Av1d.JobQueue

open Lib Kernel
open Dispatch (File Ptr)

/-- The ways a section that does not crash can end. -/
inductive Runs (k : Kernel) : Frame → Bool → Kernel → List Frame → List Event → Prop
  | submitBusy {f p good} (capped : Capped k f) :
      Runs k (.submitEnqueue f p) good (k.setFileLock f false) [.release [p]]
        [.refused f .deviceBusy]
  | submitStart {f p good} (room : ¬ Capped k f) (free : k.queue.inFlight = none)
      (open_ : k.queue.draining = false) :
      Runs k (.submitEnqueue f p) good
        ((k.setQueue fun q => { q with inFlight := some p }).setFileLock f false)
        [.jobStart p, .readId p] [.launched p, .admitted p]
  | submitWait {f p good} (room : ¬ Capped k f) (later : ¬ k.queue.StartNow) :
      Runs k (.submitEnqueue f p) good
        ((k.setQueue fun q => { q with pending := q.pending ++ [p] }).setFileLock f false)
        [.readId p] [.admitted p]
  | startFailed {p status events good} (alive : k.alive p = true)
      (events_eq : events = [.started p] ∨ events = [.started p, .programmed p]) :
      Runs k (.jobStart p) good k [.jobComplete status 0] events
  | started {p good} (alive : k.alive p = true) (bit : kicks (k.jobs p).prog = true) :
      Runs k (.jobStart p) good { k with hw := some p } [.startFlush] [.started p, .programmed p]
  | startedIdle {p good} (alive : k.alive p = true) (bit : kicks (k.jobs p).prog = false) :
      Runs k (.jobStart p) good k [.startFlush] [.started p, .programmed p]
  | startFlush {good} : Runs k .startFlush good k [] []
  | readId {p good} (alive : k.alive p = true) : Runs k (.readId p) good k [] []
  | dpcSpurious {hwStatus good} (slot : k.queue.inFlight = none) :
      Runs k (.evtDpc hwStatus) good k [.flushTlb] []
  | dpc {hwStatus p good} (slot : k.queue.inFlight = some p) :
      Runs k (.evtDpc hwStatus) good k [.jobComplete .success hwStatus, .flushTlb] []
  | dpcError {hwStatus p good} (slot : k.queue.inFlight = some p) :
      Runs k (.evtDpc hwStatus) good k
        [.readId p, .jobComplete .deviceHardwareError hwStatus, .flushTlb] []
  | flushTlb {good} : Runs k .flushTlb good k [] [.flushed]
  | completeNone {result hwStatus good} (slot : k.queue.inFlight = none) :
      Runs k (.jobComplete result hwStatus) good k [] []
  | completeOrphan {result hwStatus p good} (slot : k.queue.inFlight = some p)
      (orphan : (k.jobs p).orphanOnComplete = true) (pin : ¬ 0 < (k.jobs p).waiterPin) :
      Runs k (.jobComplete result hwStatus) good
        ((k.setJob p (finish result hwStatus)).setQueue fun q => { q with inFlight := none })
        (.release [p] :: wantKick k.queue) [.completed p]
  | complete {result hwStatus p good} (slot : k.queue.inFlight = some p)
      (keep : (k.jobs p).orphanOnComplete = false ∨ 0 < (k.jobs p).waiterPin) :
      Runs k (.jobComplete result hwStatus) good
        ((k.setJob p (finish result hwStatus)).setQueue fun q =>
          { q with inFlight := none, completed := q.completed ++ [p] })
        (wantKick k.queue) [.completed p]
  | releaseDone {good} : Runs k (.release []) good k [] []
  | release {p rest good} (alive : k.alive p = true) :
      Runs k (.release (p :: rest)) good (k.free p) [.release rest]
        [.freed ⟨p, k.linked p, (k.jobs p).waiterPin⟩]
  | enqueueKickWorker {good} :
      Runs k .enqueueKickWorker good
        (k.setQueue fun q => { q with kickRearm := true, kickActive := true })
        (if k.queue.kickActive then [] else [.workItemEnqueue]) []
  | workItemEnqueue {good} :
      Runs k .workItemEnqueue good { k with workItem := k.workItem + 1 } [] []
  | workerExit {good} (rearm : k.queue.kickRearm = false) :
      Runs k .kickWorker good (k.setQueue fun q => { q with kickActive := false }) [] []
  | workerIdle {good} (rearm : k.queue.kickRearm = true)
      (stay : k.queue.draining = true ∨ k.queue.inFlight ≠ none ∨ k.queue.pending = []) :
      Runs k .kickWorker good (k.setQueue fun q => { q with kickRearm := false }) [.kickWorker] []
  | workerPromote {p rest good} (rearm : k.queue.kickRearm = true)
      (open_ : k.queue.draining = false)
      (free : k.queue.inFlight = none) (head : k.queue.pending = p :: rest) :
      Runs k .kickWorker good
        (k.setQueue fun q => { q with kickRearm := false, inFlight := some p, pending := rest })
        [.jobStart p, .kickWorker] [.launched p]
  | takeResult {p good} (alive : k.alive p = true) : Runs k (.takeResult p) good k [.release [p]] []
  | waitDone {p finite} (alive : k.alive p = true) (done : (k.jobs p).done = true) :
      Runs k (.waitDone p finite) true k [.waitReap p] []
  | waitTimeout {p} (alive : k.alive p = true) (done : (k.jobs p).done = false) :
      Runs k (.waitDone p true) false k [.waitExpired p] []
  | waitExpiredPinned {p good} (alive : k.alive p = true) (pin : (k.jobs p).waiterPin - 1 ≠ 0) :
      Runs k (.waitExpired p) good (k.setJob p (addPin (-1))) [] []
  | waitExpiredPending {p good} (alive : k.alive p = true) (pin : (k.jobs p).waiterPin - 1 = 0)
      (pending : p ∈ k.queue.pending) :
      Runs k (.waitExpired p) good
        ((k.setJob p (addPin (-1))).setQueue fun q => { q with pending := q.pending.erase p })
        [.release [p]] [.withdrawn p]
  | waitExpiredCompleted {p good} (alive : k.alive p = true) (pin : (k.jobs p).waiterPin - 1 = 0)
      (pending : p ∉ k.queue.pending) (completed : p ∈ k.queue.completed) :
      Runs k (.waitExpired p) good
        ((k.setJob p (addPin (-1))).setQueue fun q => { q with completed := q.completed.erase p })
        [.release [p]] []
  | waitExpiredInFlight {p good} (alive : k.alive p = true) (pin : (k.jobs p).waiterPin - 1 = 0)
      (slot : k.queue.inFlight = some p) :
      Runs k (.waitExpired p) good
        ((k.setJob p (addPin (-1))).setJob p fun j => { j with orphanOnComplete := true }) [] []
  | waitExpiredLost {p good} (alive : k.alive p = true) (pin : (k.jobs p).waiterPin - 1 = 0)
      (pending : p ∉ k.queue.pending) (completed : p ∉ k.queue.completed) :
      Runs k (.waitExpired p) good (k.setJob p (addPin (-1))) [] []
  | waitReapPinned {p good} (alive : k.alive p = true) (pin : (k.jobs p).waiterPin - 1 ≠ 0) :
      Runs k (.waitReap p) good (k.setJob p (addPin (-1))) [] []
  | waitReap {p good} (alive : k.alive p = true) (pin : (k.jobs p).waiterPin - 1 = 0)
      (completed : p ∈ k.queue.completed) :
      Runs k (.waitReap p) good
        ((k.setJob p (addPin (-1))).setQueue fun q => { q with completed := q.completed.erase p })
        [.release [p]] []
  | drainDone {f p} (alive : k.alive p = true) (done : (k.jobs p).done = true) :
      Runs k (.drainWait f p) true k [.drainPost f p false] []
  | drainTimeout {f p} (alive : k.alive p = true) (done : (k.jobs p).done = false) :
      Runs k (.drainWait f p) false k [.drainPost f p true] []
  | drainPost {f p timedOut good} (alive : k.alive p = true) :
      Runs k (.drainPost f p timedOut) good
        ((unpinned k f p timedOut).setQueue fun q =>
          { q with completed := q.completed.filter fun x =>
              ¬ (((unpinned k f p timedOut).jobs x).owner = f ∧
                ((unpinned k f p timedOut).jobs x).waiterPin = 0) })
        [.release (k.queue.completed.filter fun x =>
          ((unpinned k f p timedOut).jobs x).owner = f ∧
            ((unpinned k f p timedOut).jobs x).waiterPin = 0)] []
  | quiesceIdle {good} (slot : k.queue.inFlight = none) :
      Runs k .quiesceSnapshot good k [] [.quiesced]
  | quiesceSnapshot {p good} (slot : k.queue.inFlight = some p) :
      Runs k .quiesceSnapshot good k [.quiesceWait p] []
  | quiesceDone {p} (alive : k.alive p = true) (done : (k.jobs p).done = true) :
      Runs k (.quiesceWait p) true k [] [.quiesced]
  | quiesceTimeout {p} (alive : k.alive p = true) (done : (k.jobs p).done = false) :
      Runs k (.quiesceWait p) false k [] [.quiesceTimedOut]
  | resumeIdle {good} (stay : k.queue.inFlight ≠ none ∨ k.queue.pending = []) :
      Runs k .resumeChain good k [] []
  | resumePromote {p rest good} (free : k.queue.inFlight = none)
      (head : k.queue.pending = p :: rest) :
      Runs k .resumeChain good (k.setQueue fun q => { q with inFlight := some p, pending := rest })
        [.jobStart p] [.launched p]

/-- The ways a request can enter. -/
inductive Enters (k : Kernel) : Request → Kernel → List Frame → List Event → Prop
  | submitRefused {f bufs input allocOk status} :
      Enters k (.submit f bufs input allocOk) k [] [.refused f status]
  | submit {f bufs input allocOk prog} :
      Enters k (.submit f bufs input allocOk)
        (((k.setQueue fun q => { q with nextId := q.nextId + 1 }).alloc
          (newJob f (k.queue.nextId + 1) prog)).setFileLock f true) [.submitEnqueue f k.nextPtr] []
  | waitRefused {f id timeoutMs} : Enters k (.wait f id timeoutMs) k [] [.refused f .notFound]
  | waitTake {f id timeoutMs p}
      (found : k.queue.completed.find? (fun p => (k.jobs p).id = id) = some p)
      (owner : (k.jobs p).owner = f) :
      Enters k (.wait f id timeoutMs)
        (k.setQueue fun q => { q with completed := q.completed.erase p })
        [.takeResult p] []
  | waitPin {f id timeoutMs p} (linked : k.queue.inFlight = some p ∨ p ∈ k.queue.pending)
      (owner : (k.jobs p).owner = f) :
      Enters k (.wait f id timeoutMs) (k.setJob p (addPin 1))
        [.waitDone p (finiteTimeout timeoutMs)] []
  | drain {f} (other : ∀ p, k.queue.inFlight = some p → (k.jobs p).owner ≠ f) :
      Enters k (.drainOwner f) (undrained k f) [.release (drained k f)]
        ((k.ofFile f k.queue.pending).map .withdrawn)
  | drainPin {f p} (slot : k.queue.inFlight = some p) (owner : (k.jobs p).owner = f) :
      Enters k (.drainOwner f) ((undrained k f).setJob p (addPin 1))
        [.release (drained k f), .drainWait f p] ((k.ofFile f k.queue.pending).map .withdrawn)
  | interruptSpurious {hwStatus events} (events_eq : events = [] ∨ events = [.acknowledged]) :
      Enters k (.interrupt hwStatus) k [] events
  | interrupt {hwStatus p} (busy : k.hw = some p) :
      Enters k (.interrupt hwStatus) { k with hw := none } [.evtDpc hwStatus] [.acknowledged]
  | startWorker (item : k.workItem ≠ 0) :
      Enters k .startWorker { k with workItem := k.workItem - 1 } [.kickWorker] []
  | quiesce : Enters k .quiesce (k.setQueue fun q => { q with draining := true })
      [.quiesceSnapshot] []
  | resume :
      Enters k .resume (k.setQueue fun q => { q with draining := false }) [.resumeChain] [.resuming]
  | mapMmio {len} : Enters k (.mapMmio len) { k with mmioLen := len } [] []

section Inversion

variable {k k' : Kernel} {call : Frame} {calls : List Frame} {events : List Event} {r : Request}
  {good : Bool} {p : Ptr}

theorem promoteHead_none {q : Queue} (h : promoteHead q = none) :
    q.inFlight ≠ none ∨ q.pending = [] := by
  unfold promoteHead at h
  split at h
  · cases h
  · rename_i hno
    by_cases hslot : q.inFlight = none
    · right
      rcases hpending : q.pending with _ | ⟨p, rest⟩
      · rfl
      · exact absurd hpending (hno p rest hslot)
    · exact .inl hslot

theorem promoteHead_some {q q' : Queue} (h : promoteHead q = some (p, q')) :
    ∃ rest, q.inFlight = none ∧ q.pending = p :: rest ∧
      q' = { q with inFlight := some p, pending := rest } := by
  unfold promoteHead at h
  split at h
  · rename_i p' rest hslot hpending
    obtain ⟨rfl, rfl⟩ := Prod.mk.inj (Option.some.inj h)
    exact ⟨rest, hslot, hpending, rfl⟩
  · cases h

theorem waitEvent_next {finite : Bool} {done expired : List Frame × List Event}
    (h : waitEvent k p finite good done expired = some (.next k' calls events)) :
    k.alive p = true ∧ k' = k ∧
      ((good = true ∧ (k.jobs p).done = true ∧ calls = done.1 ∧ events = done.2) ∨
        good = false ∧ finite = true ∧ (k.jobs p).done = false ∧ calls = expired.1 ∧
          events = expired.2) := by
  unfold waitEvent at h
  split_ifs at h with halive hgood hdone hexpired
  · cases h
  · cases h
    exact ⟨by simpa using halive, rfl, .inl ⟨hgood, hdone, rfl, rfl⟩⟩
  · cases h
    exact ⟨by simpa using halive, rfl,
      .inr ⟨by simpa using hgood, hexpired.1, hexpired.2, rfl, rfl⟩⟩

/-- Every section that does not crash ends by one of the rules. -/
theorem exec_runs (h : exec k call good = some (.next k' calls events)) :
    Runs k call good k' calls events := by
  cases call with
  | submitEnqueue f p =>
    simp only [exec, submitEnqueue, Option.some.injEq] at h
    split_ifs at h with hcapped hstart
    · cases h
      exact .submitBusy hcapped
    · cases h
      exact .submitStart hcapped hstart.1 hstart.2
    · cases h
      exact .submitWait hcapped hstart
  | jobStart p =>
    obtain ⟨halive, h⟩ := touched h
    split_ifs at h with hlen hrange hbit
    · cases h
      exact .startFailed halive (.inl rfl)
    · cases h
      exact .startFailed halive (.inr rfl)
    · cases h
      exact .started halive hbit
    · cases h
      exact .startedIdle halive (by simpa using hbit)
  | startFlush =>
    cases h
    exact .startFlush
  | readId p =>
    obtain ⟨halive, h⟩ := touched h
    cases h
    exact .readId halive
  | evtDpc hwStatus =>
    simp only [exec, evtDpc, Option.some.injEq] at h
    split at h
    · rename_i hslot
      cases h
      exact .dpcSpurious hslot
    · rename_i p hslot
      split_ifs at h
      · cases h
        exact .dpc hslot
      · cases h
        exact .dpcError hslot
  | flushTlb =>
    cases h
    exact .flushTlb
  | jobComplete result hwStatus =>
    simp only [exec, jobComplete, Option.some.injEq] at h
    split at h
    · rename_i hslot
      cases h
      exact .completeNone hslot
    · rename_i p hslot
      split_ifs at h with halive horphan
      · cases h
        exact .completeOrphan hslot horphan.1 horphan.2
      · cases h
        refine .complete hslot ?_
        by_cases hmark : (k.jobs p).orphanOnComplete = true
        · exact .inr (not_not.mp fun hpin => horphan ⟨hmark, hpin⟩)
        · exact .inl (by simpa using hmark)
  | release jobs =>
    rcases jobs with _ | ⟨p, rest⟩
    · cases h
      exact .releaseDone
    · obtain ⟨halive, h⟩ := touched h
      cases h
      exact .release halive
  | enqueueKickWorker =>
    cases h
    exact .enqueueKickWorker
  | workItemEnqueue =>
    cases h
    exact .workItemEnqueue
  | kickWorker =>
    simp only [exec, kickWorker, Option.some.injEq] at h
    split at h
    · rename_i hrearm
      cases h
      exact .workerExit hrearm
    · rename_i hrearm
      have hrearm : k.queue.kickRearm = true := by simpa using hrearm
      split at h
      · rename_i hnone
        cases h
        refine .workerIdle hrearm ?_
        split_ifs at hnone with hdraining
        · exact .inl hdraining
        · have hstay := promoteHead_none hnone
          exact .inr hstay
      · rename_i p q hsome
        cases h
        split_ifs at hsome with hdraining
        obtain ⟨rest, hslot, hpending, rfl⟩ := promoteHead_some hsome
        exact .workerPromote hrearm (by simpa using hdraining) hslot hpending
  | takeResult p =>
    obtain ⟨halive, h⟩ := touched h
    cases h
    exact .takeResult halive
  | waitDone p finite =>
    obtain ⟨halive, rfl, ⟨rfl, hdone, rfl, rfl⟩ | ⟨rfl, rfl, hdone, rfl, rfl⟩⟩ := waitEvent_next h
    · exact .waitDone halive hdone
    · exact .waitTimeout halive hdone
  | waitExpired p =>
    obtain ⟨halive, h⟩ := touched h
    split_ifs at h with hpin hpending hcompleted hslot
    · cases h
      exact .waitExpiredPinned halive hpin
    · cases h
      exact .waitExpiredPending halive (not_not.mp hpin) hpending
    · cases h
      exact .waitExpiredCompleted halive (not_not.mp hpin) hpending hcompleted
    · cases h
      exact .waitExpiredInFlight halive (not_not.mp hpin) hslot
    · cases h
      exact .waitExpiredLost halive (not_not.mp hpin) hpending hcompleted
  | waitReap p =>
    obtain ⟨halive, h⟩ := touched h
    split_ifs at h with hpin hcompleted
    · cases h
      exact .waitReapPinned halive hpin
    · cases h
      exact .waitReap halive (not_not.mp hpin) hcompleted
  | drainWait f p =>
    obtain ⟨halive, rfl, ⟨rfl, hdone, rfl, rfl⟩ | ⟨rfl, -, hdone, rfl, rfl⟩⟩ := waitEvent_next h
    · exact .drainDone halive hdone
    · exact .drainTimeout halive hdone
  | drainPost f p timedOut =>
    obtain ⟨halive, h⟩ := touched h
    cases h
    exact .drainPost halive
  | quiesceSnapshot =>
    simp only [exec, quiesceSnapshot, Option.some.injEq] at h
    split at h
    · rename_i hslot
      cases h
      exact .quiesceIdle hslot
    · rename_i p hslot
      cases h
      exact .quiesceSnapshot hslot
  | quiesceWait p =>
    obtain ⟨halive, rfl, ⟨rfl, hdone, rfl, rfl⟩ | ⟨rfl, -, hdone, rfl, rfl⟩⟩ := waitEvent_next h
    · exact .quiesceDone halive hdone
    · exact .quiesceTimeout halive hdone
  | resumeChain =>
    simp only [exec, resumeChain, Option.some.injEq] at h
    split at h
    · rename_i hnone
      cases h
      exact .resumeIdle (promoteHead_none hnone)
    · rename_i p q hsome
      cases h
      obtain ⟨rest, hslot, hpending, rfl⟩ := promoteHead_some hsome
      exact .resumePromote hslot hpending

theorem enter_enters (h : enter k r = some (k', calls, events)) : Enters k r k' calls events := by
  cases r with
  | submit f bufs input allocOk =>
    simp only [enter, jobSubmit] at h
    split_ifs at h
    split at h
    · cases h
      exact .submitRefused
    · cases h
      exact .submit
  | wait f id timeoutMs =>
    simp only [enter, jobWait, Option.some.injEq] at h
    split at h
    · rename_i p hfound
      split_ifs at h with howner
      · cases h
        exact .waitRefused
      · cases h
        exact .waitTake hfound (not_not.mp howner)
    · split at h
      · cases h
        exact .waitRefused
      · rename_i p hfound
        split_ifs at h with howner
        · cases h
          exact .waitRefused
        · cases h
          refine .waitPin ?_ (not_not.mp howner)
          simpa using List.mem_of_find?_eq_some hfound
  | drainOwner f =>
    simp only [enter, jobsDrainOwner, Option.some.injEq] at h
    split at h
    · rename_i hnone
      cases h
      refine .drain fun p hslot howner => ?_
      simp [hslot, howner] at hnone
    · rename_i p hslot
      cases h
      obtain ⟨hslot, howner⟩ := Option.filter_eq_some_iff.mp hslot
      exact .drainPin hslot (by simpa using howner)
  | interrupt hwStatus =>
    simp only [enter, evtIsr] at h
    split_ifs at h with hlen hzero hidle
    · cases h
      exact .interruptSpurious (.inl rfl)
    · cases h
      exact .interruptSpurious (.inr rfl)
    · cases h
      obtain ⟨p, hp⟩ := Option.ne_none_iff_exists'.mp hidle
      exact .interrupt hp
  | startWorker =>
    simp only [enter] at h
    split_ifs at h with hitem
    cases h
    exact .startWorker hitem
  | quiesce =>
    cases h
    exact .quiesce
  | resume =>
    cases h
    exact .resume
  | mapMmio len =>
    cases h
    exact .mapMmio

/-- What a request leaves in the trace. -/
theorem Enters.emits {e : Event} (h : Enters k r k' calls events) (he : e ∈ events) :
    (∃ f status, e = .refused f status) ∨ e = .acknowledged ∨ e = .resuming ∧ r = .resume ∨
      ∃ p ∈ k.queue.pending, e = .withdrawn p := by
  induction h with
  | submitRefused | waitRefused =>
    obtain rfl := List.mem_singleton.mp he
    exact .inl ⟨_, _, rfl⟩
  | drain | drainPin =>
    obtain ⟨p, hp, rfl⟩ := List.mem_map.mp he
    exact .inr (.inr (.inr ⟨p, (List.mem_filter.mp hp).1, rfl⟩))
  | interruptSpurious events_eq =>
    rcases events_eq with rfl | rfl
    · cases he
    · exact .inr (.inl (List.mem_singleton.mp he))
  | interrupt => exact .inr (.inl (List.mem_singleton.mp he))
  | resume => exact .inr (.inr (.inl ⟨List.mem_singleton.mp he, rfl⟩))
  | _ => cases he

end Inversion

/-- The invariant rule over the rules. -/
theorem Reachable.invariant {G : Guard}
    {I J : Kernel → Multiset Frame → List Event → Prop} {s : Sys}
    (hI : ∀ s, Reachable G s → I s.mem s.calls s.trace) (h₀ : J kernelInit 0 [])
    (henter : ∀ {k F tr r k' calls events}, I k F tr → J k F tr → G.enter k F r →
      Enters k r k' calls events → J k' (↑calls + F) (tr ++ events))
    (hruns : ∀ {k call F tr good k' calls events}, I k (call ::ₘ F) tr → J k (call ::ₘ F) tr →
      G.exec k call F good → Runs k call good k' calls events → J k' (↑calls + F) (tr ++ events))
    (h : Reachable G s) : J s.mem s.calls s.trace :=
  Reaches.invariant hI h₀
    (fun _ _ _ _ _ _ _ hi hj hg hstep => henter hi hj hg (enter_enters hstep))
    (fun _ _ _ _ _ _ _ _ hi hj hg hstep => hruns hi hj hg (exec_runs hstep)) h

/-- Runs in which only the given requests are made. -/
def requests (P : Multiset Frame → Request → Bool) : Guard where
  enter := fun _ F r => P F r
  exec := fun _ _ _ _ => True

instance (P : Multiset Frame → Request → Bool) (mem : Kernel) (F : Multiset Frame) (r : Request) :
    Decidable ((requests P).enter mem F r) :=
  inferInstanceAs (Decidable (P F r = true))

instance (P : Multiset Frame → Request → Bool) (mem : Kernel) (call : Frame) (F : Multiset Frame)
    (good : Bool) : Decidable ((requests P).exec mem call F good) :=
  inferInstanceAs (Decidable True)

end Rkvdec.Av1d.JobQueue
