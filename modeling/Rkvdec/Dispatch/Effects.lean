import Rkvdec.Dispatch.System

/-! The requests and sections as relations: one rule for each way one of them can end. Invariants
are proved by cases on the rules. -/
namespace Rkvdec.Dispatch

open Lib Kernel

/-- The memory of a drain that has dropped its pin and, on a timeout, marked the file's jobs in
flight. -/
def unpinned (k : Kernel) (f : File) (p : Ptr) (timedOut : Bool) : Kernel :=
  if timedOut then markOrphans (k.setJob p (addPin (-1))) f else k.setJob p (addPin (-1))

section Unpinned

variable (k : Kernel) (f : File) (p : Ptr) (timedOut : Bool)

@[simp] theorem unpinned_queue : (unpinned k f p timedOut).queue = k.queue := by
  cases timedOut <;> rfl

@[simp] theorem unpinned_alive : (unpinned k f p timedOut).alive = k.alive := by
  cases timedOut <;> rfl

@[simp] theorem unpinned_nextPtr : (unpinned k f p timedOut).nextPtr = k.nextPtr := by
  cases timedOut <;> rfl

@[simp] theorem unpinned_hw : (unpinned k f p timedOut).hw = k.hw := by
  cases timedOut <;> rfl

@[simp] theorem unpinned_work : (unpinned k f p timedOut).work = k.work := by
  cases timedOut <;> rfl

end Unpinned

abbrev Kernel.pend (k : Kernel) (p : Ptr) : Kernel :=
  k.setQueue .rvd0 fun q => { q with pending := q.pending ++ [p] }

abbrev Kernel.disarm (k : Kernel) (d : Dev) : Kernel :=
  k.setQueue d fun q => { q with kickRearm := false }

abbrev Kernel.allocForeign (k : Kernel) (id : Nat) (w : KickWork) : Kernel :=
  (k.setQueue .rvd1 fun q => { q with nextId := id }).alloc (foreignJob id w)

/-- The ways a section that does not crash can end. -/
inductive Runs (k : Kernel) : Frame → Bool → Kernel → List Frame → List Event → Prop
  | bufInsert {f b good} (lock : k.fileLock f = false) :
      Runs k (.bufInsert f b) good
        { k with buffers := Function.update k.buffers f (k.buffers f ++ [b]) } [] []
  | submitBusy {f p good} :
      Runs k (.submitEnqueue f p) good (k.setFileLock f false) [.release [(p, .jppM)]]
        [.refused f .deviceBusy]
  | submitEnqueue {f p good}
      (room : ¬ (maxPendingJobs ≤ (k.queue .rvd0).pending.length ∨
        maxPendingJobsPerFile ≤ ownerCount k f)) :
      Runs k (.submitEnqueue f p) good (((k.pend p).promoted .rvd0).setFileLock f false)
        [.kickPromotions .rvd0 ((k.pend p).promoting .rvd0).out, .readJob p]
        (.inserted f p :: ((k.pend p).promoting .rvd0).events)
  | kicksDone {d good} : Runs k (.kickPromotions d []) good k [] []
  | kickOwn {d p rest good} :
      Runs k (.kickPromotions d (⟨p, 0⟩ :: rest)) good k
        [.jobKickLocalInner d p, .kickPromotions d rest] []
  | kickRefused {d p rest status good} :
      Runs k (.kickPromotions d (⟨p, 1⟩ :: rest)) good k
        [.rollback d p 1 status, .kickPromotions d rest] []
  | kickPeer {d p rest w good} (alive : k.alive p = true)
      (peerOpen : (k.queue d).peerOpen = true) (ok : peerKickJob (k.jobs p) good = .ok w) :
      Runs k (.kickPromotions d (⟨p, 1⟩ :: rest)) good { k with work := k.work ++ [w] }
        [.kickPromotions d rest] [.accepted w.cookie]
  | rollback {d p c status good} (alive : k.alive p = true)
      (slot : (k.queue d).inFlight c = some p) :
      Runs k (.rollback d p c status) good
        (k.setQueue d fun q => releaseSlot { q with completed := q.completed ++ [p] } c)
        [.signal p (some status)] []
  | rollbackLost {d p c status good} (alive : k.alive p = true)
      (slot : (k.queue d).inFlight c ≠ some p) :
      Runs k (.rollback d p c status) good
        (k.setQueue d fun q => { q with completed := q.completed ++ [p] })
        [.signal p (some status)] []
  | signal {p status good} (alive : k.alive p = true) :
      Runs k (.signal p status) good
        (k.setJob p fun j => { j with result := status.getD j.result, done := true }) [] []
  | kickFailed {d p status good} (alive : k.alive p = true) :
      Runs k (.jobKickLocalInner d p) good k [.jobComplete d status 0] []
  | kicked {d p good} (alive : k.alive p = true) :
      Runs k (.jobKickLocalInner d p) good { k with hw := Function.update k.hw d (some p) }
        [.kickTail d p] [.kicked d p]
  | kickTailDone {d p good} (alive : k.alive p = true)
      (bit : (k.jobs p).prog.kickValue &&& Dense.decEBit = 0) :
      Runs k (.kickTail d p) good k [.jobComplete d .success 0] []
  | kickTail {d p good} (alive : k.alive p = true) : Runs k (.kickTail d p) good k [] []
  | completeNone {d result hwStatus good} (slot : (k.queue d).inFlight 0 = none) :
      Runs k (.jobComplete d result hwStatus) good k [] []
  | completeOrphan {d result hwStatus p good} (slot : (k.queue d).inFlight 0 = some p)
      (orphan : (k.jobs p).orphanOnComplete = true) (pin : ¬ 0 < (k.jobs p).waiterPin) :
      Runs k (.jobComplete d result hwStatus) good
        ((k.setJob p fun j => { j with result := result, hwStatus := hwStatus, done := true }
          ).setQueue d fun q => releaseSlot q (k.jobs p).targetCore)
        (.release [(p, .jppM)] :: wantKick k d) []
  | complete {d result hwStatus p good} (slot : (k.queue d).inFlight 0 = some p)
      (keep : (k.jobs p).orphanOnComplete = false ∨ 0 < (k.jobs p).waiterPin) :
      Runs k (.jobComplete d result hwStatus) good
        ((k.setJob p fun j => { j with result := result, hwStatus := hwStatus, done := true }
          ).setQueue d fun q =>
            releaseSlot { q with completed := q.completed ++ [p] } (k.jobs p).targetCore)
        (wantKick k d) []
  | releaseDone {good} : Runs k (.release []) good k [] []
  | release {p tag rest good} (alive : k.alive p = true) :
      Runs k (.release ((p, tag) :: rest)) good (k.free p) [.release rest]
        [.freed p tag (k.jobs p).waiterPin]
  | enqueueKickWorker {d good} :
      Runs k (.enqueueKickWorker d) good
        (k.setQueue d fun q => { q with kickRearm := true, kickActive := true })
        (if (k.queue d).kickActive then [] else [.workItemEnqueue d]) []
  | workItemEnqueue {d good} :
      Runs k (.workItemEnqueue d) good
        { k with workItem := Function.update k.workItem d (k.workItem d + 1) } [] []
  | workerExit {d good} (rearm : (k.queue d).kickRearm = false) :
      Runs k (.kickWorker d) good (k.setQueue d fun q => { q with kickActive := false }) [] []
  | kickWorker {d good} (rearm : (k.queue d).kickRearm = true) :
      Runs k (.kickWorker d) good ((k.disarm d).promoted d)
        [.kickPromotions d ((k.disarm d).promoting d).out, .kickWorker d]
        ((k.disarm d).promoting d).events
  | dpcSpurious {d hwStatus good} (slot : (k.queue d).inFlight 0 = none) :
      Runs k (.evtDpc d hwStatus) good k [] []
  | dpc {d hwStatus p result good} (slot : (k.queue d).inFlight 0 = some p) :
      Runs k (.evtDpc d hwStatus) good k [.jobComplete d result hwStatus] []
  | dpcError {d hwStatus p result good} (slot : (k.queue d).inFlight 0 = some p) :
      Runs k (.evtDpc d hwStatus) good k [.readJob p, .jobComplete d result hwStatus] []
  | readJob {p good} (alive : k.alive p = true) : Runs k (.readJob p) good k [] []
  | takeResult {p good} (alive : k.alive p = true) :
      Runs k (.takeResult p) good k [.release [(p, .jppM)]] []
  | foreignRefused {w good}
      (refused : Dense.maxDenseIovaSlots < w.iovaSlots.length ∨ good = false) :
      Runs k (.jobRunForeign w) good k [] []
  | foreignBusy {w id good} (slot : (k.queue .rvd1).inFlight 0 ≠ none) :
      Runs k (.jobRunForeign w) good (k.allocForeign id w) [.release [(k.nextPtr, .gFKR)]] []
  | foreignRun {w id good} (slot : (k.queue .rvd1).inFlight 0 = none) :
      Runs k (.jobRunForeign w) good
        ((k.allocForeign id w).setQueue .rvd1 fun q =>
          { q with
            inFlight := Function.update q.inFlight 0 (some k.nextPtr)
            coreIdle := Function.update q.coreIdle 0 false })
        [.jobKickLocalInner .rvd1 k.nextPtr, .foreignWait k.nextPtr w] []
  | foreignDone {p w} (alive : k.alive p = true) (done : (k.jobs p).done = true) :
      Runs k (.foreignWait p w) true k [.foreignReap p w] []
  | foreignTimeout {p w} (alive : k.alive p = true) (done : (k.jobs p).done = false) :
      Runs k (.foreignWait p w) false k [.foreignExpired p w] []
  | foreignExpired {p w good} (alive : k.alive p = true) :
      Runs k (.foreignExpired p w) good (k.setJob p fun j => { j with orphanOnComplete := true })
        [.trampoline w .ioTimeout 0] []
  | foreignReap {p w good} (alive : k.alive p = true)
      (completed : p ∈ (k.queue .rvd1).completed) :
      Runs k (.foreignReap p w) good
        (k.setQueue .rvd1 fun q => { q with completed := q.completed.erase p })
        [.release [(p, .gFKR)], .trampoline w (k.jobs p).result (k.jobs p).hwStatus] []
  | trampoline {w result hwStatus good} (callback : k.completionCb = true) :
      Runs k (.trampoline w result hwStatus) good k [.peerCompletion w.cookie result hwStatus]
        [.called w.cookie]
  | trampolineNone {w result hwStatus good} (callback : k.completionCb = false) :
      Runs k (.trampoline w result hwStatus) good k [] []
  | peerStale {cookie result hwStatus good}
      (stale : ∀ p, (k.queue .rvd0).inFlight 1 = some p → (k.jobs p).id ≠ cookie) :
      Runs k (.peerCompletion cookie result hwStatus) good k [] []
  | peerCompletion {cookie result hwStatus p good}
      (slot : (k.queue .rvd0).inFlight 1 = some p) (id : (k.jobs p).id = cookie) :
      Runs k (.peerCompletion cookie result hwStatus) good
        ((k.setJob p fun j => { j with result := result, hwStatus := hwStatus }).setQueue .rvd0
          fun q => releaseSlot { q with completed := q.completed ++ [p] } 1)
        (.signal p none :: wantKick k .rvd0) []
  | endWork {w good} : Runs k (.endWork w) good k [] [.ended w.cookie]
  | waitDone {p finite} (alive : k.alive p = true) (done : (k.jobs p).done = true) :
      Runs k (.waitDone p finite) true k [.waitReap p] []
  | waitTimeout {p finite} (alive : k.alive p = true) (done : (k.jobs p).done = false) :
      Runs k (.waitDone p finite) false k [.waitExpired p] []
  | waitExpiredPinned {p good} (alive : k.alive p = true)
      (pin : (k.jobs p).waiterPin - 1 ≠ 0) :
      Runs k (.waitExpired p) good (k.setJob p (addPin (-1))) [] []
  | waitExpiredPending {p good} (alive : k.alive p = true)
      (pin : (k.jobs p).waiterPin - 1 = 0) (pending : p ∈ (k.queue .rvd0).pending) :
      Runs k (.waitExpired p) good
        ((k.setJob p (addPin (-1))).setQueue .rvd0 fun q =>
          { q with pending := q.pending.erase p }) [.release [(p, .jppM)]] []
  | waitExpiredCompleted {p good} (alive : k.alive p = true)
      (pin : (k.jobs p).waiterPin - 1 = 0) (completed : p ∈ (k.queue .rvd0).completed) :
      Runs k (.waitExpired p) good
        ((k.setJob p (addPin (-1))).setQueue .rvd0 fun q =>
          { q with completed := q.completed.erase p }) [.release [(p, .jppM)]] []
  | waitExpiredInFlight {p good} (alive : k.alive p = true)
      (pin : (k.jobs p).waiterPin - 1 = 0) (pending : p ∉ (k.queue .rvd0).pending)
      (completed : p ∉ (k.queue .rvd0).completed) (inFlight : p ∈ k.inFlight .rvd0) :
      Runs k (.waitExpired p) good
        ((k.setJob p (addPin (-1))).setJob p fun j => { j with orphanOnComplete := true }) [] []
  | waitExpiredLost {p good} (alive : k.alive p = true)
      (pin : (k.jobs p).waiterPin - 1 = 0) (pending : p ∉ (k.queue .rvd0).pending)
      (completed : p ∉ (k.queue .rvd0).completed) (inFlight : p ∉ k.inFlight .rvd0) :
      Runs k (.waitExpired p) good (k.setJob p (addPin (-1))) [] []
  | waitReapPinned {p good} (alive : k.alive p = true) (pin : (k.jobs p).waiterPin - 1 ≠ 0) :
      Runs k (.waitReap p) good (k.setJob p (addPin (-1))) [] []
  | waitReap {p good} (alive : k.alive p = true) (pin : (k.jobs p).waiterPin - 1 = 0)
      (completed : p ∈ (k.queue .rvd0).completed) :
      Runs k (.waitReap p) good
        ((k.setJob p (addPin (-1))).setQueue .rvd0 fun q =>
          { q with completed := q.completed.erase p }) [.release [(p, .jppM)]] []
  | drainScanDone {f good} : Runs k (.drainScan f) good k [] []
  | drainScan {f p c good} (attached : c.val < (k.queue .rvd0).coreCount)
      (slot : (k.queue .rvd0).inFlight c = some p) (owner : (k.jobs p).owner = some f) :
      Runs k (.drainScan f) good (k.setJob p (addPin 1)) [.drainWait f p] []
  | drainDone {f p} (alive : k.alive p = true) (done : (k.jobs p).done = true) :
      Runs k (.drainWait f p) true k [.drainPost f p false] []
  | drainTimeout {f p} (alive : k.alive p = true) (done : (k.jobs p).done = false) :
      Runs k (.drainWait f p) false k [.drainPost f p true] []
  | drainPost {f p timedOut good} (alive : k.alive p = true) :
      Runs k (.drainPost f p timedOut) good
        ((unpinned k f p timedOut).setQueue .rvd0 fun q =>
          { q with completed := q.completed.filter fun x =>
            ¬ (((unpinned k f p timedOut).jobs x).owner = some f ∧
              ((unpinned k f p timedOut).jobs x).waiterPin = 0) })
        (.release ((((unpinned k f p timedOut).queue .rvd0).completed.filter fun x =>
          ((unpinned k f p timedOut).jobs x).owner = some f ∧
            ((unpinned k f p timedOut).jobs x).waiterPin = 0).map fun x => (x, .jppM)) ::
          if timedOut then [] else [.drainScan f]) []
  | detachWait {p good} (alive : k.alive p = true) : Runs k (.detachWait p) good k [] []
  | registerCompletion {good} :
      Runs k .registerCompletion good { k with completionCb := true } [] []

/-- The ways a request can enter. -/
inductive Enters (k : Kernel) : Request → Kernel → List Frame → List Event → Prop
  | bufAlloc {f iova size window} :
      Enters k (.bufAlloc f iova size window) { k with nextCookie := k.nextCookie + 1 }
        [.bufInsert f ⟨k.nextCookie + 1, iova, size, window⟩] []
  | bufFreeRefused {f cookie status} :
      Enters k (.bufFree f cookie) k [] [.refused f status]
  | bufFree {f cookie b} (lock : k.fileLock f = false) (idle : jobBufferInUse k f cookie = false)
      (lookup : Dense.bufLookup (k.buffers f) cookie = some b) :
      Enters k (.bufFree f cookie)
        { k with buffers := Function.update k.buffers f ((k.buffers f).erase b) } []
        [.bufFreed f cookie]
  | submitRefused {f input allocOk status} :
      Enters k (.submit f input allocOk) k [] [.refused f status]
  | submit {f input allocOk prog id} (lock : k.fileLock f = false)
      (ok : Dense.submitDense (k.buffers f) allocOk true input = .ok prog)
      (fresh : id = (k.queue .rvd0).nextId + 1) :
      Enters k (.submit f input allocOk)
        (((k.setQueue .rvd0 fun q => { q with nextId := id }).alloc (submitJob f id prog)
          ).setFileLock f true) [.submitEnqueue f k.nextPtr] []
  | waitRefused {f id timeoutMs} :
      Enters k (.wait f id timeoutMs) k [] [.refused f .notFound]
  | waitTake {f id timeoutMs p} (completed : p ∈ (k.queue .rvd0).completed)
      (found : (k.jobs p).id = id) (owner : (k.jobs p).owner = some f) :
      Enters k (.wait f id timeoutMs)
        (k.setQueue .rvd0 fun q => { q with completed := q.completed.erase p }) [.takeResult p] []
  | waitPin {f id timeoutMs p}
      (linked : (∃ c, c.val < (k.queue .rvd0).coreCount ∧ (k.queue .rvd0).inFlight c = some p) ∨
        p ∈ (k.queue .rvd0).pending) (owner : (k.jobs p).owner = some f) :
      Enters k (.wait f id timeoutMs) (k.setJob p (addPin 1))
        [.waitDone p (finiteTimeout timeoutMs)] []
  | drainOwner {f} :
      Enters k (.drainOwner f)
        (k.setQueue .rvd0 fun q =>
          { q with
            pending := q.pending.filter fun p => ¬ (k.jobs p).owner = some f
            completed := q.completed.filter fun p => ¬ (k.jobs p).owner = some f })
        [.release (((k.queue .rvd0).pending.filter (fun p => (k.jobs p).owner = some f) ++
          (k.queue .rvd0).completed.filter fun p => (k.jobs p).owner = some f).map
            fun p => (p, .jppM)), .drainScan f] []
  | interrupt {d hwStatus p} (hw : k.hw d = some p) :
      Enters k (.interrupt d hwStatus) { k with hw := Function.update k.hw d none }
        [.evtDpc d hwStatus] []
  | startWorker {d} (queued : k.workItem d ≠ 0) :
      Enters k (.startWorker d)
        { k with workItem := Function.update k.workItem d (k.workItem d - 1) } [.kickWorker d] []
  | startPeerKick {i w} (queued : k.work[i]? = some w) :
      Enters k (.startPeerKick i) { k with work := k.work.eraseIdx i }
        [.jobRunForeign w, .endWork w] []
  | peerArrivalAgain (peerOpen : (k.queue .rvd0).peerOpen = true) :
      Enters k .peerArrival k [] []
  | peerArrival (peerOpen : (k.queue .rvd0).peerOpen = false) :
      Enters k .peerArrival
        (k.setQueue .rvd0 fun q =>
          { q with
            peerOpen := true
            coreCount := 2
            coreIdle := Function.update q.coreIdle 1 true
            corePending := Function.update q.corePending 1 0 }) [.registerCompletion] []
  | detachPeer {calls}
      (waits : calls = [] ∨
        ∃ p, (k.queue .rvd0).inFlight 1 = some p ∧ calls = [.detachWait p]) :
      Enters k .detachPeer
        (k.setQueue .rvd0 fun q =>
          { q with
            peerOpen := false
            coreCount := 1
            coreIdle := Function.update q.coreIdle 1 false
            corePending := Function.update q.corePending 1 0 }) calls []
  | mapMmio {d len} :
      Enters k (.mapMmio d len) { k with mmioLen := Function.update k.mmioLen d len } [] []

variable {k k' : Kernel} {call : Frame} {calls : List Frame} {events : List Event} {r : Request}
  {good : Bool} {p : Ptr} {d : Dev}

theorem peerKickJob_ok {job : Job} {w : KickWork} {allocOk : Bool}
    (h : peerKickJob job allocOk = .ok w) :
    w = ⟨job.id, job.prog.bank, job.prog.kickValue, job.prog.iovaSlots⟩ ∧
      job.prog.kickValue &&& Dense.decEBit ≠ 0 := by
  simp only [peerKickJob] at h
  grind

theorem setQueue_congr {f g : Queue → Queue} (h : f (k.queue d) = g (k.queue d)) :
    k.setQueue d f = k.setQueue d g := by
  simp [setQueue, h]

/-- What a section leaves alone in the queue it works on it leaves alone in both. -/
theorem setQueue_proj {α : Type} (π : Queue → α) {g : Queue → Queue}
    (h : π (g (k.queue d)) = π (k.queue d)) (d' : Dev) :
    π ((k.setQueue d g).queue d') = π (k.queue d') := by
  by_cases hd : d' = d
  · subst hd
    simpa using h
  · simp [hd]

/-- The job a search of the slots finds. -/
theorem findInFlight_some {pred : Job → Bool} (h : k.findInFlight d pred = some p) :
    ∃ c, c.val < (k.queue d).coreCount ∧ (k.queue d).inFlight c = some p ∧
      pred (k.jobs p) = true := by
  obtain ⟨c, hc, hp⟩ := List.exists_of_findSome?_eq_some h
  rw [Option.filter_eq_some_iff] at hp
  refine ⟨c, ?_, hp.1, hp.2⟩
  simpa using (List.mem_filter.mp hc).2

theorem mem_inFlight : p ∈ k.inFlight d ↔
    ∃ c, c.val < (k.queue d).coreCount ∧ (k.queue d).inFlight c = some p := by
  simp only [Kernel.inFlight, Queue.cores, List.mem_filterMap, List.mem_filter, decide_eq_true_eq]
  constructor
  · rintro ⟨c, ⟨-, hc⟩, hp⟩
    exact ⟨c, hc, hp⟩
  · rintro ⟨c, hc, hp⟩
    refine ⟨c, ⟨?_, hc⟩, hp⟩
    fin_cases c <;> simp

@[simp] theorem mem_wantKick :
    call ∈ wantKick k d ↔ (k.queue d).pending ≠ [] ∧ call = .enqueueKickWorker d := by
  simp only [wantKick, List.isEmpty_iff]
  split <;> simp_all

@[simp] theorem flatMap_wantKick {α : Type} {g : Frame → List α} :
    (wantKick k d).flatMap g =
      if (k.queue d).pending = [] then [] else g (.enqueueKickWorker d) := by
  simp only [wantKick, List.isEmpty_iff]
  split <;> simp

theorem waitEvent_next {finite signalled : Bool} {done expired : Frame}
    (h : waitEvent k p finite signalled done expired = some (.next k' calls events)) :
    k.alive p = true ∧ k' = k ∧ events = [] ∧
      ((calls = [done] ∧ (k.jobs p).done = true ∧ signalled = true) ∨
        (calls = [expired] ∧ (k.jobs p).done = false ∧ signalled = false)) := by
  simp only [waitEvent] at h
  grind

/-- Every section that does not crash ends by one of the rules. -/
theorem exec_runs (h : exec k call good = some (.next k' calls events)) :
    Runs k call good k' calls events := by
  cases call with
  | bufInsert f b =>
    simp only [exec, bufInsert] at h
    split_ifs at h with hlock
    cases h
    exact .bufInsert (by simpa using hlock)
  | submitEnqueue f p =>
    simp only [exec, submitEnqueue, Option.some.injEq] at h
    split_ifs at h with hroom
    · cases h
      exact .submitBusy
    · cases h
      exact .submitEnqueue hroom
  | kickPromotions d promos =>
    rcases promos with _ | ⟨⟨p, c⟩, rest⟩
    · cases h
      exact .kicksDone
    · simp only [exec, kickPromotions, Option.some.injEq] at h
      split_ifs at h with hc hopen halive
      · cases h
        exact hc ▸ .kickOwn
      · obtain rfl := (core_cases c).resolve_left hc
        cases h
        exact .kickRefused
      · obtain rfl := (core_cases c).resolve_left hc
        split at h
        · cases h
          exact .kickRefused
        · rename_i w hw
          cases h
          exact .kickPeer (by simpa using halive) (by simpa using hopen) hw
  | rollback d p c status =>
    obtain ⟨halive, h⟩ := touched h
    cases h
    by_cases hslot : (k.queue d).inFlight c = some p
    · rw [setQueue_congr (g := fun q =>
        releaseSlot { q with completed := q.completed ++ [p] } c) (by simp [hslot, releaseSlot])]
      exact .rollback halive hslot
    · rw [setQueue_congr (g := fun q => { q with completed := q.completed ++ [p] })
        (by simp [hslot])]
      exact .rollbackLost halive hslot
  | signal p status =>
    obtain ⟨halive, h⟩ := touched h
    cases h
    exact .signal halive
  | jobKickLocalInner d p =>
    obtain ⟨halive, h⟩ := touched h
    split_ifs at h with hlen hrange
    · cases h
      exact .kickFailed halive
    · cases h
      exact .kickFailed halive
    · cases h
      exact .kicked halive
  | kickTail d p =>
    obtain ⟨halive, h⟩ := touched h
    split_ifs at h with hbit
    · cases h
      exact .kickTailDone halive hbit
    · cases h
      exact .kickTail halive
  | jobComplete d result hwStatus =>
    simp only [exec, jobComplete, Option.some.injEq] at h
    split at h
    · rename_i hslot
      cases h
      exact .completeNone hslot
    · rename_i p hslot
      split_ifs at h with horphan
      · cases h
        exact .completeOrphan hslot horphan.1 horphan.2
      · cases h
        refine .complete hslot ?_
        by_cases hmark : (k.jobs p).orphanOnComplete = true
        · exact .inr (not_not.mp fun hpin => horphan ⟨hmark, hpin⟩)
        · exact .inl (by simpa using hmark)
  | release jobs =>
    rcases jobs with _ | ⟨⟨p, tag⟩, rest⟩
    · cases h
      exact .releaseDone
    · obtain ⟨halive, h⟩ := touched h
      cases h
      exact .release halive
  | enqueueKickWorker d =>
    cases h
    exact .enqueueKickWorker
  | workItemEnqueue d =>
    cases h
    exact .workItemEnqueue
  | kickWorker d =>
    simp only [exec, kickWorker, Option.some.injEq] at h
    split_ifs at h with hrearm
    · cases h
      exact .workerExit hrearm
    · cases h
      exact .kickWorker (by simpa using hrearm)
  | evtDpc d hwStatus =>
    simp only [exec, evtDpc, Option.some.injEq] at h
    split at h
    · rename_i hslot
      cases h
      exact .dpcSpurious hslot
    · rename_i p hslot
      split_ifs at h
      · cases h
        exact .dpc hslot
      · cases h
        exact .dpcError hslot
  | readJob p =>
    obtain ⟨halive, h⟩ := touched h
    cases h
    exact .readJob halive
  | takeResult p =>
    obtain ⟨halive, h⟩ := touched h
    cases h
    exact .takeResult halive
  | jobRunForeign w =>
    simp only [exec, jobRunForeign, Option.some.injEq] at h
    split_ifs at h with hrefused hslot
    · cases h
      exact .foreignRefused hrefused
    · cases h
      exact .foreignBusy hslot
    · cases h
      exact .foreignRun (not_not.mp hslot)
  | foreignWait p w =>
    obtain ⟨halive, rfl, rfl, ⟨rfl, hdone, rfl⟩ | ⟨rfl, hdone, rfl⟩⟩ := waitEvent_next h
    · exact .foreignDone halive hdone
    · exact .foreignTimeout halive hdone
  | foreignExpired p w =>
    obtain ⟨halive, h⟩ := touched h
    cases h
    exact .foreignExpired halive
  | foreignReap p w =>
    simp only [exec, foreignReap, Option.some.injEq] at h
    split_ifs at h with hp
    simp only [not_or, not_not] at hp
    cases h
    exact .foreignReap (by simpa using hp.1) hp.2
  | trampoline w result hwStatus =>
    simp only [exec, trampoline, Option.some.injEq] at h
    split_ifs at h with hcb
    · cases h
      exact .trampoline hcb
    · cases h
      exact .trampolineNone (by simpa using hcb)
  | peerCompletion cookie result hwStatus =>
    simp only [exec, peerCompletion, Option.some.injEq] at h
    split at h
    · rename_i hslot
      cases h
      exact .peerStale (by simp [hslot])
    · rename_i p hslot
      split_ifs at h with hid
      · cases h
        exact .peerStale (by simpa [hslot] using hid)
      · cases h
        exact .peerCompletion hslot (not_not.mp hid)
  | endWork w =>
    cases h
    exact .endWork
  | waitDone p finite =>
    obtain ⟨halive, rfl, rfl, ⟨rfl, hdone, rfl⟩ | ⟨rfl, hdone, rfl⟩⟩ := waitEvent_next h
    · exact .waitDone halive hdone
    · exact .waitTimeout halive hdone
  | waitExpired p =>
    obtain ⟨halive, h⟩ := touched h
    split_ifs at h with hpin hpending hcompleted hslot
    · cases h
      exact .waitExpiredPinned halive hpin
    · cases h
      exact .waitExpiredPending halive (not_not.mp hpin) hpending
    · cases h
      exact .waitExpiredCompleted halive (not_not.mp hpin) hcompleted
    · cases h
      exact .waitExpiredInFlight halive (not_not.mp hpin) hpending hcompleted hslot
    · cases h
      exact .waitExpiredLost halive (not_not.mp hpin) hpending hcompleted hslot
  | waitReap p =>
    obtain ⟨halive, h⟩ := touched h
    split_ifs at h with hpin hcompleted
    · cases h
      exact .waitReapPinned halive hpin
    · cases h
      exact .waitReap halive (not_not.mp hpin) hcompleted
  | drainScan f =>
    simp only [exec, drainScan, Option.some.injEq] at h
    split at h
    · cases h
      exact .drainScanDone
    · rename_i p hp
      cases h
      obtain ⟨c, hc, hslot, howner⟩ := findInFlight_some hp
      exact .drainScan hc hslot (by simpa using howner)
  | drainWait f p =>
    obtain ⟨halive, rfl, rfl, ⟨rfl, hdone, rfl⟩ | ⟨rfl, hdone, rfl⟩⟩ := waitEvent_next h
    · exact .drainDone halive hdone
    · exact .drainTimeout halive hdone
  | drainPost f p timedOut =>
    simp only [exec, drainPost, Option.some.injEq] at h
    split at h
    · cases h
    · rename_i halive
      cases h
      exact .drainPost (by simpa using halive)
  | detachWait p =>
    obtain ⟨halive, h⟩ := touched h
    cases h
    exact .detachWait halive
  | registerCompletion =>
    cases h
    exact .registerCompletion

theorem enter_enters (h : enter k r = some (k', calls, events)) :
    Enters k r k' calls events := by
  cases r with
  | bufAlloc f iova size window =>
    cases h
    exact .bufAlloc
  | bufFree f cookie =>
    simp only [enter, bufFreeIfNotInUse] at h
    split_ifs at h with hlock huse
    · cases h
      exact .bufFreeRefused
    · split at h
      · cases h
        exact .bufFreeRefused
      · rename_i b hb
        cases h
        exact .bufFree (by simpa using hlock) (by simpa using huse) hb
  | submit f input allocOk =>
    simp only [enter, submitDense] at h
    split_ifs at h with hlock
    split at h
    · cases h
      exact .submitRefused
    · rename_i prog hprog
      cases h
      exact .submit (by simpa using hlock) hprog rfl
  | wait f id timeoutMs =>
    simp only [enter, jobWait, Option.some.injEq] at h
    split at h
    · rename_i p hfind
      split_ifs at h with howner
      · cases h
        exact .waitRefused
      · cases h
        exact .waitTake (List.mem_of_find?_eq_some hfind) (by simpa using List.find?_some hfind)
          (not_not.mp howner)
    · split at h
      · cases h
        exact .waitRefused
      · rename_i p hfind
        split_ifs at h with howner
        · cases h
          exact .waitRefused
        · cases h
          refine .waitPin ?_ (not_not.mp howner)
          rcases Option.or_eq_some_iff.mp hfind with hfind | ⟨-, hfind⟩
          · obtain ⟨c, hc, hslot, -⟩ := findInFlight_some hfind
            exact .inl ⟨c, hc, hslot⟩
          · exact .inr (List.mem_of_find?_eq_some hfind)
  | drainOwner f =>
    cases h
    exact .drainOwner
  | interrupt d hwStatus =>
    simp only [enter, evtIsr] at h
    split_ifs at h with hspurious
    cases h
    obtain ⟨p, hp⟩ := Option.ne_none_iff_exists'.mp (not_or.mp hspurious).2
    exact .interrupt hp
  | startWorker d =>
    simp only [enter] at h
    split_ifs at h with hqueued
    cases h
    exact .startWorker hqueued
  | startPeerKick i =>
    simp only [enter, peerKickWorker] at h
    split at h
    · cases h
    · rename_i w hw
      cases h
      exact .startPeerKick hw
  | peerArrival =>
    simp only [enter, peerArrival, Option.some.injEq] at h
    split_ifs at h with hopen
    · cases h
      exact .peerArrivalAgain hopen
    · cases h
      exact .peerArrival (by simpa using hopen)
  | detachPeer =>
    cases h
    refine .detachPeer ?_
    split
    · rename_i p hslot
      split_ifs
      · exact .inr ⟨p, hslot, rfl⟩
      · exact .inl rfl
    · exact .inl rfl
  | mapMmio d len =>
    cases h
    exact .mapMmio

/-- The invariant rule over the rules. -/
theorem Reachable.invariant {G : Guard}
    {I J : Kernel → Multiset Frame → List Event → Prop} {s : Sys}
    (hI : ∀ s, Reachable G s → I s.mem s.calls s.trace) (h₀ : J kernelInit 0 [])
    (henter : ∀ {k F tr r k' calls events}, I k F tr → J k F tr → G.enter k F r →
      Enters k r k' calls events → J k' (↑calls + F) (tr ++ events))
    (hruns : ∀ {k call F tr good k' calls events}, I k (call ::ₘ F) tr → J k (call ::ₘ F) tr →
      G.exec k call F good → Runs k call good k' calls events → J k' (↑calls + F) (tr ++ events))
    (h : Reachable G s) : J s.mem s.calls s.trace :=
  Reaches.invariant hI h₀
    (fun _ _ _ _ _ _ _ hi hj hg hstep => henter hi hj hg (enter_enters hstep))
    (fun _ _ _ _ _ _ _ _ hi hj hg hstep => hruns hi hj hg (exec_runs hstep)) h

end Rkvdec.Dispatch
