import Rkvdec.Dispatch.Queue
import Rkvdec.Lib.Pool

/-! The atomic sections of the dispatcher. A section is what a thread does under one hold of a
queue lock, or one access to a job it makes after letting the lock go; between two sections any
other thread may run. Both devices share the code: RVD0 takes the submissions, RVD1 runs the jobs
RVD0 dispatches to its second core. -/
namespace Rkvdec.Dispatch

/-- `PEER_KICK_WORK`. -/
structure KickWork where
  cookie : Nat
  bank : Dense.Bank
  kickValue : BitVec 32
  iovaSlots : List Dense.IovaSlot

/-- A call a thread has yet to make, up to the end of its next section. -/
inductive Frame where
  /-- `RkMppBufAlloc` about to insert the buffer. -/
  | bufInsert (f : File) (b : Dense.Buffer)
  /-- `RkMppJobSubmitDense` about to take the queue lock; the file lock is held. -/
  | submitEnqueue (f : File) (p : Ptr)
  | kickPromotions (d : Dev) (promos : List Promotion)
  /-- `KickPromotions` about to take a job back off a core that refused it. -/
  | rollback (d : Dev) (p : Ptr) (core : Core) (status : NtStatus)
  /-- `KeSetEvent` on the job after the lock is dropped, with the result the caller stores first. -/
  | signal (p : Ptr) (status : Option NtStatus)
  | jobKickLocalInner (d : Dev) (p : Ptr)
  /-- `JobKickLocalInner` after the kick register is written. -/
  | kickTail (d : Dev) (p : Ptr)
  | jobComplete (d : Dev) (result : NtStatus) (hwStatus : BitVec 32)
  /-- The calls of `ExFreePoolWithTag` for jobs taken off every list. -/
  | release (jobs : List (Ptr × PoolTag))
  | enqueueKickWorker (d : Dev)
  | workItemEnqueue (d : Dev)
  | kickWorker (d : Dev)
  | evtDpc (d : Dev) (hwStatus : BitVec 32)
  /-- A read of the job with no lock held. -/
  | readJob (p : Ptr)
  /-- `RkMppJobWait` reading the result of a job it found completed and took off the list. -/
  | takeResult (p : Ptr)
  | jobRunForeign (w : KickWork)
  | foreignWait (p : Ptr) (w : KickWork)
  | foreignExpired (p : Ptr) (w : KickWork)
  | foreignReap (p : Ptr) (w : KickWork)
  /-- `PeerForeignCompletionTrampoline`. -/
  | trampoline (w : KickWork) (result : NtStatus) (hwStatus : BitVec 32)
  | peerCompletion (cookie : Nat) (result : NtStatus) (hwStatus : BitVec 32)
  /-- `PeerKickWorker` about to free its work item. -/
  | endWork (w : KickWork)
  | waitDone (p : Ptr) (finite : Bool)
  | waitExpired (p : Ptr)
  | waitReap (p : Ptr)
  | drainScan (f : File)
  | drainWait (f : File) (p : Ptr)
  | drainPost (f : File) (p : Ptr) (timedOut : Bool)
  /-- `RkMppDetachPeer` waiting for the peer's job. -/
  | detachWait (p : Ptr)
  | registerCompletion

inductive Event where
  | refused (f : File) (status : NtStatus)
  | inserted (f : File) (p : Ptr)
  | promoted (p : Ptr) (core : Core) (waiting : List (Option File))
  | kicked (d : Dev) (p : Ptr)
  | accepted (cookie : Nat)
  | called (cookie : Nat)
  | ended (cookie : Nat)
  | freed (p : Ptr) (tag : PoolTag) (pin : Int)
  | bufFreed (f : File) (cookie : Nat)

/-- The memory the threads of both devices share. A freed job keeps its contents but is no longer
alive; addresses are not reused. `hw d` is the job the codec of `d` was kicked with and has not yet
reported done. -/
structure Kernel where
  jobs : Ptr → Job
  alive : Ptr → Bool
  nextPtr : Ptr
  queue : Dev → Queue
  hw : Dev → Option Ptr
  mmioLen : Dev → Nat
  work : List KickWork
  completionCb : Bool
  workItem : Dev → Nat
  buffers : File → List Dense.Buffer
  nextCookie : Nat
  fileLock : File → Bool

abbrev Effect := Lib.Effect Kernel Frame Event

namespace Kernel

@[simps]
def setJob (k : Kernel) (p : Ptr) (f : Job → Job) : Kernel :=
  { k with jobs := Function.update k.jobs p (f (k.jobs p)) }

@[simps]
def setQueue (k : Kernel) (d : Dev) (f : Queue → Queue) : Kernel :=
  { k with queue := Function.update k.queue d (f (k.queue d)) }

/-- `ExAllocatePool2` and the stores that fill the job. -/
@[simps]
def alloc (k : Kernel) (job : Job) : Kernel :=
  { k with
    jobs := Function.update k.jobs k.nextPtr job
    alive := Function.update k.alive k.nextPtr true
    nextPtr := k.nextPtr + 1 }

/-- `ExFreePoolWithTag`. -/
@[simps]
def free (k : Kernel) (p : Ptr) : Kernel :=
  { k with alive := Function.update k.alive p false }

@[simps]
def setFileLock (k : Kernel) (f : File) (held : Bool) : Kernel :=
  { k with fileLock := Function.update k.fileLock f held }

/-- `PromoteUntilFull` on the queue of `d`. -/
def promoting (k : Kernel) (d : Dev) : Promoting := promoteUntilFull k.jobs (k.queue d)

/-- The memory after `PromoteUntilFull` on the queue of `d`. -/
@[simps]
def promoted (k : Kernel) (d : Dev) : Kernel :=
  { k with
    jobs := (k.promoting d).jobs
    queue := Function.update k.queue d (k.promoting d).queue }

/-- The first core below `CoreCount` whose job satisfies `pred`. -/
def findInFlight (k : Kernel) (d : Dev) (pred : Job → Bool) : Option Ptr :=
  (k.queue d).cores.findSome? fun c =>
    ((k.queue d).inFlight c).filter fun p => pred (k.jobs p)

/-- The jobs in flight below `CoreCount`. -/
def inFlight (k : Kernel) (d : Dev) : List Ptr :=
  (k.queue d).cores.filterMap (k.queue d).inFlight

end Kernel

namespace Promoting

def events (s : Promoting) : List Event :=
  List.zipWith (fun pr waiting => .promoted pr.job pr.core waiting) s.out s.waiting

end Promoting

open Kernel

/-- `RKVDEC2_INT_ERROR_MASK`. -/
def intErrorMask : BitVec 32 := 0xF0

/-- `RKVDEC2_SWREG_BASE`. -/
def swregBase : Nat := 0x100

def maxPendingJobs : Nat := 8
def maxPendingJobsPerFile : Nat := 4

section Submit

/-- The job of `RkMppJobSubmitDense`, zeroed but for these fields. -/
def submitJob (f : File) (id : Nat) (prog : Dense.Program) : Job where
  id := id
  owner := some f
  tag := .jppM
  prog := prog
  targetCore := 0
  done := false
  result := .success
  hwStatus := 0
  orphanOnComplete := false
  waiterPin := 0

/-- `RkMppJobSubmitDense` up to the queue lock: the handles are resolved under the file lock, which
stays held. -/
def submitDense (k : Kernel) (f : File) (input : Dense.SubmitIn) (allocOk : Bool) :
    Option (Kernel × List Frame × List Event) :=
  if k.fileLock f then none
  else
    match Dense.submitDense (k.buffers f) allocOk true input with
    | .error status => some (k, [], [.refused f status])
    | .ok prog =>
      let id := (k.queue .rvd0).nextId + 1
      some (((k.setQueue .rvd0 fun q => { q with nextId := id }).alloc (submitJob f id prog)
          ).setFileLock f true, [.submitEnqueue f k.nextPtr], [])

/-- The jobs of the file that count against its cap. -/
def ownerCount (k : Kernel) (f : File) : Nat :=
  (k.inFlight .rvd0).countP (fun p => (k.jobs p).owner = some f) +
    (k.queue .rvd0).pending.countP (fun p => (k.jobs p).owner = some f)

/-- The queue-locked part of `RkMppJobSubmitDense`: admission, insertion and promotion. -/
def submitEnqueue (k : Kernel) (f : File) (p : Ptr) : Effect :=
  if maxPendingJobs ≤ (k.queue .rvd0).pending.length ∨ maxPendingJobsPerFile ≤ ownerCount k f then
    .next (k.setFileLock f false) [.release [(p, .jppM)]] [.refused f .deviceBusy]
  else
    let k := k.setQueue .rvd0 fun q => { q with pending := q.pending ++ [p] }
    .next ((k.promoted .rvd0).setFileLock f false)
      [.kickPromotions .rvd0 (k.promoting .rvd0).out, .readJob p]
      (.inserted f p :: (k.promoting .rvd0).events)

end Submit

section Kick

/-- `PeerKickJob`; `allocOk` is the outcome of its two allocations. -/
def peerKickJob (job : Job) (allocOk : Bool) : Except NtStatus KickWork :=
  if Dense.maxDenseIovaSlots < job.prog.iovaSlots.length then .error .invalidParameter
  else if job.prog.kickValue &&& Dense.decEBit = 0 then .error .invalidParameter
  else if allocOk = false then .error .insufficientResources
  else .ok ⟨job.id, job.prog.bank, job.prog.kickValue, job.prog.iovaSlots⟩

/-- One turn of `KickPromotions`. -/
def kickPromotions (k : Kernel) (d : Dev) (promos : List Promotion) (allocOk : Bool) : Effect :=
  match promos with
  | [] => .next k [] []
  | ⟨p, core⟩ :: rest =>
    if core = 0 then .next k [.jobKickLocalInner d p, .kickPromotions d rest] []
    else if (k.queue d).peerOpen = false then
      .next k [.rollback d p core .deviceNotReady, .kickPromotions d rest] []
    else if k.alive p = false then .crash
    else
      match peerKickJob (k.jobs p) allocOk with
      | .error status => .next k [.rollback d p core status, .kickPromotions d rest] []
      | .ok w =>
        .next { k with work := k.work ++ [w] } [.kickPromotions d rest] [.accepted w.cookie]

/-- Both rollback branches of `KickPromotions`. -/
def rollback (k : Kernel) (d : Dev) (p : Ptr) (core : Core) (status : NtStatus) : Effect :=
  if k.alive p = false then .crash
  else
    .next (k.setQueue d fun q =>
      if q.inFlight core = some p then
        { q with
          inFlight := Function.update q.inFlight core none
          coreIdle := Function.update q.coreIdle core true
          corePending := Function.update q.corePending core (q.corePending core - 1)
          completed := q.completed ++ [p] }
      else { q with completed := q.completed ++ [p] }) [.signal p (some status)] []

def signal (k : Kernel) (p : Ptr) (status : Option NtStatus) : Effect :=
  if k.alive p = false then .crash
  else
    .next (k.setJob p fun j => { j with result := status.getD j.result, done := true }) [] []

/-- `JobKickLocalInner` up to the write of the kick register. -/
def jobKickLocalInner (k : Kernel) (d : Dev) (p : Ptr) : Effect :=
  if k.alive p = false then .crash
  else if k.mmioLen d = 0 then .next k [.jobComplete d .deviceNotReady 0] []
  else if (Dense.kickWrites (k.mmioLen d) swregBase (k.jobs p).prog.bank
      (k.jobs p).prog.kickValue).isNone then .next k [.jobComplete d .invalidParameter 0] []
  else .next { k with hw := Function.update k.hw d (some p) } [.kickTail d p] [.kicked d p]

def kickTail (k : Kernel) (d : Dev) (p : Ptr) : Effect :=
  if k.alive p = false then .crash
  else if (k.jobs p).prog.kickValue &&& Dense.decEBit = 0 then
    .next k [.jobComplete d .success 0] []
  else .next k [] []

/-- `RkMppEnqueueKickWorker`. -/
def enqueueKickWorker (k : Kernel) (d : Dev) : Effect :=
  .next (k.setQueue d fun q => { q with kickRearm := true, kickActive := true })
    (if (k.queue d).kickActive then [] else [.workItemEnqueue d]) []

/-- One turn of `RkMppKickWorker`. -/
def kickWorker (k : Kernel) (d : Dev) : Effect :=
  if (k.queue d).kickRearm = false then
    .next (k.setQueue d fun q => { q with kickActive := false }) [] []
  else
    let k := k.setQueue d fun q => { q with kickRearm := false }
    .next (k.promoted d) [.kickPromotions d (k.promoting d).out, .kickWorker d]
      (k.promoting d).events

end Kick

section Completion

/-- `RkMppEvtIsr`: the codec reports the job it was kicked with. -/
def evtIsr (k : Kernel) (d : Dev) (hwStatus : BitVec 32) :
    Option (Kernel × List Frame × List Event) :=
  if hwStatus = 0 ∨ k.hw d = none then none
  else some ({ k with hw := Function.update k.hw d none }, [.evtDpc d hwStatus], [])

/-- `RkMppEvtDpc`; the error report reads the job with no lock held. -/
def evtDpc (k : Kernel) (d : Dev) (hwStatus : BitVec 32) : Effect :=
  match (k.queue d).inFlight 0 with
  | none => .next k [] []
  | some p =>
    if hwStatus &&& intErrorMask = 0 then .next k [.jobComplete d .success hwStatus] []
    else .next k [.readJob p, .jobComplete d .deviceHardwareError hwStatus] []

/-- The slot release of `RkMppJobComplete` and `RkMppPeerCompletion`. -/
@[simps]
def releaseSlot (q : Queue) (core : Core) : Queue :=
  { q with
    inFlight := Function.update q.inFlight core none
    coreIdle := Function.update q.coreIdle core true
    corePending := Function.update q.corePending core (q.corePending core - 1) }

/-- The call that wakes the kick worker when jobs are waiting. -/
def wantKick (k : Kernel) (d : Dev) : List Frame :=
  if (k.queue d).pending.isEmpty then [] else [.enqueueKickWorker d]

/-- `RkMppJobComplete`. -/
def jobComplete (k : Kernel) (d : Dev) (result : NtStatus) (hwStatus : BitVec 32) : Effect :=
  match (k.queue d).inFlight 0 with
  | none => .next k [] []
  | some p =>
    let job := k.jobs p
    let k' := k.setJob p fun j => { j with result := result, hwStatus := hwStatus, done := true }
    if job.orphanOnComplete ∧ ¬ 0 < job.waiterPin then
      .next (k'.setQueue d fun q => releaseSlot q job.targetCore)
        (.release [(p, .jppM)] :: wantKick k d) []
    else
      .next (k'.setQueue d fun q =>
        releaseSlot { q with completed := q.completed ++ [p] } job.targetCore) (wantKick k d) []

/-- `RkMppPeerCompletion`. -/
def peerCompletion (k : Kernel) (cookie : Nat) (result : NtStatus) (hwStatus : BitVec 32) :
    Effect :=
  match (k.queue .rvd0).inFlight 1 with
  | none => .next k [] []
  | some p =>
    if (k.jobs p).id ≠ cookie then .next k [] []
    else
      .next ((k.setJob p fun j => { j with result := result, hwStatus := hwStatus }).setQueue .rvd0
        fun q => releaseSlot { q with completed := q.completed ++ [p] } 1)
        (.signal p none :: wantKick k .rvd0) []

def readJob (k : Kernel) (p : Ptr) : Effect :=
  if k.alive p = false then .crash else .next k [] []

/-- One call of `ExFreePoolWithTag`. -/
def release (k : Kernel) (jobs : List (Ptr × PoolTag)) : Effect :=
  match jobs with
  | [] => .next k [] []
  | (p, tag) :: rest =>
    if k.alive p = false then .crash
    else .next (k.free p) [.release rest] [.freed p tag (k.jobs p).waiterPin]

end Completion

section Foreign

/-- The transient job of `RkMppJobRunForeign`. -/
def foreignJob (id : Nat) (w : KickWork) : Job where
  id := id
  owner := none
  tag := .gFKR
  prog := ⟨w.bank, w.kickValue, w.iovaSlots, []⟩
  targetCore := 0
  done := false
  result := .pending
  hwStatus := 0
  orphanOnComplete := false
  waiterPin := 0

/-- `RkMppJobRunForeign` up to the kick: the transient job goes into the slot of RVD1's core, or is
freed again when that is taken. -/
def jobRunForeign (k : Kernel) (w : KickWork) (allocOk : Bool) : Effect :=
  if Dense.maxDenseIovaSlots < w.iovaSlots.length ∨ allocOk = false then .next k [] []
  else
    let id := (k.queue .rvd1).nextId + 1
    let p := k.nextPtr
    let k' := (k.setQueue .rvd1 fun q => { q with nextId := id }).alloc (foreignJob id w)
    if (k.queue .rvd1).inFlight 0 ≠ none then .next k' [.release [(p, .gFKR)]] []
    else
      .next (k'.setQueue .rvd1 fun q =>
        { q with
          inFlight := Function.update q.inFlight 0 (some p)
          coreIdle := Function.update q.coreIdle 0 false })
        [.jobKickLocalInner .rvd1 p, .foreignWait p w] []

/-- A bounded wait on the job's event: `signalled` or expired. -/
def waitEvent (k : Kernel) (p : Ptr) (finite signalled : Bool) (done expired : Frame) :
    Option Effect :=
  if k.alive p = false then some .crash
  else if signalled then if (k.jobs p).done then some (.next k [done] []) else none
  else if finite ∧ (k.jobs p).done = false then some (.next k [expired] []) else none

def foreignExpired (k : Kernel) (p : Ptr) (w : KickWork) : Effect :=
  if k.alive p = false then .crash
  else
    .next (k.setJob p fun j => { j with orphanOnComplete := true }) [.trampoline w .ioTimeout 0] []

/-- `RemoveEntryList` of a job that must be on `Completed`, for its release. -/
def foreignReap (k : Kernel) (p : Ptr) (w : KickWork) : Effect :=
  if k.alive p = false ∨ p ∉ (k.queue .rvd1).completed then .crash
  else
    .next (k.setQueue .rvd1 fun q => { q with completed := q.completed.erase p })
      [.release [(p, .gFKR)], .trampoline w (k.jobs p).result (k.jobs p).hwStatus] []

def trampoline (k : Kernel) (w : KickWork) (result : NtStatus) (hwStatus : BitVec 32) : Effect :=
  if k.completionCb then .next k [.peerCompletion w.cookie result hwStatus] [.called w.cookie]
  else .next k [] []

/-- A worker thread takes a queued `PEER_KICK_WORK`. -/
def peerKickWorker (k : Kernel) (i : Nat) : Option (Kernel × List Frame × List Event) :=
  match k.work[i]? with
  | none => none
  | some w => some ({ k with work := k.work.eraseIdx i }, [.jobRunForeign w, .endWork w], [])

end Foreign

section Wait

def addPin (n : Int) (j : Job) : Job := { j with waiterPin := j.waiterPin + n }

/-- `TimeoutMs` is a bound unless it is 0 or -1. -/
def finiteTimeout (timeoutMs : BitVec 32) : Bool := timeoutMs ≠ 0 ∧ timeoutMs ≠ -1

/-- The lookup of `RkMppJobWait`, and the reap of a job it finds completed. -/
def jobWait (k : Kernel) (f : File) (id : Nat) (timeoutMs : BitVec 32) :
    Kernel × List Frame × List Event :=
  match (k.queue .rvd0).completed.find? fun p => (k.jobs p).id = id with
  | some p =>
    if (k.jobs p).owner ≠ some f then (k, [], [.refused f .notFound])
    else
      (k.setQueue .rvd0 fun q => { q with completed := q.completed.erase p }, [.takeResult p], [])
  | none =>
    match (k.findInFlight .rvd0 fun j => j.id = id ∧ j.owner = some f).or
        ((k.queue .rvd0).pending.find? fun p => (k.jobs p).id = id) with
    | none => (k, [], [.refused f .notFound])
    | some p =>
      if (k.jobs p).owner ≠ some f then (k, [], [.refused f .notFound])
      else (k.setJob p (addPin 1), [.waitDone p (finiteTimeout timeoutMs)], [])

def takeResult (k : Kernel) (p : Ptr) : Effect :=
  if k.alive p = false then .crash else .next k [.release [(p, .jppM)]] []

/-- `RkMppJobWait` after its wait timed out. -/
def waitExpired (k : Kernel) (p : Ptr) : Effect :=
  if k.alive p = false then .crash
  else
    let k' := k.setJob p (addPin (-1))
    if (k.jobs p).waiterPin - 1 ≠ 0 then .next k' [] []
    else if p ∈ (k.queue .rvd0).pending then
      .next (k'.setQueue .rvd0 fun q => { q with pending := q.pending.erase p })
        [.release [(p, .jppM)]] []
    else if p ∈ (k.queue .rvd0).completed then
      .next (k'.setQueue .rvd0 fun q => { q with completed := q.completed.erase p })
        [.release [(p, .jppM)]] []
    else if p ∈ k.inFlight .rvd0 then
      .next (k'.setJob p fun j => { j with orphanOnComplete := true }) [] []
    else .next k' [] []

/-- `RkMppJobWait` after the job's event was signalled. -/
def waitReap (k : Kernel) (p : Ptr) : Effect :=
  if k.alive p = false then .crash
  else
    let k' := k.setJob p (addPin (-1))
    if (k.jobs p).waiterPin - 1 ≠ 0 then .next k' [] []
    else if p ∉ (k.queue .rvd0).completed then .crash
    else
      .next (k'.setQueue .rvd0 fun q => { q with completed := q.completed.erase p })
        [.release [(p, .jppM)]] []

end Wait

section Drain

/-- Phase 1 of `RkMppJobsDrainOwner`. -/
def jobsDrainOwner (k : Kernel) (f : File) : Kernel × List Frame × List Event :=
  let owned := fun p => (k.jobs p).owner = some f
  (k.setQueue .rvd0 fun q =>
      { q with
        pending := q.pending.filter fun p => ¬ owned p
        completed := q.completed.filter fun p => ¬ owned p },
    [.release (((k.queue .rvd0).pending.filter owned ++
        (k.queue .rvd0).completed.filter owned).map fun p => (p, .jppM)), .drainScan f], [])

/-- The search of phase 3 of `RkMppJobsDrainOwner`. -/
def drainScan (k : Kernel) (f : File) : Effect :=
  match k.findInFlight .rvd0 fun j => j.owner = some f with
  | none => .next k [] []
  | some p => .next (k.setJob p (addPin 1)) [.drainWait f p] []

/-- The jobs in flight of a file are marked when its drain gives up. -/
def markOrphans (k : Kernel) (f : File) : Kernel :=
  { k with
    jobs := fun p =>
      if p ∈ k.inFlight .rvd0 ∧ (k.jobs p).owner = some f then
        { k.jobs p with orphanOnComplete := true }
      else k.jobs p }

/-- The section after the wait of phase 3 of `RkMppJobsDrainOwner`. -/
def drainPost (k : Kernel) (f : File) (p : Ptr) (timedOut : Bool) : Effect :=
  if k.alive p = false then .crash
  else
    let k := k.setJob p (addPin (-1))
    let k := if timedOut then markOrphans k f else k
    let reaped := fun p => (k.jobs p).owner = some f ∧ (k.jobs p).waiterPin = 0
    .next (k.setQueue .rvd0 fun q => { q with completed := q.completed.filter fun p => ¬ reaped p })
      (.release (((k.queue .rvd0).completed.filter reaped).map fun p => (p, .jppM)) ::
        if timedOut then [] else [.drainScan f]) []

end Drain

section Peer

/-- `RkMppPeerArrival` under the lock. -/
def peerArrival (k : Kernel) : Kernel × List Frame × List Event :=
  if (k.queue .rvd0).peerOpen then (k, [], [])
  else
    (k.setQueue .rvd0 fun q =>
      { q with
        peerOpen := true
        coreCount := 2
        coreIdle := Function.update q.coreIdle 1 true
        corePending := Function.update q.corePending 1 0 }, [.registerCompletion], [])

/-- `RkMppDetachPeer`. -/
def detachPeer (k : Kernel) : Kernel × List Frame × List Event :=
  (k.setQueue .rvd0 fun q =>
      { q with
        peerOpen := false
        coreCount := 1
        coreIdle := Function.update q.coreIdle 1 false
        corePending := Function.update q.corePending 1 0 },
    match (k.queue .rvd0).inFlight 1 with
    | some p => if (k.queue .rvd0).peerOpen then [.detachWait p] else []
    | none => [], [])

end Peer

section Buffers

/-- `RkMppJobReferencesBuffer`. -/
def jobReferencesBuffer (job : Job) (f : File) (cookie : Nat) : Bool :=
  job.owner = some f ∧ cookie ≠ 0 ∧
    ((∃ s ∈ job.prog.iovaSlots, s.bufferHandle = cookie) ∨ cookie ∈ job.prog.bufRefs)

/-- `RkMppJobBufferInUse`. -/
def jobBufferInUse (k : Kernel) (f : File) (cookie : Nat) : Bool :=
  (k.inFlight .rvd0 ++ (k.queue .rvd0).pending ++ (k.queue .rvd0).completed).any fun p =>
    jobReferencesBuffer (k.jobs p) f cookie

/-- `RkMppBufAlloc` up to the file lock: the cookie is taken off the global counter. -/
def bufAlloc (k : Kernel) (f : File) (iova size : Nat) (window : iova + size ≤ 2 ^ 32) :
    Kernel × List Frame × List Event :=
  ({ k with nextCookie := k.nextCookie + 1 },
    [.bufInsert f ⟨k.nextCookie + 1, iova, size, window⟩], [])

def bufInsert (k : Kernel) (f : File) (b : Dense.Buffer) : Option Effect :=
  if k.fileLock f then none
  else some (.next { k with buffers := Function.update k.buffers f (k.buffers f ++ [b]) } [] [])

/-- `RkMppBufFreeIfNotInUse`. -/
def bufFreeIfNotInUse (k : Kernel) (f : File) (cookie : Nat) :
    Option (Kernel × List Frame × List Event) :=
  if k.fileLock f then none
  else if jobBufferInUse k f cookie then some (k, [], [.refused f .deviceBusy])
  else
    match Dense.bufLookup (k.buffers f) cookie with
    | none => some (k, [], [.refused f .notFound])
    | some b =>
      some ({ k with buffers := Function.update k.buffers f ((k.buffers f).erase b) }, [],
        [.bufFreed f cookie])

end Buffers

end Rkvdec.Dispatch
