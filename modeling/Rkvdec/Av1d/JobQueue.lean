import Rkvdec.Av1d.Kick
import Rkvdec.Dispatch.Queue
import Rkvdec.Lib.Pool

/-! The job queue of the AV1 core in atomic sections. A section is what a thread does under one hold
of the queue lock, or what it does to a job or the hardware after letting the lock go; between two
sections any other thread may run. -/
namespace Rkvdec.Av1d.JobQueue

open Dispatch (File Ptr)

/-- `RKMPP_JOB`; `prog` is the list of register writes after substitution. -/
structure RkMppJob where
  id : Nat
  owner : File
  prog : Job
  done : Bool
  result : NtStatus
  hwStatus : BitVec 32
  orphanOnComplete : Bool
  waiterPin : Int

/-- `RKMPP_JOB_QUEUE`. The jobs are named by address. -/
structure Queue where
  pending : List Ptr
  completed : List Ptr
  inFlight : Option Ptr
  nextId : Nat
  draining : Bool
  kickActive : Bool
  kickRearm : Bool

/-- `RkMppJobQueueInit`. -/
def jobQueueInit : Queue where
  pending := []
  completed := []
  inFlight := none
  nextId := 0
  draining := false
  kickActive := false
  kickRearm := false

/-- A call a thread has yet to make, up to the end of its next section. -/
inductive Frame where
  /-- `RkMppJobSubmit` about to take the queue lock; the file lock is held. -/
  | submitEnqueue (f : File) (p : Ptr)
  | jobStart (p : Ptr)
  /-- `RkMppJobStart` flushing the TLB after the kick register is written. -/
  | startFlush
  /-- A read of the job's id with no lock held. -/
  | readId (p : Ptr)
  | evtDpc (hwStatus : BitVec 32)
  /-- `RkMppEvtDpc` flushing the TLB. -/
  | flushTlb
  | jobComplete (result : NtStatus) (hwStatus : BitVec 32)
  /-- The calls of `ExFreePoolWithTag` for jobs taken off every list. -/
  | release (jobs : List Ptr)
  | enqueueKickWorker
  | workItemEnqueue
  | kickWorker
  /-- `RkMppJobWait` reading the result of a job it found completed and took off the list. -/
  | takeResult (p : Ptr)
  | waitDone (p : Ptr) (finite : Bool)
  | waitExpired (p : Ptr)
  | waitReap (p : Ptr)
  | drainWait (f : File) (p : Ptr)
  | drainPost (f : File) (p : Ptr) (timedOut : Bool)
  /-- `RkMppJobQueueQuiesce` about to look at the job in flight. -/
  | quiesceSnapshot
  | quiesceWait (p : Ptr)
  /-- `RkMppJobQueueResume` about to restart the chain. -/
  | resumeChain
deriving DecidableEq

/-- A call of `ExFreePoolWithTag`. `linked`: the job was on a list or in flight. -/
structure Freeing where
  job : Ptr
  linked : Bool
  waiterPin : Int
deriving DecidableEq

inductive Event where
  | refused (f : File) (status : NtStatus)
  /-- The job of a submission enters `InFlight` or `Pending`. -/
  | admitted (p : Ptr)
  /-- The job enters `InFlight`. -/
  | launched (p : Ptr)
  /-- `RkMppJobStart` is called. -/
  | started (p : Ptr)
  /-- `RkMppJobStart` writes registers of the codec. -/
  | programmed (p : Ptr)
  | completed (p : Ptr)
  /-- A wait that expired, or a drain, takes the job off `Pending`. -/
  | withdrawn (p : Ptr)
  /-- `RkMppEvtIsr` clears the interrupt status of the codec. -/
  | acknowledged
  /-- `RkMppEvtDpc` flushes the TLB. -/
  | flushed
  /-- `RkMppJobQueueQuiesce` returns `STATUS_SUCCESS`. -/
  | quiesced
  | quiesceTimedOut
  /-- `RkMppJobQueueResume` is called. -/
  | resuming
  | freed (freeing : Freeing)
deriving DecidableEq

/-- The memory the threads share. A freed job keeps its contents but is no longer alive; addresses
are not reused. `hw` is the job the codec was kicked with and has not yet reported done. -/
structure Kernel where
  jobs : Ptr → RkMppJob
  alive : Ptr → Bool
  nextPtr : Ptr
  queue : Queue
  hw : Option Ptr
  mmioLen : Nat
  workItem : Nat
  fileLock : File → Bool

abbrev Effect := Lib.Effect Kernel Frame Event

namespace Kernel

@[simps]
def setJob (k : Kernel) (p : Ptr) (g : RkMppJob → RkMppJob) : Kernel :=
  { k with jobs := Function.update k.jobs p (g (k.jobs p)) }

@[simps]
def setQueue (k : Kernel) (g : Queue → Queue) : Kernel := { k with queue := g k.queue }

/-- `ExAllocatePool2` and the stores that fill the job. -/
@[simps]
def alloc (k : Kernel) (job : RkMppJob) : Kernel :=
  { k with
    jobs := Function.update k.jobs k.nextPtr job
    alive := Function.update k.alive k.nextPtr true
    nextPtr := k.nextPtr + 1 }

/-- `ExFreePoolWithTag`. -/
@[simps]
def free (k : Kernel) (p : Ptr) : Kernel :=
  { k with alive := Function.update k.alive p false }

@[simps]
def setFileLock (k : Kernel) (f : File) (held : Bool) : Kernel :=
  { k with fileLock := Function.update k.fileLock f held }

/-- The job is on a list or in flight. -/
def linked (k : Kernel) (p : Ptr) : Bool :=
  decide (p ∈ k.queue.pending ∨ p ∈ k.queue.completed ∨ k.queue.inFlight = some p)

end Kernel

def maxPendingJobs : Nat := 8
def maxPendingJobsPerFile : Nat := 4

section Submit

/-- The job of an accepted submission. -/
def acceptedJob {bufs : List Dense.Buffer} {allocOk admitted : Bool} {input : SubmitIn}
    {writes : List RegWrite} (h : submitJob bufs allocOk admitted input = .ok writes) : Job where
  writes := writes
  aligned := by
    obtain ⟨job, rfl⟩ := job_of_submit h
    exact job.aligned
  kick := by
    obtain ⟨job, rfl⟩ := job_of_submit h
    exact job.kick

/-- The job of `RkMppJobSubmit`, zeroed but for these fields. -/
def newJob (f : File) (id : Nat) (prog : Job) : RkMppJob where
  id := id
  owner := f
  prog := prog
  done := false
  result := .success
  hwStatus := 0
  orphanOnComplete := false
  waiterPin := 0

/-- `RkMppJobSubmit` up to the queue lock; `bufs` are the buffers of the file, whose lock stays
held. -/
def jobSubmit (k : Kernel) (f : File) (bufs : List Dense.Buffer) (input : SubmitIn)
    (allocOk : Bool) :
    Option (Kernel × List Frame × List Event) :=
  if k.fileLock f then none
  else
    match h : submitJob bufs allocOk true input with
    | .error status => some (k, [], [.refused f status])
    | .ok _ =>
      let id := k.queue.nextId + 1
      some (((k.setQueue fun q => { q with nextId := id }).alloc (newJob f id (acceptedJob h))
          ).setFileLock f true, [.submitEnqueue f k.nextPtr], [])

/-- The jobs of the file that count against its cap. -/
def ownerCount (k : Kernel) (f : File) : Nat :=
  (k.queue.inFlight.toList ++ k.queue.pending).countP fun p => (k.jobs p).owner = f

/-- The queue has no room for a job of the file. -/
def Capped (k : Kernel) (f : File) : Prop :=
  maxPendingJobs ≤ k.queue.pending.length ∨ maxPendingJobsPerFile ≤ ownerCount k f

instance (k : Kernel) (f : File) : Decidable (Capped k f) := inferInstanceAs (Decidable (_ ∨ _))

/-- `startNow`. -/
def Queue.StartNow (q : Queue) : Prop := q.inFlight = none ∧ q.draining = false

instance (q : Queue) : Decidable q.StartNow := inferInstanceAs (Decidable (_ ∧ _))

/-- The queue-locked part of `RkMppJobSubmit`. -/
def submitEnqueue (k : Kernel) (f : File) (p : Ptr) : Effect :=
  if Capped k f then .next (k.setFileLock f false) [.release [p]] [.refused f .deviceBusy]
  else if k.queue.StartNow then
    .next ((k.setQueue fun q => { q with inFlight := some p }).setFileLock f false)
      [.jobStart p, .readId p] [.launched p, .admitted p]
  else
    .next ((k.setQueue fun q => { q with pending := q.pending ++ [p] }).setFileLock f false)
      [.readId p] [.admitted p]

end Submit

section Kick

/-- The kick register is written with the kick bit set. -/
def kicks (job : Job) : Bool := job.value kickIdx &&& kickRegBit != 0

/-- `RkMppJobStart` up to the write of the kick register. The codec starts when that has the kick
bit. -/
def jobStart (k : Kernel) (p : Ptr) : Effect :=
  if k.alive p = false then .crash
  else if k.mmioLen = 0 then .next k [.jobComplete .deviceNotReady 0] [.started p]
  else if outOfRange k.mmioLen (k.jobs p).prog.writes then
    .next k [.jobComplete .invalidParameter 0] [.started p, .programmed p]
  else
    .next { k with hw := if kicks (k.jobs p).prog then some p else k.hw } [.startFlush]
      [.started p, .programmed p]

/-- The head of `Pending` moves to `InFlight`, if that is free. -/
def promoteHead (q : Queue) : Option (Ptr × Queue) :=
  match q.inFlight, q.pending with
  | none, p :: rest => some (p, { q with inFlight := some p, pending := rest })
  | _, _ => none

/-- `RkMppEnqueueKickWorker`. -/
def enqueueKickWorker (k : Kernel) : Effect :=
  .next (k.setQueue fun q => { q with kickRearm := true, kickActive := true })
    (if k.queue.kickActive then [] else [.workItemEnqueue]) []

/-- One turn of `RkMppKickWorker`. -/
def kickWorker (k : Kernel) : Effect :=
  if k.queue.kickRearm = false then .next (k.setQueue fun q => { q with kickActive := false }) [] []
  else
    let k := k.setQueue fun q => { q with kickRearm := false }
    match if k.queue.draining then none else promoteHead k.queue with
    | none => .next k [.kickWorker] []
    | some (p, q) => .next { k with queue := q } [.jobStart p, .kickWorker] [.launched p]

end Kick

section Completion

/-- `RkMppEvtIsr`, which reads the status as 0 and does not acknowledge it without a register
window. The codec shows a status for the job it was kicked with; 0 is an interrupt of another
device. -/
def evtIsr (k : Kernel) (hwStatus : BitVec 32) : Option (Kernel × List Frame × List Event) :=
  if k.mmioLen = 0 then some (k, [], [])
  else if hwStatus = 0 then some (k, [], [.acknowledged])
  else if k.hw = none then none
  else some ({ k with hw := none }, [.evtDpc hwStatus], [.acknowledged])

/-- `AV1D_INT_ERROR_MASK`. -/
def intErrorMask : BitVec 32 := 0x7e000

/-- `RkMppEvtDpc`; the error report reads the job with no lock held. -/
def evtDpc (k : Kernel) (hwStatus : BitVec 32) : Effect :=
  match k.queue.inFlight with
  | none => .next k [.flushTlb] []
  | some p =>
    if hwStatus &&& intErrorMask = 0 then .next k [.jobComplete .success hwStatus, .flushTlb] []
    else .next k [.readId p, .jobComplete .deviceHardwareError hwStatus, .flushTlb] []

/-- The call that wakes the kick worker when jobs are waiting and the queue is not draining. -/
def wantKick (q : Queue) : List Frame :=
  if q.draining = false ∧ q.pending ≠ [] then [.enqueueKickWorker] else []

/-- The stores of a completion into the job. -/
def finish (result : NtStatus) (hwStatus : BitVec 32) (j : RkMppJob) : RkMppJob :=
  { j with result := result, hwStatus := hwStatus, done := true }

/-- `RkMppJobComplete`. -/
def jobComplete (k : Kernel) (result : NtStatus) (hwStatus : BitVec 32) : Effect :=
  match k.queue.inFlight with
  | none => .next k [] []
  | some p =>
    if k.alive p = false then .crash
    else if (k.jobs p).orphanOnComplete ∧ ¬ 0 < (k.jobs p).waiterPin then
      .next ((k.setJob p (finish result hwStatus)).setQueue fun q => { q with inFlight := none })
        (.release [p] :: wantKick k.queue) [.completed p]
    else
      .next ((k.setJob p (finish result hwStatus)).setQueue fun q =>
        { q with inFlight := none, completed := q.completed ++ [p] }) (wantKick k.queue)
          [.completed p]

def readId (k : Kernel) (p : Ptr) : Effect :=
  if k.alive p = false then .crash else .next k [] []

/-- One call of `ExFreePoolWithTag`. -/
def release (k : Kernel) (jobs : List Ptr) : Effect :=
  match jobs with
  | [] => .next k [] []
  | p :: rest =>
    if k.alive p = false then .crash
    else .next (k.free p) [.release rest] [.freed ⟨p, k.linked p, (k.jobs p).waiterPin⟩]

end Completion

section Wait

def addPin (n : Int) (j : RkMppJob) : RkMppJob := { j with waiterPin := j.waiterPin + n }

/-- `TimeoutMs` is a bound unless it is 0 or -1. -/
def finiteTimeout (timeoutMs : BitVec 32) : Bool := timeoutMs ≠ 0 ∧ timeoutMs ≠ -1

/-- A wait on the job's event: `signalled`, or expired if it is bounded. -/
def waitEvent (k : Kernel) (p : Ptr) (finite signalled : Bool)
    (done expired : List Frame × List Event) :
    Option Effect :=
  if k.alive p = false then some .crash
  else if signalled then if (k.jobs p).done then some (.next k done.1 done.2) else none
  else if finite ∧ (k.jobs p).done = false then some (.next k expired.1 expired.2) else none

/-- The lookup of `RkMppJobWait`, and the reap of a job it finds completed. -/
def jobWait (k : Kernel) (f : File) (id : Nat) (timeoutMs : BitVec 32) :
    Kernel × List Frame × List Event :=
  match k.queue.completed.find? fun p => (k.jobs p).id = id with
  | some p =>
    if (k.jobs p).owner ≠ f then (k, [], [.refused f .notFound])
    else (k.setQueue fun q => { q with completed := q.completed.erase p }, [.takeResult p], [])
  | none =>
    match (k.queue.inFlight.toList ++ k.queue.pending).find? fun p => (k.jobs p).id = id with
    | none => (k, [], [.refused f .notFound])
    | some p =>
      if (k.jobs p).owner ≠ f then (k, [], [.refused f .notFound])
      else (k.setJob p (addPin 1), [.waitDone p (finiteTimeout timeoutMs)], [])

def takeResult (k : Kernel) (p : Ptr) : Effect :=
  if k.alive p = false then .crash else .next k [.release [p]] []

/-- `RkMppJobWait` after its wait timed out. -/
def waitExpired (k : Kernel) (p : Ptr) : Effect :=
  if k.alive p = false then .crash
  else
    let k' := k.setJob p (addPin (-1))
    if (k.jobs p).waiterPin - 1 ≠ 0 then .next k' [] []
    else if p ∈ k.queue.pending then
      .next (k'.setQueue fun q => { q with pending := q.pending.erase p }) [.release [p]]
        [.withdrawn p]
    else if p ∈ k.queue.completed then
      .next (k'.setQueue fun q => { q with completed := q.completed.erase p }) [.release [p]] []
    else if k.queue.inFlight = some p then
      .next (k'.setJob p fun j => { j with orphanOnComplete := true }) [] []
    else .next k' [] []

/-- `RkMppJobWait` after the job's event was signalled. -/
def waitReap (k : Kernel) (p : Ptr) : Effect :=
  if k.alive p = false then .crash
  else
    let k' := k.setJob p (addPin (-1))
    if (k.jobs p).waiterPin - 1 ≠ 0 then .next k' [] []
    else if p ∉ k.queue.completed then .crash
    else
      .next (k'.setQueue fun q => { q with completed := q.completed.erase p }) [.release [p]] []

end Wait

section Drain

/-- The jobs of the file in a list. -/
def Kernel.ofFile (k : Kernel) (f : File) (l : List Ptr) : List Ptr :=
  l.filter fun p => (k.jobs p).owner = f

/-- What phase 1 of `RkMppJobsDrainOwner` frees. -/
def drained (k : Kernel) (f : File) : List Ptr :=
  k.ofFile f k.queue.pending ++ k.ofFile f k.queue.completed

/-- The memory without the waiting and the completed jobs of the file. -/
@[simps]
def undrained (k : Kernel) (f : File) : Kernel :=
  { k with queue :=
    { k.queue with
      pending := k.queue.pending.filter fun p => ¬ (k.jobs p).owner = f
      completed := k.queue.completed.filter fun p => ¬ (k.jobs p).owner = f } }

/-- Phase 1 of `RkMppJobsDrainOwner`, which also pins the file's job in flight. -/
def jobsDrainOwner (k : Kernel) (f : File) : Kernel × List Frame × List Event :=
  let withdrawn := (k.ofFile f k.queue.pending).map Event.withdrawn
  match k.queue.inFlight.filter fun p => (k.jobs p).owner = f with
  | none => (undrained k f, [.release (drained k f)], withdrawn)
  | some p =>
    ((undrained k f).setJob p (addPin 1), [.release (drained k f), .drainWait f p], withdrawn)

/-- The memory of a drain that has dropped its pin and, on a timeout, abandoned the job if it is
still in flight. -/
def unpinned (k : Kernel) (f : File) (p : Ptr) (timedOut : Bool) : Kernel :=
  k.setJob p fun j =>
    { addPin (-1) j with
      orphanOnComplete := j.orphanOnComplete ||
        (timedOut && k.queue.inFlight = some p && j.owner = f) }

/-- The section after the wait of phase 3 of `RkMppJobsDrainOwner`. -/
def drainPost (k : Kernel) (f : File) (p : Ptr) (timedOut : Bool) : Effect :=
  if k.alive p = false then .crash
  else
    let k := unpinned k f p timedOut
    let reaped := fun p => (k.jobs p).owner = f ∧ (k.jobs p).waiterPin = 0
    .next (k.setQueue fun q => { q with completed := q.completed.filter fun p => ¬ reaped p })
      [.release (k.queue.completed.filter reaped)] []

end Drain

section Power

/-- `RkMppJobQueueQuiesce` up to the lock. -/
def jobQueueQuiesce (k : Kernel) : Kernel × List Frame × List Event :=
  (k.setQueue fun q => { q with draining := true }, [.quiesceSnapshot], [])

def quiesceSnapshot (k : Kernel) : Effect :=
  match k.queue.inFlight with
  | none => .next k [] [.quiesced]
  | some p => .next k [.quiesceWait p] []

/-- `RkMppJobQueueResume` up to the lock. -/
def jobQueueResume (k : Kernel) : Kernel × List Frame × List Event :=
  (k.setQueue fun q => { q with draining := false }, [.resumeChain], [.resuming])

def resumeChain (k : Kernel) : Effect :=
  match promoteHead k.queue with
  | none => .next k [] []
  | some (p, q) => .next { k with queue := q } [.jobStart p] [.launched p]

end Power

/-- What makes a thread run. -/
inductive Request where
  | submit (f : File) (bufs : List Dense.Buffer) (input : SubmitIn) (allocOk : Bool)
  | wait (f : File) (id : Nat) (timeoutMs : BitVec 32)
  | drainOwner (f : File)
  | interrupt (hwStatus : BitVec 32)
  /-- A queued run of the kick worker starts. -/
  | startWorker
  | quiesce
  | resume
  /-- The register window is mapped with this length, or unmapped (0). -/
  | mapMmio (len : Nat)

def enter (k : Kernel) : Request → Option (Kernel × List Frame × List Event)
  | .submit f bufs input allocOk => jobSubmit k f bufs input allocOk
  | .wait f id timeoutMs => some (jobWait k f id timeoutMs)
  | .drainOwner f => some (jobsDrainOwner k f)
  | .interrupt hwStatus => evtIsr k hwStatus
  | .startWorker =>
    if k.workItem = 0 then none else some ({ k with workItem := k.workItem - 1 }, [.kickWorker], [])
  | .quiesce => some (jobQueueQuiesce k)
  | .resume => some (jobQueueResume k)
  | .mapMmio len => some ({ k with mmioLen := len }, [], [])

/-- The next section of a call. `good` is the environment's choice whether a wait is signalled
before it expires. -/
def exec (k : Kernel) (call : Frame) (good : Bool) : Option Effect :=
  match call with
  | .submitEnqueue f p => some (submitEnqueue k f p)
  | .jobStart p => some (jobStart k p)
  | .startFlush => some (.next k [] [])
  | .readId p => some (readId k p)
  | .evtDpc hwStatus => some (evtDpc k hwStatus)
  | .flushTlb => some (.next k [] [.flushed])
  | .jobComplete result hwStatus => some (jobComplete k result hwStatus)
  | .release jobs => some (release k jobs)
  | .enqueueKickWorker => some (enqueueKickWorker k)
  | .workItemEnqueue => some (.next { k with workItem := k.workItem + 1 } [] [])
  | .kickWorker => some (kickWorker k)
  | .takeResult p => some (takeResult k p)
  | .waitDone p finite => waitEvent k p finite good ([.waitReap p], []) ([.waitExpired p], [])
  | .waitExpired p => some (waitExpired k p)
  | .waitReap p => some (waitReap k p)
  | .drainWait f p =>
    waitEvent k p true good ([.drainPost f p false], []) ([.drainPost f p true], [])
  | .drainPost f p timedOut => some (drainPost k f p timedOut)
  | .quiesceSnapshot => some (quiesceSnapshot k)
  | .quiesceWait p => waitEvent k p true good ([], [.quiesced]) ([], [.quiesceTimedOut])
  | .resumeChain => some (resumeChain k)

abbrev Sys := Lib.Pool Kernel Frame Event

/-- A program that writes nothing but the kick register. -/
def bareProgram : Job where
  writes := [⟨kickRegOffset, kickRegBit, 0, 0⟩]
  aligned := by decide
  kick := by decide

/-- What an address holds before its first allocation; nothing reads it. -/
def noJob : RkMppJob := newJob 0 0 bareProgram

/-- The device started, and no file has done anything yet. -/
def kernelInit : Kernel where
  jobs := fun _ => noJob
  alive := fun _ => false
  nextPtr := 0
  queue := jobQueueInit
  hw := none
  mmioLen := 0
  workItem := 0
  fileLock := fun _ => false

def init : Sys := ⟨kernelInit, [], false, []⟩

def machine : Lib.Machine Kernel Frame Event Request := ⟨enter, exec⟩

abbrev Guard := Lib.Guard Kernel Frame Request

/-- The states of runs all of whose steps `G` admits. -/
abbrev Reachable (G : Guard) (s : Sys) : Prop := Lib.Reaches machine G init s

/-- A file submits a job that writes nothing but the kick, and the thread runs up to the end of its
queue-locked section. -/
abbrev submitBare (t : Nat) (f : File) : List (Lib.Action Request) :=
  [.enter (.submit f [] ⟨bareProgram.writes, []⟩ true), .run t true]

end Rkvdec.Av1d.JobQueue
