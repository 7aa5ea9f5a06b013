import Rkvdec.Dispatch.Sections

/-! The dispatcher as a machine: the requests that start a thread, and the section each pending
call runs next. -/
namespace Rkvdec.Dispatch

/-- What makes a thread of either device run. -/
inductive Request where
  | bufAlloc (f : File) (iova size : Nat) (window : iova + size ≤ 2 ^ 32)
  | bufFree (f : File) (cookie : Nat)
  | submit (f : File) (input : Dense.SubmitIn) (allocOk : Bool)
  | wait (f : File) (id : Nat) (timeoutMs : BitVec 32)
  | drainOwner (f : File)
  | interrupt (d : Dev) (hwStatus : BitVec 32)
  /-- A queued run of the kick worker starts. -/
  | startWorker (d : Dev)
  /-- A worker thread takes the `i`-th queued peer kick. -/
  | startPeerKick (i : Nat)
  | peerArrival
  | detachPeer
  /-- The register window of a device is mapped with this length, or unmapped (0). -/
  | mapMmio (d : Dev) (len : Nat)

def enter (k : Kernel) : Request → Option (Kernel × List Frame × List Event)
  | .bufAlloc f iova size window => some (bufAlloc k f iova size window)
  | .bufFree f cookie => bufFreeIfNotInUse k f cookie
  | .submit f input allocOk => submitDense k f input allocOk
  | .wait f id timeoutMs => some (jobWait k f id timeoutMs)
  | .drainOwner f => some (jobsDrainOwner k f)
  | .interrupt d hwStatus => evtIsr k d hwStatus
  | .startWorker d =>
    if k.workItem d = 0 then none
    else some ({ k with workItem := Function.update k.workItem d (k.workItem d - 1) },
      [.kickWorker d], [])
  | .startPeerKick i => peerKickWorker k i
  | .peerArrival => some (peerArrival k)
  | .detachPeer => some (detachPeer k)
  | .mapMmio d len => some ({ k with mmioLen := Function.update k.mmioLen d len }, [], [])

/-- The next section of a call. `good` is the environment's choice: an allocation that succeeds, a
wait that is signalled before it expires. -/
def exec (k : Kernel) (call : Frame) (good : Bool) : Option Effect :=
  match call with
  | .bufInsert f b => bufInsert k f b
  | .submitEnqueue f p => some (submitEnqueue k f p)
  | .kickPromotions d promos => some (kickPromotions k d promos good)
  | .rollback d p core status => some (rollback k d p core status)
  | .signal p status => some (signal k p status)
  | .jobKickLocalInner d p => some (jobKickLocalInner k d p)
  | .kickTail d p => some (kickTail k d p)
  | .jobComplete d result hwStatus => some (jobComplete k d result hwStatus)
  | .release jobs => some (release k jobs)
  | .enqueueKickWorker d => some (enqueueKickWorker k d)
  | .workItemEnqueue d =>
    some (.next { k with workItem := Function.update k.workItem d (k.workItem d + 1) } [] [])
  | .kickWorker d => some (kickWorker k d)
  | .evtDpc d hwStatus => some (evtDpc k d hwStatus)
  | .readJob p => some (readJob k p)
  | .takeResult p => some (takeResult k p)
  | .jobRunForeign w => some (jobRunForeign k w good)
  | .foreignWait p w => waitEvent k p true good (.foreignReap p w) (.foreignExpired p w)
  | .foreignExpired p w => some (foreignExpired k p w)
  | .foreignReap p w => some (foreignReap k p w)
  | .trampoline w result hwStatus => some (trampoline k w result hwStatus)
  | .peerCompletion cookie result hwStatus => some (peerCompletion k cookie result hwStatus)
  | .endWork w => some (.next k [] [.ended w.cookie])
  | .waitDone p finite => waitEvent k p finite good (.waitReap p) (.waitExpired p)
  | .waitExpired p => some (waitExpired k p)
  | .waitReap p => some (waitReap k p)
  | .drainScan f => some (drainScan k f)
  | .drainWait f p => waitEvent k p true good (.drainPost f p false) (.drainPost f p true)
  | .drainPost f p timedOut => some (drainPost k f p timedOut)
  | .detachWait p => some (readJob k p)
  | .registerCompletion => some (.next { k with completionCb := true } [] [])

abbrev Sys := Lib.Pool Kernel Frame Event

/-- The bank of a zeroed job. -/
def zeroBank : Dense.Bank where
  common := .replicate _ 0
  codecParams := .replicate _ 0
  commonAddr := .replicate _ 0
  codecAddr := .replicate _ 0
  highPoc := .replicate _ 0
  stat := .replicate _ 0

/-- What an address holds before its first allocation; nothing reads it. -/
def noJob : Job := submitJob 0 0 ⟨zeroBank, 0, [], []⟩

/-- Both devices started, no file has done anything yet and no peer is attached. -/
def kernelInit : Kernel where
  jobs := fun _ => noJob
  alive := fun _ => false
  nextPtr := 0
  queue := fun _ => jobQueueInit
  hw := fun _ => none
  mmioLen := fun _ => 0
  work := []
  completionCb := false
  workItem := fun _ => 0
  buffers := fun _ => []
  nextCookie := 1
  fileLock := fun _ => false

def init : Sys := ⟨kernelInit, [], false, []⟩

def machine : Lib.Machine Kernel Frame Event Request := ⟨enter, exec⟩

abbrev Guard := Lib.Guard Kernel Frame Request

/-- The states of runs all of whose steps `G` admits. -/
abbrev Reachable (G : Guard) (s : Sys) : Prop := Lib.Reaches machine G init s

/-- A job that programs nothing but the kick, over the buffers it names. -/
def bareInput (slots : List Dense.IovaSlot) : Dense.SubmitIn := ⟨1, zeroBank, slots, []⟩

/-- A file submits such a job and the thread runs up to the end of the queue-locked section. -/
abbrev submitBare (t : Nat) (f : File) : List (Lib.Action Request) :=
  [.enter (.submit f (bareInput []) true), .run t true]

end Rkvdec.Dispatch
