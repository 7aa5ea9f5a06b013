import Rkvdec.Dense.Submit

/-! The job queue of one decoder core and the promotion of its waiting jobs: round robin over the
owning files, and over the two cores of the dispatcher. -/
namespace Rkvdec.Dispatch

abbrev File := Nat
abbrev Ptr := Nat

/-- 0 is the core of the device itself, 1 its peer. -/
abbrev Core := Fin 2

theorem core_cases (c : Core) : c = 0 ∨ c = 1 := by
  fin_cases c <;> simp

inductive Dev where
  | rvd0
  | rvd1
deriving DecidableEq

/-- The tags of the two allocation sites of jobs. -/
inductive PoolTag where
  | jppM
  | gFKR
deriving DecidableEq

/-- `RKMPP_JOB`, with the tag it was allocated with. -/
structure Job where
  id : Nat
  owner : Option File
  tag : PoolTag
  prog : Dense.Program
  targetCore : Core
  done : Bool
  result : NtStatus
  hwStatus : BitVec 32
  orphanOnComplete : Bool
  waiterPin : Int

/-- An entry of `OwnerLru`. -/
structure LruEntry where
  file : Option File
  lastKickId : Nat
deriving DecidableEq

/-- `RKMPP_JOB_QUEUE`. The jobs are named by address; `coreIdle` is the bit mask as a function. -/
structure Queue where
  pending : List Ptr
  completed : List Ptr
  nextId : Nat
  ownerLru : List LruEntry
  coreCount : Nat
  coreIdle : Core → Bool
  corePending : Core → Nat
  inFlight : Core → Option Ptr
  lastKickCore : Option Core
  peerOpen : Bool
  kickActive : Bool
  kickRearm : Bool

/-- `RkMppJobQueueInit`. -/
def jobQueueInit : Queue where
  pending := []
  completed := []
  nextId := 0
  ownerLru := List.replicate 4 ⟨none, 0⟩
  coreCount := 1
  coreIdle := fun c => c = 0
  corePending := fun _ => 0
  inFlight := fun _ => none
  lastKickCore := none
  peerOpen := false
  kickActive := false
  kickRearm := false

namespace Queue

/-- The cores of the loops that run up to `CoreCount`. -/
def cores (q : Queue) : List Core := [0, 1].filter fun c => c.val < q.coreCount

/-- The score of a file in the promotion order: the id of its last kicked job. -/
def score (q : Queue) (owner : Option File) : Nat :=
  match q.ownerLru.find? fun e => e.file = owner with
  | some e => e.lastKickId
  | none => 0

/-- The scan of `PickPendingByOwnerLru` from `chosen` on; `none` is the initial best score, which no
id reaches. -/
def pickScan (score : Ptr → Nat) : List Ptr → Ptr → Option Nat → Ptr
  | [], chosen, _ => chosen
  | p :: rest, chosen, best =>
    if best.all (score p < ·) then
      if score p = 0 then p else pickScan score rest p (some (score p))
    else pickScan score rest chosen best

/-- `PickPendingByOwnerLru`; the caller takes the job off `Pending`. -/
def pickPendingByOwnerLru (q : Queue) (jobs : Ptr → Job) : Option Ptr :=
  match q.pending with
  | [] => none
  | head :: _ => some (pickScan (fun p => q.score (jobs p).owner) q.pending head none)

/-- One turn of the loop of `PickTargetCore`. -/
def betterCore (q : Queue) (best : Option Core) (i : Core) : Option Core :=
  if q.coreIdle i then
    match best with
    | none => some i
    | some b =>
      if q.corePending i < q.corePending b then some i
      else if q.corePending i = q.corePending b ∧ q.lastKickCore ≠ some i ∧
          q.lastKickCore = some b then some i
      else some b
  else best

/-- `PickTargetCore`. -/
def pickTargetCore (q : Queue) : Option Core := q.cores.foldl q.betterCore none

/-- The entry `PromoteUntilFull` overwrites when the file has none: the first of least id. -/
def evict (lru : List LruEntry) : Nat :=
  (List.range lru.length).foldl (fun e i =>
    if (lru.getD i ⟨none, 0⟩).lastKickId < (lru.getD e ⟨none, 0⟩).lastKickId then i else e) 0

/-- The `OwnerLru` upsert of `PromoteUntilFull`. -/
def upsertLru (lru : List LruEntry) (owner : Option File) (id : Nat) : List LruEntry :=
  match owner with
  | none => lru
  | some _ => lru.set ((lru.findIdx? fun e => e.file = owner).getD (evict lru)) ⟨owner, id⟩

end Queue

/-- `PROMOTION`. -/
structure Promotion where
  job : Ptr
  core : Core
deriving DecidableEq

/-- What a promotion loop works on: the jobs, the queue, the promotions made so far, and for each
of them the owners that were waiting when it was made. -/
structure Promoting where
  jobs : Ptr → Job
  queue : Queue
  out : List Promotion
  waiting : List (List (Option File))

namespace Promoting

/-- The body of the loop of `PromoteUntilFull` for the job and the core it picked. -/
def promote (s : Promoting) (p : Ptr) (core : Core) : Promoting where
  jobs := Function.update s.jobs p { s.jobs p with targetCore := core }
  queue := { s.queue with
    pending := s.queue.pending.erase p
    inFlight := Function.update s.queue.inFlight core (some p)
    coreIdle := Function.update s.queue.coreIdle core false
    corePending := Function.update s.queue.corePending core (s.queue.corePending core + 1)
    lastKickCore := some core
    ownerLru := Queue.upsertLru s.queue.ownerLru (s.jobs p).owner (s.jobs p).id }
  out := s.out ++ [⟨p, core⟩]
  waiting := s.waiting ++ [s.queue.pending.map fun p => (s.jobs p).owner]

/-- One turn of the loop of `PromoteUntilFull`. -/
def turn (s : Promoting) : Option Promoting :=
  match s.queue.pickTargetCore, s.queue.pickPendingByOwnerLru s.jobs with
  | some core, some p => some (s.promote p core)
  | _, _ => none

def turns : Nat → Promoting → Promoting
  | 0, s => s
  | n + 1, s =>
    match s.turn with
    | none => s
    | some s' => turns n s'

end Promoting

/-- `PromoteUntilFull`. -/
def promoteUntilFull (jobs : Ptr → Job) (q : Queue) : Promoting :=
  Promoting.turns q.coreCount ⟨jobs, q, [], []⟩

end Rkvdec.Dispatch
