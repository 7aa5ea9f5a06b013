import Rkvdec.Basic
import Rkvdec.Lib.Pool

/-! The buffer pool of `bufpool.c`. A section is what one hold of the file lock or one interlocked
operation covers; between two sections every other thread may run. -/
namespace Rkvdec.Buf

def maxBufferBytes : BitVec 32 := 128 * 1024 * 1024
def maxFileBytes : Nat := 2 * 1024 * 1024 * 1024
def maxGlobalBytes : Int := 4 * 1024 * 1024 * 1024
def maxFileBufferCount : Nat := 128
def pageSize : BitVec 32 := 4096

def bufUsageValid (usage : BitVec 32) : Bool :=
  usage = 1 || usage = 2 || usage = 3 || usage = 4

def bufRoundSize (size : BitVec 32) : Option (BitVec 32) :=
  if size = 0 ∨ maxBufferBytes < size then none
  else if 0xFFFFFFFF - (pageSize - 1) < size then none
  else
    let rounded := (size + pageSize - 1) &&& ~~~(pageSize - 1)
    if rounded = 0 ∨ maxBufferBytes < rounded then none else some rounded

/-- The tracking node: the cookie a free looks for and the size it gives back. -/
structure Buffer where
  cookie : BitVec 64
  size : Nat
deriving DecidableEq

/-- `allocatedBytes` is a `UINT64` and `bufferCount` a `UINT32`. -/
structure FileCtx where
  buffers : List Buffer
  allocatedBytes : Nat
  bufferCount : Nat
deriving DecidableEq

def bufFileCtxInit : FileCtx := ⟨[], 0, 0⟩

namespace FileCtx

def charge (ctx : FileCtx) (size : Nat) : FileCtx :=
  { ctx with
    allocatedBytes := (ctx.allocatedBytes + size) % 2 ^ 64
    bufferCount := (ctx.bufferCount + 1) % 2 ^ 32 }

def uncharge (ctx : FileCtx) (size : Nat) : FileCtx :=
  { ctx with
    allocatedBytes := if size ≤ ctx.allocatedBytes then ctx.allocatedBytes - size else 0
    bufferCount := if 0 < ctx.bufferCount then ctx.bufferCount - 1 else ctx.bufferCount }

end FileCtx

/-- The files below `opened` have a context. `totalAllocatedBytes` is the `LONG64` all files share,
`nextCookie` the counter the cookies come from. -/
structure Mem where
  opened : Nat
  files : Nat → FileCtx
  totalAllocatedBytes : Int
  nextCookie : BitVec 64

namespace Mem

def setFile (m : Mem) (f : Nat) (ctx : FileCtx) : Mem :=
  { m with files := Function.update m.files f ctx }

/-- The first use of the next file sets its context up. -/
def openFile (m : Mem) : Mem :=
  { m with
    opened := m.opened + 1
    files := Function.update m.files m.opened bufFileCtxInit }

end Mem

/-- What an allocation carries along: its file, the rounded size, and the status `MapMdl` answers
should it fail. -/
structure Alloc where
  file : Nat
  sizeRounded : Nat
  mapStatus : NtStatus

/-- The resources an allocation takes one after the other. -/
inductive Stage where
  | kernelVa
  | mdl
  | iommuIfc
  | mapMdl
  | userVa

/-- Where a call stands. -/
inductive Frame where
  | reserveFile (a : Alloc)
  | readTotal (a : Alloc)
  | compareExchange (a : Alloc) (cur next : Int)
  | rollback (a : Alloc)
  | take (a : Alloc) (stage : Stage)
  | assignCookie (a : Alloc)
  | allocNode (a : Alloc) (cookie : BitVec 64)
  | insert (a : Alloc) (cookie : BitVec 64)
  | releaseFile (f : Nat) (size : Nat)
  | releaseTotal (size : Nat)
  | freeAll (f : Nat)
  | finish (status : NtStatus)

/-- A call returns. -/
inductive Event where
  | returned (status : NtStatus)

abbrev Effect := Lib.Effect Mem Frame Event

namespace Stage

def failure (a : Alloc) : Stage → NtStatus
  | kernelVa => .insufficientResources
  | mdl => .insufficientResources
  | iommuIfc => .deviceNotReady
  | mapMdl => a.mapStatus
  | userVa => .insufficientResources

def next (a : Alloc) : Stage → Frame
  | kernelVa => .take a mdl
  | mdl => .take a iommuIfc
  | iommuIfc => .take a mapMdl
  | mapMdl => .take a userVa
  | userVa => .assignCookie a

end Stage

/-- `RkMppBufReleaseQuota`, then the return. -/
def releaseQuota (f : Nat) (size : Nat) (status : NtStatus) : List Frame :=
  [.releaseFile f size, .finish status]

/-- The file-locked half of `RkMppBufReserveQuota`. -/
def reserveFile (m : Mem) (a : Alloc) : Effect :=
  let ctx := m.files a.file
  if maxFileBytes < a.sizeRounded then .next m [.finish .quotaExceeded] []
  else if maxFileBufferCount ≤ ctx.bufferCount ∨
      maxFileBytes - a.sizeRounded < ctx.allocatedBytes then
    .next m [.finish .quotaExceeded] []
  else .next (m.setFile a.file (ctx.charge a.sizeRounded)) [.readTotal a] []

/-- The head of the CAS loop: `next` is computed from the value read, and the cap tested on it. -/
def readTotal (m : Mem) (a : Alloc) : Effect :=
  let cur := m.totalAllocatedBytes
  let next := (cur + a.sizeRounded).bmod (2 ^ 64)
  if maxGlobalBytes < next then .next m [.rollback a] []
  else .next m [.compareExchange a cur next] []

def compareExchange (m : Mem) (a : Alloc) (cur next : Int) : Effect :=
  if m.totalAllocatedBytes = cur then
    .next { m with totalAllocatedBytes := next } [.take a .kernelVa] []
  else .next m [.readTotal a] []

def rollback (m : Mem) (a : Alloc) : Effect :=
  .next (m.setFile a.file ((m.files a.file).uncharge a.sizeRounded)) [.finish .quotaExceeded] []

/-- One resource of the allocation is had, or is not: what was taken before is undone and the
quota released. -/
def takeResource (m : Mem) (a : Alloc) (stage : Stage) (good : Bool) : Effect :=
  if good then .next m [stage.next a] []
  else .next m (releaseQuota a.file a.sizeRounded (stage.failure a)) []

/-- The counter skips 0, the cookie of no buffer. -/
def assignCookie (m : Mem) (a : Alloc) : Effect :=
  let cookie := m.nextCookie + 1
  .next { m with nextCookie := cookie }
    [if cookie = 0 then .assignCookie a else .allocNode a cookie] []

def allocNode (m : Mem) (a : Alloc) (cookie : BitVec 64) (good : Bool) : Effect :=
  if good then .next m [.insert a cookie] []
  else .next m (releaseQuota a.file a.sizeRounded .insufficientResources) []

def insertTail (m : Mem) (a : Alloc) (cookie : BitVec 64) : Effect :=
  let ctx := m.files a.file
  .next (m.setFile a.file { ctx with buffers := ctx.buffers ++ [⟨cookie, a.sizeRounded⟩] })
    [.finish .success] []

/-- The file-locked half of `RkMppBufReleaseQuota`. -/
def releaseFile (m : Mem) (f : Nat) (size : Nat) : Effect :=
  .next (m.setFile f ((m.files f).uncharge size)) [.releaseTotal size] []

def releaseTotal (m : Mem) (size : Nat) : Effect :=
  .next { m with totalAllocatedBytes := (m.totalAllocatedBytes + -size).bmod (2 ^ 64) } [] []

/-- One round of `RkMppBufFreeAll`: the head of the list goes, and its quota with it. -/
def freeAll (m : Mem) (f : Nat) : Effect :=
  let ctx := m.files f
  match ctx.buffers with
  | [] => .next m [.finish .success] []
  | b :: rest =>
    .next (m.setFile f { ctx with buffers := rest }) [.releaseFile f b.size, .freeAll f] []

def exec (m : Mem) (call : Frame) (good : Bool) : Option Effect :=
  match call with
  | .reserveFile a => some (reserveFile m a)
  | .readTotal a => some (readTotal m a)
  | .compareExchange a cur next => some (compareExchange m a cur next)
  | .rollback a => some (rollback m a)
  | .take a stage => some (takeResource m a stage good)
  | .assignCookie a => some (assignCookie m a)
  | .allocNode a cookie => some (allocNode m a cookie good)
  | .insert a cookie => some (insertTail m a cookie)
  | .releaseFile f size => some (releaseFile m f size)
  | .releaseTotal size => some (releaseTotal m size)
  | .freeAll f => some (freeAll m f)
  | .finish status => some (.next m [] [.returned status])

inductive Request where
  | openFile
  | alloc (f : Nat) (usage size : BitVec 32) (mapStatus : NtStatus)
  /-- `inUse` is what the callback answers; a caller without a callback always gets `false`. -/
  | freeIfNotInUse (f : Nat) (cookie : BitVec 64) (inUse : Bool)
  | freeAll (f : Nat)

/-- The part of `RkMppBufAlloc` before the quota. -/
def bufAlloc (m : Mem) (f : Nat) (usage size : BitVec 32) (mapStatus : NtStatus) :
    Mem × List Frame × List Event :=
  if bufUsageValid usage then
    match bufRoundSize size with
    | none => (m, [.finish .invalidParameter], [])
    | some sizeRounded => (m, [.reserveFile ⟨f, sizeRounded.toNat, mapStatus⟩], [])
  else (m, [.finish .invalidParameter], [])

/-- `RkMppBufFreeIfNotInUse`: callback and removal are one hold of the file lock. -/
def bufFreeIfNotInUse (m : Mem) (f : Nat) (cookie : BitVec 64) (inUse : Bool) :
    Mem × List Frame × List Event :=
  let ctx := m.files f
  if inUse then (m, [.finish .deviceBusy], [])
  else
    match ctx.buffers.find? fun b => b.cookie = cookie with
    | none => (m, [.finish .notFound], [])
    | some b =>
      (m.setFile f { ctx with buffers := ctx.buffers.erase b },
        releaseQuota f b.size .success, [])

def enter (m : Mem) : Request → Option (Mem × List Frame × List Event)
  | .openFile => some (m.openFile, [], [])
  | .alloc f usage size mapStatus =>
    if f < m.opened then some (bufAlloc m f usage size mapStatus) else none
  | .freeIfNotInUse f cookie inUse =>
    if f < m.opened then some (bufFreeIfNotInUse m f cookie inUse) else none
  | .freeAll f => if f < m.opened then some (m, [.freeAll f], []) else none

def machine : Lib.Machine Mem Frame Event Request := ⟨enter, exec⟩

abbrev Sys := Lib.Pool Mem Frame Event

def memInit : Mem := ⟨0, fun _ => bufFileCtxInit, 0, 1⟩

/-- The driver is loaded and no file is open. -/
def init : Sys := ⟨memInit, [], false, []⟩

abbrev Reachable (s : Sys) : Prop := Lib.Reaches machine Lib.Guard.any init s

end Rkvdec.Buf
