import Rkvdec.Buf.Bufpool
import Mathlib.Algebra.BigOperators.Intervals

/-! The quota books. What a file or the pool is charged is what its lists hold and what the calls
in progress have taken or have yet to give back. -/
namespace Rkvdec.Buf

open Lib

namespace FileCtx

def sizes (ctx : FileCtx) : Multiset Nat := ctx.buffers.map Buffer.size

/-- The counters of a file whose calls in progress hold `charges`. -/
structure Accounts (ctx : FileCtx) (charges : Multiset Nat) : Prop where
  bytes : ctx.allocatedBytes = (ctx.sizes + charges).sum
  count : ctx.bufferCount = (ctx.sizes + charges).card
  bytes_le : ctx.allocatedBytes ≤ maxFileBytes
  count_le : ctx.bufferCount ≤ maxFileBufferCount

variable {ctx : FileCtx} {charges : Multiset Nat} {size : Nat} {b : Buffer} {rest : List Buffer}

theorem accounts_init : bufFileCtxInit.Accounts 0 := by
  constructor <;> simp [bufFileCtxInit, sizes]

theorem Accounts.charge (h : ctx.Accounts charges) (hsize : size ≤ maxFileBytes)
    (hcount : ctx.bufferCount < maxFileBufferCount)
    (hbytes : ctx.allocatedBytes ≤ maxFileBytes - size) :
    (ctx.charge size).Accounts (size ::ₘ charges) := by
  have hfits : ctx.allocatedBytes + size ≤ maxFileBytes := by omega
  have hbytes' : (ctx.charge size).allocatedBytes = ctx.allocatedBytes + size :=
    Nat.mod_eq_of_lt (by unfold maxFileBytes at hfits; omega)
  have hcount' : (ctx.charge size).bufferCount = ctx.bufferCount + 1 :=
    Nat.mod_eq_of_lt (by unfold maxFileBufferCount at hcount; omega)
  have hheld : (ctx.charge size).sizes = ctx.sizes := rfl
  constructor
  · rw [hbytes', hheld, h.bytes, Multiset.add_cons, Multiset.sum_cons, add_comm]
  · rw [hcount', hheld, h.count, Multiset.add_cons, Multiset.card_cons]
  · omega
  · omega

/-- The saturating branches are never taken: what is given back was charged. -/
theorem Accounts.uncharge (h : ctx.Accounts (size ::ₘ charges)) :
    (ctx.uncharge size).Accounts charges := by
  have hheld : (ctx.uncharge size).sizes = ctx.sizes := rfl
  have hbytes : ctx.allocatedBytes = size + (ctx.sizes + charges).sum := by
    rw [h.bytes, Multiset.add_cons, Multiset.sum_cons]
  have hcount : ctx.bufferCount = (ctx.sizes + charges).card + 1 := by
    rw [h.count, Multiset.add_cons, Multiset.card_cons]
  have hle := h.bytes_le
  have hcap := h.count_le
  have hbytes' : (ctx.uncharge size).allocatedBytes = ctx.allocatedBytes - size :=
    if_pos (by omega)
  have hcount' : (ctx.uncharge size).bufferCount = ctx.bufferCount - 1 := if_pos (by omega)
  constructor
  · rw [hbytes', hheld]
    omega
  · rw [hcount', hheld]
    omega
  · omega
  · omega

/-- A size that moves between the list and the calls leaves the counters right. -/
theorem Accounts.move {buffers : List Buffer} {charges' : Multiset Nat} (h : ctx.Accounts charges)
    (hmove : (buffers.map Buffer.size : Multiset Nat) + charges' = ctx.sizes + charges) :
    ({ ctx with buffers := buffers } : FileCtx).Accounts charges' := by
  refine ⟨?_, ?_, h.bytes_le, h.count_le⟩
  · rw [sizes, hmove, h.bytes]
  · rw [sizes, hmove, h.count]

end FileCtx

namespace Frame

/-- What the call holds of the quota of file `f`. -/
def chargedTo (f : Nat) : Frame → List Nat
  | .readTotal a | .compareExchange a _ _ | .rollback a | .take a _ | .assignCookie a
  | .allocNode a _ | .insert a _ => if a.file = f then [a.sizeRounded] else []
  | .releaseFile g size => if g = f then [size] else []
  | .reserveFile _ | .releaseTotal _ | .freeAll _ | .finish _ => []

/-- What the call holds of the quota of all files. -/
def charged : Frame → List Nat
  | .take a _ | .assignCookie a | .allocNode a _ | .insert a _ => [a.sizeRounded]
  | .releaseFile _ size | .releaseTotal size => [size]
  | .reserveFile _ | .readTotal _ | .compareExchange _ _ _ | .rollback _ | .freeAll _
  | .finish _ => []

/-- The call is about an open file, of a size that passed `RkMppBufRoundSize`; a pending exchange
stays below the cap. -/
def Ok (opened : Nat) : Frame → Prop
  | .reserveFile a | .readTotal a | .rollback a | .take a _ | .assignCookie a | .allocNode a _
  | .insert a _ => a.file < opened ∧ a.sizeRounded ≤ maxBufferBytes.toNat
  | .compareExchange a cur next => a.file < opened ∧ a.sizeRounded ≤ maxBufferBytes.toNat ∧
      next = cur + a.sizeRounded ∧ next ≤ maxGlobalBytes
  | .releaseFile f _ | .freeAll f => f < opened
  | .releaseTotal _ | .finish _ => True

theorem chargedTo_releaseFile (f g size : Nat) :
    (releaseFile f size).chargedTo g = if f = g then [size] else [] := rfl

theorem charged_releaseFile (f size : Nat) : (releaseFile f size).charged = [size] := rfl

theorem Ok.mono {opened opened' : Nat} {call : Frame} (h : call.Ok opened)
    (hle : opened ≤ opened') : call.Ok opened' := by
  cases call <;> simp only [Ok] at h ⊢ <;> omega

/-- A file that is not open is charged nothing. -/
theorem Ok.chargedTo_opened {opened : Nat} {call : Frame} (h : call.Ok opened) :
    call.chargedTo opened = [] := by
  cases call <;> simp only [Ok] at h <;> simp only [chargedTo, ite_eq_right_iff] <;> omega

end Frame

namespace Mem

/-- The bytes of all buffer lists. -/
def listed (m : Mem) : Nat := ∑ f ∈ Finset.range m.opened, (m.files f).sizes.sum

/-- The shared counter, when the calls in progress hold `charges`. -/
structure Accounts (m : Mem) (charges : Multiset Nat) : Prop where
  total : m.totalAllocatedBytes = m.listed + charges.sum
  total_le : m.totalAllocatedBytes ≤ maxGlobalBytes

variable {m : Mem} {f : Nat} {ctx : FileCtx}

@[simp] theorem setFile_opened : (m.setFile f ctx).opened = m.opened := rfl

@[simp] theorem setFile_total :
    (m.setFile f ctx).totalAllocatedBytes = m.totalAllocatedBytes := rfl

@[simp] theorem openFile_files :
    m.openFile.files = Function.update m.files m.opened bufFileCtxInit := rfl

@[simp] theorem setFile_files : (m.setFile f ctx).files = Function.update m.files f ctx := rfl

/-- A file's list weighs into the sum over all lists by its own bytes. -/
theorem listed_setFile (ctx : FileCtx) (hf : f < m.opened) :
    (m.setFile f ctx).listed + (m.files f).sizes.sum = m.listed + ctx.sizes.sum := by
  have hmem : f ∈ Finset.range m.opened := Finset.mem_range.mpr hf
  have hrest : ∀ g ∈ (Finset.range m.opened).erase f,
      ((m.setFile f ctx).files g).sizes.sum = (m.files g).sizes.sum := by
    intro g hg
    rw [setFile_files, Function.update_of_ne (Finset.ne_of_mem_erase hg)]
  have hself : ((m.setFile f ctx).files f).sizes.sum = ctx.sizes.sum := by
    rw [setFile_files, Function.update_self]
  simp only [listed, setFile_opened]
  rw [← Finset.add_sum_erase _ _ hmem, ← Finset.add_sum_erase _ (fun g => (m.files g).sizes.sum)
    hmem, Finset.sum_congr rfl hrest, hself]
  omega

end Mem

/-- The books of the pool with the pending calls `F`. -/
structure Inv (m : Mem) (F : Multiset Frame) : Prop where
  files : ∀ f < m.opened, (m.files f).Accounts (gather (Frame.chargedTo f) F)
  total : m.Accounts (gather Frame.charged F)
  calls : ∀ call ∈ F, call.Ok m.opened

variable {m m' : Mem} {F : Multiset Frame} {call : Frame} {calls : List Frame}
  {events : List Event} {good : Bool} {r : Request}

theorem inv_init : Inv memInit 0 where
  files := fun f hf => absurd hf (Nat.not_lt_zero f)
  total := ⟨by simp [memInit, Mem.listed], by simp [memInit, maxGlobalBytes]⟩
  calls := by simp

/-- A call that has only to return holds nothing. -/
theorem Inv.finish (h : Inv m F) (status : NtStatus) : Inv m (.finish status ::ₘ F) where
  files := by simpa [Frame.chargedTo] using h.files
  total := by simpa [Frame.charged] using h.total
  calls := by simpa [Frame.Ok] using h.calls

/-- What a section has to show: the books of its own call, before and after. -/
theorem Inv.step (h : Inv m (call ::ₘ F)) (hopened : m'.opened = m.opened)
    (hfiles : ∀ f < m.opened, ∀ C : Multiset Nat,
      (m.files f).Accounts (↑(call.chargedTo f) + C) →
      (m'.files f).Accounts (↑(calls.flatMap (Frame.chargedTo f)) + C))
    (htotal : ∀ C : Multiset Nat, m.Accounts (↑call.charged + C) →
      m'.Accounts (↑(calls.flatMap Frame.charged) + C))
    (hcalls : call.Ok m.opened → ∀ c ∈ calls, c.Ok m.opened) : Inv m' (↑calls + F) where
  files := by
    intro f hf
    rw [hopened] at hf
    rw [gather_coe_add]
    exact hfiles f hf _ (by simpa using h.files f hf)
  total := by
    rw [gather_coe_add]
    exact htotal _ (by simpa using h.total)
  calls := by
    intro c hc
    rw [hopened]
    rcases Multiset.mem_add.mp hc with hc | hc
    · exact hcalls (h.calls call (Multiset.mem_cons_self _ _)) c (by simpa using hc)
    · exact h.calls c (Multiset.mem_cons_of_mem hc)

/-- A section that touches no counter and passes its charges on. -/
theorem Inv.pass (h : Inv m (call ::ₘ F)) (hopened : m'.opened = m.opened)
    (hfiles : m'.files = m.files) (htotal : m'.totalAllocatedBytes = m.totalAllocatedBytes)
    (hto : ∀ f, calls.flatMap (Frame.chargedTo f) = call.chargedTo f)
    (hcharged : calls.flatMap Frame.charged = call.charged)
    (hcalls : call.Ok m.opened → ∀ c ∈ calls, c.Ok m.opened) : Inv m' (↑calls + F) := by
  refine h.step hopened ?_ ?_ hcalls
  · intro f _ C hC
    rwa [hfiles, hto]
  · intro C hC
    refine ⟨?_, htotal ▸ hC.total_le⟩
    rw [htotal, hcharged, hC.total, Mem.listed, Mem.listed, hopened, hfiles]

/-- A section under the lock of file `f`. What leaves the list of the file, the calls hold. -/
theorem Inv.locked {f : Nat} {ctx : FileCtx} (h : Inv m (call ::ₘ F)) (hf : f < m.opened)
    (hothers : ∀ g, f ≠ g → calls.flatMap (Frame.chargedTo g) = call.chargedTo g)
    (hfile : ∀ C : Multiset Nat, (m.files f).Accounts (↑(call.chargedTo f) + C) →
      ctx.Accounts (↑(calls.flatMap (Frame.chargedTo f)) + C))
    (hcharged : ctx.sizes.sum + (calls.flatMap Frame.charged).sum =
      (m.files f).sizes.sum + call.charged.sum)
    (hcalls : call.Ok m.opened → ∀ c ∈ calls, c.Ok m.opened) :
    Inv (m.setFile f ctx) (↑calls + F) := by
  refine h.step rfl ?_ ?_ hcalls
  · intro g _ C hC
    by_cases hg : f = g
    · subst hg
      simpa using hfile C hC
    · rw [Mem.setFile_files, Function.update_of_ne (Ne.symm hg), hothers g hg]
      exact hC
  · intro C hC
    refine ⟨?_, hC.total_le⟩
    have hsum := hC.total
    have hlisted := Mem.listed_setFile ctx hf
    simp only [Multiset.sum_add, Multiset.sum_coe] at hsum ⊢
    rw [Mem.setFile_total, hsum]
    omega

section Sections

variable {a : Alloc} {f size : Nat} {cookie : BitVec 64} {cur next : Int} {stage : Stage}

theorem Inv.reserveFile (h : Inv m (.reserveFile a ::ₘ F))
    (hexec : reserveFile m a = .next m' calls events) : Inv m' (↑calls + F) := by
  have hok := h.calls _ (Multiset.mem_cons_self _ _)
  simp only [Buf.reserveFile] at hexec
  split at hexec
  · cases hexec
    exact h.pass rfl rfl rfl (by simp [Frame.chargedTo]) rfl (by simp [Frame.Ok])
  · rename_i hsize
    split at hexec
    · cases hexec
      exact h.pass rfl rfl rfl (by simp [Frame.chargedTo]) rfl (by simp [Frame.Ok])
    · rename_i hroom
      push Not at hroom
      cases hexec
      refine h.locked hok.1 (by simp [Frame.chargedTo]) ?_ rfl (by simp [Frame.Ok])
      intro C hC
      simpa [Frame.chargedTo] using hC.charge (Nat.not_lt.mp hsize) hroom.1 hroom.2

/-- The value read is within the cap, so `next` does not wrap. -/
theorem Inv.readTotal (h : Inv m (.readTotal a ::ₘ F))
    (hexec : readTotal m a = .next m' calls events) : Inv m' (↑calls + F) := by
  have hok := h.calls _ (Multiset.mem_cons_self _ _)
  have hnonneg : 0 ≤ m.totalAllocatedBytes := by
    rw [h.total.total]
    omega
  have hcap := h.total.total_le
  have hsize : a.sizeRounded ≤ 128 * 1024 * 1024 := hok.2
  have hnext : (m.totalAllocatedBytes + a.sizeRounded).bmod (2 ^ 64) =
      m.totalAllocatedBytes + a.sizeRounded := by
    unfold maxGlobalBytes at hcap
    apply Int.bmod_eq_of_le <;> omega
  simp only [Buf.readTotal, hnext] at hexec
  split at hexec
  · cases hexec
    exact h.pass rfl rfl rfl (by simp [Frame.chargedTo]) rfl (by simp [Frame.Ok])
  · rename_i hle
    cases hexec
    refine h.pass rfl rfl rfl (by simp [Frame.chargedTo]) rfl ?_
    rintro - c hc
    obtain rfl := List.mem_singleton.mp hc
    exact ⟨hok.1, hok.2, rfl, Int.not_lt.mp hle⟩

/-- An exchange that succeeds finds the value it was computed from, whatever happened between. -/
theorem Inv.compareExchange (h : Inv m (.compareExchange a cur next ::ₘ F))
    (hexec : compareExchange m a cur next = .next m' calls events) : Inv m' (↑calls + F) := by
  have hok := h.calls _ (Multiset.mem_cons_self _ _)
  simp only [Buf.compareExchange] at hexec
  split at hexec
  · rename_i hcur
    cases hexec
    refine h.step rfl ?_ ?_ ?_
    · simp [Frame.chargedTo]
    · intro C hC
      refine ⟨?_, hok.2.2.2⟩
      have hsum : m.totalAllocatedBytes = m.listed + C.sum := by
        simpa [Frame.charged] using hC.total
      have hnext := hok.2.2.1
      change next = m.listed + (↑[a.sizeRounded] + C).sum
      rw [Multiset.sum_add, Multiset.sum_coe, List.sum_singleton]
      omega
    · simp [Frame.Ok, hok.1, hok.2.1]
  · cases hexec
    refine h.pass rfl rfl rfl (by simp [Frame.chargedTo]) rfl ?_
    simp [Frame.Ok, hok.1, hok.2.1]

theorem Inv.rollback (h : Inv m (.rollback a ::ₘ F))
    (hexec : rollback m a = .next m' calls events) : Inv m' (↑calls + F) := by
  have hok := h.calls _ (Multiset.mem_cons_self _ _)
  cases hexec
  refine h.locked hok.1 ?_ ?_ rfl (by simp [Frame.Ok])
  · intro g hg
    simp [Frame.chargedTo, hg]
  · intro C hC
    exact FileCtx.Accounts.uncharge (by simpa [Frame.chargedTo] using hC)

/-- Every exit of a failed allocation passes on the one charge it holds. -/
theorem Inv.takeResource (h : Inv m (.take a stage ::ₘ F))
    (hexec : takeResource m a stage good = .next m' calls events) : Inv m' (↑calls + F) := by
  simp only [Buf.takeResource] at hexec
  split at hexec
  · cases hexec
    cases stage <;> exact h.pass rfl rfl rfl (by simp [Stage.next, Frame.chargedTo]) rfl
      (by simp [Stage.next, Frame.Ok])
  · cases hexec
    refine h.pass rfl rfl rfl (by simp [releaseQuota, Frame.chargedTo]) rfl ?_
    simp +contextual [releaseQuota, Frame.Ok]

theorem Inv.assignCookie (h : Inv m (.assignCookie a ::ₘ F))
    (hexec : assignCookie m a = .next m' calls events) : Inv m' (↑calls + F) := by
  simp only [Buf.assignCookie] at hexec
  cases hexec
  split
  · exact h.pass rfl rfl rfl (by simp [Frame.chargedTo]) rfl (by simp [Frame.Ok])
  · exact h.pass rfl rfl rfl (by simp [Frame.chargedTo]) rfl (by simp [Frame.Ok])

theorem Inv.allocNode (h : Inv m (.allocNode a cookie ::ₘ F))
    (hexec : allocNode m a cookie good = .next m' calls events) : Inv m' (↑calls + F) := by
  simp only [Buf.allocNode] at hexec
  split at hexec
  · cases hexec
    exact h.pass rfl rfl rfl (by simp [Frame.chargedTo]) rfl (by simp [Frame.Ok])
  · cases hexec
    refine h.pass rfl rfl rfl (by simp [releaseQuota, Frame.chargedTo]) rfl ?_
    simp +contextual [releaseQuota, Frame.Ok]

theorem Inv.insertTail (h : Inv m (.insert a cookie ::ₘ F))
    (hexec : insertTail m a cookie = .next m' calls events) : Inv m' (↑calls + F) := by
  have hok := h.calls _ (Multiset.mem_cons_self _ _)
  cases hexec
  refine h.locked hok.1 ?_ ?_ ?_ (by simp [Frame.Ok])
  · intro g hg
    simp [Frame.chargedTo, hg]
  · intro C hC
    refine hC.move ?_
    simp [Frame.chargedTo, FileCtx.sizes, ← Multiset.coe_add, add_assoc]
  · simp [Frame.charged, FileCtx.sizes]

theorem Inv.releaseFile (h : Inv m (.releaseFile f size ::ₘ F))
    (hexec : releaseFile m f size = .next m' calls events) : Inv m' (↑calls + F) := by
  have hok := h.calls _ (Multiset.mem_cons_self _ _)
  cases hexec
  refine h.locked hok ?_ ?_ rfl (by simp [Frame.Ok])
  · intro g hg
    simp [Frame.chargedTo, hg]
  · intro C hC
    exact FileCtx.Accounts.uncharge (by simpa [Frame.chargedTo] using hC)

theorem Inv.releaseTotal (h : Inv m (.releaseTotal size ::ₘ F))
    (hexec : releaseTotal m size = .next m' calls events) : Inv m' (↑calls + F) := by
  cases hexec
  refine h.step rfl ?_ ?_ (by simp)
  · simp [Frame.chargedTo]
  · intro C hC
    have hsum := hC.total
    have hcap := hC.total_le
    simp only [Frame.charged, Multiset.sum_add, Multiset.sum_coe, List.sum_singleton] at hsum
    have hwrap : (m.totalAllocatedBytes + -size).bmod (2 ^ 64) = m.totalAllocatedBytes + -size := by
      unfold maxGlobalBytes at hcap
      apply Int.bmod_eq_of_le <;> omega
    constructor
    · change (m.totalAllocatedBytes + -size).bmod (2 ^ 64) = m.listed + (↑([] : List Nat) + C).sum
      rw [hwrap, Multiset.coe_nil, zero_add]
      omega
    · change (m.totalAllocatedBytes + -size).bmod (2 ^ 64) ≤ maxGlobalBytes
      omega

/-- Taking a buffer off the list of `f` leaves its charge with the call. -/
theorem Inv.remove {b : Buffer} {buffers : List Buffer} {last : Frame} (h : Inv m (call ::ₘ F))
    (hf : f < m.opened) (hperm : (m.files f).buffers.Perm (b :: buffers))
    (hcall : ∀ g, call.chargedTo g = []) (hcall' : call.charged = [])
    (hlast : ∀ g, last.chargedTo g = []) (hlast' : last.charged = []) (hok : last.Ok m.opened) :
    Inv (m.setFile f { m.files f with buffers := buffers })
      (↑[Frame.releaseFile f b.size, last] + F) := by
  have hsizes : (m.files f).sizes = b.size ::ₘ (buffers.map Buffer.size : Multiset Nat) :=
    Multiset.coe_eq_coe.mpr (hperm.map Buffer.size)
  refine h.locked hf ?_ ?_ ?_ ?_
  · intro g hg
    simp [Frame.chargedTo_releaseFile, hg, hcall, hlast]
  · intro C hC
    refine hC.move ?_
    simp [Frame.chargedTo_releaseFile, hcall, hlast, hsizes, ← Multiset.cons_coe]
  · rw [hsizes]
    simp [FileCtx.sizes, Frame.charged_releaseFile, hcall', hlast', add_comm]
  · rintro - c hc
    obtain rfl | rfl : c = .releaseFile f b.size ∨ c = last := by simpa using hc
    · exact hf
    · exact hok

theorem Inv.freeAll (h : Inv m (.freeAll f ::ₘ F))
    (hexec : freeAll m f = .next m' calls events) : Inv m' (↑calls + F) := by
  have hok := h.calls _ (Multiset.mem_cons_self _ _)
  simp only [Buf.freeAll] at hexec
  split at hexec
  · cases hexec
    exact h.pass rfl rfl rfl (by simp [Frame.chargedTo]) rfl (by simp [Frame.Ok])
  · rename_i b rest hbuffers
    cases hexec
    exact h.remove hok (.of_eq hbuffers) (fun _ => rfl) rfl (fun _ => rfl) rfl hok

end Sections

theorem inv_exec (h : Inv m (call ::ₘ F))
    (hexec : exec m call good = some (.next m' calls events)) :
    Inv m' (↑calls + F) := by
  cases call with
  | reserveFile a => exact h.reserveFile (Option.some.inj hexec)
  | readTotal a => exact h.readTotal (Option.some.inj hexec)
  | compareExchange a cur next => exact h.compareExchange (Option.some.inj hexec)
  | rollback a => exact h.rollback (Option.some.inj hexec)
  | take a stage => exact h.takeResource (Option.some.inj hexec)
  | assignCookie a => exact h.assignCookie (Option.some.inj hexec)
  | allocNode a cookie => exact h.allocNode (Option.some.inj hexec)
  | insert a cookie => exact h.insertTail (Option.some.inj hexec)
  | releaseFile f size => exact h.releaseFile (Option.some.inj hexec)
  | releaseTotal size => exact h.releaseTotal (Option.some.inj hexec)
  | freeAll f => exact h.freeAll (Option.some.inj hexec)
  | finish status =>
    cases hexec
    exact h.pass rfl rfl rfl (by simp [Frame.chargedTo]) rfl (by simp)

section Requests

variable {f : Nat} {usage size : BitVec 32} {mapStatus : NtStatus} {cookie : BitVec 64}
  {inUse : Bool}

theorem bufRoundSize_le {rounded : BitVec 32} (h : bufRoundSize size = some rounded) :
    rounded.toNat ≤ maxBufferBytes.toNat := by
  simp only [bufRoundSize] at h
  split at h
  · simp at h
  · split at h
    · simp at h
    · split at h
      · simp at h
      · rename_i hok
        push Not at hok
        obtain rfl := Option.some.inj h
        exact Nat.not_lt.mp hok.2

/-- A context is set up for a file no call is about. -/
theorem Inv.openFile (h : Inv m F) : Inv m.openFile F where
  files := by
    intro f hf
    by_cases hnew : f = m.opened
    · subst hnew
      have hnone : gather (Frame.chargedTo m.opened) F = 0 := by
        refine Multiset.eq_zero_of_forall_notMem fun size hsize => ?_
        obtain ⟨call, hcall, hmem⟩ := mem_gather.mp hsize
        rw [(h.calls call hcall).chargedTo_opened] at hmem
        exact List.not_mem_nil hmem
      rw [hnone, Mem.openFile_files, Function.update_self]
      exact FileCtx.accounts_init
    · have hlt : f < m.opened := by
        change f < m.opened + 1 at hf
        omega
      rw [Mem.openFile_files, Function.update_of_ne hnew]
      exact h.files f hlt
  total := by
    refine ⟨?_, h.total.total_le⟩
    have hold : ∀ f ∈ Finset.range m.opened,
        (Function.update m.files m.opened bufFileCtxInit f).sizes.sum = (m.files f).sizes.sum := by
      intro f hf
      rw [Function.update_of_ne (Finset.mem_range.mp hf).ne]
    have hlisted : m.openFile.listed = m.listed := by
      change ∑ f ∈ Finset.range (m.opened + 1), (m.openFile.files f).sizes.sum = m.listed
      rw [Finset.sum_range_succ, Mem.openFile_files, Finset.sum_congr rfl hold,
        Function.update_self]
      simp [bufFileCtxInit, FileCtx.sizes, Mem.listed]
    rw [hlisted]
    exact h.total.total
  calls := fun call hcall => (h.calls call hcall).mono (Nat.le_succ _)

theorem Inv.bufAlloc (h : Inv m F) (hf : f < m.opened)
    (henter : bufAlloc m f usage size mapStatus = (m', calls, events)) : Inv m' (↑calls + F) := by
  simp only [Buf.bufAlloc] at henter
  split at henter
  · split at henter
    · cases henter
      exact h.finish _
    · rename_i rounded hrounded
      cases henter
      refine (h.finish .success).pass rfl rfl rfl (by simp [Frame.chargedTo]) rfl ?_
      simp [Frame.Ok, hf, bufRoundSize_le hrounded]
  · cases henter
    exact h.finish _

theorem Inv.bufFreeIfNotInUse (h : Inv m F) (hf : f < m.opened)
    (henter : bufFreeIfNotInUse m f cookie inUse = (m', calls, events)) :
    Inv m' (↑calls + F) := by
  simp only [Buf.bufFreeIfNotInUse] at henter
  split at henter
  · cases henter
    exact h.finish _
  · split at henter
    · cases henter
      exact h.finish _
    · rename_i b hfind
      cases henter
      have hperm := List.perm_cons_erase (List.mem_of_find?_eq_some hfind)
      exact (h.finish .success).remove hf hperm (fun _ => rfl) rfl (fun _ => rfl) rfl trivial

theorem inv_enter (h : Inv m F) (henter : enter m r = some (m', calls, events)) :
    Inv m' (↑calls + F) := by
  cases r with
  | openFile =>
    cases henter
    simpa using h.openFile
  | alloc f usage size mapStatus =>
    simp only [enter, Option.ite_none_right_eq_some] at henter
    exact h.bufAlloc henter.1 (Option.some.inj henter.2)
  | freeIfNotInUse f cookie inUse =>
    simp only [enter, Option.ite_none_right_eq_some] at henter
    exact h.bufFreeIfNotInUse henter.1 (Option.some.inj henter.2)
  | freeAll f =>
    simp only [enter, Option.ite_none_right_eq_some] at henter
    obtain ⟨hf, henter⟩ := henter
    cases henter
    refine (h.finish .success).pass rfl rfl rfl (by simp [Frame.chargedTo]) rfl ?_
    simpa [Frame.Ok] using hf

end Requests

theorem inv_reachable {s : Sys} (h : Reachable s) : Inv s.mem s.calls :=
  h.invariant (I := fun _ _ _ => True) (J := fun m F _ => Inv m F) (fun _ _ => trivial) inv_init
    (fun _ _ _ _ _ _ _ _ h _ henter => inv_enter h henter)
    (fun _ _ _ _ _ _ _ _ _ h _ hexec => inv_exec h hexec)

/-- No cap is exceeded at any moment, and whenever no call is in progress each file is charged its
buffer list and the pool is charged all files. -/
theorem quota_accounts {s : Sys} (h : Reachable s) :
    (∀ f < s.mem.opened, (s.mem.files f).allocatedBytes ≤ maxFileBytes ∧
      (s.mem.files f).bufferCount ≤ maxFileBufferCount) ∧
    s.mem.totalAllocatedBytes ≤ maxGlobalBytes ∧
    (s.calls = 0 →
      (∀ f < s.mem.opened,
        (s.mem.files f).allocatedBytes = ((s.mem.files f).buffers.map Buffer.size).sum ∧
        (s.mem.files f).bufferCount = (s.mem.files f).buffers.length) ∧
      s.mem.totalAllocatedBytes =
        ∑ f ∈ Finset.range s.mem.opened, ((s.mem.files f).allocatedBytes : Int)) := by
  have hinv := inv_reachable h
  refine ⟨fun f hf => ⟨(hinv.files f hf).bytes_le, (hinv.files f hf).count_le⟩,
    hinv.total.total_le, ?_⟩
  intro hidle
  have hfiles : ∀ f < s.mem.opened, (s.mem.files f).Accounts 0 := by
    intro f hf
    simpa [hidle] using hinv.files f hf
  have hbytes : ∀ f < s.mem.opened,
      (s.mem.files f).allocatedBytes = ((s.mem.files f).buffers.map Buffer.size).sum := by
    intro f hf
    simpa [FileCtx.sizes] using (hfiles f hf).bytes
  refine ⟨fun f hf => ⟨hbytes f hf, ?_⟩, ?_⟩
  · simpa [FileCtx.sizes] using (hfiles f hf).count
  · have htotal := hinv.total.total
    rw [hidle, gather_zero, Multiset.sum_zero] at htotal
    have hlisted : s.mem.listed = ∑ f ∈ Finset.range s.mem.opened,
        (s.mem.files f).allocatedBytes := by
      refine Finset.sum_congr rfl fun f hf => ?_
      rw [hbytes f (Finset.mem_range.mp hf), FileCtx.sizes, Multiset.sum_coe]
    rw [htotal, hlisted]
    simp

/-- Two files reserve at once: the exchange of the second loses against that of the first, it
reserves again, and then finds no memory. -/
abbrev racing : List (Lib.Action Request) :=
  [.enter .openFile, .enter .openFile,
    .enter (.alloc 0 1 5000 .insufficientResources),
    .enter (.alloc 1 4 4096 .insufficientResources)] ++
  [.run 2 true, .run 3 true, .run 2 true, .run 3 true, .run 2 true] ++
  List.replicate 3 (.run 3 true) ++ List.replicate 9 (.run 2 true) ++
  List.replicate 4 (.run 3 false)

theorem racing_runs : (machine.run init racing).isSome = true := by decide +kernel

/-- The state it ends in. -/
abbrev raced : Sys := (machine.run init racing).get racing_runs

theorem raced_idle : raced.calls = 0 := by
  have hempty : raced.threads.flatten.isEmpty = true := by decide +kernel
  rw [Pool.calls, List.isEmpty_iff.mp hempty, Multiset.coe_nil]

theorem quota_accounts_raced :
    ((raced.mem.files 0).buffers.map Buffer.size).sum = 8192 ∧
    (raced.mem.files 0).allocatedBytes = ((raced.mem.files 0).buffers.map Buffer.size).sum ∧
    raced.mem.totalAllocatedBytes =
      ∑ f ∈ Finset.range raced.mem.opened, ((raced.mem.files f).allocatedBytes : Int) := by
  have hidle := (quota_accounts (.of_get racing_runs (by decide +kernel))).2.2 raced_idle
  exact ⟨by decide +kernel, (hidle.1 0 (by decide +kernel)).1, hidle.2⟩

end Rkvdec.Buf
