import Rkvdec.Dispatch.Effects

/-! Where the jobs are. Every job is on one list of one queue, in one slot, or held by one thread
that is about to link or to free it. -/
namespace Rkvdec.Dispatch

open Lib Kernel

namespace Frame

/-- The jobs off every list that the call is about to link or to free. -/
def owns : Frame → List Ptr
  | .submitEnqueue _ p => [p]
  | .takeResult p => [p]
  | .release jobs => jobs.map Prod.fst
  | _ => []

/-- The jobs promoted to the peer that the call has yet to hand over. -/
def loose : Frame → List Ptr
  | .kickPromotions _ promos => (promos.filter fun pr => pr.core ≠ 0).map Promotion.job
  | .rollback _ p _ _ => [p]
  | _ => []

end Frame

abbrev owned (F : Multiset Frame) : Multiset Ptr := gather Frame.owns F
abbrev loose (F : Multiset Frame) : Multiset Ptr := gather Frame.loose F

namespace Queue

/-- The jobs of a queue but for the one its peer runs. -/
def listed (q : Queue) : Multiset Ptr :=
  (q.pending : Multiset Ptr) + q.completed + (q.inFlight 0).toList

def peerSlot (q : Queue) : Multiset Ptr := (q.inFlight 1).toList

end Queue

namespace Kernel

def listed (k : Kernel) : Multiset Ptr := (k.queue .rvd0).listed + (k.queue .rvd1).listed

def peerSlot (k : Kernel) : Multiset Ptr := (k.queue .rvd0).peerSlot

/-- What changes the jobs of one queue changes those of both by as much. -/
theorem listed_setQueue {k : Kernel} {d : Dev} {g : Queue → Queue} {A B : Multiset Ptr}
    (h : (g (k.queue d)).listed + A = (k.queue d).listed + B) :
    (k.setQueue d g).listed + A = k.listed + B := by
  cases d with
  | rvd0 =>
    simp only [listed, setQueue_queue, Function.update_self, ne_eq, reduceCtorEq,
      not_false_eq_true, Function.update_of_ne]
    rw [add_right_comm, h, add_right_comm]
  | rvd1 =>
    simp only [listed, setQueue_queue, Function.update_self, ne_eq, reduceCtorEq,
      not_false_eq_true, Function.update_of_ne]
    rw [add_assoc, h, ← add_assoc]

theorem listed_setQueue_eq {k : Kernel} {d : Dev} {g : Queue → Queue}
    (h : (g (k.queue d)).listed = (k.queue d).listed) : (k.setQueue d g).listed = k.listed := by
  simpa using listed_setQueue (A := 0) (B := 0) (by simpa using h)

@[simp] theorem listed_setJob (k : Kernel) (p : Ptr) (g : Job → Job) :
    (k.setJob p g).listed = k.listed := rfl

@[simp] theorem listed_alloc (k : Kernel) (job : Job) : (k.alloc job).listed = k.listed := rfl

@[simp] theorem listed_free (k : Kernel) (p : Ptr) : (k.free p).listed = k.listed := rfl

@[simp] theorem listed_setFileLock (k : Kernel) (f : File) (held : Bool) :
    (k.setFileLock f held).listed = k.listed := rfl

theorem peerSlot_setQueue {k : Kernel} {d : Dev} {g : Queue → Queue}
    (h : (g (k.queue d)).inFlight 1 = (k.queue d).inFlight 1) :
    (k.setQueue d g).peerSlot = k.peerSlot := by
  cases d with
  | rvd0 => simp [peerSlot, Queue.peerSlot, h]
  | rvd1 => simp [peerSlot, Queue.peerSlot]

end Kernel

/-- The jobs accounted for: on a list, in the slot of the device's own core, or with a thread. -/
def core (k : Kernel) (F : Multiset Frame) : Multiset Ptr := k.listed + owned F

/-- No job is accounted for twice. A job the peer runs is in the peer slot, and in the hands of the
thread that promoted it until that thread has handed it over. -/
structure Ledger (k : Kernel) (F : Multiset Frame) : Prop where
  slot : (core k F + k.peerSlot).Nodup
  promo : (core k F + loose F).Nodup
  alive : ∀ p ∈ core k F + k.peerSlot + loose F, k.alive p = true
  bound : ∀ p, k.alive p = true → p < k.nextPtr

namespace Ledger

variable {k k' : Kernel} {F F' : Multiset Frame} {p : Ptr}

/-- Moving jobs between places, or losing some, keeps the ledger. -/
theorem of_le (h : Ledger k F) (hslot : core k' F' + k'.peerSlot ≤ core k F + k.peerSlot)
    (hpromo : core k' F' + loose F' ≤ core k F + loose F) (halive : k'.alive = k.alive)
    (hnext : k'.nextPtr = k.nextPtr) : Ledger k' F' where
  slot := Multiset.nodup_of_le hslot h.slot
  promo := Multiset.nodup_of_le hpromo h.promo
  alive q hq := by
    have hold : q ∈ core k F + k.peerSlot + loose F := by
      rcases Multiset.mem_add.mp hq with hq | hq
      · exact Multiset.mem_add.mpr (.inl (Multiset.mem_of_le hslot hq))
      · rcases Multiset.mem_add.mp (Multiset.mem_of_le hpromo (Multiset.mem_add.mpr (.inr hq)))
          with hq | hq
        · exact Multiset.mem_add.mpr (.inl (Multiset.mem_add.mpr (.inl hq)))
        · exact Multiset.mem_add.mpr (.inr hq)
    rw [halive]
    exact h.alive q hold
  bound q hq := by
    rw [halive] at hq
    rw [hnext]
    exact h.bound q hq

/-- Steps that move nothing. -/
theorem congr (h : Ledger k F) (hlisted : k'.listed = k.listed) (hpeer : k'.peerSlot = k.peerSlot)
    (howned : owned F' = owned F) (hloose : loose F' = loose F) (halive : k'.alive = k.alive)
    (hnext : k'.nextPtr = k.nextPtr) : Ledger k' F' :=
  h.of_le (by simp [core, *]) (by simp [core, *]) halive hnext

theorem alive_of_core (h : Ledger k F) (hp : p ∈ core k F) : k.alive p = true :=
  h.alive p (by simp [hp])

theorem alive_of_peerSlot (h : Ledger k F) (hp : p ∈ k.peerSlot) : k.alive p = true :=
  h.alive p (by simp [hp])

theorem alive_of_loose (h : Ledger k F) (hp : p ∈ loose F) : k.alive p = true :=
  h.alive p (by simp [hp])

/-- A fresh job belongs to the thread that allocated it. -/
theorem alloc (h : Ledger k F)
    (hcore : core k' F' = k.nextPtr ::ₘ core k F) (hpeer : k'.peerSlot = k.peerSlot)
    (hloose : loose F' = loose F) (halive : k'.alive = Function.update k.alive k.nextPtr true)
    (hnext : k'.nextPtr = k.nextPtr + 1) : Ledger k' F' := by
  have hfresh : ∀ q ∈ core k F + k.peerSlot + loose F, q ≠ k.nextPtr := fun q hq =>
    (h.bound q (h.alive q hq)).ne
  refine ⟨?_, ?_, ?_, ?_⟩
  · rw [hcore, hpeer, Multiset.cons_add, Multiset.nodup_cons]
    refine ⟨fun hmem => hfresh _ ?_ rfl, h.slot⟩
    exact Multiset.mem_add.mpr (.inl hmem)
  · rw [hcore, hloose, Multiset.cons_add, Multiset.nodup_cons]
    refine ⟨fun hmem => hfresh k.nextPtr ?_ rfl, h.promo⟩
    rcases Multiset.mem_add.mp hmem with hmem | hmem <;> simp [hmem]
  · intro q hq
    rw [halive]
    by_cases heq : q = k.nextPtr
    · simp [heq]
    · rw [Function.update_of_ne heq]
      apply h.alive
      rw [hcore, hpeer, hloose] at hq
      simpa [heq] using hq
  · intro q hq
    rw [halive] at hq
    rw [hnext]
    by_cases heq : q = k.nextPtr
    · exact heq ▸ Nat.lt_succ_self _
    · rw [Function.update_of_ne heq] at hq
      exact Nat.lt_succ_of_lt (h.bound q hq)

/-- A job a thread frees leaves the ledger. -/
theorem free (h : Ledger k F) (hcore : core k F = p ::ₘ core k' F')
    (hpeer : k'.peerSlot = k.peerSlot) (hloose : loose F' = loose F)
    (halive : k'.alive = Function.update k.alive p false) (hnext : k'.nextPtr = k.nextPtr) :
    Ledger k' F' := by
  have hslot := h.slot
  have hpromo := h.promo
  rw [hcore, Multiset.cons_add, Multiset.nodup_cons] at hslot hpromo
  refine ⟨by rw [hpeer]; exact hslot.2, by rw [hloose]; exact hpromo.2, ?_, ?_⟩
  · intro q hq
    rw [hpeer, hloose] at hq
    have hne : q ≠ p := by
      rintro rfl
      simp only [Multiset.mem_add] at hq hslot hpromo
      rcases hq with (hq | hq) | hq <;> simp_all
    rw [halive, Function.update_of_ne hne]
    apply h.alive
    rw [hcore]
    simp only [Multiset.mem_add, Multiset.mem_cons] at hq ⊢
    rcases hq with (hq | hq) | hq <;> simp [hq]
  · intro q hq
    rw [halive] at hq
    rw [hnext]
    by_cases heq : q = p
    · simp [heq] at hq
    · rw [Function.update_of_ne heq] at hq
      exact h.bound q hq

/-- The peer's job is completed. -/
theorem complete_peer (h : Ledger k F) (hslot : k.peerSlot = {p}) (hp : p ∉ loose F)
    (hcore : core k' F' = p ::ₘ core k F) (hpeer : k'.peerSlot = 0)
    (hloose : loose F' = loose F) (halive : k'.alive = k.alive) (hnext : k'.nextPtr = k.nextPtr) :
    Ledger k' F' := by
  have hN := h.slot
  rw [hslot, add_comm, Multiset.singleton_add] at hN
  refine ⟨by rw [hcore, hpeer, add_zero]; exact hN, ?_, ?_, ?_⟩
  · rw [hcore, hloose, Multiset.cons_add, Multiset.nodup_cons]
    refine ⟨?_, h.promo⟩
    simp only [Multiset.mem_add, not_or]
    exact ⟨(Multiset.nodup_cons.mp hN).1, hp⟩
  · intro q hq
    rw [halive]
    apply h.alive
    rw [hcore, hpeer, hloose] at hq
    rw [hslot]
    simp only [Multiset.mem_add, Multiset.mem_cons, Multiset.mem_singleton] at hq ⊢
    rcases hq with ((rfl | hq) | hq) | hq <;> simp_all
  · rw [halive, hnext]
    exact h.bound

/-- A refused job goes to `Completed`, whether or not the peer slot still holds it. -/
theorem complete_loose (h : Ledger k F) (hloose : loose F = p ::ₘ loose F')
    (hcore : core k' F' = p ::ₘ core k F) (hpeer : k'.peerSlot ≤ k.peerSlot)
    (hp : p ∉ k'.peerSlot) (halive : k'.alive = k.alive) (hnext : k'.nextPtr = k.nextPtr) :
    Ledger k' F' := by
  have hN := h.promo
  rw [hloose, Multiset.add_cons, Multiset.nodup_cons] at hN
  refine ⟨?_, ?_, ?_, ?_⟩
  · rw [hcore, Multiset.cons_add, Multiset.nodup_cons]
    refine ⟨?_, Multiset.nodup_of_le (add_le_add_right hpeer _) h.slot⟩
    simp only [Multiset.mem_add, not_or] at hN ⊢
    exact ⟨hN.1.1, hp⟩
  · rw [hcore, Multiset.cons_add, Multiset.nodup_cons]
    exact hN
  · intro q hq
    rw [halive]
    apply h.alive
    rw [hcore] at hq
    rw [hloose]
    simp only [Multiset.mem_add, Multiset.mem_cons] at hq ⊢
    rcases hq with ((rfl | hq) | hq) | hq
    · simp
    · simp [hq]
    · simp [Multiset.mem_of_le hpeer hq]
    · simp [hq]
  · rw [halive, hnext]
    exact h.bound

end Ledger

end Rkvdec.Dispatch
