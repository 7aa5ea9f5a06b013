import Rkvdec.Dispatch.Cores

/-! The ledger job by job: a job is in at most one place. -/
namespace Rkvdec.Dispatch

open Lib Kernel

variable {k : Kernel} {F : Multiset Frame} {p : Ptr}

/-- Where a job can be. The last one is a thread about to link or to free it. -/
inductive Place where
  | pending
  | completed
  | own
  | peer
  | foreignOwn
  | foreignCompleted
  | held
deriving DecidableEq

instance : Fintype Place where
  elems := {.pending, .completed, .own, .peer, .foreignOwn, .foreignCompleted, .held}
  complete a := by cases a <;> decide

/-- The jobs in a place. -/
def Place.jobs (k : Kernel) (F : Multiset Frame) : Place → Multiset Ptr
  | .pending => (k.queue .rvd0).pending
  | .completed => (k.queue .rvd0).completed
  | .own => ((k.queue .rvd0).inFlight 0).toList
  | .peer => ((k.queue .rvd0).inFlight 1).toList
  | .foreignOwn => ((k.queue .rvd1).inFlight 0).toList
  | .foreignCompleted => (k.queue .rvd1).completed
  | .held => owned F

theorem sum_places (hpending : (k.queue .rvd1).pending = []) :
    ∑ a : Place, a.jobs k F = core k F + k.peerSlot := by
  have huniv : (Finset.univ : Finset Place) = {.pending, .completed, .own, .peer, .foreignOwn,
      .foreignCompleted, .held} := rfl
  rw [huniv]
  repeat rw [Finset.sum_insert (by decide)]
  rw [Finset.sum_singleton]
  simp only [Place.jobs, core, Kernel.listed, Queue.listed, Kernel.peerSlot, Queue.peerSlot,
    hpending, Multiset.coe_nil, zero_add]
  abel

/-- A job is in one place only. -/
theorem place_unique {tr : List Event} (h : Shape k F tr) {a b : Place} (ha : p ∈ a.jobs k F)
    (hb : p ∈ b.jobs k F) : a = b := by
  by_contra hne
  have hle : a.jobs k F + b.jobs k F ≤ core k F + k.peerSlot := by
    rw [← sum_places h.slots.peerPending, ← Finset.sum_pair hne]
    exact Finset.sum_le_sum_of_subset (Finset.subset_univ _)
  have hN := Multiset.nodup_of_le hle h.ledger.slot
  exact Multiset.disjoint_left.mp (Multiset.nodup_add.mp hN).2.2 ha hb

/-- And once only. -/
theorem place_nodup {tr : List Event} (h : Shape k F tr) (a : Place) : (a.jobs k F).Nodup := by
  have hle : a.jobs k F ≤ core k F + k.peerSlot := by
    rw [← sum_places h.slots.peerPending]
    exact Finset.single_le_sum (fun _ _ => zero_le) (Finset.mem_univ a)
  exact Multiset.nodup_of_le hle h.ledger.slot

theorem place_alive {tr : List Event} (h : Shape k F tr) {a : Place} (ha : p ∈ a.jobs k F) :
    k.alive p = true := by
  apply h.ledger.alive
  rw [Multiset.mem_add, ← sum_places h.slots.peerPending]
  exact .inl (Multiset.mem_of_le (Finset.single_le_sum (fun _ _ => zero_le) (Finset.mem_univ a)) ha)

theorem place_bound {tr : List Event} (h : Shape k F tr) {a : Place} (ha : p ∈ a.jobs k F) :
    p ≠ k.nextPtr :=
  (h.ledger.bound p (place_alive h ha)).ne

section Mem

@[simp] theorem mem_pending : p ∈ Place.pending.jobs k F ↔ p ∈ (k.queue .rvd0).pending := Iff.rfl

@[simp] theorem mem_completed : p ∈ Place.completed.jobs k F ↔ p ∈ (k.queue .rvd0).completed :=
  Iff.rfl

@[simp] theorem mem_own : p ∈ Place.own.jobs k F ↔ (k.queue .rvd0).inFlight 0 = some p := by
  simp [Place.jobs]

@[simp] theorem mem_peer : p ∈ Place.peer.jobs k F ↔ (k.queue .rvd0).inFlight 1 = some p := by
  simp [Place.jobs]

@[simp] theorem mem_foreignOwn :
    p ∈ Place.foreignOwn.jobs k F ↔ (k.queue .rvd1).inFlight 0 = some p := by
  simp [Place.jobs]

@[simp] theorem mem_foreignCompleted :
    p ∈ Place.foreignCompleted.jobs k F ↔ p ∈ (k.queue .rvd1).completed := Iff.rfl

@[simp] theorem mem_held : p ∈ Place.held.jobs k F ↔ p ∈ owned F := Iff.rfl

end Mem

end Rkvdec.Dispatch
