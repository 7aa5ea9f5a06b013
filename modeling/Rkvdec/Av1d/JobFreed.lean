import Rkvdec.Av1d.JobDrive

/-! The account of the jobs of the AV1 queue in every run, and which of them were freed. -/
namespace Rkvdec.Av1d.JobQueue

open Lib Kernel
open Dispatch (File Ptr)

variable {k k' : Kernel} {F : Multiset Frame} {call : Frame} {calls : List Frame}
  {tr events : List Event} {r : Request} {good : Bool} {p : Ptr} {s : Sys}

def freeing : Event → Option Freeing
  | .freed x => some x
  | _ => none

/-- What was freed so far. -/
def freed (tr : List Event) : List Freeing := tr.filterMap freeing

theorem freed_append : freed (tr ++ events) = freed tr ++ freed events :=
  List.filterMap_append

theorem Runs.freed (h : Runs k call good k' calls events) : JobQueue.freed events = [] ∨
    ∃ p, p ∈ call.owns ∧ JobQueue.freed events = [⟨p, k.linked p, (k.jobs p).waiterPin⟩] ∧
      k.alive p = true ∧ k'.alive p = false := by
  induction h with
  | @release p rest _ alive => exact .inr ⟨p, by simp [Frame.owns], rfl, alive, by simp⟩
  | startFailed alive events_eq =>
    rcases events_eq with rfl | rfl <;> exact .inl rfl
  | _ => exact .inl rfl

theorem Enters.freed (h : Enters k r k' calls events) : JobQueue.freed events = [] := by
  refine List.filterMap_eq_nil_iff.mpr fun e he => ?_
  rcases h.emits he with ⟨f, status, rfl⟩ | rfl | ⟨rfl, -⟩ | ⟨p, -, rfl⟩ <;> rfl

/-- A freed job stays freed: its address is not given out again. -/
theorem Enters.dead (h : Enters k r k' calls events) (hp : k.alive p = false)
    (hlt : p < k.nextPtr) :
    k'.alive p = false ∧ p < k'.nextPtr := by
  induction h with
  | submit => exact ⟨by simpa [hlt.ne] using hp, hlt.trans (Nat.lt_succ_self _)⟩
  | _ => exact ⟨hp, hlt⟩

/-- What was freed is gone and was not in the queue. -/
structure Freed (k : Kernel) (tr : List Event) : Prop where
  dead : ∀ x ∈ freed tr, k.alive x.job = false ∧ x.job < k.nextPtr
  unlinked : ∀ x ∈ freed tr, x.linked = false
  once : ((freed tr).map Freeing.job).Nodup

theorem Freed.runs (h : Freed k tr) (hledger : Ledger k (call ::ₘ F))
    (hrun : Runs k call good k' calls events) : Freed k' (tr ++ events) := by
  have hdead : ∀ x ∈ freed tr, k'.alive x.job = false ∧ x.job < k'.nextPtr := by
    intro x hx
    rw [hrun.alive, hrun.nextPtr, (h.dead x hx).1]
    exact ⟨rfl, (h.dead x hx).2⟩
  rcases hrun.freed with hnone | ⟨p, howns, hone, halive, hnow⟩
  · have hfreed : freed (tr ++ events) = freed tr := by rw [freed_append, hnone, List.append_nil]
    rw [← hfreed] at hdead
    exact ⟨hdead, hfreed ▸ h.unlinked, hfreed ▸ h.once⟩
  have hlt : p < k'.nextPtr := hrun.nextPtr ▸ hledger.bound p halive
  have hout : k.linked p = false := by
    rw [← Bool.not_eq_true]
    exact fun hlinked => (hledger.of_linked hlinked).2 (mem_gather_cons.mpr (.inl howns))
  rw [hout] at hone
  have hmem : ∀ x ∈ freed (tr ++ events), x ∈ freed tr ∨ x = ⟨p, false, (k.jobs p).waiterPin⟩ := by
    intro x hx
    rwa [freed_append, hone, List.mem_append, List.mem_singleton] at hx
  refine ⟨fun x hx => ?_, fun x hx => ?_, ?_⟩
  · rcases hmem x hx with hx | rfl
    · exact hdead x hx
    · exact ⟨hnow, hlt⟩
  · rcases hmem x hx with hx | rfl
    · exact h.unlinked x hx
    · rfl
  · rw [freed_append, hone, List.map_append]
    refine h.once.append (List.nodup_singleton _) fun q hq hq' => ?_
    obtain ⟨x, hx, rfl⟩ := List.mem_map.mp hq
    obtain rfl : x.job = p := List.mem_singleton.mp hq'
    exact absurd ((h.dead x hx).1.symm.trans halive) (by simp)

theorem Freed.enters (h : Freed k tr) (hrun : Enters k r k' calls events) :
    Freed k' (tr ++ events) := by
  have hfreed : freed (tr ++ events) = freed tr := by rw [freed_append, hrun.freed, List.append_nil]
  refine ⟨fun x hx => ?_, hfreed ▸ h.unlinked, hfreed ▸ h.once⟩
  rw [hfreed] at hx
  exact hrun.dead (h.dead x hx).1 (h.dead x hx).2

theorem freed_reachable {G : Guard} (h : Reachable G s) : Freed s.mem s.trace :=
  Reachable.invariant (I := fun k F _ => Ledger k F) (J := fun k _ tr => Freed k tr)
    (fun _ hs => ledger_reachable hs) ⟨by simp [freed], by simp [freed], by simp [freed]⟩
    (fun _ hj _ hrun => hj.enters hrun) (fun hi hj _ hrun => hj.runs hi hrun) h

/-- What holds of the jobs in a state of the system. -/
structure Accounted (s : Sys) : Prop where
  /-- A job that is allocated is once on one list, in flight, or with one thread that will link or
  free it; any other is nowhere. -/
  places : ∀ p, (places s.mem s.calls).count p = if s.mem.alive p then 1 else 0
  once : ((freed s.trace).map Freeing.job).Nodup
  unlinked : ∀ x ∈ freed s.trace, x.linked = false
  gone : ∀ x ∈ freed s.trace, s.mem.alive x.job = false
  /-- `WaiterPin` is the number of threads that wait for the job. -/
  pins : ∀ p < s.mem.nextPtr, (s.mem.jobs p).waiterPin = (gather Frame.pins s.calls).count p

theorem Ledger.count (h : Ledger k F) (p : Ptr) :
    (places k F).count p = if k.alive p then 1 else 0 := by
  split
  · rename_i halive
    exact Multiset.count_eq_one_of_mem h.nodup (h.placed p halive)
  · rename_i halive
    exact Multiset.count_eq_zero.mpr fun hmem => halive (h.alive p hmem)

/-- In every run of the AV1 queue, up to the first use of a freed job, a job that is allocated is in
one place, one that is freed was neither on a list nor in flight and is nowhere any more, none is
freed twice, and the pins of a job are the threads that wait for it. -/
theorem av1_jobs_accounted (h : Reachable .any s) : Accounted s where
  places := (ledger_reachable h).count
  once := (freed_reachable h).once
  unlinked := (freed_reachable h).unlinked
  gone x hx := ((freed_reachable h).dead x hx).1
  pins := (pins_reachable h).count

/-- Two threads wait for a job that runs; it completes, and the last to drop its pin frees it. -/
abbrev bothWait : List (Action Request) :=
  .enter (.mapMmio 4096) :: submitBare 1 0 ++ [.run 1 true, .run 1 true, .run 1 true,
    .enter (.wait 0 1 0), .enter (.wait 0 1 0), .enter (.interrupt 0x1100), .run 4 true,
    .run 4 true, .run 2 true, .run 2 true, .run 3 true, .run 3 true, .run 3 true]

theorem bothWait_runs : (machine.run init bothWait).isSome = true := by
  decide +kernel

theorem av1_jobs_accounted_two_waiters :
    freed ((machine.run init bothWait).get bothWait_runs).trace = [⟨0, false, 0⟩] ∧
      Accounted ((machine.run init bothWait).get bothWait_runs) :=
  ⟨by decide +kernel, av1_jobs_accounted (.of_get bothWait_runs (by decide +kernel))⟩

end Rkvdec.Av1d.JobQueue
