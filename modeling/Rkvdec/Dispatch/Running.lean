import Rkvdec.Dispatch.Owners
import Rkvdec.Dispatch.Nesting

/-! What the codecs run. A job of RVD0 on its own core is in the slot; a transient job on RVD1 has a
worker that waits for it, and the job it stands for is in RVD0's peer slot. -/
namespace Rkvdec.Dispatch

open Lib Kernel

variable {k k' : Kernel} {F : Multiset Frame} {call : Frame} {calls : List Frame}
  {tr events : List Event} {r : Request} {good : Bool} {p : Ptr} {d : Dev} {w : KickWork}

section Done

/-- Only a completion on the job's own core and a signal set its event. -/
theorem Runs.done (h : Runs k call good k' calls events) (hp : p ≠ k.nextPtr) :
    (k'.jobs p).done = (k.jobs p).done ∨ (∃ status, call = .signal p status) ∨
      ∃ d result hwStatus, call = .jobComplete d result hwStatus ∧
        (k.queue d).inFlight 0 = some p := by
  cases h with
  | submitEnqueue | kickWorker =>
    exact .inl (promoted_proj Job.done (fun _ _ => rfl) _)
  | @signal q status _ alive =>
    by_cases hq : p = q
    · subst hq
      exact .inr (.inl ⟨status, rfl⟩)
    · exact .inl (by simp [hq])
  | @completeOrphan d result hwStatus q _ slot orphan pin
      | @complete d result hwStatus q _ slot keep =>
    by_cases hq : p = q
    · subst hq
      exact .inr (.inr ⟨d, result, hwStatus, rfl, slot⟩)
    · exact .inl (by simp [hq])
  | foreignBusy | foreignRun => exact .inl (by simp [hp])
  | peerCompletion =>
    rw [setQueue_jobs]
    exact .inl (setJob_proj Job.done _ rfl)
  | waitExpiredInFlight =>
    exact .inl ((setJob_proj Job.done _ rfl).trans (setJob_proj Job.done _ rfl))
  | @drainPost f q timedOut _ alive =>
    exact .inl (unpinned_proj Job.done (fun _ _ => rfl) (fun _ => rfl) f q timedOut)
  | _ => first | exact .inl rfl | exact .inl (setJob_proj Job.done _ rfl)

theorem Enters.done (h : Enters k r k' calls events) (hp : p ≠ k.nextPtr) :
    (k'.jobs p).done = (k.jobs p).done := by
  cases h with
  | submit => simp [hp]
  | _ => first | rfl | exact setJob_proj Job.done _ rfl

end Done

/-- The transient jobs of RVD1 while they run. -/
structure Waits (k : Kernel) (F : Multiset Frame) : Prop where
  running : ∀ p, k.hw .rvd1 = some p → ∃ w, .foreignWait p w ∈ F
  slots : ∀ p w, .foreignWait p w ∈ F →
    p < k.nextPtr ∧ (k.jobs p).prog.iovaSlots = w.iovaSlots
  idle : ∀ p, (k.queue .rvd1).inFlight 0 = some p → (k.jobs p).done = false

namespace Waits

/-- A section that starts and ends no wait and leaves the slot of RVD1 alone. -/
theorem quiet (h : Waits k (call ::ₘ F)) (hrun : Runs k call good k' calls events)
    (hhw : k'.hw .rvd1 = k.hw .rvd1) (hcall : ∀ p w, call ≠ .foreignWait p w)
    (hcalls : ∀ p w, .foreignWait p w ∉ calls) (hnext : k.nextPtr ≤ k'.nextPtr)
    (hidle : ∀ p, (k'.queue .rvd1).inFlight 0 = some p → (k'.jobs p).done = false) :
    Waits k' (↑calls + F) := by
  refine ⟨fun p hp => ?_, fun p w hw => ?_, hidle⟩
  · obtain ⟨w, hw⟩ := h.running p (hhw ▸ hp)
    have hF : .foreignWait p w ∈ F :=
      (Multiset.mem_cons.mp hw).resolve_left fun heq => hcall p w heq.symm
    exact ⟨w, Multiset.mem_add.mpr (.inr hF)⟩
  · have hF : .foreignWait p w ∈ F :=
      (Multiset.mem_add.mp hw).resolve_left fun hw => hcalls p w (by simpa using hw)
    obtain ⟨hlt, hslots⟩ := h.slots p w (Multiset.mem_cons_of_mem hF)
    refine ⟨lt_of_lt_of_le hlt hnext, ?_⟩
    rw [← hslots]
    exact congrArg (fun x => x.2.2.2.iovaSlots) (hrun.fixed hlt.ne)

/-- The job in the slot of RVD1 stays undone until its own completion. -/
theorem slot_idle (h : Waits k (call ::ₘ F)) (hshape : Shape k (call ::ₘ F) tr)
    (howners : Owners k (call ::ₘ F)) (hrun : Runs k call good k' calls events)
    (hcall : ∀ result hwStatus, call ≠ .jobComplete .rvd1 result hwStatus)
    (hslot : (k.queue .rvd1).inFlight 0 = some p) : (k'.jobs p).done = false := by
  have hnone := howners.foreign p hslot
  rcases hrun.done (place_bound hshape (mem_foreignOwn.mpr hslot)) with
    hsame | ⟨status, rfl⟩ | ⟨d, result, hwStatus, rfl, hown⟩
  · rw [hsame]
    exact h.idle p hslot
  · exact absurd hnone (howners.home p (.of_carries (List.mem_singleton_self p))).2
  · cases d with
    | rvd0 => exact absurd hnone (howners.home p (.inl (.inr (.inr ⟨0, hown⟩)))).2
    | rvd1 => exact absurd rfl (hcall result hwStatus)

/-- A section that leaves the slot of RVD1 and its waits alone. -/
theorem keep (h : Waits k (call ::ₘ F)) (hshape : Shape k (call ::ₘ F) tr)
    (howners : Owners k (call ::ₘ F)) (hrun : Runs k call good k' calls events)
    (hslot : ∀ p, (k'.queue .rvd1).inFlight 0 = some p → (k.queue .rvd1).inFlight 0 = some p := by
      intro p hp
      simpa using hp)
    (hcomplete : ∀ result hwStatus, call ≠ .jobComplete .rvd1 result hwStatus := by simp)
    (hhw : k'.hw .rvd1 = k.hw .rvd1 := by simp) (hcall : ∀ p w, call ≠ .foreignWait p w := by simp)
    (hcalls : ∀ p w, .foreignWait p w ∉ calls := by simp)
    (hnext : k.nextPtr ≤ k'.nextPtr := by simp) :
    Waits k' (↑calls + F) :=
  h.quiet hrun hhw hcall hcalls hnext fun p hp =>
    h.slot_idle hshape howners hrun hcomplete (hslot p hp)

theorem runs (h : Waits k (call ::ₘ F)) (hshape : Shape k (call ::ₘ F) tr)
    (howners : Owners k (call ::ₘ F)) (hdrive : Drive k (call ::ₘ F))
    (hstack : Reaches.Stacked Nested call F)
    (hguard : ∀ p w, call = .foreignWait p w → good = false → k.hw .rvd1 ≠ some p)
    (hrun : Runs k call good k' calls events) : Waits k' (↑calls + F) := by
  have hstep := hrun
  -- A wait ends only for a job that RVD1 does not run.
  have hends : ∀ p w, call = .foreignWait p w → k'= k → (∀ p w, .foreignWait p w ∉ calls) →
      k.hw .rvd1 ≠ some p → Waits k' (↑calls + F) := by
    rintro p w rfl rfl hcalls hhw
    refine ⟨fun q hq => ?_, fun q v hv => ?_, h.idle⟩
    · obtain ⟨v, hv⟩ := h.running q hq
      refine ⟨v, Multiset.mem_add.mpr (.inr ((Multiset.mem_cons.mp hv).resolve_left ?_))⟩
      rintro ⟨⟩
      exact hhw hq
    · refine h.slots q v (Multiset.mem_cons_of_mem ?_)
      exact (Multiset.mem_add.mp hv).resolve_left fun hv => hcalls q v (by simpa using hv)
  cases hrun with
  | submitEnqueue =>
    refine h.keep hshape howners hstep fun p hp => ?_
    simpa [(Owners.promoted_rvd1 hshape.insert).1] using hp
  | @kickWorker d =>
    refine h.keep hshape howners hstep fun p hp => ?_
    rw [(Owners.promoted_rvd1 hshape.disarm).1] at hp
    cases d <;> simpa using hp
  | @kicked d q _ alive =>
    cases d with
    | rvd0 => exact h.keep hshape howners hstep
    | rvd1 =>
      obtain ⟨rest, others, hnested, -, rfl⟩ := hstack
      have hq : q ∈ rest.flatMap Frame.awaits := hnested.2.1 q (List.mem_singleton_self q)
      obtain ⟨x, hx, hqx⟩ := List.mem_flatMap.mp hq
      have hawaits : ∃ w, x = .foreignWait q w := by
        cases x <;> simp_all [Frame.awaits]
      obtain ⟨w, rfl⟩ := hawaits
      refine ⟨fun p hp => ?_, fun p w hw => h.slots p w ?_,
        fun p => h.slot_idle hshape howners hstep (by simp)⟩
      · obtain rfl : q = p := by simpa using hp
        exact ⟨w, Multiset.mem_add.mpr (.inr (Multiset.mem_add.mpr (.inl hx)))⟩
      · refine Multiset.mem_cons_of_mem ((Multiset.mem_add.mp hw).resolve_left ?_)
        simp
  | @foreignRun w id =>
    refine ⟨fun p hp => ?_, fun p v hv => ?_, fun p hp => ?_⟩
    · obtain ⟨v, hv⟩ := h.running p hp
      refine ⟨v, Multiset.mem_add.mpr (.inr ((Multiset.mem_cons.mp hv).resolve_left ?_))⟩
      simp
    · rcases Multiset.mem_add.mp hv with hv | hv
      · obtain ⟨rfl, rfl⟩ : p = k.nextPtr ∧ v = w := by simpa using hv
        exact ⟨Nat.lt_succ_self _, by simp [foreignJob]⟩
      · obtain ⟨hlt, hslots⟩ := h.slots p v (Multiset.mem_cons_of_mem hv)
        refine ⟨hlt.trans (Nat.lt_succ_self _), ?_⟩
        simpa [hlt.ne] using hslots
    · obtain rfl : k.nextPtr = p := by simpa using hp
      simp [foreignJob]
  | @foreignDone q w alive done =>
    refine hends q w rfl rfl (by simp) fun hhw => ?_
    simp [h.idle q (hdrive.hw .rvd1 q hhw)] at done
  | @foreignTimeout q w alive done => exact hends q w rfl rfl (by simp) (hguard q w rfl rfl)
  | @completeOrphan d _ _ q _ slot orphan pin | @complete d _ _ q _ slot keep =>
    cases d with
    | rvd0 => exact h.keep hshape howners hstep
    | rvd1 =>
      refine h.quiet hstep rfl (by simp) (by simp) le_rfl fun p hp => ?_
      simp [hshape.slots.target .rvd1 q slot] at hp
  | rollback | rollbackLost =>
    obtain ⟨rfl, rfl⟩ := (fits_cons.mp hshape.fits).1
    exact h.keep hshape howners hstep
  | @enqueueKickWorker d | @workerExit d =>
    exact h.keep hshape howners hstep fun p hp => by cases d <;> simpa using hp
  | completeNone => exact h.quiet hstep rfl (by simp) (by simp) le_rfl h.idle
  | _ => exact h.keep hshape howners hstep

theorem enters (h : Waits k F) (hshape : Shape k F tr) (hrun : Enters k r k' calls events) :
    Waits k' (↑calls + F) := by
  have keep : (∀ p, k'.hw .rvd1 = some p → k.hw .rvd1 = some p) →
      (∀ p w, .foreignWait p w ∉ calls) → k.nextPtr ≤ k'.nextPtr →
      (k'.queue .rvd1).inFlight 0 = (k.queue .rvd1).inFlight 0 → Waits k' (↑calls + F) := by
    intro hhw hcalls hnext hslot
    refine ⟨fun p hp => ?_, fun p w hw => ?_, fun p hp => ?_⟩
    · obtain ⟨w, hw⟩ := h.running p (hhw p hp)
      exact ⟨w, Multiset.mem_add.mpr (.inr hw)⟩
    · have hF : .foreignWait p w ∈ F :=
        (Multiset.mem_add.mp hw).resolve_left fun hw => hcalls p w (by simpa using hw)
      obtain ⟨hlt, hslots⟩ := h.slots p w hF
      refine ⟨lt_of_lt_of_le hlt hnext, ?_⟩
      rw [← hslots]
      exact congrArg (fun x => x.2.2.2.iovaSlots) (hrun.fixed hlt.ne)
    · rw [hslot] at hp
      rw [hrun.done (place_bound hshape (F := F) (mem_foreignOwn.mpr hp))]
      exact h.idle p hp
  cases hrun with
  | submit lock ok fresh => exact keep (fun _ hp => hp) (by simp) (Nat.le_succ _) (by simp)
  | @interrupt d hwStatus q busy =>
    refine keep (fun p hp => ?_) (by simp) le_rfl rfl
    cases d with
    | rvd0 => simpa using hp
    | rvd1 => simp at hp
  | detachPeer waits =>
    refine keep (fun _ hp => hp) ?_ le_rfl (by simp)
    obtain rfl | ⟨q, -, rfl⟩ := waits <;> simp
  | waitTake | drainOwner | peerArrival => exact keep (fun _ hp => hp) (by simp) le_rfl (by simp)
  | _ => exact keep (fun _ hp => hp) (by simp) le_rfl rfl

end Waits

theorem waits_init : Waits kernelInit 0 where
  running p hp := by simp [kernelInit] at hp
  slots p w hw := by simp at hw
  idle p hp := by simp [kernelInit, jobQueueInit] at hp

theorem waits_reachable {G : Guard} {s : Sys}
    (hG : ∀ k p w F, G.exec k (.foreignWait p w) F false → k.hw .rvd1 ≠ some p)
    (h : Reachable G s) : Waits s.mem s.calls := by
  have hstacked := Reaches.stacked (fun _ => nested_reachable) h
  refine Reachable.invariant
    (I := fun k F tr => Shape k F tr ∧ Owners k F ∧ Drive k F) (J := fun k F _ => Waits k F)
    (fun s hs => ⟨shape_reachable hs, owners_reachable hs, drive_reachable hs⟩) waits_init ?_ ?_
    hstacked
  · intro k F tr r k' calls events hi hj _ hrun
    exact hj.enters hi.1 hrun
  · intro k call F tr good k' calls events hi hj hguard hrun
    refine hj.runs hi.1 hi.2.1 hi.2.2 hguard.2 ?_ hrun
    rintro p w rfl rfl
    exact hG k p w F hguard.1

end Rkvdec.Dispatch
