import Rkvdec.Dispatch.Pins

/-! Abandoned jobs. Whoever gives up on a job in flight marks it, and the completion that finds the
mark and no pin is to free the job. -/
namespace Rkvdec.Dispatch

open Lib Kernel

variable {k k' : Kernel} {F : Multiset Frame} {call : Frame} {calls : List Frame}
  {tr events : List Event} {r : Request} {good : Bool} {p q : Ptr} {d : Dev} {f : File}

namespace Frame

/-- The transient job the call waits for or gives up on. -/
def foreigns : Frame → List Ptr
  | .foreignWait p _ => [p]
  | .foreignExpired p _ => [p]
  | _ => []

end Frame

attribute [local simp] Frame.foreigns Frame.pins Frame.drains Frame.loose

section Arrive

theorem promoted_completed (d d' : Dev) :
    ((k.promoted d).queue d').completed = (k.queue d').completed := by
  refine promoted_inv (I := fun k' _ => (k'.queue d').completed = (k.queue d').completed) rfl ?_
  intro k' out q c _ _ hk'
  by_cases hd : d' = d
  · subst hd
    simpa [Promoting.promote] using hk'
  · simpa [hd] using hk'

/-- How a job comes onto `Completed`. -/
theorem Runs.completed (h : Runs k call good k' calls events)
    (hp : p ∈ (k'.queue d).completed) : p ∈ (k.queue d).completed ∨
      (∃ result hwStatus, call = .jobComplete d result hwStatus ∧ (k.queue d).inFlight 0 = some p ∧
        ((k.jobs p).orphanOnComplete = false ∨ 0 < (k.jobs p).waiterPin)) ∨
      (∃ result hwStatus, call = .peerCompletion (k.jobs p).id result hwStatus ∧ d = .rvd0 ∧
        (k.queue .rvd0).inFlight 1 = some p) ∨
      ∃ c status, call = .rollback d p c status := by
  -- A section that works on the lists of one queue only.
  have hother : ∀ {k₀ : Kernel} {d₀ : Dev} {g : Queue → Queue},
      p ∈ ((k₀.setQueue d₀ g).queue d).completed → k₀.queue = k.queue →
        p ∈ (k.queue d).completed ∨ d = d₀ ∧ p ∈ (g (k.queue d₀)).completed := by
    intro k₀ d₀ g hp hk₀
    by_cases hd : d = d₀
    · subst hd
      rw [setQueue_queue, Function.update_self, hk₀] at hp
      exact .inr ⟨rfl, hp⟩
    · rw [setQueue_queue, Function.update_of_ne hd, hk₀] at hp
      exact .inl hp
  cases h with
  | submitEnqueue | kickWorker =>
    simp only [setFileLock_queue, promoted_completed] at hp
    exact (hother hp rfl).elim .inl fun hp => .inl (hp.1 ▸ hp.2)
  | @complete d₀ result hwStatus q _ slot keep =>
    rcases hother hp rfl with hp | ⟨rfl, hp⟩
    · exact .inl hp
    · rcases List.mem_append.mp hp with hp | hp
      · exact .inl hp
      · obtain rfl := List.mem_singleton.mp hp
        exact .inr (.inl ⟨result, hwStatus, rfl, slot, keep⟩)
  | @peerCompletion cookie result hwStatus q _ slot id =>
    subst id
    rcases hother hp rfl with hp | ⟨rfl, hp⟩
    · exact .inl hp
    · rcases List.mem_append.mp hp with hp | hp
      · exact .inl hp
      · obtain rfl := List.mem_singleton.mp hp
        exact .inr (.inr (.inl ⟨result, hwStatus, rfl, rfl, slot⟩))
  | @rollback d₀ q c status _ alive slot | @rollbackLost d₀ q c status _ alive slot =>
    rcases hother hp rfl with hp | ⟨rfl, hp⟩
    · exact .inl hp
    · rcases List.mem_append.mp hp with hp | hp
      · exact .inl hp
      · obtain rfl := List.mem_singleton.mp hp
        exact .inr (.inr (.inr ⟨c, status, rfl⟩))
  | drainPost =>
    rcases hother hp (unpinned_queue ..) with hold | ⟨rfl, hfilter⟩
    · exact .inl hold
    · exact .inl (List.mem_of_mem_filter hfilter)
  | foreignBusy | foreignRun => cases d <;> exact .inl (by simpa using hp)
  | foreignReap | waitExpiredCompleted | waitReap =>
    rcases hother hp rfl with hp | ⟨rfl, hp⟩
    · exact .inl hp
    · exact .inl (List.mem_of_mem_erase hp)
  | completeOrphan | enqueueKickWorker | workerExit | waitExpiredPending =>
    exact (hother hp rfl).elim .inl fun hp => .inl (hp.1 ▸ hp.2)
  | _ => exact .inl hp

/-- Only those who give up on a job mark it. -/
theorem Runs.orphan (h : Runs k call good k' calls events) (hp : p ≠ k.nextPtr)
    (horphan : (k'.jobs p).orphanOnComplete = true) : (k.jobs p).orphanOnComplete = true ∨
      (p ∈ k.inFlight .rvd0 ∧ call.pins ≠ []) ∨ p ∈ call.foreigns := by
  have hset : ∀ q (g : Job → Job), (∀ j, (g j).orphanOnComplete = j.orphanOnComplete) →
      ((k.setJob q g).jobs p).orphanOnComplete = (k.jobs p).orphanOnComplete :=
    fun q g hg => setJob_proj Job.orphanOnComplete q (hg _)
  cases h with
  | submitEnqueue | kickWorker =>
    simp only [setFileLock_jobs, promoted_proj Job.orphanOnComplete fun _ _ => rfl] at horphan
    exact .inl horphan
  | signal | waitExpiredPinned | waitExpiredLost | waitReapPinned | drainScan =>
    rw [hset] at horphan
    · exact .inl horphan
    · exact fun _ => rfl
  | completeOrphan | complete | peerCompletion | waitExpiredPending | waitExpiredCompleted
      | waitReap =>
    rw [setQueue_jobs, hset] at horphan
    · exact .inl horphan
    · exact fun _ => rfl
  | foreignBusy | foreignRun => exact .inl (by simpa [hp] using horphan)
  | @foreignExpired q w _ alive =>
    by_cases hq : p = q
    · exact .inr (.inr (by simp [hq]))
    · exact .inl (by simpa [hq] using horphan)
  | @waitExpiredInFlight q _ alive pin pending completed inFlight =>
    by_cases hq : p = q
    · exact .inr (.inl ⟨hq ▸ inFlight, by simp⟩)
    · exact .inl (by simpa [hq] using horphan)
  | @drainPost f q timedOut _ alive =>
    have hpin : ((k.setJob q (addPin (-1))).jobs p).orphanOnComplete =
        (k.jobs p).orphanOnComplete := setJob_proj Job.orphanOnComplete q rfl
    cases timedOut with
    | false => exact .inl (hpin ▸ horphan)
    | true =>
      by_cases hmark : p ∈ k.inFlight .rvd0
      · exact .inr (.inl ⟨hmark, by simp⟩)
      · have hnone : ¬ (p ∈ (k.setJob q (addPin (-1))).inFlight .rvd0 ∧
            ((k.setJob q (addPin (-1))).jobs p).owner = some f) := fun h => hmark h.1
        simp only [setQueue_jobs, unpinned, if_true, markOrphans, if_neg hnone] at horphan
        exact .inl (hpin ▸ horphan)
  | _ => exact .inl horphan

end Arrive

/-- Tags and transients: RVD0's jobs are from one allocation site and RVD1's from the other, which
gives them no file. Who waits for a job of RVD0 waits for a file's. -/
structure Transients (k : Kernel) (F : Multiset Frame) : Prop where
  tag : ∀ p < k.nextPtr, (k.jobs p).owner ≠ none → (k.jobs p).tag = .jppM
  foreigns : ∀ p ∈ gather Frame.foreigns F, p < k.nextPtr ∧ (k.jobs p).owner = none
  completed : ∀ p ∈ (k.queue .rvd1).completed, (k.jobs p).owner = none
  pinned : ∀ p ∈ gather Frame.pins F, (k.jobs p).owner ≠ none

theorem Runs.foreigns (h : Runs k call good k' calls events)
    (hp : p ∈ calls.flatMap Frame.foreigns) :
    p ∈ call.foreigns ∨ p = k.nextPtr ∧ k'.nextPtr = k.nextPtr + 1 := by
  cases h with
  | foreignRun slot => exact .inr ⟨by simpa using hp, by simp⟩
  | foreignTimeout => exact .inl (by simpa using hp)
  | _ => simp at hp

namespace Transients

theorem runs (h : Transients k (call ::ₘ F)) (hshape : Shape k (call ::ₘ F) tr)
    (howners : Owners k (call ::ₘ F)) (hpins : Pins k (call ::ₘ F))
    (hrun : Runs k call good k' calls events) : Transients k' (↑calls + F) := by
  have hnext : k.nextPtr ≤ k'.nextPtr := by
    rcases hrun.fresh with hfresh | ⟨hfresh, -⟩ <;> exact hfresh ▸ by simp
  have howner : ∀ {p}, p < k.nextPtr → (k'.jobs p).owner = (k.jobs p).owner :=
    fun hp => Owners.owner_fixed (hrun.fixed hp.ne)
  refine ⟨fun p hp hown => ?_, fun p hp => ?_, fun p hp => ?_, fun p hp => ?_⟩
  · by_cases hold : p < k.nextPtr
    · have htag : (k'.jobs p).tag = (k.jobs p).tag :=
        congrArg (fun x => x.2.2.1) (hrun.fixed hold.ne)
      rw [htag]
      exact h.tag p hold (howner hold ▸ hown)
    · rcases hrun.fresh with hfresh | ⟨hfresh, hnone⟩
      · exact absurd (hfresh ▸ hp) hold
      · obtain rfl : p = k.nextPtr :=
          le_antisymm (Nat.lt_succ_iff.mp (by rwa [hfresh] at hp)) (not_lt.mp hold)
        exact absurd hnone hown
  · rcases mem_gather_coe_add.mp hp with hp | hp
    · rcases hrun.foreigns hp with hp | ⟨rfl, hone⟩
      · obtain ⟨hlt, hnone⟩ := h.foreigns p (mem_gather_cons.mpr (.inl hp))
        exact ⟨hlt.trans_le hnext, howner hlt ▸ hnone⟩
      · obtain ⟨id, w, hjob⟩ := hrun.foreign hone
        exact ⟨hone ▸ Nat.lt_succ_self _, by simp [hjob, foreignJob]⟩
    · obtain ⟨hlt, hnone⟩ := h.foreigns p (mem_gather_cons.mpr (.inr hp))
      exact ⟨hlt.trans_le hnext, howner hlt ▸ hnone⟩
  · have hold : p < k.nextPtr ∧ (k.jobs p).owner = none := by
      rcases hrun.completed hp with hp | ⟨_, _, rfl, hslot, -⟩ | ⟨_, _, _, hd, -⟩ | ⟨c, status, rfl⟩
      · refine ⟨hshape.ledger.bound p (place_alive hshape (mem_foreignCompleted.mpr hp)), ?_⟩
        exact h.completed p hp
      · refine ⟨hshape.ledger.bound p (place_alive hshape (mem_foreignOwn.mpr hslot)), ?_⟩
        exact howners.foreign p hslot
      · cases hd
      · cases (fits_cons.mp hshape.fits).1.1
    rw [howner hold.1]
    exact hold.2
  · have hold : p < k.nextPtr ∧ (k.jobs p).owner ≠ none := by
      have hold : ∀ {p}, p ∈ gather Frame.pins (call ::ₘ F) →
          p < k.nextPtr ∧ (k.jobs p).owner ≠ none := fun hp => ⟨hpins.bound _ hp, h.pinned _ hp⟩
      rcases mem_gather_coe_add.mp hp with hp | hp
      · rcases hrun.pins hp with hp | ⟨c, hslot⟩
        · exact hold (mem_gather_cons.mpr (.inl hp))
        · exact howners.home p (.inl (.inr (.inr ⟨c, hslot⟩)))
      · exact hold (mem_gather_cons.mpr (.inr hp))
    rw [howner hold.1]
    exact hold.2

theorem enters (h : Transients k F) (hpins : Pins k F) (hshape : Shape k F tr)
    (hrun : Enters k r k' calls events) :
    Transients k' (↑calls + F) := by
  -- A request that takes no note of a job.
  have keep : k'.jobs = k.jobs → k'.nextPtr = k.nextPtr →
      (k'.queue .rvd1).completed = (k.queue .rvd1).completed →
      calls.flatMap Frame.foreigns = [] → calls.flatMap Frame.pins = [] →
      Transients k' (↑calls + F) := by
    intro hjobs hnext hcompleted hforeigns hpins
    refine ⟨fun p hp => ?_, fun p hp => ?_, fun p hp => ?_, fun p hp => ?_⟩
    · rw [hjobs]
      exact h.tag p (hnext ▸ hp)
    · rw [mem_gather_coe_add, hforeigns] at hp
      rw [hjobs, hnext]
      exact h.foreigns p (hp.resolve_left List.not_mem_nil)
    · rw [hjobs]
      exact h.completed p (hcompleted ▸ hp)
    · rw [mem_gather_coe_add, hpins] at hp
      rw [hjobs]
      exact h.pinned p (hp.resolve_left List.not_mem_nil)
  cases hrun with
  | @submit f input allocOk prog id lock ok fresh =>
    refine ⟨fun p hp hown => ?_, fun p hp => ?_, fun p hp => ?_, fun p hp => ?_⟩
    · by_cases hold : p = k.nextPtr
      · simp [hold, submitJob]
      · have hlt : p < k.nextPtr := lt_of_le_of_ne (Nat.lt_succ_iff.mp hp) hold
        simpa [hold] using h.tag p hlt (by simpa [hold] using hown)
    · obtain ⟨hlt, hnone⟩ := h.foreigns p (by simpa using hp)
      exact ⟨hlt.trans (Nat.lt_succ_self _), by simpa [hlt.ne] using hnone⟩
    · have hp : p ∈ (k.queue .rvd1).completed := by simpa using hp
      have hne := place_bound hshape (F := F) (mem_foreignCompleted.mpr hp)
      simpa [hne] using h.completed p hp
    · have hp : p ∈ gather Frame.pins F := by simpa using hp
      simpa [(hpins.bound p hp).ne] using h.pinned p hp
  | @waitPin f id timeoutMs q linked owner =>
    have howner : ∀ p, ((k.setJob q (addPin 1)).jobs p).owner = (k.jobs p).owner :=
      fun p => setJob_proj Job.owner q rfl
    have htag : ∀ p, ((k.setJob q (addPin 1)).jobs p).tag = (k.jobs p).tag :=
      fun p => setJob_proj Job.tag q rfl
    refine ⟨fun p hp hown => ?_, fun p hp => ?_, fun p hp => ?_, fun p hp => ?_⟩
    · rw [htag]
      exact h.tag p hp (howner p ▸ hown)
    · rw [howner]
      exact h.foreigns p (by simpa using hp)
    · rw [howner]
      exact h.completed p hp
    · rw [howner]
      rcases mem_gather_coe_add.mp hp with hp | hp
      · obtain rfl : p = q := by simpa using hp
        simp [owner]
      · exact h.pinned p hp
  | detachPeer waits =>
    refine keep rfl rfl (by simp) ?_ ?_
    all_goals obtain rfl | ⟨q, -, rfl⟩ := waits <;> simp
  | waitTake | drainOwner | peerArrival =>
    exact keep rfl rfl (by simp) (by simp) (by simp)
  | _ => exact keep rfl rfl rfl (by simp) (by simp)

end Transients

theorem transients_init : Transients kernelInit 0 := by
  constructor <;> simp [kernelInit, jobQueueInit]

theorem transients_reachable {G : Guard} {s : Sys} (h : Reachable G s) :
    Transients s.mem s.calls :=
  Reachable.invariant (I := fun k F tr => Shape k F tr ∧ Owners k F ∧ Pins k F)
    (J := fun k F _ => Transients k F)
    (fun _ hs => ⟨shape_reachable hs, owners_reachable hs, pins_reachable hs⟩) transients_init
    (fun hi ht _ hrun => ht.enters hi.2.2 hi.1 hrun)
    (fun hi ht _ hrun => ht.runs hi.1 hi.2.1 hi.2.2 hrun) h

/-- A job somebody gave up on, and nobody waits for. -/
def Abandoned (k : Kernel) (p : Ptr) : Prop :=
  (k.jobs p).orphanOnComplete = true ∧ ¬ 0 < (k.jobs p).waiterPin

instance (k : Kernel) (p : Ptr) : Decidable (Abandoned k p) :=
  inferInstanceAs (Decidable (_ ∧ _))

/-- The section completes the job. -/
def Completes (k : Kernel) (p : Ptr) : Frame → Prop
  | .jobComplete d _ _ => (k.queue d).inFlight 0 = some p
  | .peerCompletion cookie _ _ => (k.queue .rvd0).inFlight 1 = some p ∧ (k.jobs p).id = cookie
  | _ => False

/-- The jobs the section would complete wrong if they were abandoned. A peer completion and a
rollback do not look at the mark, and RVD1 frees its transient jobs as if they were RVD0's. -/
def Frame.mishandles (k : Kernel) : Frame → List Ptr
  | .peerCompletion cookie _ _ =>
    ((k.queue .rvd0).inFlight 1).toList.filter fun p => (k.jobs p).id = cookie
  | .jobComplete .rvd1 _ _ => ((k.queue .rvd1).inFlight 0).toList
  | .rollback _ p _ _ => [p]
  | _ => []

attribute [local simp] Frame.mishandles

/-- The transient job the section marks, completed or not. -/
def Frame.marks : Frame → List Ptr
  | .foreignExpired p _ => [p]
  | _ => []

def Reclaims (k : Kernel) (call : Frame) : Prop :=
  (∀ p ∈ call.mishandles k, ¬ Abandoned k p) ∧ ∀ p ∈ call.marks, p ∉ (k.queue .rvd1).completed

instance (k : Kernel) (call : Frame) : Decidable (Reclaims k call) :=
  inferInstanceAs (Decidable (_ ∧ _))

/-- Runs in which no abandoned job is completed by the peer or on it, or taken back from it, and no
worker gives up on a transient job that has just completed. -/
def reclaiming : Guard := ⟨fun _ _ _ => True, fun k call _ _ => Reclaims k call⟩

instance (mem : Kernel) (F : Multiset Frame) (r : Request) :
    Decidable (reclaiming.enter mem F r) :=
  inferInstanceAs (Decidable True)

instance (mem : Kernel) (call : Frame) (F : Multiset Frame) (good : Bool) :
    Decidable (reclaiming.exec mem call F good) :=
  inferInstanceAs (Decidable (Reclaims mem call))

/-- Every job on `Completed` is somebody's. -/
def Claimed (k : Kernel) : Prop := ∀ d, ∀ p ∈ (k.queue d).completed, ¬ Abandoned k p

section Abandon

/-- Who abandons a job: its last waiter, the drain of its file, the worker of a peer kick. -/
theorem Runs.abandoned (h : Runs k call good k' calls events) (hp : p ≠ k.nextPtr)
    (hgone : Abandoned k' p) : Abandoned k p ∨ p ∈ call.pins ∨
      (p ∈ k.inFlight .rvd0 ∧ call.pins ≠ []) ∨ p ∈ call.foreigns := by
  rcases h.orphan hp hgone.1 with horphan | hmark
  · by_cases hpin : p ∈ call.pins
    · exact .inr (.inl hpin)
    · have hcount := h.pin hp
      rw [List.count_eq_zero.mpr hpin] at hcount
      have hgone' := hgone.2
      exact .inl ⟨horphan, by omega⟩
  · exact .inr (.inr hmark)

/-- A waiter leaves no job on `Completed` that nobody else waits for. -/
theorem Claimed.unpin (h : Claimed k) (hshape : Shape k (call ::ₘ F) tr)
    (hpins : Pins k (call ::ₘ F)) (hrun : Runs k call good k' calls events)
    (hp : p ∈ (k.queue .rvd0).completed) (hp' : p ∈ (k'.queue .rvd0).completed)
    (hpin : p ∈ call.pins) : ¬ Abandoned k' p := by
  have hone : 1 ≤ (k.jobs p).waiterPin := by
    have hcount := hpins.count p (hpins.bound p (mem_gather_cons.mpr (.inl hpin)))
    have hpos := Multiset.count_pos.mpr (mem_gather_cons (F := F).mpr (.inl hpin))
    omega
  have herase : p ∉ (k.queue .rvd0).completed.erase p :=
    (Multiset.coe_nodup.mp (place_nodup hshape .completed)).not_mem_erase
  intro hgone
  cases hrun with
  | waitDone | waitTimeout | drainDone | drainTimeout => exact h .rvd0 p hp hgone
  | @waitExpiredPinned q _ alive pin | @waitReapPinned q _ alive pin =>
    obtain rfl : p = q := by simpa using hpin
    have hgone' := hgone.2
    rw [addPin_pin] at hgone'
    simp at hgone'
    omega
  | @waitExpiredPending q _ alive pin pending =>
    obtain rfl : p = q := by simpa using hpin
    have hplace := place_unique hshape (mem_pending.mpr pending) (mem_completed.mpr hp)
    cases hplace
  | @waitExpiredCompleted q _ alive pin completed | @waitReap q _ alive pin completed =>
    obtain rfl : p = q := by simpa using hpin
    exact herase (by simpa using hp')
  | @waitExpiredInFlight q _ alive pin pending completed
  | @waitExpiredLost q _ alive pin pending completed =>
    obtain rfl : p = q := by simpa using hpin
    exact completed hp
  | @drainPost f q timedOut _ alive =>
    obtain rfl : p = q := by simpa using hpin
    have howner : ((unpinned k f p timedOut).jobs p).owner = some f := by
      rw [unpinned_proj Job.owner (fun _ _ => rfl) fun _ => rfl]
      exact hpins.owner f p (mem_gather_cons.mpr (.inl (by simp)))
    have hgone' := hgone.2
    rw [setQueue_jobs, unpinned_pin] at hgone'
    have hzero : ((unpinned k f p timedOut).jobs p).waiterPin = 0 := by
      rw [unpinned_pin]
      simp at hgone' ⊢
      omega
    simp [howner, hzero] at hp'
  | _ => simp at hpin

/-- A job in flight is on neither list of completed jobs. -/
theorem inFlight_completed (hshape : Shape k F tr) (hfly : p ∈ k.inFlight .rvd0) :
    p ∉ (k.queue d).completed := by
  intro hp
  obtain ⟨c, -, hslot⟩ := mem_inFlight.mp hfly
  have hplace : p ∈ Place.own.jobs k F ∨ p ∈ Place.peer.jobs k F := by
    rcases core_cases c with rfl | rfl
    · exact .inl (mem_own.mpr hslot)
    · exact .inr (mem_peer.mpr hslot)
  cases d with
  | rvd0 =>
    rcases hplace with hplace | hplace
    · cases place_unique hshape hplace (mem_completed.mpr hp)
    · cases place_unique hshape hplace (mem_completed.mpr hp)
  | rvd1 =>
    rcases hplace with hplace | hplace
    · cases place_unique hshape hplace (mem_foreignCompleted.mpr hp)
    · cases place_unique hshape hplace (mem_foreignCompleted.mpr hp)

theorem completed_ne (hshape : Shape k F tr) (hp : p ∈ (k.queue d).completed) :
    p ≠ k.nextPtr := by
  cases d with
  | rvd0 => exact place_bound hshape (F := F) (mem_completed.mpr hp)
  | rvd1 => exact place_bound hshape (F := F) (mem_foreignCompleted.mpr hp)

/-- A completion marks no job. -/
theorem Runs.abandoned_before (h : Runs k call good k' calls events) (hp : p ≠ k.nextPtr)
    (hpins : call.pins = []) (hforeigns : call.foreigns = []) (hgone : Abandoned k' p) :
    Abandoned k p := by
  rcases h.abandoned hp hgone with hgone | hpin | ⟨-, hne⟩ | hforeign
  · exact hgone
  · cases hpins ▸ hpin
  · exact absurd hpins hne
  · cases hforeigns ▸ hforeign

theorem Claimed.runs (h : Claimed k) (hshape : Shape k (call ::ₘ F) tr)
    (howners : Owners k (call ::ₘ F)) (hpins : Pins k (call ::ₘ F))
    (htrans : Transients k (call ::ₘ F)) (hguard : Reclaims k call)
    (hrun : Runs k call good k' calls events) : Claimed k' := by
  intro d p hp hgone
  rcases hrun.completed hp with hold | ⟨result, hwStatus, rfl, hslot, hkeep⟩ |
    ⟨result, hwStatus, rfl, rfl, hslot⟩ | ⟨c, status, rfl⟩
  · rcases hrun.abandoned (completed_ne hshape hold) hgone with hgone' | hpin | ⟨hfly, -⟩ | hforeign
    · exact h d p hold hgone'
    · cases d with
      | rvd0 => exact h.unpin hshape hpins hrun hold hp hpin hgone
      | rvd1 => exact htrans.pinned p (mem_gather_cons.mpr (.inl hpin)) (htrans.completed p hold)
    · exact inFlight_completed hshape hfly hold
    · -- The worker that gives up finds the transient job where RVD1 left it.
      have hnone := (htrans.foreigns p (mem_gather_cons.mpr (.inl hforeign))).2
      cases d with
      | rvd0 => exact (howners.home p (.inl (.inr (.inl hold)))).2 hnone
      | rvd1 =>
        cases hrun with
        | foreignDone | foreignTimeout => exact h .rvd1 p hold hgone
        | @foreignExpired q w _ alive =>
          obtain rfl : p = q := by simpa using hforeign
          exact hguard.2 p (List.mem_singleton_self p) hold
        | _ => simp at hforeign
  · have hne : p ≠ k.nextPtr := by
      cases d with
      | rvd0 => exact place_bound hshape (mem_own.mpr hslot)
      | rvd1 => exact place_bound hshape (mem_foreignOwn.mpr hslot)
    obtain ⟨horphan, hpin⟩ := hrun.abandoned_before hne rfl rfl hgone
    rcases hkeep with hkeep | hkeep
    · simp [hkeep] at horphan
    · exact hpin hkeep
  · have hne := place_bound hshape (mem_peer.mpr hslot)
    exact hguard.1 p (by simp [hslot]) (hrun.abandoned_before hne rfl rfl hgone)
  · have hloose : p ∈ loose (.rollback d p c status ::ₘ F) := by simp
    have hne := (hshape.ledger.bound p (hshape.ledger.alive_of_loose hloose)).ne
    exact hguard.1 p (List.mem_singleton_self p) (hrun.abandoned_before hne rfl rfl hgone)

theorem Claimed.enters (h : Claimed k) (hshape : Shape k F tr)
    (hrun : Enters k r k' calls events) : Claimed k' := by
  -- A request takes jobs off `Completed` only, and gives up on none.
  have keep : (∀ d, ∀ p ∈ (k'.queue d).completed, p ∈ (k.queue d).completed) →
      (∀ p, p ≠ k.nextPtr → Abandoned k' p → Abandoned k p) → Claimed k' := by
    intro hsub hgone d p hp hp'
    have hold := hsub d p hp
    exact h d p hold (hgone p (completed_ne hshape hold) hp')
  cases hrun with
  | submit =>
    refine keep (fun d p hp => ?_) fun p hne hgone => ?_
    · cases d <;> simpa using hp
    · simpa [Abandoned, hne] using hgone
  | @waitPin f id timeoutMs q linked owner =>
    refine keep (fun _ _ hp => hp) fun p _ hgone => ?_
    obtain ⟨horphan, hpin⟩ := hgone
    rw [setJob_proj Job.orphanOnComplete q rfl] at horphan
    rw [addPin_pin] at hpin
    exact ⟨horphan, by omega⟩
  | waitTake =>
    refine keep (fun d p hp => ?_) fun _ _ hgone => hgone
    cases d with
    | rvd0 => exact List.mem_of_mem_erase (by simpa using hp)
    | rvd1 => simpa using hp
  | drainOwner =>
    refine keep (fun d p hp => ?_) fun _ _ hgone => hgone
    cases d with
    | rvd0 =>
      rw [setQueue_queue, Function.update_self] at hp
      exact List.mem_of_mem_filter hp
    | rvd1 => simpa using hp
  | peerArrival | detachPeer =>
    refine keep (fun d p hp => ?_) fun _ _ hgone => hgone
    cases d <;> simpa using hp
  | _ => exact keep (fun _ _ hp => hp) fun _ _ hgone => hgone

end Abandon

theorem claimed_reachable {s : Sys} (h : Reachable reclaiming s) : Claimed s.mem :=
  Reachable.invariant
    (I := fun k F tr => Shape k F tr ∧ Owners k F ∧ Pins k F ∧ Transients k F)
    (J := fun k _ _ => Claimed k)
    (fun _ hs => ⟨shape_reachable hs, owners_reachable hs, pins_reachable hs,
      transients_reachable hs⟩)
    (by simp [Claimed, kernelInit, jobQueueInit])
    (fun hi hc _ hrun => hc.enters hi.1 hrun)
    (fun hi hc hguard hrun => hc.runs hi.1 hi.2.1 hi.2.2.1 hi.2.2.2 hguard hrun) h

theorem exec_jobComplete (result : NtStatus) (hwStatus : BitVec 32) (good : Bool)
    (hslot : (k.queue d).inFlight 0 = some p) (hgone : Abandoned k p) :
    ∃ k', exec k (.jobComplete d result hwStatus) good =
        some (.next k' (.release [(p, .jppM)] :: wantKick k d) []) ∧
      ∀ d, (k'.queue d).completed = (k.queue d).completed := by
  have hfree : (k.jobs p).orphanOnComplete = true ∧ ¬ 0 < (k.jobs p).waiterPin := hgone
  simp only [exec, jobComplete, hslot]
  rw [if_pos hfree]
  refine ⟨_, rfl, fun d' => ?_⟩
  by_cases hd : d' = d
  · subst hd
    simp
  · simp [hd]

theorem exec_peerCompletion (result : NtStatus) (hwStatus : BitVec 32) (good : Bool)
    (hslot : (k.queue .rvd0).inFlight 1 = some p) :
    ∃ k', exec k (.peerCompletion (k.jobs p).id result hwStatus) good =
        some (.next k' (.signal p none :: wantKick k .rvd0) []) ∧
      (k'.queue .rvd0).completed = (k.queue .rvd0).completed ++ [p] := by
  simp only [exec, peerCompletion, hslot, ne_eq, not_true_eq_false, if_false]
  refine ⟨_, rfl, ?_⟩
  simp

/-- In runs that spare the peer's abandoned jobs, a completion that finds a job abandoned frees it
with its tag, and no list keeps one. -/
theorem abandoned_reclaimed {s : Sys} (h : Reachable reclaiming s) :
    (∀ d, ∀ p ∈ (s.mem.queue d).completed, ¬ Abandoned s.mem p) ∧
    ∀ call p good k' calls events, Completes s.mem p call → Abandoned s.mem p →
      Reclaims s.mem call → exec s.mem call good = some (.next k' calls events) →
      .release [(p, (s.mem.jobs p).tag)] ∈ calls ∧ ∀ d, p ∉ (k'.queue d).completed := by
  have hclaimed := claimed_reachable h
  refine ⟨hclaimed, fun call p good k' calls events hcompletes hgone hguard hrun => ?_⟩
  have hall : ∀ d, p ∉ (s.mem.queue d).completed := fun d hp => hclaimed d p hp hgone
  cases call with
  | jobComplete d result hwStatus =>
    cases d with
    | rvd0 =>
      obtain ⟨hlt, howner⟩ :=
        (owners_reachable h).home p (.inl (.inr (.inr ⟨0, hcompletes⟩)))
      obtain ⟨k₁, hrun', hsame⟩ := exec_jobComplete result hwStatus good hcompletes hgone
      rw [hrun'] at hrun
      cases hrun
      rw [(transients_reachable h).tag p hlt howner]
      exact ⟨List.mem_cons_self, fun d => hsame d ▸ hall d⟩
    | rvd1 =>
      exact absurd hgone (hguard.1 p (by simp [show _ = _ from hcompletes]))
  | peerCompletion cookie result hwStatus =>
    exact absurd hgone (hguard.1 p (by simp [hcompletes.1, hcompletes.2]))
  | _ => cases hcompletes

/-- A file gives up on its job on RVD0's own core, which then completes. -/
abbrev ownReclaims : List (Action Request) :=
  .enter (.mapMmio .rvd0 4096) :: submitBare 1 0 ++ [.run 1 true, .run 1 true, .run 1 true,
    .enter (.wait 0 1 100), .run 2 false, .run 2 true, .enter (.interrupt .rvd0 1), .run 3 true]

theorem ownReclaims_runs : (machine.run init ownReclaims).isSome = true := by
  decide +kernel

/-- The state it ends in. -/
abbrev ownReclaiming : Sys := (machine.run init ownReclaims).get ownReclaims_runs

theorem abandoned_reclaimed_own : Abandoned ownReclaiming.mem 0 ∧
    ∃ k' calls, exec ownReclaiming.mem (.jobComplete .rvd0 .success 1) true =
        some (.next k' calls []) ∧
      .release [(0, (ownReclaiming.mem.jobs 0).tag)] ∈ calls ∧
      ∀ d, 0 ∉ (k'.queue d).completed := by
  have hslot : (ownReclaiming.mem.queue .rvd0).inFlight 0 = some 0 := by
    decide +kernel
  have hgone : Abandoned ownReclaiming.mem 0 := by
    decide +kernel
  obtain ⟨k', hrun, -⟩ := exec_jobComplete .success 1 true hslot hgone
  have hreach : Reachable reclaiming ownReclaiming :=
    .of_get ownReclaims_runs (by decide +kernel)
  exact ⟨hgone, k', _, hrun,
    (abandoned_reclaimed hreach).2 (.jobComplete .rvd0 .success 1) 0 true k' _ _ hslot hgone
      (by decide +kernel) hrun⟩

/-- A file gives up on its job on the peer's core, which then completes. -/
abbrev peerReclaims : List (Action Request) :=
  [.enter (.mapMmio .rvd0 4096), .enter (.mapMmio .rvd1 4096), .enter .peerArrival, .run 2 true] ++
    submitBare 3 0 ++ submitBare 4 0 ++ [.run 4 true, .enter (.startPeerKick 0), .run 5 true,
    .run 5 true, .run 5 true, .enter (.wait 0 2 100), .run 6 false, .run 6 true,
    .enter (.interrupt .rvd1 1), .run 7 true, .run 7 true, .run 5 true, .run 5 true, .run 5 true,
    .run 5 true, .run 5 true]

theorem peerReclaims_runs : (machine.run init peerReclaims).isSome = true := by
  decide +kernel

abbrev peerReclaiming : Sys := (machine.run init peerReclaims).get peerReclaims_runs

abbrev peerKeeps : List (Action Request) := peerReclaims ++ [.run 5 true]

theorem peerKeeps_runs : (machine.run init peerKeeps).isSome = true := by
  decide +kernel

/-- The worker of a peer kick gives up on its transient job, which then completes. -/
abbrev workerGivesUp : List (Action Request) :=
  [.enter (.mapMmio .rvd0 4096), .enter (.mapMmio .rvd1 4096), .enter .peerArrival, .run 2 true] ++
    submitBare 3 0 ++ submitBare 4 0 ++ [.run 4 true, .enter (.startPeerKick 0), .run 5 true,
    .run 5 true, .run 5 true, .run 5 false, .run 5 true, .enter (.interrupt .rvd1 1), .run 6 true]

theorem workerGivesUp_runs : (machine.run init workerGivesUp).isSome = true := by
  decide +kernel

abbrev workerGaveUp : Sys := (machine.run init workerGivesUp).get workerGivesUp_runs

/-- The peer completion puts the abandoned job on `Completed` and frees nothing, and there it stays;
RVD1's completion of an abandoned transient job frees it with the tag of the other pool. -/
theorem peer_keeps_abandoned :
    (Reachable .any peerReclaiming ∧ Abandoned peerReclaiming.mem 1 ∧
      Completes peerReclaiming.mem 1 (.peerCompletion 2 .success 1) ∧
      ∃ k' calls, exec peerReclaiming.mem (.peerCompletion 2 .success 1) true =
          some (.next k' calls []) ∧
        (∀ tag, .release [(1, tag)] ∉ calls) ∧ 1 ∈ (k'.queue .rvd0).completed) ∧
    (∃ s : Sys, Reachable .any s ∧ Abandoned s.mem 1 ∧ 1 ∈ (s.mem.queue .rvd0).completed) ∧
    Reachable .any workerGaveUp ∧ Abandoned workerGaveUp.mem 2 ∧
      Completes workerGaveUp.mem 2 (.jobComplete .rvd1 .success 1) ∧
      ∃ k', exec workerGaveUp.mem (.jobComplete .rvd1 .success 1) true =
          some (.next k' [.release [(2, .jppM)]] []) ∧
        (workerGaveUp.mem.jobs 2).tag = .gFKR := by
  refine ⟨⟨.of_get peerReclaims_runs (by decide +kernel), by decide +kernel, ?_, ?_⟩,
    ⟨_, .of_get peerKeeps_runs (by decide +kernel), by decide +kernel, by decide +kernel⟩,
    .of_get workerGivesUp_runs (by decide +kernel), by decide +kernel, ?_, ?_⟩
  · constructor <;> decide +kernel
  · obtain ⟨k', hrun, hcompleted⟩ := exec_peerCompletion (k := peerReclaiming.mem) (p := 1)
      .success 1 true (by decide +kernel)
    have hid : (peerReclaiming.mem.jobs 1).id = 2 := by
      decide +kernel
    rw [hid] at hrun
    refine ⟨k', _, hrun, fun tag hmem => ?_, by simp [hcompleted]⟩
    simp only [wantKick] at hmem
    split at hmem <;> simp at hmem
  · have hslot : (workerGaveUp.mem.queue .rvd1).inFlight 0 = some 2 := by
      decide +kernel
    exact hslot
  · obtain ⟨k', hrun, -⟩ := exec_jobComplete (k := workerGaveUp.mem) (d := .rvd1) (p := 2)
      .success 1 true (by decide +kernel) (by decide +kernel)
    have hempty : (workerGaveUp.mem.queue .rvd1).pending = [] := by
      decide +kernel
    rw [wantKick, hempty] at hrun
    exact ⟨k', hrun, by decide +kernel⟩

end Rkvdec.Dispatch
