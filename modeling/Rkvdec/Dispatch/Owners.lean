import Rkvdec.Dispatch.Representation
import Rkvdec.Dispatch.Places

/-! Whose a job is: the jobs RVD0 deals with come from submits and have a file and an id of their
own, the transient jobs of RVD1 have no file. -/
namespace Rkvdec.Dispatch

open Lib Kernel

variable {k k' : Kernel} {F : Multiset Frame} {call : Frame} {calls : List Frame}
  {tr events : List Event} {r : Request} {good : Bool} {p : Ptr} {d : Dev}

/-- The jobs of RVD0 the call has at hand. -/
def Frame.carries : Frame → List Ptr
  | .submitEnqueue _ p => [p]
  | .kickPromotions _ promos => promos.map Promotion.job
  | .rollback _ p _ _ => [p]
  | .signal p _ => [p]
  | _ => []

attribute [local simp] Frame.carries

/-- A job RVD0 deals with. -/
def Home (k : Kernel) (F : Multiset Frame) (p : Ptr) : Prop :=
  (k.queue .rvd0).Holds p ∨ p ∈ gather Frame.carries F

namespace Queue.Holds

variable {q : Queue} {c : Core}

theorem of_releaseSlot (h : (Dispatch.releaseSlot q c).Holds p) : q.Holds p := by
  obtain h | h | ⟨c', h⟩ := h
  · exact .inl h
  · exact .inr (.inl h)
  · by_cases hc : c' = c
    · simp [hc] at h
    · exact .inr (.inr ⟨c', by simpa [hc] using h⟩)

theorem of_append_completed {l : List Ptr}
    (h : Queue.Holds { q with completed := q.completed ++ l } p) :
    q.Holds p ∨ p ∈ l := by
  obtain h | h | h := h
  · exact .inl (.inl h)
  · exact (List.mem_append.mp h).imp_left fun h => .inr (.inl h)
  · exact .inl (.inr (.inr h))

/-- A queue some jobs were taken off. -/
theorem of_sublist {pending completed : List Ptr} (hpending : pending.Sublist q.pending)
    (hcompleted : completed.Sublist q.completed)
    (h : Queue.Holds { q with pending := pending, completed := completed } p) : q.Holds p :=
  h.imp (hpending.subset ·) (.imp_left (hcompleted.subset ·))

end Queue.Holds

namespace Home

theorem of_step (hq : (k'.queue .rvd0).Holds p → Home k (call ::ₘ F) p)
    (hcalls : p ∈ calls.flatMap Frame.carries → Home k (call ::ₘ F) p)
    (h : Home k' (↑calls + F) p) : Home k (call ::ₘ F) p := by
  obtain h | h := h
  · exact hq h
  · rw [mem_gather_coe_add] at h
    obtain h | h := h
    · exact hcalls h
    · refine .inr ?_
      rw [gather_cons]
      exact Multiset.mem_add.mpr (.inr h)

theorem of_carries (h : p ∈ call.carries) : Home k (call ::ₘ F) p := by
  refine .inr ?_
  rw [gather_cons]
  exact Multiset.mem_add.mpr (.inl h)

theorem promote {out : List Promotion} {c : Core} {q : Ptr}
    (hshape : Shape k (.kickPromotions d out ::ₘ F) tr)
    (hpick : (k.queue d).pickPendingByOwnerLru k.jobs = some q)
    (h : Home (k.promote d q c) (.kickPromotions d (out ++ [⟨q, c⟩]) ::ₘ F) p) :
    Home k (.kickPromotions d out ::ₘ F) p := by
  have hq := Queue.pickPendingByOwnerLru_mem hpick
  cases d with
  | rvd1 => simp [hshape.slots.peerPending] at hq
  | rvd0 =>
    simp only [Home, Queue.Holds, promote_queue, Promoting.promote, Function.update_self,
      gather_cons, Frame.carries, List.map_append, List.map_cons, List.map_nil, Multiset.mem_add,
      Multiset.mem_coe, List.mem_append, List.mem_singleton] at h ⊢
    rcases h with (h | h | ⟨c', h⟩) | (h | h) | h
    · exact .inl (.inl (List.mem_of_mem_erase h))
    · exact .inl (.inr (.inl h))
    · by_cases hc : c' = c
      · obtain rfl : q = p := by simpa [hc] using h
        exact .inl (.inl hq)
      · exact .inl (.inr (.inr ⟨c', by simpa [hc] using h⟩))
    · exact .inr (.inl h)
    · exact .inl (.inl (h ▸ hq))
    · exact .inr (.inr h)

theorem promoted (hshape : Shape k (.kickPromotions d [] ::ₘ F) tr)
    (h : Home (k.promoted d) (.kickPromotions d (k.promoting d).out ::ₘ F) p) :
    Home k (.kickPromotions d [] ::ₘ F) p := by
  refine hshape.promotions (J := fun k' F' => Home k' F' p → Home k (.kickPromotions d [] ::ₘ F) p)
    id ?_ h
  exact fun _ _ _ _ hshape _ hpick ih h => ih (h.promote hshape hpick)

/-- No section makes a job RVD0 did not have. -/
theorem runs (hshape : Shape k (call ::ₘ F) tr) (hrun : Runs k call good k' calls events)
    (h : Home k' (↑calls + F) p) : Home k (call ::ₘ F) p := by
  have keep : ((k'.queue .rvd0).Holds p → (k.queue .rvd0).Holds p) →
      calls.flatMap Frame.carries ⊆ call.carries → Home k (call ::ₘ F) p :=
    fun hq hcalls => h.of_step (fun hp => .inl (hq hp)) fun hp => of_carries (hcalls hp)
  cases hrun with
  | @submitEnqueue f q _ room =>
    simp only [coe_cons_add, coe_nil_add] at h
    have hold := promoted hshape.insert (h.imp_left id)
    simp only [Home, Queue.Holds, setQueue_queue, Function.update_self, gather_cons, Frame.carries,
      List.map_nil, Multiset.coe_nil, zero_add, Multiset.mem_add, Multiset.mem_coe,
      List.mem_append, List.mem_singleton] at hold ⊢
    tauto
  | @kickWorker d _ rearm =>
    simp only [coe_cons_add, coe_nil_add] at h
    have hold := promoted hshape.disarm h
    cases d <;> simpa [Home, Queue.Holds] using hold
  | @rollback d q c status _ alive slot =>
    obtain ⟨rfl, rfl⟩ := (fits_cons.mp hshape.fits).1
    refine h.of_step (fun hp => ?_) fun hp => of_carries (by simpa using hp)
    rw [setQueue_queue, Function.update_self] at hp
    exact hp.of_releaseSlot.of_append_completed.elim .inl fun hp => of_carries hp
  | @rollbackLost d q c status _ alive slot =>
    obtain ⟨rfl, rfl⟩ := (fits_cons.mp hshape.fits).1
    refine h.of_step (fun hp => ?_) fun hp => of_carries (by simpa using hp)
    rw [setQueue_queue, Function.update_self] at hp
    exact hp.of_append_completed.elim .inl fun hp => of_carries hp
  | @completeOrphan d _ _ q _ slot orphan pin =>
    refine keep (fun hp => ?_) (by simp)
    cases d with
    | rvd0 => exact Queue.Holds.of_releaseSlot (by simpa using hp)
    | rvd1 => simpa using hp
  | @complete d _ _ q _ slot keeps =>
    refine keep (fun hp => ?_) (by simp)
    cases d with
    | rvd0 =>
      rw [setQueue_queue, Function.update_self] at hp
      refine hp.of_releaseSlot.of_append_completed.elim id fun hp => ?_
      exact .inr (.inr ⟨0, by simpa [List.mem_singleton.mp hp] using slot⟩)
    | rvd1 => simpa using hp
  | @peerCompletion _ _ _ q _ slot id =>
    have hheld : (k.queue .rvd0).Holds q := .inr (.inr ⟨1, slot⟩)
    refine h.of_step (fun hp => ?_) fun hp => ?_
    · rw [setQueue_queue, Function.update_self] at hp
      refine hp.of_releaseSlot.of_append_completed.elim .inl fun hp => ?_
      exact .inl (List.mem_singleton.mp hp ▸ hheld)
    · obtain rfl : p = q := by simpa using hp
      exact .inl hheld
  | @enqueueKickWorker d =>
    refine keep (fun hp => ?_) (by split <;> simp)
    cases d <;> simpa [Queue.Holds] using hp
  | @workerExit d =>
    refine keep (fun hp => ?_) (by simp)
    cases d <;> simpa [Queue.Holds] using hp
  | foreignBusy | foreignRun | foreignReap =>
    exact keep (fun hp => by simpa using hp) (by simp)
  | waitExpiredPending =>
    refine keep (fun hp => ?_) (by simp)
    rw [setQueue_queue, Function.update_self] at hp
    exact hp.of_sublist List.erase_sublist (.refl _)
  | waitExpiredCompleted | waitReap =>
    refine keep (fun hp => ?_) (by simp)
    rw [setQueue_queue, Function.update_self] at hp
    exact hp.of_sublist (.refl _) List.erase_sublist
  | @drainPost f q timedOut _ alive =>
    refine keep (fun hp => ?_) (by cases timedOut <;> simp)
    rw [setQueue_queue, Function.update_self, unpinned_queue] at hp
    exact hp.of_sublist (.refl _) List.filter_sublist
  | _ => exact keep id (by simp)

/-- The only job a request brings is the one it submits. -/
theorem enters_cases (hrun : Enters k r k' calls events) (h : Home k' (↑calls + F) p) :
    Home k F p ∨ p = k.nextPtr ∧ ∃ f input allocOk prog, r = .submit f input allocOk ∧
      k'.jobs p = submitJob f ((k.queue .rvd0).nextId + 1) prog ∧ k'.nextPtr = k.nextPtr + 1 := by
  have keep : ((k'.queue .rvd0).Holds p → (k.queue .rvd0).Holds p) →
      calls.flatMap Frame.carries = [] → Home k F p := by
    intro hq hcalls
    refine h.imp hq fun hp => ?_
    simpa [gather_coe_add, hcalls] using hp
  cases hrun with
  | @submit f input allocOk prog id lock ok fresh =>
    rcases h with h | h
    · exact .inl (.inl (by simpa [Queue.Holds] using h))
    · rw [coe_cons_add, coe_nil_add, gather_cons, Multiset.mem_add] at h
      refine h.symm.imp .inr fun h => ?_
      obtain rfl : p = k.nextPtr := by simpa using h
      exact ⟨rfl, f, input, allocOk, prog, rfl, by simp [fresh], rfl⟩
  | waitTake =>
    refine .inl (keep (fun hp => ?_) (by simp))
    rw [setQueue_queue, Function.update_self] at hp
    exact hp.of_sublist (.refl _) List.erase_sublist
  | drainOwner =>
    refine .inl (keep (fun hp => ?_) (by simp))
    rw [setQueue_queue, Function.update_self] at hp
    exact hp.of_sublist List.filter_sublist List.filter_sublist
  | peerArrival => exact .inl (keep (fun hp => by simpa [Queue.Holds] using hp) rfl)
  | detachPeer waits =>
    refine .inl (keep (fun hp => by simpa [Queue.Holds] using hp) ?_)
    obtain rfl | ⟨q, -, rfl⟩ := waits <;> rfl
  | _ => exact .inl (keep id rfl)

theorem enters (hrun : Enters k r k' calls events) (h : Home k' (↑calls + F) p) :
    Home k F p ∨ p < k'.nextPtr ∧ (k'.jobs p).owner ≠ none := by
  refine (h.enters_cases hrun).imp_right ?_
  rintro ⟨rfl, f, input, allocOk, prog, -, hjob, hnext⟩
  simp [hjob, hnext, submitJob]

end Home

/-- Files and ids. -/
structure Owners (k : Kernel) (F : Multiset Frame) : Prop where
  home : ∀ p, Home k F p → p < k.nextPtr ∧ (k.jobs p).owner ≠ none
  foreign : ∀ p, (k.queue .rvd1).inFlight 0 = some p → (k.jobs p).owner = none
  le : ∀ p < k.nextPtr, (k.jobs p).owner ≠ none → (k.jobs p).id ≤ (k.queue .rvd0).nextId
  inj : ∀ p < k.nextPtr, ∀ q < k.nextPtr, (k.jobs p).owner ≠ none → (k.jobs q).owner ≠ none →
    (k.jobs p).id = (k.jobs q).id → p = q

namespace Owners

theorem owner_fixed {j j' : Job} (h : j'.fixed = j.fixed) : j'.owner = j.owner :=
  congrArg (fun x => x.2.1) h

theorem id_fixed {j j' : Job} (h : j'.fixed = j.fixed) : j'.id = j.id :=
  congrArg Prod.fst h

/-- A step that leaves the jobs as they are but for a fresh one without a file. -/
theorem step {G : Multiset Frame} (h : Owners k F)
    (hfixed : ∀ p, p ≠ k.nextPtr → (k'.jobs p).fixed = (k.jobs p).fixed)
    (hfresh : k'.nextPtr = k.nextPtr ∨
      k'.nextPtr = k.nextPtr + 1 ∧ (k'.jobs k.nextPtr).owner = none)
    (hhome : ∀ p, Home k' G p → Home k F p ∨ p < k'.nextPtr ∧ (k'.jobs p).owner ≠ none)
    (hforeign : ∀ p, (k'.queue .rvd1).inFlight 0 = some p →
      (k.queue .rvd1).inFlight 0 = some p ∧ p ≠ k.nextPtr ∨
        p = k.nextPtr ∧ k'.nextPtr = k.nextPtr + 1)
    (hid : (k'.queue .rvd0).nextId = (k.queue .rvd0).nextId) : Owners k' G := by
  have hnext : k.nextPtr ≤ k'.nextPtr := by
    rcases hfresh with hfresh | ⟨hfresh, -⟩ <;> exact hfresh ▸ by simp
  have hold : ∀ p < k'.nextPtr, (k'.jobs p).owner ≠ none → p < k.nextPtr ∧
      (k.jobs p).owner ≠ none ∧ (k'.jobs p).id = (k.jobs p).id := by
    intro p hp howner
    have hne : p ≠ k.nextPtr := by
      rintro rfl
      rcases hfresh with hfresh | ⟨-, hnone⟩
      · exact absurd hp (hfresh ▸ lt_irrefl _)
      · exact howner hnone
    refine ⟨?_, owner_fixed (hfixed p hne) ▸ howner, id_fixed (hfixed p hne)⟩
    rcases hfresh with hfresh | ⟨hfresh, -⟩
    · exact hfresh ▸ hp
    · exact lt_of_le_of_ne (Nat.lt_succ_iff.mp (by rwa [hfresh] at hp)) hne
  refine ⟨fun p hp => ?_, fun p hp => ?_, fun p hp howner => ?_,
    fun p hp q hq howner howner' heq => ?_⟩
  · rcases hhome p hp with hp | hp
    · obtain ⟨hlt, howner⟩ := h.home p hp
      exact ⟨lt_of_lt_of_le hlt hnext, owner_fixed (hfixed p hlt.ne) ▸ howner⟩
    · exact hp
  · rcases hforeign p hp with ⟨hslot, hne⟩ | ⟨rfl, hone⟩
    · rw [owner_fixed (hfixed p hne)]
      exact h.foreign p hslot
    · rcases hfresh with hsame | ⟨-, hnone⟩
      · exact absurd (hsame.symm.trans hone) (Nat.lt_succ_self _).ne
      · exact hnone
  · obtain ⟨hlt, hold, hsame⟩ := hold p hp howner
    rw [hsame, hid]
    exact h.le p hlt hold
  · obtain ⟨hlt, hpown, hpid⟩ := hold p hp howner
    obtain ⟨hlt', hqown, hqid⟩ := hold q hq howner'
    exact h.inj p hlt q hlt' hpown hqown (by rw [← hpid, ← hqid, heq])

theorem promoted_rvd1 (hshape : Shape k (.kickPromotions d [] ::ₘ F) tr) :
    ((k.promoted d).queue .rvd1).inFlight 0 = (k.queue .rvd1).inFlight 0 ∧
    ((k.promoted d).queue .rvd0).nextId = (k.queue .rvd0).nextId := by
  refine hshape.promotions (J := fun k' _ =>
    (k'.queue .rvd1).inFlight 0 = (k.queue .rvd1).inFlight 0 ∧
    (k'.queue .rvd0).nextId = (k.queue .rvd0).nextId) ⟨rfl, rfl⟩ ?_
  intro k' out p c hshape _ hpick hk'
  cases d with
  | rvd0 => simpa [Promoting.promote] using hk'
  | rvd1 =>
    have hp := Queue.pickPendingByOwnerLru_mem hpick
    simp [hshape.slots.peerPending] at hp

theorem runs (h : Owners k (call ::ₘ F)) (hshape : Shape k (call ::ₘ F) tr)
    (hrun : Runs k call good k' calls events) : Owners k' (↑calls + F) := by
  have hbound : ∀ p, (k.queue .rvd1).inFlight 0 = some p → p ≠ k.nextPtr := fun p hp =>
    place_bound hshape (F := call ::ₘ F) (mem_foreignOwn.mpr hp)
  have step := h.step (G := ↑calls + F) (fun _ => hrun.fixed)
  have home : ∀ p, Home k' (↑calls + F) p →
      Home k (call ::ₘ F) p ∨ p < k'.nextPtr ∧ (k'.jobs p).owner ≠ none :=
    fun _ hp => .inl (hp.runs hshape hrun)
  have same : k'.nextPtr = k.nextPtr → (k'.queue .rvd0).nextId = (k.queue .rvd0).nextId →
      (∀ p, (k'.queue .rvd1).inFlight 0 = some p → (k.queue .rvd1).inFlight 0 = some p) →
      Owners k' (↑calls + F) := fun hnext hid hslot =>
    step (.inl hnext) home (fun p hp => .inl ⟨hslot p hp, hbound p (hslot p hp)⟩) hid
  cases hrun with
  | submitEnqueue room =>
    obtain ⟨hslot, hid⟩ := promoted_rvd1 hshape.insert
    exact same rfl (by simpa using hid) fun p hp => by simpa [hslot] using hp
  | @kickWorker d _ rearm =>
    obtain ⟨hslot, hid⟩ := promoted_rvd1 hshape.disarm
    refine same rfl ?_ fun p hp => ?_
    · cases d with
      | rvd0 => simpa using hid
      | rvd1 => simp
    · rw [hslot] at hp
      cases d <;> simpa using hp
  | @foreignBusy w id _ slot =>
    refine step (.inr ⟨rfl, by simp [foreignJob]⟩) home (fun p hp => .inl ?_) (by simp)
    have hp : (k.queue .rvd1).inFlight 0 = some p := by simpa using hp
    exact ⟨hp, hbound p hp⟩
  | @foreignRun w id _ slot =>
    refine step (.inr ⟨rfl, by simp [foreignJob]⟩) home (fun p hp => .inr ⟨?_, rfl⟩) (by simp)
    simpa [eq_comm] using hp
  | @completeOrphan d _ _ q _ slot orphan pin | @complete d _ _ q _ slot keep =>
    refine same rfl (by cases d <;> simp) fun p hp => ?_
    cases d with
    | rvd0 => simpa using hp
    | rvd1 => simp [hshape.slots.target .rvd1 q slot] at hp
  | rollback | rollbackLost =>
    obtain ⟨rfl, rfl⟩ := (fits_cons.mp hshape.fits).1
    exact same rfl (by simp) fun p hp => by simpa using hp
  | @enqueueKickWorker d | @workerExit d =>
    exact same rfl (by cases d <;> simp) fun p hp => by cases d <;> simpa using hp
  | @drainPost f q timedOut _ alive =>
    exact same (by simp) (by simp) fun p hp => by simpa using hp
  | _ => exact same rfl (by simp) fun p hp => by simpa using hp

/-- A submitted job gets the next id. -/
theorem submit {F' : Multiset Frame} {f : File} {prog : Dense.Program} (h : Owners k F)
    (hshape : Shape k F tr) (hjobs : k'.jobs = Function.update k.jobs k.nextPtr
      (submitJob f ((k.queue .rvd0).nextId + 1) prog)) (hnext : k'.nextPtr = k.nextPtr + 1)
    (hid : (k'.queue .rvd0).nextId = (k.queue .rvd0).nextId + 1)
    (hslot : (k'.queue .rvd1).inFlight 0 = (k.queue .rvd1).inFlight 0)
    (hhome : ∀ p, Home k' F' p → Home k F p ∨ p < k'.nextPtr ∧ (k'.jobs p).owner ≠ none) :
    Owners k' F' := by
  have hold : ∀ p, p ≠ k.nextPtr → k'.jobs p = k.jobs p := by
    intro p hp
    rw [hjobs, Function.update_of_ne hp]
  have hnew : k'.jobs k.nextPtr = submitJob f ((k.queue .rvd0).nextId + 1) prog := by
    rw [hjobs, Function.update_self]
  have hlt : ∀ p < k'.nextPtr, p ≠ k.nextPtr → p < k.nextPtr := by
    intro p hp hne
    rw [hnext] at hp
    exact lt_of_le_of_ne (Nat.lt_succ_iff.mp hp) hne
  -- The ids before are at most the counter, the fresh one is above it.
  have hbelow : ∀ p < k'.nextPtr, p ≠ k.nextPtr → (k'.jobs p).owner ≠ none →
      (k'.jobs p).id ≤ (k.queue .rvd0).nextId := by
    intro p hp hne howner
    rw [hold p hne] at howner ⊢
    exact h.le p (hlt p hp hne) howner
  refine ⟨fun p hp => ?_, fun p hp => ?_, fun p hp howner => ?_,
    fun p hp q hq howner howner' heq => ?_⟩
  · rcases hhome p hp with hp | hp
    · obtain ⟨hlt, howner⟩ := h.home p hp
      rw [hold p hlt.ne, hnext]
      exact ⟨hlt.trans (Nat.lt_succ_self _), howner⟩
    · exact hp
  · rw [hslot] at hp
    rw [hold p (place_bound hshape (mem_foreignOwn.mpr hp))]
    exact h.foreign p hp
  · by_cases hne : p = k.nextPtr
    · rw [hne, hnew, hid]
      exact le_rfl
    · rw [hid]
      exact (hbelow p hp hne howner).trans (Nat.le_succ _)
  · have hfresh : (k'.jobs k.nextPtr).id = (k.queue .rvd0).nextId + 1 := by rw [hnew]; rfl
    by_cases hpn : p = k.nextPtr
    · by_cases hqn : q = k.nextPtr
      · rw [hpn, hqn]
      · have := hbelow q hq hqn howner'
        rw [← heq, hpn, hfresh] at this
        omega
    · by_cases hqn : q = k.nextPtr
      · have := hbelow p hp hpn howner
        rw [heq, hqn, hfresh] at this
        omega
      · rw [hold p hpn] at howner heq
        rw [hold q hqn] at howner' heq
        exact h.inj p (hlt p hp hpn) q (hlt q hq hqn) howner howner' heq

theorem enters (h : Owners k F) (hshape : Shape k F tr) (hrun : Enters k r k' calls events) :
    Owners k' (↑calls + F) := by
  have hbound : ∀ p, (k.queue .rvd1).inFlight 0 = some p → p ≠ k.nextPtr := fun p hp =>
    place_bound hshape (F := F) (mem_foreignOwn.mpr hp)
  have same : k'.nextPtr = k.nextPtr → (k'.queue .rvd0).nextId = (k.queue .rvd0).nextId →
      (k'.queue .rvd1).inFlight 0 = (k.queue .rvd1).inFlight 0 → Owners k' (↑calls + F) := by
    intro hnext hid hslot
    refine h.step (fun _ => hrun.fixed) (.inl hnext) (fun _ hp => hp.enters hrun) ?_ hid
    exact fun p hp => .inl ⟨hslot ▸ hp, hbound p (hslot ▸ hp)⟩
  have hhome : ∀ p, Home k' (↑calls + F) p →
      Home k F p ∨ p < k'.nextPtr ∧ (k'.jobs p).owner ≠ none := fun _ hp => hp.enters hrun
  cases hrun with
  | submit lock ok fresh =>
    subst fresh
    exact h.submit hshape rfl rfl (by simp) (by simp) hhome
  | waitTake | drainOwner | peerArrival | detachPeer => exact same rfl (by simp) (by simp)
  | _ => exact same rfl rfl rfl

end Owners

theorem owners_init : Owners kernelInit 0 where
  home p hp := by simp [Home, Queue.Holds, kernelInit, jobQueueInit] at hp
  foreign p hp := by simp [kernelInit, jobQueueInit] at hp
  le p hp := by simp [kernelInit] at hp
  inj p hp := by simp [kernelInit] at hp

theorem owners_reachable {G : Guard} {s : Sys} (h : Reachable G s) : Owners s.mem s.calls :=
  Reachable.invariant (J := fun k F _ => Owners k F) (fun _ => shape_reachable) owners_init
    (fun hshape howners _ hrun => howners.enters hshape hrun)
    (fun hshape howners _ hrun => howners.runs hshape hrun) h

/-- The only jobs a section makes are transient. -/
theorem Runs.fresh (h : Runs k call good k' calls events) : k'.nextPtr = k.nextPtr ∨
    k'.nextPtr = k.nextPtr + 1 ∧ (k'.jobs k.nextPtr).owner = none := by
  cases h with
  | foreignBusy | foreignRun => exact .inr (by simp [foreignJob])
  | drainPost | submitEnqueue | kickWorker => exact .inl (by simp)
  | _ => exact .inl rfl

/-- The buffer is the file's, or about to be. -/
def Held (k : Kernel) (F : Multiset Frame) (f : File) (b : Dense.Buffer) : Prop :=
  b ∈ k.buffers f ∨ .bufInsert f b ∈ F

/-- A handle is not zero and belongs to one file, and the handles of a job are its owner's. -/
structure Handles (k : Kernel) (F : Multiset Frame) : Prop where
  cookie : ∀ f b, Held k F f b → b.cookie ≠ 0 ∧ b.cookie ≤ k.nextCookie
  file : ∀ f b g b', Held k F f b → Held k F g b' → b.cookie = b'.cookie → f = g
  slots : ∀ p < k.nextPtr, ∀ g, (k.jobs p).owner = some g → ∀ s ∈ (k.jobs p).prog.iovaSlots,
    s.bufferHandle ≠ 0 ∧ s.bufferHandle ≤ k.nextCookie ∧
      ∀ f b, Held k F f b → b.cookie = s.bufferHandle → f = g

namespace Handles

theorem step {F' : Multiset Frame} (h : Handles k F)
    (hheld : ∀ f b, Held k' F' f b → Held k F f b) (hcookie : k'.nextCookie = k.nextCookie)
    (hjobs : ∀ p < k'.nextPtr, ∀ g, (k'.jobs p).owner = some g →
      p < k.nextPtr ∧ (k'.jobs p).fixed = (k.jobs p).fixed) : Handles k' F' := by
  refine ⟨fun f b hb => ?_, fun f b g b' hb hb' => h.file f b g b' (hheld f b hb) (hheld g b' hb'),
    fun p hp g hg s hs => ?_⟩
  · rw [hcookie]
    exact h.cookie f b (hheld f b hb)
  · obtain ⟨hlt, hfixed⟩ := hjobs p hp g hg
    have hprog : (k'.jobs p).prog = (k.jobs p).prog := congrArg (fun x => x.2.2.2) hfixed
    rw [Owners.owner_fixed hfixed] at hg
    rw [hprog] at hs
    obtain ⟨hne, hle, hfile⟩ := h.slots p hlt g hg s hs
    exact ⟨hne, hcookie ▸ hle, fun f b hb => hfile f b (hheld f b hb)⟩

theorem runs (h : Handles k (call ::ₘ F)) (hrun : Runs k call good k' calls events) :
    Handles k' (↑calls + F) := by
  have hjobs : ∀ p < k'.nextPtr, ∀ g, (k'.jobs p).owner = some g →
      p < k.nextPtr ∧ (k'.jobs p).fixed = (k.jobs p).fixed := by
    intro p hp g hg
    have hne : p ≠ k.nextPtr := by
      rintro rfl
      rcases hrun.fresh with hfresh | ⟨-, hnone⟩
      · exact absurd hp (hfresh ▸ lt_irrefl _)
      · simp [hnone] at hg
    refine ⟨?_, hrun.fixed hne⟩
    rcases hrun.fresh with hfresh | ⟨hfresh, -⟩
    · exact hfresh ▸ hp
    · exact lt_of_le_of_ne (Nat.lt_succ_iff.mp (by rwa [hfresh] at hp)) hne
  have same : k'.buffers = k.buffers → k'.nextCookie = k.nextCookie →
      (∀ f b, .bufInsert f b ∉ calls) → Handles k' (↑calls + F) := by
    intro hbuffers hcookie hcalls
    refine h.step (fun f b hb => ?_) hcookie hjobs
    refine hb.imp (fun hb => hbuffers ▸ hb) fun hb => Multiset.mem_cons_of_mem ?_
    exact (Multiset.mem_add.mp hb).resolve_left fun hb => hcalls f b (by simpa using hb)
  have hwant : ∀ d f b, .bufInsert f b ∉ wantKick k d := by
    intro d f b
    simp only [wantKick]
    split <;> simp
  cases hrun with
  | @bufInsert f b _ lock =>
    refine h.step (fun g b' hb => ?_) rfl hjobs
    rw [coe_nil_add] at hb
    rcases hb with hb | hb
    · by_cases hg : g = f
      · subst hg
        simp only [Function.update_self] at hb
        rcases List.mem_append.mp hb with hb | hb
        · exact .inl hb
        · rw [List.mem_singleton.mp hb]
          exact .inr (Multiset.mem_cons_self _ _)
      · exact .inl (by simpa [hg] using hb)
    · exact .inr (Multiset.mem_cons_of_mem hb)
  | @drainPost f q timedOut _ alive =>
    cases timedOut with
    | false | true => exact same rfl rfl (by simp)
  | completeOrphan | peerCompletion => exact same rfl rfl fun f b => by simp [hwant]
  | complete => exact same rfl rfl (hwant _)
  | enqueueKickWorker =>
    refine same rfl rfl ?_
    split <;> simp
  | _ => exact same rfl rfl (by simp)

theorem enters (h : Handles k F) (hrun : Enters k r k' calls events) :
    Handles k' (↑calls + F) := by
  have same : (∀ f b, b ∈ k'.buffers f → b ∈ k.buffers f) → k'.nextCookie = k.nextCookie →
      k'.nextPtr = k.nextPtr → (∀ f b, .bufInsert f b ∉ calls) → Handles k' (↑calls + F) := by
    intro hbuffers hcookie hnext hcalls
    refine h.step (fun f b hb => ?_) hcookie fun p hp g _ => ?_
    · refine hb.imp (hbuffers f b) fun hb => ?_
      exact (Multiset.mem_add.mp hb).resolve_left fun hb => hcalls f b (by simpa using hb)
    · rw [hnext] at hp
      exact ⟨hp, hrun.fixed hp.ne⟩
  cases hrun with
  | @bufAlloc f iova size window =>
    rw [coe_cons_add, coe_nil_add]
    -- The new handle is above every handle in use.
    have hcases : ∀ g b, Held { k with nextCookie := k.nextCookie + 1 }
        (.bufInsert f ⟨k.nextCookie + 1, iova, size, window⟩ ::ₘ F) g b →
        Held k F g b ∨ g = f ∧ b.cookie = k.nextCookie + 1 := by
      rintro g b (hb | hb)
      · exact .inl (.inl hb)
      · rcases Multiset.mem_cons.mp hb with hb | hb
        · cases hb
          exact .inr ⟨rfl, rfl⟩
        · exact .inl (.inr hb)
    refine ⟨fun g b hb => ?_, fun g b g' b' hb hb' heq => ?_, fun p hp g hg s hs => ?_⟩
    · rcases hcases g b hb with hb | ⟨-, hb⟩
      · exact ⟨(h.cookie g b hb).1, (h.cookie g b hb).2.trans (Nat.le_succ _)⟩
      · rw [hb]
        exact ⟨Nat.succ_ne_zero _, le_rfl⟩
    · rcases hcases g b hb with hb | ⟨hg, hb⟩ <;> rcases hcases g' b' hb' with hb' | ⟨hg', hb'⟩
      · exact h.file g b g' b' hb hb' heq
      · have := (h.cookie g b hb).2
        omega
      · have := (h.cookie g' b' hb').2
        omega
      · rw [hg, hg']
    · obtain ⟨hne, hle, hfile⟩ := h.slots p hp g hg s hs
      refine ⟨hne, hle.trans (Nat.le_succ _), fun g' b hb heq => ?_⟩
      rcases hcases g' b hb with hb | ⟨-, hb⟩
      · exact hfile g' b hb heq
      · omega
  | @bufFree f cookie b lock idle lookup =>
    refine same (fun g b' hb => ?_) rfl rfl (by simp)
    by_cases hg : g = f
    · subst hg
      simp only [Function.update_self] at hb
      exact List.mem_of_mem_erase hb
    · simpa [hg] using hb
  | @submit f input allocOk prog id lock ok fresh =>
    have hheld : ∀ g b, Held (((k.setQueue .rvd0 fun q => { q with nextId := id }).alloc
        (submitJob f id prog)).setFileLock f true) (↑[Frame.submitEnqueue f k.nextPtr] + F) g b →
        Held k F g b := by
      intro g b hb
      exact hb.imp_right fun hb => by simpa using hb
    refine ⟨fun g b hb => h.cookie g b (hheld g b hb),
      fun g b g' b' hb hb' => h.file g b g' b' (hheld g b hb) (hheld g' b' hb'),
      fun p hp g hg s hs => ?_⟩
    by_cases hne : p = k.nextPtr
    · -- The handles of the new job were looked up among the file's buffers.
      subst hne
      obtain ⟨hres, -, hslots⟩ := Dense.submitDense_ok ok
      obtain rfl : f = g := by simpa [submitJob] using hg
      have hs : s ∈ input.iovaSlots := by
        rw [← hslots]
        simpa [submitJob] using hs
      obtain ⟨b, hb, hcookie⟩ := Dense.resolveSlots_owned hres s hs
      obtain ⟨hpos, hle⟩ := h.cookie f b (.inl hb)
      refine ⟨hcookie ▸ hpos, hcookie ▸ hle, fun g b' hb' heq => ?_⟩
      exact h.file g b' f b (hheld g b' hb') (.inl hb) (heq.trans hcookie.symm)
    · have hlt : p < k.nextPtr := lt_of_le_of_ne (Nat.lt_succ_iff.mp hp) hne
      simp only [setFileLock_jobs, alloc_jobs, setQueue_jobs, setQueue_nextPtr,
        Function.update_of_ne hne] at hg hs
      obtain ⟨hpos, hle, hfile⟩ := h.slots p hlt g hg s hs
      exact ⟨hpos, hle, fun g' b hb => hfile g' b (hheld g' b hb)⟩
  | detachPeer waits =>
    refine same (fun _ _ hb => hb) rfl rfl ?_
    obtain rfl | ⟨q, -, rfl⟩ := waits <;> simp
  | _ => exact same (fun _ _ hb => hb) rfl rfl (by simp)

end Handles

theorem handles_init : Handles kernelInit 0 where
  cookie f b hb := by simp [Held, kernelInit] at hb
  file f b g b' hb := by simp [Held, kernelInit] at hb
  slots p hp := by simp [kernelInit] at hp

theorem handles_reachable {G : Guard} {s : Sys} (h : Reachable G s) : Handles s.mem s.calls :=
  Reachable.invariant (I := fun _ _ _ => True) (J := fun k F _ => Handles k F) (fun _ _ => trivial)
    handles_init (fun _ hhandles _ hrun => hhandles.enters hrun)
    (fun _ hhandles _ hrun => hhandles.runs hrun) h

end Rkvdec.Dispatch
