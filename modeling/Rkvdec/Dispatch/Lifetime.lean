import Rkvdec.Dispatch.Abandoned
import Rkvdec.Dispatch.Admission

/-! The lifetime of a job. A pin keeps a job from whoever asks for it, and so does being unfinished;
what nobody asks is who still touches the job after letting the queue lock go. -/
namespace Rkvdec.Dispatch

open Lib Kernel

variable {k k' : Kernel} {F : Multiset Frame} {call : Frame} {calls : List Frame}
  {tr events : List Event} {r : Request} {good : Bool} {p q : Ptr} {d : Dev}

namespace Frame

/-- The job the call will touch without the queue lock and without a pin. -/
def touches : Frame → List Ptr
  | .signal p _ => [p]
  | .kickTail _ p => [p]
  | .readJob p => [p]
  | .detachWait p => [p]
  | _ => []

/-- The transient job of the peer kick the call works on. -/
def transient : Frame → List Ptr
  | .foreignWait p _ => [p]
  | .foreignExpired p _ => [p]
  | .foreignReap p _ => [p]
  | _ => []

/-- Every job the call counts on. -/
def uses (call : Frame) : List Ptr := call.pins ++ call.touches ++ call.transient

/-- The jobs the section takes off a queue to free them. -/
def reaps (k : Kernel) : Frame → List Ptr
  | .jobComplete d _ _ => ((k.queue d).inFlight 0).toList.filter fun p =>
      (k.jobs p).orphanOnComplete = true ∧ ¬ 0 < (k.jobs p).waiterPin
  | .foreignReap p _ => [p]
  | .waitExpired p =>
      if (k.jobs p).waiterPin - 1 = 0 ∧
        (p ∈ (k.queue .rvd0).pending ∨ p ∈ (k.queue .rvd0).completed) then [p] else []
  | .waitReap p => if (k.jobs p).waiterPin - 1 = 0 then [p] else []
  | .drainPost f p timedOut => (k.queue .rvd0).completed.filter fun q =>
      ((unpinned k f p timedOut).jobs q).owner = some f ∧
        ((unpinned k f p timedOut).jobs q).waiterPin = 0
  | _ => []

/-- The job the call puts on `Completed` or expects there. -/
def lists : Frame → List Ptr
  | .signal p _ => [p]
  | .waitReap p => [p]
  | _ => []

def foreignLists : Frame → List Ptr
  | .foreignReap p _ => [p]
  | _ => []

end Frame

/-- The jobs the request takes off a queue to free them, whoever has them pinned: the job a WAIT_JOB
finds completed, and those of phase 1 of a drain. -/
def Request.takes (k : Kernel) : Request → List Ptr
  | .wait f id _ => (k.queue .rvd0).completed.filter fun p =>
      (k.jobs p).id = id ∧ (k.jobs p).owner = some f
  | .drainOwner f => (k.queue .rvd0).pending.filter (fun p => (k.jobs p).owner = some f) ++
      (k.queue .rvd0).completed.filter fun p => (k.jobs p).owner = some f
  | _ => []

/-- Runs in which a WAIT_JOB and the first phase of a drain meet no pinned job, and nobody takes a
job off a queue to free it while a thread has yet to touch it without a pin. -/
def uncontested : Guard where
  enter := fun k F r => ∀ p ∈ r.takes k, (k.jobs p).waiterPin = 0 ∧ p ∉ gather Frame.touches F
  exec := fun k call F _ => ∀ p ∈ call.reaps k, p ∉ gather Frame.touches F

instance (mem : Kernel) (F : Multiset Frame) (r : Request) :
    Decidable (uncontested.enter mem F r) :=
  inferInstanceAs (Decidable (∀ p ∈ r.takes mem, _ ∧ _))

instance (mem : Kernel) (call : Frame) (F : Multiset Frame) (good : Bool) :
    Decidable (uncontested.exec mem call F good) :=
  inferInstanceAs (Decidable (∀ p ∈ call.reaps mem, _))

attribute [local simp] Frame.pins Frame.touches Frame.transient Frame.uses Frame.owns Frame.lists
  Frame.foreignLists Frame.submits Frame.loose Frame.kicks

section Sections

/-- Only the thread that holds a job frees it. -/
theorem Runs.alive (h : Runs k call good k' calls events) (hp : k.alive p = true)
    (howns : p ∉ call.owns) : k'.alive p = true := by
  cases h with
  | submitEnqueue | kickWorker | drainPost =>
    simpa using hp
  | @release q tag rest _ alive =>
    have hne : p ≠ q := by
      rintro rfl
      simp at howns
    simpa [hne] using hp
  | foreignBusy slot | foreignRun slot =>
    by_cases hnew : p = k.nextPtr
    · simp [hnew]
    · simpa [hnew] using hp
  | _ => exact hp

/-- A thread comes to hold a job by taking it off a queue or by allocating it. -/
theorem Runs.owns (h : Runs k call good k' calls events) (hp : p ∈ calls.flatMap Frame.owns) :
    p ∈ call.owns ∨ p ∈ call.reaps k ∨ p = k.nextPtr := by
  cases h with
  | completeOrphan slot orphan pin =>
    obtain rfl : p = _ := by simpa using hp
    exact .inr (.inl (by simpa [Frame.reaps, slot, orphan] using pin))
  | foreignBusy => exact .inr (.inr (by simpa using hp))
  | foreignReap => exact .inr (.inl (by simpa [Frame.reaps] using hp))
  | waitExpiredPending alive pin pending =>
    exact .inr (.inl (by simpa [Frame.reaps, pin, pending] using hp))
  | waitExpiredCompleted alive pin completed =>
    exact .inr (.inl (by simpa [Frame.reaps, pin, completed] using hp))
  | waitReap alive pin => exact .inr (.inl (by simpa [Frame.reaps, pin] using hp))
  | @drainPost f q timedOut _ alive =>
    refine .inr (.inl ?_)
    cases timedOut <;> simpa [Frame.reaps, List.map_map] using hp
  | submitBusy | takeResult => exact .inl (by simpa using hp)
  | release => exact .inl (by simp_all)
  | _ => simp at hp

/-- A completed job stays listed until it is taken off to be freed. -/
theorem Runs.listed (h : Runs k call good k' calls events) (hp : p ∈ (k.queue d).completed) :
    p ∈ (k'.queue d).completed ∨ p ∈ call.reaps k := by
  have keep : ∀ {k₀ : Kernel} {d₀ : Dev} {g : Queue → Queue}, k₀.queue = k.queue →
      (∀ q, q ∈ (k.queue d₀).completed → q ∈ (g (k.queue d₀)).completed ∨ q ∈ call.reaps k) →
      p ∈ ((k₀.setQueue d₀ g).queue d).completed ∨ p ∈ call.reaps k := by
    intro k₀ d₀ g hk₀ hg
    by_cases hd : d = d₀
    · subst hd
      rw [setQueue_queue, Function.update_self, hk₀]
      exact hg p hp
    · rw [setQueue_queue, Function.update_of_ne hd, hk₀]
      exact .inl hp
  cases h with
  | submitEnqueue | kickWorker =>
    simp only [setFileLock_queue, promoted_completed]
    exact keep rfl fun q hq => .inl hq
  | rollback | rollbackLost | complete | peerCompletion =>
    exact keep rfl fun q hq => .inl (List.mem_append_left _ hq)
  | completeOrphan | enqueueKickWorker | workerExit | waitExpiredPending =>
    exact keep rfl fun q hq => .inl hq
  | foreignBusy slot | foreignRun slot =>
    cases d <;> exact .inl (by simpa using hp)
  | @foreignReap q w _ alive completed =>
    refine keep rfl fun q' hq' => ?_
    by_cases hne : q' = q
    · exact .inr (by simp [Frame.reaps, hne])
    · exact .inl ((List.mem_erase_of_ne hne).mpr hq')
  | @waitExpiredCompleted q _ alive pin completed =>
    refine keep rfl fun q' hq' => ?_
    by_cases hne : q' = q
    · exact .inr (by simp [Frame.reaps, hne, pin, completed])
    · exact .inl ((List.mem_erase_of_ne hne).mpr hq')
  | @waitReap q _ alive pin completed =>
    refine keep rfl fun q' hq' => ?_
    by_cases hne : q' = q
    · exact .inr (by simp [Frame.reaps, hne, pin])
    · exact .inl ((List.mem_erase_of_ne hne).mpr hq')
  | @drainPost f q timedOut _ alive =>
    refine keep (unpinned_queue ..) fun q' hq' => ?_
    by_cases hreap : ((unpinned k f q timedOut).jobs q').owner = some f ∧
        ((unpinned k f q timedOut).jobs q').waiterPin = 0
    · exact .inr (List.mem_filter.mpr ⟨hq', decide_eq_true hreap⟩)
    · exact .inl (List.mem_filter.mpr ⟨hq', decide_eq_true hreap⟩)
  | _ => exact .inl hp

/-- What a call counts on it already did, or it is in a place the section sees. -/
theorem Runs.uses (h : Runs k call good k' calls events) (hp : p ∈ calls.flatMap Frame.uses) :
    calls.flatMap Frame.owns = [] ∧ call.reaps k = [] ∧
    (p ∈ call.uses ∨ (∃ d, (k.queue d).inFlight 0 = some p) ∨
      (k.queue .rvd0).inFlight 1 = some p ∨ (∃ d, (d, p) ∈ call.kicks) ∨
      p ∈ call.submits ∧ k'.alive = k.alive ∨ p ∈ call.loose ∨
      p = k.nextPtr ∧ k'.alive k.nextPtr = true) := by
  cases h with
  | submitEnqueue =>
    refine ⟨by simp, rfl, ?_⟩
    obtain rfl : p = _ := by
      simpa using hp
    exact .inr (.inr (.inr (.inr (.inl ⟨List.mem_singleton_self p, rfl⟩))))
  | rollback | rollbackLost | kicked =>
    refine ⟨by simp, rfl, ?_⟩
    simp_all
  | peerCompletion slot id =>
    refine ⟨by simp, rfl, ?_⟩
    obtain rfl : p = _ := by
      simpa using hp
    exact .inr (.inr (.inl slot))
  | dpcError slot =>
    refine ⟨by simp, rfl, ?_⟩
    obtain rfl : p = _ := by
      simpa using hp
    exact .inr (.inl ⟨_, slot⟩)
  | foreignRun slot =>
    refine ⟨by simp, rfl, ?_⟩
    obtain rfl : p = _ := by
      simpa using hp
    simp
  | @drainScan f q c _ attached slot owner =>
    refine ⟨by simp, rfl, ?_⟩
    obtain rfl : p = _ := by
      simpa using hp
    rcases core_cases c with rfl | rfl
    · exact .inr (.inl ⟨.rvd0, slot⟩)
    · exact .inr (.inr (.inl slot))
  | foreignDone | foreignTimeout | waitDone | waitTimeout | drainDone | drainTimeout =>
    refine ⟨by simp, rfl, .inl ?_⟩
    simpa using hp
  | _ => simp at hp

/-- A job is put on `Completed` before it is signalled, and a reap follows the signal. -/
theorem Runs.lists (h : Runs k call good k' calls events) (hfits : call.fits)
    (hp : p ∈ calls.flatMap Frame.lists) :
    p ∈ (k'.queue .rvd0).completed ∨ p ∈ call.pins ∧ (k.jobs p).done = true ∧ k' = k := by
  cases h with
  | rollback | rollbackLost =>
    obtain ⟨rfl, rfl⟩ := hfits
    obtain rfl : p = _ := by simpa using hp
    exact .inl (by simp [releaseSlot])
  | peerCompletion slot id =>
    obtain rfl : p = _ := by simpa using hp
    exact .inl (by simp [releaseSlot])
  | @waitDone q finite alive done =>
    obtain rfl : p = q := by simpa using hp
    exact .inr ⟨List.mem_singleton_self p, done, rfl⟩
  | _ => simp at hp

/-- A thread that waits keeps its pin; a drain takes one on a job in flight. -/
theorem Runs.pinned (h : Runs k call good k' calls events) (hp : p ∈ calls.flatMap Frame.pins) :
    p ∈ call.pins ∧ k' = k ∨
      (∃ c, (k.queue .rvd0).inFlight c = some p) ∧ (k'.jobs p).done = (k.jobs p).done := by
  cases h with
  | drainScan attached slot owner =>
    obtain rfl : p = _ := by simpa using hp
    exact .inr ⟨⟨_, slot⟩, setJob_proj Job.done _ rfl⟩
  | waitDone | waitTimeout | drainDone | drainTimeout =>
    exact .inl ⟨by simpa using hp, rfl⟩
  | _ => simp at hp

/-- The worker of a peer kick goes on with its transient job, or has just allocated it. -/
theorem Runs.transient (h : Runs k call good k' calls events) :
    calls.flatMap Frame.transient = [] ∨
    calls.flatMap Frame.transient = call.transient ∧
    calls.flatMap Frame.foreignLists = [] ∧ k' = k ∨
    (∃ p, call.transient = [p] ∧ calls.flatMap Frame.transient = [p] ∧
    (k.jobs p).done = true ∧ k' = k) ∨
    calls.flatMap Frame.transient = [k.nextPtr] ∧ calls.flatMap Frame.foreignLists = [] ∧
      (k'.jobs k.nextPtr).orphanOnComplete = false ∧
      (k'.queue .rvd1).inFlight 0 = some k.nextPtr := by
  cases h with
  | foreignRun slot => simp [foreignJob]
  | foreignDone alive done => simp [done]
  | _ => simp

/-- What is unfinished after a section was so before, or was being submitted. -/
theorem Runs.unfinished (h : Runs k call good k' calls events)
    (hp : p ∈ (k'.queue .rvd0).unfinished) :
    p ∈ (k.queue .rvd0).unfinished ∨ p ∈ call.submits := by
  have hstep := h
  cases h with
  | submitEnqueue =>
    have hin := Multiset.mem_of_le (promoted_unfinished .rvd0).1 hp
    simp only [Queue.unfinished, setQueue_queue, Function.update_self, ← Multiset.coe_add,
      Multiset.mem_add, Multiset.mem_coe, List.mem_singleton] at hin
    simp only [Queue.unfinished, Frame.submits, Multiset.mem_add, Multiset.mem_coe,
      List.mem_singleton]
    tauto
  | @kickWorker d =>
    have hin := Multiset.mem_of_le (promoted_unfinished d).1 hp
    refine .inl (Multiset.mem_of_le (Queue.Shrinks.unfinished_le ?_) hin)
    exact .setQueue ⟨.refl _, fun _ => .inl rfl⟩
  | submitBusy => exact .inl hp
  | workerExit =>
    refine .inl (Multiset.mem_of_le (Queue.Shrinks.unfinished_le ?_) hp)
    exact .setQueue ⟨.refl _, fun _ => .inl rfl⟩
  | _ => exact .inl (Multiset.mem_of_le (hstep.shrinks rfl).unfinished_le hp)

/-- A transient job is not one of RVD0's. -/
theorem foreign_apart (hshape : Shape k F tr)
    (hf : (k.queue .rvd1).inFlight 0 = some p ∨ p ∈ (k.queue .rvd1).completed)
    (hp : p ∈ (k.queue .rvd0).unfinished ∨ p ∈ (k.queue .rvd0).completed) : False := by
  have hforeign : ∃ a : Place, (a = .foreignOwn ∨ a = .foreignCompleted) ∧ p ∈ a.jobs k F := by
    rcases hf with hf | hf
    · exact ⟨_, .inl rfl, mem_foreignOwn.mpr hf⟩
    · exact ⟨_, .inr rfl, hf⟩
  have hhome : ∃ a : Place, a ≠ .foreignOwn ∧ a ≠ .foreignCompleted ∧ p ∈ a.jobs k F := by
    simp only [Queue.unfinished, Multiset.mem_add] at hp
    rcases hp with ((hp | hp) | hp) | hp
    · exact ⟨.pending, by decide, by decide, hp⟩
    · exact ⟨.own, by decide, by decide, hp⟩
    · exact ⟨.peer, by decide, by decide, hp⟩
    · exact ⟨.completed, by decide, by decide, hp⟩
  obtain ⟨a, ha, hpa⟩ := hforeign
  obtain ⟨b, hb, hb', hpb⟩ := hhome
  obtain rfl := place_unique hshape hpa hpb
  exact ha.elim hb hb'

/-- The job RVD1 runs is there until it is completed. -/
theorem Runs.foreignSlot (h : Runs k call good k' calls events) (hshape : Shape k (call ::ₘ F) tr)
    (hp : (k.queue .rvd1).inFlight 0 = some p) (horphan : (k.jobs p).orphanOnComplete = false) :
    (k'.queue .rvd1).inFlight 0 = some p ∨ p ∈ (k'.queue .rvd1).completed := by
  cases h with
  | submitEnqueue =>
    left
    rw [setFileLock_queue, (Owners.promoted_rvd1 hshape.insert).1]
    simpa using hp
  | @kickWorker d _ rearm =>
    left
    rw [(Owners.promoted_rvd1 hshape.disarm).1]
    cases d <;> simpa using hp
  | rollback | rollbackLost =>
    obtain ⟨rfl, rfl⟩ := (fits_cons.mp hshape.fits).1
    exact .inl (by simpa using hp)
  | @completeOrphan d _ _ q _ slot orphan =>
    cases d with
    | rvd0 => exact .inl (by simpa using hp)
    | rvd1 =>
      obtain rfl : q = p := Option.some.inj (slot.symm.trans hp)
      simp [orphan] at horphan
  | @complete d _ _ q _ slot =>
    cases d with
    | rvd0 => exact .inl (by simpa using hp)
    | rvd1 =>
      obtain rfl : q = p := Option.some.inj (slot.symm.trans hp)
      exact .inr (by simp [releaseSlot])
  | foreignRun slot => simp [slot] at hp
  | @enqueueKickWorker d | @workerExit d =>
    left
    cases d <;> simpa using hp
  | _ => exact .inl (by simpa using hp)

/-- A job RVD1 runs after a section it ran before, or it is the section's own. -/
theorem Runs.foreignSlot_inv (h : Runs k call good k' calls events)
    (hshape : Shape k (call ::ₘ F) tr) (hp : (k'.queue .rvd1).inFlight 0 = some p) :
    (k.queue .rvd1).inFlight 0 = some p ∨ p = k.nextPtr ∧ k'.nextPtr = k.nextPtr + 1 := by
  cases h with
  | submitEnqueue =>
    left
    rw [setFileLock_queue, (Owners.promoted_rvd1 hshape.insert).1] at hp
    simpa using hp
  | @kickWorker d _ rearm =>
    left
    rw [(Owners.promoted_rvd1 hshape.disarm).1] at hp
    cases d <;> simpa using hp
  | rollback | rollbackLost =>
    obtain ⟨rfl, rfl⟩ := (fits_cons.mp hshape.fits).1
    exact .inl (by simpa using hp)
  | @enqueueKickWorker d | @workerExit d =>
    left
    cases d <;> simpa using hp
  | @completeOrphan d _ _ q _ slot | @complete d _ _ q _ slot =>
    left
    have htarget := hshape.slots.target d q slot
    cases d with
    | rvd0 => simpa using hp
    | rvd1 => simp [htarget] at hp
  | foreignRun slot =>
    refine .inr ⟨?_, by simp⟩
    simpa [eq_comm] using hp
  | _ => exact .inl (by simpa using hp)

/-- A completed job leaves the slot it was in. -/
theorem Runs.leaves {result : NtStatus} {hwStatus : BitVec 32}
    (h : Runs k (.jobComplete d result hwStatus) good k' calls events)
    (hshape : Shape k (.jobComplete d result hwStatus ::ₘ F) tr)
    (hslot : (k.queue d).inFlight 0 = some p) :
    p ∉ (k'.queue .rvd0).unfinished ∧ (k'.queue .rvd1).inFlight 0 ≠ some p := by
  have htarget := hshape.slots.target d p hslot
  have hout : ∀ {k₁ : Kernel} {completed : Queue → List Ptr}, k₁.queue = k.queue →
      p ∉ ((k₁.setQueue d fun q =>
        releaseSlot { q with completed := completed q } (k.jobs p).targetCore).queue
          .rvd0).unfinished ∧
      ((k₁.setQueue d fun q =>
        releaseSlot { q with completed := completed q } (k.jobs p).targetCore).queue
          .rvd1).inFlight 0 ≠
          some p := by
    intro k₁ completed hk₁
    rw [htarget]
    cases d with
    | rvd0 =>
      refine ⟨fun hp => ?_, fun hp => ?_⟩
      · simp only [Queue.unfinished, setQueue_queue, hk₁, Function.update_self, releaseSlot_pending,
          releaseSlot_inFlight, Option.toList_none, Multiset.coe_nil, add_zero, ne_eq, Fin.isValue,
          one_ne_zero, not_false_eq_true, Function.update_of_ne, Multiset.mem_add, Multiset.mem_coe,
          Option.mem_toList] at hp
        rcases hp with hp | hp
        · cases place_unique hshape (mem_own.mpr hslot) (mem_pending.mpr hp)
        · cases place_unique hshape (mem_own.mpr hslot) (mem_peer.mpr hp)
      · have hp : (k.queue .rvd1).inFlight 0 = some p := by simpa [hk₁] using hp
        cases place_unique hshape (mem_own.mpr hslot) (mem_foreignOwn.mpr hp)
    | rvd1 =>
      refine ⟨fun hp => ?_, by simp⟩
      have hp : p ∈ (k.queue .rvd0).unfinished := by simpa [hk₁] using hp
      exact foreign_apart hshape (.inl hslot) (.inl hp)
  cases h with
  | completeNone slot => simp [slot] at hslot
  | @completeOrphan _ _ _ q _ slot | @complete _ _ _ q _ slot =>
    obtain rfl : q = p := Option.some.inj (slot.symm.trans hslot)
    exact hout rfl

end Sections

/-- Nobody frees a job a thread counts on. What is unfinished is not signalled, and what is
signalled and pinned is on `Completed`. -/
structure Custody (k : Kernel) (F : Multiset Frame) : Prop where
  used : ∀ p ∈ gather Frame.uses F, k.alive p = true ∧ p ∉ owned F
  idle : ∀ p, p ∈ (k.queue .rvd0).unfinished ∨ p ∈ gather Frame.submits F ∨
    (k.queue .rvd1).inFlight 0 = some p → (k.jobs p).done = false
  done : ∀ p ∈ gather Frame.pins F, (k.jobs p).done = true → p ∈ (k.queue .rvd0).completed
  listed : ∀ p ∈ gather Frame.lists F, p ∈ (k.queue .rvd0).completed
  foreign : ∀ p ∈ gather Frame.transient F, (k.jobs p).orphanOnComplete = false ∧
    ((k.queue .rvd1).inFlight 0 = some p ∨ p ∈ (k.queue .rvd1).completed)
  foreignListed : ∀ p ∈ gather Frame.foreignLists F, p ∈ (k.queue .rvd1).completed
  single : (gather Frame.transient F).Nodup

theorem mem_uses : p ∈ gather Frame.uses F ↔
    p ∈ gather Frame.pins F ∨ p ∈ gather Frame.touches F ∨ p ∈ gather Frame.transient F := by
  simp only [mem_gather, Frame.uses, List.mem_append]
  grind

theorem Frame.transient_of_foreigns (h : p ∈ call.foreigns) : p ∈ call.transient := by
  cases call <;> simp_all [Frame.foreigns]

theorem uses_of_lists (h : p ∈ gather Frame.lists F) : p ∈ gather Frame.uses F := by
  obtain ⟨call, hcall, hp⟩ := mem_gather.mp h
  refine mem_gather.mpr ⟨call, hcall, ?_⟩
  cases call <;> simp_all

theorem uses_of_foreignLists (h : p ∈ gather Frame.foreignLists F) : p ∈ gather Frame.uses F := by
  obtain ⟨call, hcall, hp⟩ := mem_gather.mp h
  refine mem_gather.mpr ⟨call, hcall, ?_⟩
  cases call <;> simp_all

theorem transient_of_foreignLists (h : p ∈ calls.flatMap Frame.foreignLists) :
    p ∈ calls.flatMap Frame.transient := by
  obtain ⟨call, hcall, hp⟩ := List.mem_flatMap.mp h
  refine List.mem_flatMap.mpr ⟨call, hcall, ?_⟩
  cases call <;> simp_all

theorem held_of_submits (h : p ∈ gather Frame.submits F) : p ∈ owned F := by
  obtain ⟨call, hcall, hp⟩ := mem_gather.mp h
  refine mem_gather.mpr ⟨call, hcall, ?_⟩
  cases call <;> simp_all

theorem mem_unfinished_slot {c : Core} (h : (k.queue .rvd0).inFlight c = some p) :
    p ∈ (k.queue .rvd0).unfinished := by
  rcases core_cases c with rfl | rfl <;> simp [Queue.unfinished, h]

/-- A job that a section takes off a queue is pinned by nobody else. -/
theorem Pins.reaps_unpinned (h : Pins k (call ::ₘ F)) (ht : Transients k (call ::ₘ F))
    (hlisted : ∀ q ∈ call.foreignLists, q ∈ (k.queue .rvd1).completed) (hp : p ∈ call.reaps k) :
    p ∉ gather Frame.pins F := by
  intro hpin
  have hlt := h.bound p (mem_gather_cons.mpr (.inr hpin))
  have hcount := h.count p hlt
  have hpos : 0 < (gather Frame.pins F).count p := Multiset.count_pos.mpr hpin
  rw [gather_cons, Multiset.count_add, Multiset.coe_count] at hcount
  cases call with
  | jobComplete d result hwStatus =>
    simp only [Frame.reaps, List.mem_filter, decide_eq_true_eq] at hp
    omega
  | foreignReap q w =>
    obtain rfl := List.mem_singleton.mp hp
    exact ht.pinned p (mem_gather_cons.mpr (.inr hpin))
      (ht.completed p (hlisted p (List.mem_singleton_self p)))
  | waitExpired q =>
    simp only [Frame.reaps, List.mem_ite_nil_right, List.mem_singleton] at hp
    obtain ⟨⟨hone, -⟩, rfl⟩ := hp
    simp only [Frame.pins, List.count_singleton_self] at hcount
    omega
  | waitReap q =>
    simp only [Frame.reaps, List.mem_ite_nil_right, List.mem_singleton] at hp
    obtain ⟨hone, rfl⟩ := hp
    simp only [Frame.pins, List.count_singleton_self] at hcount
    omega
  | drainPost f q timedOut =>
    simp only [Frame.reaps, List.mem_filter, decide_eq_true_eq] at hp
    have hzero := hp.2.2
    rw [unpinned_pin] at hzero
    simp only [Frame.pins] at hcount
    omega
  | _ => cases hp

namespace Custody

variable {call : Frame}

/-- Nobody counts on a job that a section takes off a queue to free it. -/
theorem reaps_unused (h : Custody k (call ::ₘ F)) (hshape : Shape k (call ::ₘ F) tr)
    (hpins : Pins k (call ::ₘ F)) (ht : Transients k (call ::ₘ F))
    (hguard : ∀ p ∈ call.reaps k, p ∉ gather Frame.touches F) (hp : p ∈ call.reaps k) :
    p ∉ gather Frame.uses F := by
  have hlisted : ∀ q ∈ call.foreignLists, q ∈ (k.queue .rvd1).completed :=
    fun q hq => h.foreignListed q (mem_gather_cons.mpr (.inl hq))
  rw [mem_uses]
  rintro (huse | huse | huse)
  · exact hpins.reaps_unpinned ht hlisted hp huse
  · exact hguard p hp huse
  · obtain ⟨horphan, hforeign⟩ := h.foreign p (mem_gather_cons.mpr (.inr huse))
    cases call with
    | jobComplete d result hwStatus =>
      simp only [Frame.reaps, List.mem_filter, decide_eq_true_eq] at hp
      simp [horphan] at hp
    | foreignReap q w =>
      obtain rfl := List.mem_singleton.mp hp
      have hN := h.single
      rw [gather_cons, Frame.transient, Multiset.coe_singleton, Multiset.singleton_add,
        Multiset.nodup_cons] at hN
      exact hN.1 huse
    | waitExpired q =>
      simp only [Frame.reaps, List.mem_ite_nil_right, List.mem_singleton] at hp
      obtain ⟨⟨-, hlist⟩, rfl⟩ := hp
      refine foreign_apart hshape hforeign (hlist.imp_left fun hlist => ?_)
      simp [Queue.unfinished, hlist]
    | waitReap q =>
      simp only [Frame.reaps, List.mem_ite_nil_right, List.mem_singleton] at hp
      obtain ⟨-, rfl⟩ := hp
      refine foreign_apart hshape hforeign (.inr (h.listed p ?_))
      exact mem_gather_cons.mpr (.inl (List.mem_singleton_self p))
    | drainPost f q timedOut =>
      exact foreign_apart hshape hforeign (.inr (List.mem_filter.mp hp).1)
    | _ => cases hp

/-- A job some thread counts on stays allocated and unclaimed. -/
theorem used_runs (h : Custody k (call ::ₘ F)) (hshape : Shape k (call ::ₘ F) tr)
    (hdrive : Drive k (call ::ₘ F)) (hpins : Pins k (call ::ₘ F)) (ht : Transients k (call ::ₘ F))
    (hguard : ∀ p ∈ call.reaps k, p ∉ gather Frame.touches F)
    (hrun : Runs k call good k' calls events) (hp : p ∈ gather Frame.uses (↑calls + F)) :
    k'.alive p = true ∧ p ∉ owned (↑calls + F) := by
  have howned : ∀ {q}, q ∉ owned (call ::ₘ F) → q ∉ call.owns ∧ q ∉ gather Frame.owns F := by
    intro q hq
    rw [owned, gather_cons, Multiset.mem_add, not_or] at hq
    exact ⟨hq.1, hq.2⟩
  rw [owned, gather_coe_add, Multiset.mem_add, not_or, Multiset.mem_coe]
  rcases mem_gather_coe_add.mp hp with hp | hp
  · obtain ⟨hnone, hreaps, hp⟩ := hrun.uses hp
    rw [hnone]
    -- a job in a place of its own is allocated and with no thread
    have hplace : ∀ a : Place, a ≠ .held → p ∈ a.jobs k (call ::ₘ F) →
        k'.alive p = true ∧ p ∉ [] ∧ p ∉ gather Frame.owns F := by
      intro a ha hpa
      have hheld : p ∉ owned (call ::ₘ F) :=
        fun hp => ha (place_unique hshape hpa (mem_held.mpr hp))
      have hF := howned hheld
      exact ⟨hrun.alive (place_alive hshape hpa) hF.1, List.not_mem_nil, hF.2⟩
    rcases hp with hp | ⟨d, hslot⟩ | hslot | ⟨d, hkick⟩ | ⟨hsub, halive⟩ | hloose |
      ⟨rfl, halive⟩
    · obtain ⟨halive, hheld⟩ := h.used p (mem_gather_cons.mpr (.inl hp))
      exact ⟨hrun.alive halive (howned hheld).1, List.not_mem_nil, (howned hheld).2⟩
    · cases d with
      | rvd0 => exact hplace .own (by decide) (mem_own.mpr hslot)
      | rvd1 => exact hplace .foreignOwn (by decide) (mem_foreignOwn.mpr hslot)
    · exact hplace .peer (by decide) (mem_peer.mpr hslot)
    · have hslot := hdrive.kicks d p (mem_gather_cons.mpr (.inl hkick))
      cases d with
      | rvd0 => exact hplace .own (by decide) (mem_own.mpr hslot)
      | rvd1 => exact hplace .foreignOwn (by decide) (mem_foreignOwn.mpr hslot)
    · have howns : p ∈ call.owns := by
        cases call <;> simp_all
      have hheld := place_nodup hshape .held
      rw [Place.jobs, owned, gather_cons] at hheld
      refine ⟨?_, List.not_mem_nil, fun hF => ?_⟩
      · rw [halive]
        exact place_alive hshape (mem_held.mpr (mem_gather_cons.mpr (.inl howns)))
      · exact Multiset.disjoint_left.mp (Multiset.nodup_add.mp hheld).2.2 howns hF
    · have hmem : p ∈ loose (call ::ₘ F) := mem_gather_cons.mpr (.inl hloose)
      have hheld : p ∉ owned (call ::ₘ F) := by
        intro hheld
        refine Multiset.disjoint_left.mp (Multiset.nodup_add.mp hshape.ledger.promo).2.2 ?_ hmem
        exact Multiset.mem_add.mpr (.inr hheld)
      have hF := howned hheld
      exact ⟨hrun.alive (hshape.ledger.alive_of_loose hmem) hF.1, List.not_mem_nil, hF.2⟩
    · refine ⟨halive, List.not_mem_nil, fun hF => ?_⟩
      have hheld : k.nextPtr ∈ Place.held.jobs k (call ::ₘ F) := mem_gather_cons.mpr (.inr hF)
      exact place_bound hshape hheld rfl
  · obtain ⟨halive, hheld⟩ := h.used p (mem_gather_cons.mpr (.inr hp))
    obtain ⟨hcall, hF⟩ := howned hheld
    refine ⟨hrun.alive halive hcall, fun howns => ?_, hF⟩
    rcases hrun.owns howns with howns | hreap | rfl
    · exact hcall howns
    · exact h.reaps_unused hshape hpins ht hguard hreap hp
    · exact (hshape.ledger.bound _ halive).false

/-- What is unfinished is not done. -/
theorem idle_runs (h : Custody k (call ::ₘ F)) (hshape : Shape k (call ::ₘ F) tr)
    (hrun : Runs k call good k' calls events)
    (hp : p ∈ (k'.queue .rvd0).unfinished ∨ p ∈ gather Frame.submits (↑calls + F) ∨
      (k'.queue .rvd1).inFlight 0 = some p) : (k'.jobs p).done = false := by
  by_cases hnew : p = k.nextPtr ∧ k'.nextPtr = k.nextPtr + 1
  · obtain ⟨rfl, hnext⟩ := hnew
    obtain ⟨id, w, hjob⟩ := hrun.foreign hnext
    simp [hjob, foreignJob]
  have hsubmits : p ∈ gather Frame.submits (↑calls + F) →
      p ∈ gather Frame.submits (call ::ₘ F) := by
    intro hp
    refine mem_gather_cons.mpr (.inr ((mem_gather_coe_add.mp hp).resolve_left fun hp => ?_))
    obtain ⟨x, hx, hpx⟩ := List.mem_flatMap.mp hp
    cases x with
    | submitEnqueue f q => exact hrun.submits hx
    | _ => cases hpx
  -- where the job was before
  have hold : p ∈ (k.queue .rvd0).unfinished ∨ p ∈ gather Frame.submits (call ::ₘ F) ∨
      (k.queue .rvd1).inFlight 0 = some p := by
    rcases hp with hp | hp | hp
    · rcases hrun.unfinished hp with hp | hp
      · exact .inl hp
      · exact .inr (.inl (mem_gather_cons.mpr (.inl hp)))
    · exact .inr (.inl (hsubmits hp))
    · exact .inr (.inr ((hrun.foreignSlot_inv hshape hp).resolve_right hnew))
  have hplace : ∃ a : Place, a ≠ .completed ∧ p ∈ a.jobs k (call ::ₘ F) := by
    rcases hold with hold | hold | hold
    · simp only [Queue.unfinished, Multiset.mem_add] at hold
      rcases hold with (hold | hold) | hold
      · exact ⟨.pending, by decide, hold⟩
      · exact ⟨.own, by decide, hold⟩
      · exact ⟨.peer, by decide, hold⟩
    · exact ⟨.held, by decide, held_of_submits hold⟩
    · exact ⟨.foreignOwn, by decide, mem_foreignOwn.mpr hold⟩
  have hidle := h.idle p hold
  obtain ⟨a, ha, hpa⟩ := hplace
  rcases hrun.done (place_bound hshape hpa) with hsame | ⟨status, rfl⟩ |
    ⟨d, result, hwStatus, rfl, hslot⟩
  · rw [hsame, hidle]
  · refine absurd (place_unique hshape hpa (mem_completed.mpr ?_)) ha
    exact h.listed p (mem_gather_cons.mpr (.inl (List.mem_singleton_self p)))
  · obtain ⟨hleft, hleft'⟩ := hrun.leaves hshape hslot
    rcases hp with hp | hp | hp
    · exact absurd hp hleft
    · have hheld : p ∈ Place.held.jobs k (.jobComplete d result hwStatus ::ₘ F) :=
        held_of_submits (hsubmits hp)
      cases d with
      | rvd0 => cases place_unique hshape (mem_own.mpr hslot) hheld
      | rvd1 => cases place_unique hshape (mem_foreignOwn.mpr hslot) hheld
    · exact absurd hp hleft'

theorem runs (h : Custody k (call ::ₘ F)) (hshape : Shape k (call ::ₘ F) tr)
    (howners : Owners k (call ::ₘ F)) (hdrive : Drive k (call ::ₘ F)) (hpins : Pins k (call ::ₘ F))
    (ht : Transients k (call ::ₘ F)) (hguard : ∀ p ∈ call.reaps k, p ∉ gather Frame.touches F)
    (hrun : Runs k call good k' calls events) : Custody k' (↑calls + F) := by
  -- `Completed` keeps what the other threads count on
  have hkeep : ∀ {d p}, p ∈ gather Frame.uses F → p ∈ (k.queue d).completed →
      p ∈ (k'.queue d).completed := fun huse hp =>
    (hrun.listed hp).resolve_right fun hreap =>
      h.reaps_unused hshape hpins ht hguard hreap huse
  have hbound : ∀ p ∈ gather Frame.uses (call ::ₘ F), p ≠ k.nextPtr :=
    fun p hp => (hshape.ledger.bound p (h.used p hp).1).ne
  have huses : ∀ {p}, p ∈ gather Frame.uses F → p ∈ gather Frame.uses (call ::ₘ F) :=
    fun hp => mem_gather_cons.mpr (.inr hp)
  refine ⟨fun p => h.used_runs hshape hdrive hpins ht hguard hrun,
    fun p => h.idle_runs hshape hrun, fun p hp hdone => ?_, fun p hp => ?_, fun p hp => ?_,
    fun p hp => ?_, ?_⟩
  · rcases mem_gather_coe_add.mp hp with hp | hp
    · rcases hrun.pinned hp with ⟨hpin, rfl⟩ | ⟨⟨c, hslot⟩, hsame⟩
      · exact h.done p (mem_gather_cons.mpr (.inl hpin)) hdone
      · have hidle := h.idle p (.inl (mem_unfinished_slot hslot))
        rw [hsame, hidle] at hdone
        cases hdone
    · have huse : p ∈ gather Frame.uses F := mem_uses.mpr (.inl hp)
      rcases hrun.done (hbound p (huses huse)) with hsame | ⟨status, rfl⟩ |
        ⟨d, result, hwStatus, rfl, hslot⟩
      · exact hkeep huse (h.done p (mem_gather_cons.mpr (.inr hp)) (hsame ▸ hdone))
      · exact hkeep huse (h.listed p (mem_gather_cons.mpr (.inl (List.mem_singleton_self p))))
      · have hpinned : p ∈ gather Frame.pins (.jobComplete d result hwStatus ::ₘ F) :=
          mem_gather_cons.mpr (.inr hp)
        cases d with
        | rvd1 => exact absurd (howners.foreign p hslot) (ht.pinned p hpinned)
        | rvd0 =>
          cases hrun with
          | completeNone slot => simp [slot] at hslot
          | @completeOrphan _ _ _ q _ slot orphan pin =>
            obtain rfl : q = p := Option.some.inj (slot.symm.trans hslot)
            have hcount := hpins.count q (hpins.bound q hpinned)
            have hpos := Multiset.count_pos.mpr hpinned
            omega
          | @complete _ _ _ q _ slot =>
            obtain rfl : q = p := Option.some.inj (slot.symm.trans hslot)
            simp [releaseSlot]
  · rcases mem_gather_coe_add.mp hp with hp | hp
    · rcases hrun.lists (fits_cons.mp hshape.fits).1 hp with hp | ⟨hpin, hdone, rfl⟩
      · exact hp
      · exact h.done p (mem_gather_cons.mpr (.inl hpin)) hdone
    · exact hkeep (uses_of_lists hp) (h.listed p (mem_gather_cons.mpr (.inr hp)))
  · rcases mem_gather_coe_add.mp hp with hp | hp
    · rcases hrun.transient with hnone | ⟨heq, -, rfl⟩ | ⟨q, hcall, heq, -, rfl⟩ |
        ⟨heq, -, horphan, hslot⟩
      · rw [hnone] at hp
        cases hp
      · exact h.foreign p (mem_gather_cons.mpr (.inl (heq ▸ hp)))
      · exact h.foreign p (mem_gather_cons.mpr (.inl (by rwa [hcall, ← heq])))
      · rw [heq, List.mem_singleton] at hp
        subst hp
        exact ⟨horphan, .inl hslot⟩
    · have huse : p ∈ gather Frame.uses F := mem_uses.mpr (.inr (.inr hp))
      obtain ⟨horphan, hplace⟩ := h.foreign p (mem_gather_cons.mpr (.inr hp))
      refine ⟨?_, hplace.elim (fun hslot => hrun.foreignSlot hshape hslot horphan)
        fun hcompleted => .inr (hkeep huse hcompleted)⟩
      by_contra hnow
      rcases hrun.orphan (hbound p (huses huse)) (by simpa using hnow) with hold | ⟨hfly, -⟩ | hown
      · simp [horphan] at hold
      · obtain ⟨c, -, hslot⟩ := mem_inFlight.mp hfly
        exact foreign_apart hshape hplace (.inl (mem_unfinished_slot hslot))
      · have hN := h.single
        rw [gather_cons] at hN
        refine Multiset.disjoint_left.mp (Multiset.nodup_add.mp hN).2.2 ?_ hp
        exact Frame.transient_of_foreigns hown
  · rcases mem_gather_coe_add.mp hp with hp | hp
    · rcases hrun.transient with hnone | ⟨-, hnone, -⟩ | ⟨q, hcall, heq, hdone, rfl⟩ |
        ⟨-, hnone, -⟩
      · have hp := transient_of_foreignLists hp
        rw [hnone] at hp
        cases hp
      · rw [hnone] at hp
        cases hp
      · obtain rfl : p = q := by simpa [heq] using transient_of_foreignLists hp
        have hin : p ∈ gather Frame.transient (call ::ₘ F) :=
          mem_gather_cons.mpr (.inl (hcall ▸ List.mem_singleton_self p))
        refine (h.foreign p hin).2.resolve_left ?_
        intro hslot
        simp [h.idle p (.inr (.inr hslot))] at hdone
      · rw [hnone] at hp
        cases hp
    · exact hkeep (uses_of_foreignLists hp) (h.foreignListed p (mem_gather_cons.mpr (.inr hp)))
  · have hN := h.single
    rw [gather_cons] at hN
    rw [gather_coe_add]
    rcases hrun.transient with hnone | ⟨heq, -, -⟩ | ⟨q, hcall, heq, -, -⟩ | ⟨heq, -, -, -⟩
    · rw [hnone, Multiset.coe_nil, zero_add]
      exact (Multiset.nodup_add.mp hN).2.1
    · rw [heq]
      exact hN
    · rw [heq, ← hcall]
      exact hN
    · rw [heq, Multiset.coe_singleton, Multiset.singleton_add, Multiset.nodup_cons]
      refine ⟨fun hp => ?_, (Multiset.nodup_add.mp hN).2.1⟩
      exact hbound _ (huses (mem_uses.mpr (.inr (.inr hp)))) rfl

/-- Nobody counts on a job that a request takes off a queue to free it. -/
theorem takes_unused (h : Custody k F) (hshape : Shape k F tr) (hpins : Pins k F)
    (hguard : ∀ p ∈ r.takes k, (k.jobs p).waiterPin = 0 ∧ p ∉ gather Frame.touches F)
    (hp : p ∈ r.takes k) : p ∉ gather Frame.uses F := by
  obtain ⟨hpin, htouch⟩ := hguard p hp
  rw [mem_uses]
  rintro (huse | huse | huse)
  · have hcount := hpins.count p (hpins.bound p huse)
    have hpos := Multiset.count_pos.mpr huse
    omega
  · exact htouch huse
  · refine foreign_apart hshape (h.foreign p huse).2 ?_
    cases r with
    | wait f id timeoutMs =>
      exact .inr (List.mem_filter.mp hp).1
    | drainOwner f =>
      simp only [Request.takes, List.mem_append, List.mem_filter] at hp
      refine hp.imp (fun hp => ?_) And.left
      simp [Queue.unfinished, hp.1]
    | _ => cases hp

/-- A request that allocates nothing: what its thread will count on nobody holds, and what it takes
nobody counts on. -/
theorem keep (h : Custody k F) (hcompleted : ∀ d, ∀ p ∈ gather Frame.uses F,
      p ∈ (k.queue d).completed → p ∈ (k'.queue d).completed)
    (hunfinished : (k'.queue .rvd0).unfinished ≤ (k.queue .rvd0).unfinished := by
      simp [Queue.unfinished])
    (howns : ∀ p ∈ calls.flatMap Frame.owns, p ∉ gather Frame.uses F := by simp)
    (huses : ∀ p ∈ calls.flatMap Frame.uses, k.alive p = true ∧ p ∉ calls.flatMap Frame.owns ∧
      p ∉ owned F := by simp)
    (hpins : ∀ p ∈ calls.flatMap Frame.pins, (k.jobs p).done = false := by simp)
    (hdone : ∀ p, (k'.jobs p).done = (k.jobs p).done := by intro; rfl)
    (horphan : ∀ p, (k'.jobs p).orphanOnComplete = (k.jobs p).orphanOnComplete := by intro; rfl)
    (halive : k'.alive = k.alive := by rfl)
    (hslot : (k'.queue .rvd1).inFlight 0 = (k.queue .rvd1).inFlight 0 := by simp)
    (htransient : calls.flatMap Frame.transient = [] := by simp)
    (hlists : calls.flatMap Frame.lists = [] := by simp)
    (hforeign : calls.flatMap Frame.foreignLists = [] := by simp)
    (hsubmits : calls.flatMap Frame.submits = [] := by simp) : Custody k' (↑calls + F) := by
  refine ⟨fun p hp => ?_, fun p hp => ?_, fun p hp hnow => ?_, fun p hp => ?_, fun p hp => ?_,
    fun p hp => ?_, ?_⟩
  · rw [halive, owned, gather_coe_add, Multiset.mem_add, not_or, Multiset.mem_coe]
    rcases mem_gather_coe_add.mp hp with hp | hp
    · exact huses p hp
    · obtain ⟨hlive, hheld⟩ := h.used p hp
      exact ⟨hlive, fun hown => howns p hown hp, hheld⟩
  · rw [hdone]
    rw [gather_keep hsubmits, hslot] at hp
    exact h.idle p (hp.imp_left (Multiset.mem_of_le hunfinished))
  · rw [hdone] at hnow
    rcases mem_gather_coe_add.mp hp with hp | hp
    · simp [hpins p hp] at hnow
    · exact hcompleted _ p (mem_uses.mpr (.inl hp)) (h.done p hp hnow)
  · rw [gather_keep hlists] at hp
    exact hcompleted _ p (uses_of_lists hp) (h.listed p hp)
  · rw [gather_keep htransient] at hp
    obtain ⟨hmark, hplace⟩ := h.foreign p hp
    refine ⟨by rw [horphan, hmark], hplace.imp (fun hp => by rw [hslot, hp]) ?_⟩
    exact hcompleted _ p (mem_uses.mpr (.inr (.inr hp)))
  · rw [gather_keep hforeign] at hp
    exact hcompleted _ p (uses_of_foreignLists hp) (h.foreignListed p hp)
  · rw [gather_keep htransient]
    exact h.single

theorem enters (h : Custody k F) (hshape : Shape k F tr) (hpins : Pins k F)
    (hguard : ∀ p ∈ r.takes k, (k.jobs p).waiterPin = 0 ∧ p ∉ gather Frame.touches F)
    (hrun : Enters k r k' calls events) : Custody k' (↑calls + F) := by
  have htaken : ∀ p ∈ r.takes k, p ∉ gather Frame.uses F :=
    fun p => h.takes_unused hshape hpins hguard
  cases hrun with
  | @submit f input allocOk prog id lock ok fresh =>
    have hne : ∀ p ∈ gather Frame.uses F, p ≠ k.nextPtr :=
      fun p hp => (hshape.ledger.bound p (h.used p hp).1).ne
    refine ⟨fun p hp => ?_, fun p hp => ?_, fun p hp hnow => ?_, fun p hp => ?_, fun p hp => ?_,
      fun p hp => ?_, ?_⟩
    · have hp : p ∈ gather Frame.uses F := by
        simpa using hp
      obtain ⟨hlive, hheld⟩ := h.used p hp
      exact ⟨by simpa [hne p hp] using hlive, by simpa [hne p hp] using hheld⟩
    · by_cases hnew : p = k.nextPtr
      · simp [hnew, submitJob]
      · have hold := h.idle p (by simpa [Queue.unfinished, hnew] using hp)
        simpa [hnew] using hold
    · have hp : p ∈ gather Frame.pins F := by simpa using hp
      have hold := hne p (mem_uses.mpr (.inl hp))
      simpa using h.done p hp (by simpa [hold] using hnow)
    · simpa using h.listed p (by simpa using hp)
    · have hp : p ∈ gather Frame.transient F := by simpa using hp
      have hold := hne p (mem_uses.mpr (.inr (.inr hp)))
      simpa [hold] using h.foreign p hp
    · simpa using h.foreignListed p (by simpa using hp)
    · simpa using h.single
  | @waitTake f id timeoutMs q completed found owner =>
    have hq : q ∉ gather Frame.uses F :=
      htaken q (List.mem_filter.mpr ⟨completed, decide_eq_true ⟨found, owner⟩⟩)
    refine h.keep (fun d p hp hlist => ?_) (by simp [Queue.unfinished]) (by simpa using hq)
    have hne : p ≠ q := by
      rintro rfl
      exact hq hp
    cases d with
    | rvd0 => simpa [List.mem_erase_of_ne hne] using hlist
    | rvd1 => simpa using hlist
  | @waitPin f id timeoutMs q linked owner =>
    have hplace : ∃ a : Place, a ≠ .held ∧ q ∈ a.jobs k F := by
      rcases linked with ⟨c, -, hslot⟩ | hpending
      · rcases core_cases c with rfl | rfl
        · exact ⟨.own, by decide, mem_own.mpr hslot⟩
        · exact ⟨.peer, by decide, mem_peer.mpr hslot⟩
      · exact ⟨.pending, by decide, hpending⟩
    have hidle : (k.jobs q).done = false := by
      refine h.idle q (.inl ?_)
      rcases linked with ⟨c, -, hslot⟩ | hpending
      · exact mem_unfinished_slot hslot
      · simp [Queue.unfinished, hpending]
    obtain ⟨a, ha, hqa⟩ := hplace
    have hset : ∀ {β} (π : Job → β), (∀ j, π (addPin 1 j) = π j) → ∀ p,
        π ((k.setJob q (addPin 1)).jobs p) = π (k.jobs p) := fun π hπ p => setJob_proj π q (hπ _)
    refine h.keep (fun _ _ _ hp => hp) le_rfl (by simp) (fun p hp => ?_) (fun p hp => ?_)
      (hset Job.done fun _ => rfl) (hset Job.orphanOnComplete fun _ => rfl)
    · obtain rfl : p = q := by simpa using hp
      refine ⟨place_alive hshape hqa, by simp, fun hheld => ?_⟩
      exact ha (place_unique hshape hqa (mem_held.mpr hheld))
    · obtain rfl : p = q := by simpa using hp
      exact hidle
  | @drainOwner f =>
    refine h.keep (fun d p hp hlist => ?_)
      (Queue.Shrinks.unfinished_le (.setQueue ⟨List.filter_sublist, fun _ => .inl rfl⟩))
      (fun p hp => htaken p ?_)
    · have howner : (k.jobs p).owner ≠ some f ∨ d = .rvd1 := by
        cases d with
        | rvd0 =>
          refine .inl fun howner => htaken p (List.mem_append_right _ ?_) hp
          exact List.mem_filter.mpr ⟨hlist, decide_eq_true howner⟩
        | rvd1 => exact .inr rfl
      cases d with
      | rvd0 => simpa [howner.resolve_right (by simp)] using hlist
      | rvd1 => simpa using hlist
    · simpa [Request.takes, List.map_map] using hp
  | peerArrival peerOpen =>
    refine h.keep fun d p _ hlist => ?_
    cases d <;> simpa using hlist
  | detachPeer waits =>
    have hlists : ∀ d, ∀ p ∈ (k.queue d).completed, p ∈ ((k.setQueue .rvd0 fun q =>
        { q with
          peerOpen := false
          coreCount := 1
          coreIdle := Function.update q.coreIdle 1 false
          corePending := Function.update q.corePending 1 0 }).queue d).completed := by
      intro d p hlist
      cases d <;> simpa using hlist
    obtain rfl | ⟨q, hslot, rfl⟩ := waits
    · exact h.keep fun d p _ => hlists d p
    · refine h.keep (fun d p _ => hlists d p) (by simp [Queue.unfinished]) (by simp) fun p hp => ?_
      obtain rfl : p = q := by simpa using hp
      have hpeer : p ∈ Place.peer.jobs k F := mem_peer.mpr hslot
      refine ⟨place_alive hshape hpeer, by simp, fun hheld => ?_⟩
      cases place_unique hshape hpeer (mem_held.mpr hheld)
  | _ => exact h.keep (fun _ _ _ hp => hp) le_rfl

end Custody

theorem custody_init : Custody kernelInit 0 where
  used p hp := by simp at hp
  idle p hp := rfl
  done p hp := by simp at hp
  listed p hp := by simp at hp
  foreign p hp := by simp at hp
  foreignListed p hp := by simp at hp
  single := by simp

theorem custody_reachable {s : Sys} (h : Reachable uncontested s) : Custody s.mem s.calls := by
  refine Reachable.invariant
    (I := fun k F tr => Shape k F tr ∧ Owners k F ∧ Drive k F ∧ Pins k F ∧ Transients k F)
    (J := fun k F _ => Custody k F) (fun _ hs => ⟨shape_reachable hs, owners_reachable hs,
      drive_reachable hs, pins_reachable hs, transients_reachable hs⟩) custody_init ?_ ?_ h
  · intro k F tr r k' calls events hi hj hguard hrun
    exact hj.enters hi.1 hi.2.2.2.1 hguard hrun
  · intro k call F tr good k' calls events hi hj hguard hrun
    exact hj.runs hi.1 hi.2.1 hi.2.2.1 hi.2.2.2.1 hi.2.2.2.2 hguard hrun

section Safety

/-- The ways a section goes wrong: it touches a job that was freed, or unlinks one that is not on
the list. -/
theorem exec_crash (h : exec k call good = some .crash) :
    (∃ p ∈ call.uses ++ call.owns ++ call.loose ++ call.kicks.map Prod.snd, k.alive p = false) ∨
    (∃ p ∈ call.foreignLists, p ∉ (k.queue .rvd1).completed) ∨
    ∃ p ∈ call.lists, p ∉ (k.queue .rvd0).completed := by
  have died : ∀ {p}, p ∈ call.uses ++ call.owns ++ call.loose ++ call.kicks.map Prod.snd →
      k.alive p = false → ∃ p ∈ call.uses ++ call.owns ++ call.loose ++ call.kicks.map Prod.snd,
        k.alive p = false := fun hp hdead => ⟨_, hp, hdead⟩
  cases call with
  | bufInsert f b =>
    simp only [exec, bufInsert] at h
    split at h <;> simp at h
  | submitEnqueue f p =>
    simp only [exec, submitEnqueue] at h
    split at h <;> simp at h
  | kickPromotions d promos =>
    rcases promos with _ | ⟨⟨p, core⟩, rest⟩
    · simp [exec, kickPromotions] at h
    · simp only [exec, kickPromotions, Option.some.injEq] at h
      split_ifs at h with hcore hpeer hdead
      · exact .inl (died (by simp [hcore]) hdead)
      · split at h <;> simp at h
  | rollback | signal | kickTail | readJob | takeResult | detachWait =>
    simp only [exec, rollback, signal, kickTail, readJob, takeResult, Option.some.injEq] at h
    split_ifs at h with hdead
    exact .inl (died (by simp) hdead)
  | jobKickLocalInner d p =>
    simp only [exec, jobKickLocalInner, Option.some.injEq] at h
    split_ifs at h with hdead
    exact .inl (died (by simp) hdead)
  | jobComplete d result hwStatus =>
    simp only [exec, jobComplete, Option.some.injEq] at h
    split at h
    · simp at h
    · split_ifs at h
  | release jobs =>
    rcases jobs with _ | ⟨⟨p, tag⟩, rest⟩
    · simp [exec, release] at h
    · simp only [exec, release, Option.some.injEq] at h
      split_ifs at h with hdead
      exact .inl (died (by simp) hdead)
  | evtDpc d hwStatus =>
    simp only [exec, evtDpc, Option.some.injEq] at h
    split at h
    · simp at h
    · split_ifs at h
  | jobRunForeign w =>
    simp only [exec, jobRunForeign, Option.some.injEq] at h
    split_ifs at h
  | kickWorker d =>
    simp only [exec, kickWorker, Option.some.injEq] at h
    split_ifs at h
  | trampoline w result hwStatus =>
    simp only [exec, trampoline, Option.some.injEq] at h
    split_ifs at h
  | peerCompletion cookie result hwStatus =>
    simp only [exec, peerCompletion, Option.some.injEq] at h
    split at h
    · simp at h
    · split_ifs at h
  | drainScan f =>
    simp only [exec, drainScan, Option.some.injEq] at h
    split at h <;> simp at h
  | foreignWait p w | waitDone p finite | drainWait f p =>
    simp only [exec, waitEvent] at h
    split_ifs at h with hdead <;> try simp at h
    exact .inl (died (by simp) hdead)
  | foreignExpired p w | waitExpired p =>
    simp only [exec, foreignExpired, waitExpired, Option.some.injEq] at h
    split_ifs at h with hdead
    exact .inl (died (by simp) hdead)
  | drainPost f p timedOut =>
    simp only [exec, drainPost, Option.some.injEq] at h
    split_ifs at h with hdead
    exact .inl (died (by simp) hdead)
  | foreignReap p w =>
    simp only [exec, foreignReap, Option.some.injEq] at h
    split_ifs at h with hbad
    rcases hbad with hdead | hlist
    · exact .inl (died (by simp) hdead)
    · exact .inr (.inl ⟨p, List.mem_singleton_self p, hlist⟩)
  | waitReap p =>
    simp only [exec, waitReap, Option.some.injEq] at h
    split_ifs at h with hdead hpin hlist
    · exact .inl (died (by simp) hdead)
    · exact .inr (.inr ⟨p, List.mem_singleton_self p, hlist⟩)
  | enqueueKickWorker | workItemEnqueue | endWork | registerCompletion =>
    simp [exec, enqueueKickWorker] at h

/-- The jobs freed so far, each with the pin count it had then. -/
def freedJob : Event → Option (Ptr × Int)
  | .freed p _ pin => some (p, pin)
  | _ => none

def freed (tr : List Event) : List (Ptr × Int) := tr.filterMap freedJob

theorem freed_append : freed (tr ++ events) = freed tr ++ freed events := by
  simp [freed]

theorem freed_events (s : Promoting) : freed s.events = [] := s.filterMap_events

theorem Runs.freed (h : Runs k call good k' calls events) :
    Dispatch.freed events = [] ∨ ∃ p, p ∈ call.owns ∧
      Dispatch.freed events = [(p, (k.jobs p).waiterPin)] ∧ k.alive p = true ∧
      k'.alive p = false := by
  cases h with
  | submitEnqueue | kickWorker => exact .inl (freed_events _)
  | @release p tag rest _ alive =>
    exact .inr ⟨p, by simp, rfl, alive, by simp⟩
  | _ => exact .inl rfl

/-- A freed job stays freed. -/
theorem Runs.dead (h : Runs k call good k' calls events) (hp : k.alive p = false)
    (hlt : p < k.nextPtr) : k'.alive p = false ∧ p < k'.nextPtr := by
  have hne := hlt.ne
  cases h with
  | submitEnqueue | kickWorker | drainPost =>
    exact ⟨by simpa using hp, by simpa using hlt⟩
  | @release q tag rest _ alive =>
    refine ⟨?_, hlt⟩
    by_cases hq : p = q
    · simp [hq]
    · simpa [hq] using hp
  | foreignBusy slot | foreignRun slot =>
    exact ⟨by simpa [hne] using hp, hlt.trans (Nat.lt_succ_self _)⟩
  | _ => exact ⟨hp, hlt⟩

theorem Enters.dead (h : Enters k r k' calls events) (hp : k.alive p = false)
    (hlt : p < k.nextPtr) : k'.alive p = false ∧ p < k'.nextPtr := by
  have hne := hlt.ne
  cases h with
  | submit => exact ⟨by simpa [hne] using hp, hlt.trans (by simp)⟩
  | _ => exact ⟨hp, hlt⟩

/-- What was freed is gone, and had no pin. -/
structure Freed (k : Kernel) (tr : List Event) : Prop where
  dead : ∀ x ∈ freed tr, k.alive x.1 = false ∧ x.1 < k.nextPtr
  unpinned : ∀ x ∈ freed tr, x.2 = 0
  once : ((freed tr).map Prod.fst).Nodup

theorem Freed.runs (h : Freed k tr) (hshape : Shape k (call ::ₘ F) tr) (hpins : Pins k (call ::ₘ F))
    (hcustody : Custody k (call ::ₘ F)) (hrun : Runs k call good k' calls events) :
    Freed k' (tr ++ events) := by
  have hdead : ∀ x ∈ freed tr, k'.alive x.1 = false ∧ x.1 < k'.nextPtr :=
    fun x hx => hrun.dead (h.dead x hx).1 (h.dead x hx).2
  rcases hrun.freed with hnone | ⟨p, howns, hone, halive, hnow⟩
  · rw [← List.append_nil (freed tr), ← hnone, ← freed_append] at hdead
    refine ⟨hdead, ?_, ?_⟩
    · rw [freed_append, hnone, List.append_nil]
      exact h.unpinned
    · rw [freed_append, hnone, List.append_nil]
      exact h.once
  have hheld : p ∈ owned (call ::ₘ F) := mem_gather_cons.mpr (.inl howns)
  have hlt := hshape.ledger.bound p halive
  have hpin : (k.jobs p).waiterPin = 0 := by
    rw [hpins.count p hlt, Multiset.count_eq_zero.mpr fun hpin => ?_]
    · rfl
    · exact (hcustody.used p (mem_uses.mpr (.inl hpin))).2 hheld
  have hnext : k.nextPtr ≤ k'.nextPtr := by
    rcases hrun.fresh with hfresh | ⟨hfresh, -⟩ <;> exact hfresh ▸ by simp
  rw [hpin] at hone
  refine ⟨fun x hx => ?_, fun x hx => ?_, ?_⟩
  · rw [freed_append, hone, List.mem_append, List.mem_singleton] at hx
    rcases hx with hx | rfl
    · exact hdead x hx
    · exact ⟨hnow, hlt.trans_le hnext⟩
  · rw [freed_append, hone, List.mem_append, List.mem_singleton] at hx
    rcases hx with hx | rfl
    · exact h.unpinned x hx
    · rfl
  · rw [freed_append, hone, List.map_append, List.nodup_append]
    refine ⟨h.once, List.nodup_singleton _, fun q hq q' hq' => ?_⟩
    obtain ⟨x, hx, rfl⟩ := List.mem_map.mp hq
    obtain rfl : q' = p := by simpa using hq'
    rintro rfl
    simp [(h.dead x hx).1] at halive

theorem Enters.freed (h : Enters k r k' calls events) : Dispatch.freed events = [] := by
  cases h <;> rfl

theorem freed_reachable {s : Sys} (h : Reachable uncontested s) : Freed s.mem s.trace := by
  refine Reachable.invariant (I := fun k F tr => Shape k F tr ∧ Pins k F ∧ Custody k F)
    (J := fun k _ tr => Freed k tr)
    (fun _ hs => ⟨shape_reachable hs, pins_reachable hs, custody_reachable hs⟩) ?_ ?_ ?_ h
  · exact ⟨by simp [freed], by simp [freed], by simp [freed]⟩
  · intro k F tr r k' calls events hi hj hguard hrun
    have hfreed : freed (tr ++ events) = freed tr := by
      rw [freed_append, hrun.freed, List.append_nil]
    refine ⟨fun x hx => ?_, fun x hx => ?_, ?_⟩
    · rw [hfreed] at hx
      exact hrun.dead (hj.dead x hx).1 (hj.dead x hx).2
    · exact hj.unpinned x (hfreed ▸ hx)
    · exact hfreed ▸ hj.once
  · intro k call F tr good k' calls events hi hj hguard hrun
    exact hj.runs hi.1 hi.2.1 hi.2.2 hrun

/-- What holds of the jobs in a state of the system. -/
structure Lifetime (s : Sys) : Prop where
  /-- No thread has touched a job that was freed, or freed it again. -/
  safe : s.crashed = false
  unpinned : ∀ x ∈ freed s.trace, x.2 = 0
  once : ((freed s.trace).map Prod.fst).Nodup
  linked : ∀ (a : Place), ∀ p ∈ a.jobs s.mem s.calls, s.mem.alive p = true

/-- No job is freed while a thread has it pinned or still touches it, in every run in which a
WAIT_JOB and the first phase of a drain meet no pinned job and nobody takes a job off a queue to
free it while a thread has yet to touch it without a pin. -/
theorem no_job_freed_in_use {s : Sys} (h : Reachable uncontested s) : Lifetime s := by
  have hfreed := freed_reachable h
  refine ⟨?_, hfreed.unpinned, hfreed.once, fun a p hp => place_alive (shape_reachable h) hp⟩
  refine Reaches.not_crashed (I := fun k F tr => Shape k F tr ∧ Drive k F ∧ Custody k F)
    (fun s hs => ⟨shape_reachable hs, drive_reachable hs, custody_reachable hs⟩) rfl ?_ h
  rintro k call F tr good ⟨hshape, hdrive, hcustody⟩ - hcrash
  rcases exec_crash hcrash with ⟨p, hp, hdead⟩ | ⟨p, hp, hmem⟩ | ⟨p, hp, hmem⟩
  · have halive : k.alive p = true := by
      simp only [List.mem_append, List.mem_map, Prod.exists, exists_eq_right] at hp
      rcases hp with ((hp | hp) | hp) | ⟨d, hp⟩
      · exact (hcustody.used p (mem_gather_cons.mpr (.inl hp))).1
      · exact place_alive hshape (mem_held.mpr (mem_gather_cons.mpr (.inl hp)))
      · exact hshape.ledger.alive_of_loose (mem_gather_cons.mpr (.inl hp))
      · have hslot := hdrive.kicks d p (mem_gather_cons.mpr (.inl hp))
        cases d with
        | rvd0 => exact place_alive hshape (mem_own.mpr hslot)
        | rvd1 => exact place_alive hshape (mem_foreignOwn.mpr hslot)
    simp [halive] at hdead
  · exact hmem (hcustody.foreignListed p (mem_gather_cons.mpr (.inl hp)))
  · exact hmem (hcustody.listed p (mem_gather_cons.mpr (.inl hp)))

/-- Two threads of a file wait for its job, which completes; the first drops its pin. -/
abbrev oneWaits : List (Action Request) :=
  .enter (.mapMmio .rvd0 4096) :: submitBare 1 0 ++ List.replicate 5 (.run 1 true) ++
    [.enter (.wait 0 1 0)]

abbrev bothWait : List (Action Request) :=
  oneWaits ++ [.enter (.wait 0 1 0), .enter (.interrupt .rvd0 1)] ++
    List.replicate 2 (.run 4 true) ++ List.replicate 2 (.run 2 true) ++
    List.replicate 3 (.run 3 true)

theorem bothWait_runs : (machine.run init bothWait).isSome = true := by
  decide +kernel

theorem last_waiter_frees : freed ((machine.run init bothWait).get bothWait_runs).trace = [(0, 0)] ∧
    Lifetime ((machine.run init bothWait).get bothWait_runs) :=
  ⟨by decide +kernel, no_job_freed_in_use (.of_get bothWait_runs (by decide +kernel))⟩

/-- The job completes before the second thread asks for it, while the first still waits. -/
abbrev secondReaps : List (Action Request) :=
  oneWaits ++ [.enter (.interrupt .rvd0 1), .run 3 true, .run 3 true, .enter (.wait 0 1 0),
    .run 4 true, .run 4 true, .run 2 true]

theorem secondReaps_runs : (machine.run init secondReaps).isSome = true := by
  decide +kernel

/-- It is freed with the pin of the first thread, which then reads it. -/
theorem pinned_job_freed : ∃ s : Sys, Reachable .any s ∧ freed s.trace = [(0, 1)] ∧
    s.crashed = true ∧ ¬ Lifetime s := by
  have hcrashed : ((machine.run init secondReaps).get secondReaps_runs).crashed = true := by
    decide +kernel
  refine ⟨_, .of_get secondReaps_runs (by decide +kernel), by decide +kernel, hcrashed, fun h => ?_⟩
  exact absurd (hcrashed.symm.trans h.safe) (by simp)

end Safety

end Rkvdec.Dispatch
