import Rkvdec.Av1d.JobOnce

/-! What a drain of a file leaves behind in the AV1 queue, whatever the other threads do
meanwhile. -/
namespace Rkvdec.Av1d.JobQueue

open Lib Kernel
open Dispatch (File Ptr)

variable {k k' : Kernel} {F : Multiset Frame} {call : Frame} {calls : List Frame}
  {events : List Event} {r : Request} {good : Bool} {p : Ptr} {f : File} {G : Guard} {s : Sys}

namespace Frame

/-- The file for which the call submits or drains the job. -/
def files : Frame → List (File × Ptr)
  | .submitEnqueue f p => [(f, p)]
  | .drainWait f p => [(f, p)]
  | .drainPost f p _ => [(f, p)]
  | _ => []

/-- The file submits a job. -/
def enqueues (f : File) : Frame → Bool
  | .submitEnqueue g _ => g = f
  | _ => false

/-- The drain of the file has yet to return. -/
def drains (f : File) : Frame → Bool
  | .drainWait g _ | .drainPost g _ _ => g = f
  | _ => false

end Frame

section Owners

/-- A thread that submits or drains a job does so for the job's owner. -/
def Owners (k : Kernel) (F : Multiset Frame) : Prop :=
  ∀ x ∈ gather Frame.files F, x.2 < k.nextPtr ∧ (k.jobs x.2).owner = x.1

/-- A section goes on with the job its call was about. -/
theorem Runs.files (h : Runs k call good k' calls events) {x : File × Ptr}
    (hx : x ∈ calls.flatMap Frame.files) : x ∈ call.files := by
  have hwant := flatMap_wantKick (g := Frame.files) rfl k.queue
  induction h with
  | completeOrphan | complete => simp [Frame.files, hwant] at hx
  | enqueueKickWorker => split at hx <;> simp [Frame.files] at hx
  | drainDone | drainTimeout => exact hx
  | _ => simp [Frame.files] at hx

/-- What the stores of a section keep of a job. -/
theorem Runs.keeps {P : RkMppJob → Prop} (h : Runs k call good k' calls events)
    (hfinish : ∀ j result hwStatus, P j → P (finish result hwStatus j))
    (hpin : ∀ j, P j → P (addPin (-1) j))
    (hmark : ∀ j b, P j → P { j with orphanOnComplete := j.orphanOnComplete || b })
    (hp : P (k.jobs p)) : P (k'.jobs p) := by
  have hset : ∀ {k₀ : Kernel} q (g : RkMppJob → RkMppJob), P (k₀.jobs p) → (∀ j, P j → P (g j)) →
      P ((k₀.setJob q g).jobs p) := by
    intro k₀ q g hp hg
    by_cases hq : p = q
    · subst hq
      simpa using hg _ hp
    · simpa [hq] using hp
  induction h with
  | completeOrphan | complete => exact hset _ _ hp fun j => hfinish j _ _
  | waitExpiredPinned | waitReapPinned | waitExpiredLost | waitExpiredPending
      | waitExpiredCompleted | waitReap =>
    exact hset _ _ hp hpin
  | waitExpiredInFlight =>
    exact hset _ _ (hset _ _ hp hpin) fun j h => by simpa using hmark j true h
  | drainPost alive =>
    exact hset _ _ hp fun j h => hmark _ _ (hpin j h)
  | _ => exact hp

/-- The owner of a job stays. -/
theorem Runs.owner (h : Runs k call good k' calls events) : (k'.jobs p).owner = (k.jobs p).owner :=
  h.keeps (P := fun j => j.owner = (k.jobs p).owner) (fun _ _ _ h => h) (fun _ h => h)
    (fun _ _ h => h) rfl

/-- An abandoned job stays so. -/
theorem Runs.abandoned (h : Runs k call good k' calls events)
    (hp : (k.jobs p).orphanOnComplete = true) : (k'.jobs p).orphanOnComplete = true :=
  h.keeps (P := fun j => j.orphanOnComplete = true) (fun _ _ _ h => h) (fun _ h => h)
    (fun j b h => by simp [h]) hp

theorem Owners.runs (h : Owners k (call ::ₘ F)) (hrun : Runs k call good k' calls events) :
    Owners k' (↑calls + F) := by
  intro x hx
  rw [hrun.nextPtr, hrun.owner]
  rcases mem_gather_coe_add.mp hx with hx | hx
  · exact h x (mem_gather_cons.mpr (.inl (hrun.files hx)))
  · exact h x (mem_gather_cons.mpr (.inr hx))

theorem Enters.owner (h : Enters k r k' calls events) (hp : p < k.nextPtr) :
    (k'.jobs p).owner = (k.jobs p).owner ∧ p < k'.nextPtr := by
  induction h with
  | submit => exact ⟨by simp [hp.ne], hp.trans (Nat.lt_succ_self _)⟩
  | waitPin => exact ⟨setJob_proj RkMppJob.owner _ rfl, hp⟩
  | @drainPin f => exact ⟨setJob_proj RkMppJob.owner (k := undrained k f) _ rfl, hp⟩
  | _ => exact ⟨rfl, hp⟩

theorem Owners.enters (h : Owners k F) (hledger : Ledger k F) (hrun : Enters k r k' calls events) :
    Owners k' (↑calls + F) := by
  intro x hx
  rcases mem_gather_coe_add.mp hx with hx | hx
  · induction hrun with
    | submit =>
      obtain rfl : x = _ := by simpa [Frame.files] using hx
      exact ⟨Nat.lt_succ_self _, by simp [newJob]⟩
    | @drainPin f q slot owner =>
      obtain rfl : x = _ := by simpa [Frame.files] using hx
      refine ⟨hledger.bound q (hledger.of_linked (linked_inFlight slot)).1, ?_⟩
      exact (setJob_proj RkMppJob.owner (k := undrained k f) _ rfl).trans owner
    | _ => simp [Frame.files] at hx
  · obtain ⟨hlt, howner⟩ := h x hx
    obtain ⟨hsame, hnext⟩ := hrun.owner hlt
    exact ⟨hnext, hsame.trans howner⟩

theorem owners_reachable (h : Reachable G s) : Owners s.mem s.calls :=
  Reachable.invariant (I := fun k F _ => Ledger k F) (J := fun k F _ => Owners k F)
    (fun _ hs => ledger_reachable hs) (by simp [Owners]) (fun hi hj _ hrun => hj.enters hi hrun)
    (fun _ hj _ hrun => hj.runs hrun) h

end Owners

/-- Runs in which the file submits nothing any more. -/
abbrev closed (f : File) : Guard := requests fun _ r =>
  match r with
  | .submit g .. => g ≠ f
  | _ => true

/-- The drain of the file has its job in flight pinned and may yet abandon it. -/
def Held (f : File) (F : Multiset Frame) (p : Ptr) : Prop :=
  .drainWait f p ∈ F ∨ .drainPost f p true ∈ F

theorem Held.right (h : Held f F p) : Held f (↑calls + F) p :=
  h.imp (fun hmem => Multiset.mem_add.mpr (.inr hmem)) fun hmem => Multiset.mem_add.mpr (.inr hmem)

/-- What holds of the jobs of a file from its drain on: none waits, one that is completed has a
waiter who will free it, and one in flight is abandoned or still awaited by the drain. -/
structure Draining (f : File) (k : Kernel) (F : Multiset Frame) : Prop where
  submits : ∀ p, .submitEnqueue f p ∉ F
  pending : ∀ p ∈ k.queue.pending, (k.jobs p).owner ≠ f
  completed : ∀ p ∈ k.queue.completed, (k.jobs p).owner = f → (k.jobs p).waiterPin ≠ 0
  slot : ∀ p, k.queue.inFlight = some p → (k.jobs p).owner = f →
    (k.jobs p).orphanOnComplete = true ∨ Held f F p

section Sections

/-- A job that is on `Completed` without a pin was so before, or it was completed with neither a pin
nor the mark, or the drain of another file dropped its last pin. -/
theorem Runs.forgotten (h : Runs k call good k' calls events) (hledger : Ledger k (call ::ₘ F))
    (hp : p ∈ k'.queue.completed) (hpin : (k'.jobs p).waiterPin = 0) :
    p ∈ k.queue.completed ∧ (k.jobs p).waiterPin = 0 ∨
      k.queue.inFlight = some p ∧ (k.jobs p).orphanOnComplete = false ∧ (k.jobs p).waiterPin = 0 ∨
        ∃ f timedOut, call = .drainPost f p timedOut ∧ (k.jobs p).owner ≠ f := by
  have hadd : ∀ q, ((k.setJob q (addPin (-1))).jobs p).waiterPin = 0 →
      p ≠ q ∧ (k.jobs p).waiterPin = 0 ∨ p = q ∧ (k.jobs p).waiterPin - 1 = 0 := by
    intro q hq
    rw [addPin_pin] at hq
    by_cases hne : p = q
    · subst hne
      simp only [List.count_singleton_self] at hq
      exact .inr ⟨rfl, by omega⟩
    · rw [List.count_eq_zero_of_not_mem (by simpa using hne)] at hq
      exact .inl ⟨hne, by omega⟩
  induction h with
  | completeOrphan slot orphan pin =>
    rw [setQueue_jobs, setJob_proj RkMppJob.waiterPin _ (by rfl)] at hpin
    exact .inl ⟨hp, hpin⟩
  | complete slot keep =>
    rw [setQueue_jobs, setJob_proj RkMppJob.waiterPin _ (by rfl)] at hpin
    rcases List.mem_append.mp hp with hp | hp
    · exact .inl ⟨hp, hpin⟩
    · obtain rfl := List.mem_singleton.mp hp
      refine .inr (.inl ⟨slot, keep.resolve_right fun hpos => ?_, hpin⟩)
      omega
  | @waitExpiredPinned q _ alive pin | @waitReapPinned q _ alive pin =>
    rcases hadd q hpin with ⟨-, hzero⟩ | ⟨rfl, hzero⟩
    · exact .inl ⟨hp, hzero⟩
    · exact absurd hzero pin
  | @waitExpiredPending q _ alive pin pending =>
    rcases hadd q hpin with ⟨-, hzero⟩ | ⟨rfl, -⟩
    · exact .inl ⟨hp, hzero⟩
    · exact absurd hp (hledger.pending_apart pending).1
  | @waitExpiredCompleted q | @waitReap q =>
    rcases hadd q hpin with ⟨hne, hzero⟩ | ⟨rfl, -⟩
    · exact .inl ⟨List.mem_of_mem_erase hp, hzero⟩
    · exact absurd hp hledger.queue_nodup.of_append_right.of_append_left.not_mem_erase
  | @waitExpiredInFlight q _ alive pin slot =>
    rw [setJob_proj RkMppJob.waiterPin _ (by rfl)] at hpin
    rcases hadd q hpin with ⟨-, hzero⟩ | ⟨rfl, -⟩
    · exact .inl ⟨hp, hzero⟩
    · exact absurd slot (hledger.completed_apart hp)
  | @waitExpiredLost q _ alive pin pending completed =>
    rcases hadd q hpin with ⟨-, hzero⟩ | ⟨rfl, -⟩
    · exact .inl ⟨hp, hzero⟩
    · exact absurd hp completed
  | @drainPost g q timedOut _ alive =>
    obtain ⟨hp, hkept⟩ := List.mem_filter.mp hp
    have howner : ((unpinned k g q timedOut).jobs p).owner = (k.jobs p).owner :=
      unpinned_proj RkMppJob.owner (fun _ _ => rfl) _
    have hother : (k.jobs p).owner ≠ g := by
      intro hg
      rw [decide_eq_true_eq, howner] at hkept
      exact hkept ⟨hg, hpin⟩
    rw [setQueue_jobs, unpinned_pin] at hpin
    by_cases hne : p = q
    · subst hne
      exact .inr (.inr ⟨g, timedOut, rfl, hother⟩)
    · rw [List.count_eq_zero_of_not_mem (by simpa using hne)] at hpin
      exact .inl ⟨hp, by omega⟩
  | _ => exact .inl ⟨hp, hpin⟩

/-- A drain that has its job in flight pinned goes on to abandon it. -/
theorem Runs.abandons (h : Runs k call good k' calls events) (hslot : k'.queue.inFlight = some p)
    (hdone : (k.jobs p).done = false) (hp : .drainWait f p = call ∨ .drainPost f p true = call)
    (howner : (k.jobs p).owner = f) : (k'.jobs p).orphanOnComplete = true ∨
    .drainPost f p true ∈ calls := by
  rcases hp with rfl | rfl
  · cases h with
    | drainDone alive done => exact absurd (hdone.symm.trans done) (by simp)
    | drainTimeout => exact .inr (List.mem_singleton_self _)
  · cases h with
    | drainPost alive =>
      have hslot : k.queue.inFlight = some p := hslot
      exact .inl (by simp [unpinned, hslot, howner])

/-- A drain empties the lists of the file, and waits for its job in flight. -/
theorem Enters.of_drain (h : Enters k (.drainOwner f) k' calls events) :
    k'.queue = (undrained k f).queue ∧ (∀ p, .submitEnqueue f p ∉ calls) ∧
      ∀ p, k.queue.inFlight = some p → (k.jobs p).owner = f → .drainWait f p ∈ calls := by
  cases h with
  | drain other => exact ⟨rfl, by simp, fun p hp hf => absurd hf (other p hp)⟩
  | drainPin slot =>
    refine ⟨rfl, by simp, fun p hp _ => ?_⟩
    obtain rfl := Option.some.inj (slot.symm.trans hp)
    simp

end Sections

namespace Draining

/-- What the drain may yet abandon it has pinned, and it has not returned. -/
theorem drains_of_held (h : Held f F p) : ∃ call ∈ F, p ∈ call.pins ∧ call.drains f = true := by
  rcases h with h | h
  · exact ⟨_, h, List.mem_singleton_self p, by simp [Frame.drains]⟩
  · exact ⟨_, h, List.mem_singleton_self p, by simp [Frame.drains]⟩

/-- A submission of another file. -/
theorem other (h : Draining f k F) (howners : Owners k F) (hp : p ∈ gather Frame.submits F) :
    (k.jobs p).owner ≠ f := by
  obtain ⟨call, hcall, hp⟩ := mem_gather.mp hp
  cases call with
  | submitEnqueue g q =>
    obtain rfl := List.mem_singleton.mp hp
    have howner := (howners (g, p) (mem_gather.mpr ⟨_, hcall, List.mem_singleton_self _⟩)).2
    rw [howner]
    rintro rfl
    exact h.submits p hcall
  | _ => cases hp

theorem runs (h : Draining f k (call ::ₘ F)) (hledger : Ledger k (call ::ₘ F))
    (hidle : Idle k (call ::ₘ F)) (hpins : Pins k (call ::ₘ F)) (howners : Owners k (call ::ₘ F))
    (hrun : Runs k call good k' calls events) : Draining f k' (↑calls + F) := by
  refine ⟨fun p hp => ?_, fun p hp => ?_, fun p hp howner hpin => ?_, fun p hp howner => ?_⟩
  · rcases Multiset.mem_add.mp hp with hp | hp
    · have : p ∈ calls.flatMap Frame.submits :=
        List.mem_flatMap.mpr ⟨_, hp, List.mem_singleton_self p⟩
      rw [hrun.submits] at this
      cases this
    · exact h.submits p (Multiset.mem_cons_of_mem hp)
  · rw [hrun.owner]
    rcases hrun.pending hp with hp | hp
    · exact h.pending p hp
    · exact h.other howners (mem_gather_cons.mpr (.inl hp))
  · rw [hrun.owner] at howner
    rcases hrun.forgotten hledger hp hpin with ⟨hold, hzero⟩ | ⟨hslot, horphan, hzero⟩ |
      ⟨g, timedOut, rfl, hne⟩
    · exact h.completed p hold howner hzero
    · -- the drain still has it pinned, or has marked it
      rcases h.slot p hslot howner with hmark | hheld
      · exact absurd (horphan.symm.trans hmark) (by simp)
      · obtain ⟨c, hc, hpin, -⟩ := drains_of_held hheld
        have hpinned : p ∈ gather Frame.pins (call ::ₘ F) := mem_gather.mpr ⟨c, hc, hpin⟩
        have hcount := hpins.count p (hpins.bound p hpinned)
        have := Multiset.count_pos.mpr hpinned
        omega
    · have := (howners (g, p) (mem_gather_cons.mpr (.inl (List.mem_singleton_self _)))).2
      exact hne this
  · rw [hrun.owner] at howner
    have hsame : k.queue.inFlight = some p → (k'.jobs p).orphanOnComplete = true ∨
        Held f (↑calls + F) p := by
      intro hslot
      rcases h.slot p hslot howner with hmark | hheld
      · exact .inl (hrun.abandoned hmark)
      · have hin : (.drainWait f p = call ∨ .drainPost f p true = call) ∨ Held f F p := by
          simp only [Held, Multiset.mem_cons] at hheld ⊢
          tauto
        rcases hin with hcall | hheld
        · exact (hrun.abandons hp (hidle p (.inr (.inl hslot))) hcall howner).imp_right fun hpost =>
            .inr (Multiset.mem_add.mpr (.inl hpost))
        · exact .inr (hheld.right)
    rcases hrun.moves with ⟨-, hslot⟩ | ⟨q, -, -, -, -, hslot, -, hunfinished⟩ |
      ⟨-, -, -, -, -, hslot⟩ | ⟨-, -, -, hempty⟩
    · exact hsame (hslot ▸ hp)
    · obtain rfl := Option.some.inj (hslot.symm.trans hp)
      rcases hunfinished with hpending | hslot | hsubmit
      · exact absurd howner (h.pending q hpending)
      · exact hsame hslot
      · exact absurd howner (h.other howners hsubmit)
    · exact hsame (hslot ▸ hp)
    · rw [hempty] at hp
      cases hp

theorem enters (h : Draining f k F) (hledger : Ledger k F) (hpins : Pins k F)
    (hguard : (closed f).enter k F r) (hrun : Enters k r k' calls events) :
    Draining f k' (↑calls + F) := by
  have hpins' := hpins.enters hledger hrun
  have howner : ∀ p, k.linked p = true → (k'.jobs p).owner = (k.jobs p).owner ∧ p < k'.nextPtr :=
    fun p hp => hrun.owner (hledger.bound p (hledger.of_linked hp).1)
  refine ⟨fun p hp => ?_, fun p hp => ?_, fun p hp hf hpin => ?_, fun p hp hf => ?_⟩
  · rcases Multiset.mem_add.mp hp with hp | hp
    · induction hrun with
      | submit =>
        obtain ⟨rfl, -⟩ : f = _ ∧ p = _ := by simpa using hp
        exact of_decide_eq_true hguard rfl
      | _ => simp at hp
    · exact h.submits p hp
  · have hold : p ∈ k.queue.pending := by
      induction hrun with
      | drain | drainPin => exact (List.mem_filter.mp hp).1
      | _ => exact hp
    rw [(howner p (linked_pending hold)).1]
    exact h.pending p hold
  · have hold : p ∈ k.queue.completed := by
      induction hrun with
      | waitTake => exact List.mem_of_mem_erase hp
      | drain | drainPin => exact (List.mem_filter.mp hp).1
      | _ => exact hp
    obtain ⟨hsame, hlt'⟩ := howner p (linked_completed hold)
    rw [hsame] at hf
    have hlt := hledger.bound p (hledger.of_linked (linked_completed hold)).1
    have hcount := hpins.count p hlt
    have hcount' := hpins'.count p hlt'
    rw [gather_coe_add, Multiset.count_add] at hcount'
    have hne := h.completed p hold hf
    push_cast at hcount'
    omega
  · have hold : k.queue.inFlight = some p := by
      cases hrun <;> exact hp
    rw [(howner p (linked_inFlight hold)).1] at hf
    have hlt := hledger.bound p (hledger.of_linked (linked_inFlight hold)).1
    rcases h.slot p hold hf with hmark | hheld
    · left
      induction hrun with
      | submit => simpa [hlt.ne] using hmark
      | waitPin => exact (setJob_proj RkMppJob.orphanOnComplete _ (by rfl)).trans hmark
      | @drainPin g =>
        exact (setJob_proj RkMppJob.orphanOnComplete (k := undrained k g) _ (by rfl)).trans hmark
      | _ => exact hmark
    · exact .inr (hheld.right)

/-- The first phase of the drain. -/
theorem drained (hledger : Ledger k F) (hsubmit : ∀ p, .submitEnqueue f p ∉ F)
    (hrun : Enters k (.drainOwner f) k' calls events) : Draining f k' (↑calls + F) := by
  have howner : ∀ p, k.linked p = true → (k'.jobs p).owner = (k.jobs p).owner :=
    fun p hp => (hrun.owner (hledger.bound p (hledger.of_linked hp).1)).1
  obtain ⟨hqueue, hcalls, hpinned⟩ := hrun.of_drain
  refine ⟨fun p hp => ?_, fun p hp => ?_, fun p hp hf => ?_, fun p hp hf => ?_⟩
  · exact (Multiset.mem_add.mp hp).elim (fun hp => hcalls p hp) (hsubmit p)
  · rw [hqueue] at hp
    obtain ⟨hold, hne⟩ := List.mem_filter.mp hp
    rw [howner p (linked_pending hold)]
    exact of_decide_eq_true hne
  · rw [hqueue] at hp
    obtain ⟨hold, hne⟩ := List.mem_filter.mp hp
    rw [howner p (linked_completed hold)] at hf
    exact absurd hf (of_decide_eq_true hne)
  · rw [hqueue] at hp
    rw [howner p (linked_inFlight hp)] at hf
    exact .inr (.inl (Multiset.mem_add.mpr (.inl (hpinned p hp hf))))

end Draining

/-- What the queue still has of a drained file: completed jobs that a thread is waiting for, and the
job in flight if it is marked to be freed by its completion. -/
structure Emptied (f : File) (s : Sys) : Prop where
  pending : ∀ p ∈ s.mem.queue.pending, (s.mem.jobs p).owner ≠ f
  completed : ∀ p ∈ s.mem.queue.completed, (s.mem.jobs p).owner = f → p ∈ gather Frame.pins s.calls
  slot : ∀ p, s.mem.queue.inFlight = some p → (s.mem.jobs p).owner = f →
    (s.mem.jobs p).orphanOnComplete = true

/-- A file that submits nothing more has been drained when its drain returns, and stays so, whatever
the other threads do meanwhile. -/
theorem drain_leaves_nothing {s₀ s₁ : Sys} (h₀ : Reachable .any s₀)
    (hsubmit : ∀ call ∈ s₀.calls, call.enqueues f = false)
    (hdrain : machine.step s₀ (.enter (.drainOwner f)) = some s₁)
    (h : Lib.Reaches machine (closed f) s₁ s) (hend : ∀ call ∈ s.calls, call.drains f = false) :
    Emptied f s := by
  have h₁ : Reachable .any s₁ := Reaches.step (a := .enter (.drainOwner f)) h₀ trivial hdrain
  have hstart : Draining f s₁.mem s₁.calls := by
    obtain ⟨-, ⟨r, mem, calls, events, heq, henter, rfl, hcalls, -, -⟩ |
        ⟨t, good, call, rest, heq, -⟩⟩ :=
      Machine.step_cases hdrain
    · obtain rfl := Action.enter.inj heq
      rw [hcalls]
      refine .drained (ledger_reachable h₀) (fun p hp => ?_) (enter_enters henter)
      simpa [Frame.enqueues] using hsubmit _ hp
    · cases heq
  have hdraining : Draining f s.mem s.calls :=
    Reaches.invariant (J := fun k F _ => Draining f k F)
      (I := fun k F _ => Ledger k F ∧ Idle k F ∧ Pins k F ∧ Owners k F)
      (fun s hs => by
        have hs := h₁.trans hs.any
        exact ⟨ledger_reachable hs, idle_reachable hs, pins_reachable hs, owners_reachable hs⟩)
      hstart
      (fun _ _ _ _ _ _ _ hi hj hguard hstep =>
        hj.enters hi.1 hi.2.2.1 hguard (enter_enters hstep))
      (fun _ _ _ _ _ _ _ _ hi hj _ hstep => hj.runs hi.1 hi.2.1 hi.2.2.1 hi.2.2.2 (exec_runs hstep))
        h
  have hledger := ledger_reachable (h₁.trans h.any)
  refine ⟨hdraining.pending, fun p hp howner => ?_, fun p hslot howner => ?_⟩
  · have hlt := hledger.bound p (hledger.of_linked (linked_completed hp)).1
    have hcount := (pins_reachable (h₁.trans h.any)).count p hlt
    have hpin := hdraining.completed p hp howner
    exact Multiset.count_ne_zero.mp fun hzero => hpin (by rw [hcount, hzero, Nat.cast_zero])
  · refine (hdraining.slot p hslot howner).resolve_right fun hheld => ?_
    obtain ⟨call, hcall, -, hdrains⟩ := Draining.drains_of_held hheld
    exact absurd ((hend call hcall).symm.trans hdrains) (by simp)

/-- The drain frees the waiting job and gives the running one up. -/
abbrev givingUp : List (Action Request) := List.replicate 5 (.run 3 false)

theorem oneWaits_runs : (machine.run init oneWaits).isSome = true := by
  decide +kernel

abbrev waiting : Sys := (machine.run init oneWaits).get oneWaits_runs

theorem closing_steps : (machine.step waiting (.enter (.drainOwner 0))).isSome = true := by
  decide +kernel

abbrev drainEntered : Sys := (machine.step waiting (.enter (.drainOwner 0))).get closing_steps

theorem givingUp_runs : (machine.run drainEntered givingUp).isSome = true := by
  decide +kernel

theorem drain_leaves_nothing_timed_out :
    ((machine.run drainEntered givingUp).get givingUp_runs).mem.queue.inFlight = some 0 ∧
      Emptied 0 ((machine.run drainEntered givingUp).get givingUp_runs) :=
  ⟨by decide +kernel, drain_leaves_nothing (.of_get oneWaits_runs (by decide +kernel))
    (by decide +kernel) (Option.some_get closing_steps).symm
    (.of_get givingUp_runs (by decide +kernel)) (by decide +kernel)⟩

end Rkvdec.Av1d.JobQueue
