import Rkvdec.Dispatch.Steps

/-! No waiting job is forgotten: the kick worker's two flags. -/
namespace Rkvdec.Dispatch

open Lib Kernel

section Full

variable {q : Queue} {s s' : Promoting}

theorem betterCore_none {best : Option Core} {i : Core} (h : q.betterCore best i = none) :
    best = none ∧ q.coreIdle i = false := by
  simp only [Queue.betterCore] at h
  grind

theorem foldl_betterCore_none {l : List Core} {best : Option Core}
    (h : l.foldl q.betterCore best = none) : best = none ∧ ∀ i ∈ l, q.coreIdle i = false := by
  induction l generalizing best with
  | nil => exact ⟨h, by simp⟩
  | cons i l ih =>
    obtain ⟨hbest, hl⟩ := ih h
    obtain ⟨hbest, hi⟩ := betterCore_none hbest
    refine ⟨hbest, fun j hj => ?_⟩
    rcases List.mem_cons.mp hj with rfl | hj
    · exact hi
    · exact hl j hj

/-- The attached cores with nothing to do. -/
def idleCores (q : Queue) : Finset Core :=
  Finset.univ.filter fun c => c.val < q.coreCount ∧ q.coreIdle c = true

theorem mem_idleCores {c : Core} : c ∈ idleCores q ↔ c.val < q.coreCount ∧ q.coreIdle c = true := by
  simp [idleCores]

theorem card_idleCores_le (q : Queue) : (idleCores q).card ≤ q.coreCount := by
  refine le_trans (Finset.card_le_card_of_injOn Fin.val (t := Finset.range q.coreCount) ?_ ?_)
    (Finset.card_range _).le
  · intro c hc
    simpa using (mem_idleCores.mp hc).1
  · exact Fin.val_injective.injOn

theorem idleCores_turn (h : s.turn = some s') :
    (idleCores s'.queue).card < (idleCores s.queue).card := by
  obtain ⟨p, c, hc, -, rfl⟩ := Promoting.turn_eq h
  obtain ⟨hlt, hidle⟩ := Queue.pickTargetCore_spec hc
  refine Finset.card_lt_card (Finset.ssubset_iff_of_subset ?_ |>.mpr ⟨c, ?_, ?_⟩)
  · intro i hi
    rw [mem_idleCores] at hi ⊢
    by_cases hic : i = c
    · simp [Promoting.promote, hic] at hi
    · simpa [Promoting.promote, hic] using hi
  · exact mem_idleCores.mpr ⟨hlt, hidle⟩
  · simp [mem_idleCores, Promoting.promote]

/-- The loop stops with nothing waiting or with no idle core left. -/
theorem turns_full (n : Nat) (h : (idleCores s.queue).card ≤ n) :
    (s.turns n).queue.pending = [] ∨ (s.turns n).queue.pickTargetCore = none := by
  induction n generalizing s with
  | zero =>
    right
    have hnone : idleCores s.queue = ∅ := Finset.card_eq_zero.mp (Nat.le_zero.mp h)
    rw [Promoting.turns]
    cases hpick : s.queue.pickTargetCore with
    | none => rfl
    | some c =>
      have : c ∈ idleCores s.queue := mem_idleCores.mpr (Queue.pickTargetCore_spec hpick)
      rw [hnone] at this
      exact absurd this (Finset.notMem_empty c)
  | succ n ih =>
    simp only [Promoting.turns]
    split
    · rename_i hturn
      cases hpick : s.queue.pickTargetCore with
      | none => exact .inr rfl
      | some c =>
        left
        cases hpending : s.queue.pending with
        | nil => rfl
        | cons head rest =>
          simp [Promoting.turn, hpick, Queue.pickPendingByOwnerLru, hpending] at hturn
    · rename_i s' hturn
      have := idleCores_turn hturn
      exact ih (by omega)

/-- After `PromoteUntilFull` a waiting job means that the device's own core is taken. -/
theorem promoted_full {k : Kernel} {d : Dev} (hcount : 1 ≤ (k.queue d).coreCount)
    (h : ((k.promoted d).queue d).pending ≠ []) : ((k.promoted d).queue d).coreIdle 0 = false := by
  have hfull := turns_full (s := ⟨k.jobs, k.queue d, [], []⟩) (k.queue d).coreCount
    (card_idleCores_le _)
  have hcount' : ((k.promoted d).queue d).coreCount = (k.queue d).coreCount := by
    refine promoted_inv (I := fun k' _ => (k'.queue d).coreCount = (k.queue d).coreCount) rfl ?_
    intro k' out p c _ _ hk'
    simpa [Promoting.promote] using hk'
  have heq : (k.promoted d).queue d =
      (Promoting.turns (k.queue d).coreCount ⟨k.jobs, k.queue d, [], []⟩).queue := by
    simp [promoting, promoteUntilFull]
  rw [heq] at h hcount' ⊢
  rcases hfull with hfull | hfull
  · exact absurd hfull h
  · refine (foldl_betterCore_none hfull).2 0 (Queue.mem_cores.mpr ?_)
    rw [hcount']
    exact hcount

end Full

namespace Frame

/-- A completion about to arm the worker of this device. -/
def arms : Frame → List Dev
  | .enqueueKickWorker d => [d]
  | _ => []

/-- A run of the worker of this device, started or about to be queued. -/
def runs : Frame → List Dev
  | .workItemEnqueue d => [d]
  | .kickWorker d => [d]
  | _ => []

end Frame

/-- The runs of the kick worker of a device that are outstanding. -/
def outstandingRuns (k : Kernel) (F : Multiset Frame) (d : Dev) : Nat :=
  (gather Frame.runs F).count d + k.workItem d

structure Awake (k : Kernel) (F : Multiset Frame) : Prop where
  waiting : ∀ d, (k.queue d).pending ≠ [] → (k.queue d).inFlight 0 ≠ none ∨
    (k.queue d).kickRearm = true ∨ d ∈ gather Frame.arms F
  rearm : ∀ d, (k.queue d).kickRearm = true → (k.queue d).kickActive = true
  runs : ∀ d, outstandingRuns k F d = if (k.queue d).kickActive then 1 else 0

namespace Frame

/-- A call inside a submission, a completion or a kick. -/
def dispatching : Frame → Bool
  | .submitEnqueue .. | .jobComplete .. | .peerCompletion .. | .signal .. => true
  | .enqueueKickWorker _ | .workItemEnqueue _ => true
  | .kickPromotions .. | .rollback .. | .jobKickLocalInner .. | .kickTail .. => true
  | _ => false

end Frame

attribute [local simp] Frame.arms Frame.runs Frame.dispatching

namespace Awake

variable {k k' : Kernel} {F F' : Multiset Frame} {call : Frame} {calls : List Frame}
  {tr events : List Event} {d : Dev} {good : Bool}

/-- A step that leaves the worker and its flags alone. -/
theorem keep (h : Awake k F)
    (hwait : ∀ d, (k'.queue d).pending ≠ [] → (k'.queue d).inFlight 0 ≠ none ∨
      d ∈ gather Frame.arms F' ∨
      ((k.queue d).pending ≠ [] ∧ (k'.queue d).inFlight 0 = (k.queue d).inFlight 0))
    (hrearm : ∀ d, (k'.queue d).kickRearm = (k.queue d).kickRearm := by
      first | exact fun _ => rfl | exact setQueue_proj Queue.kickRearm (by simp))
    (hactive : ∀ d, (k'.queue d).kickActive = (k.queue d).kickActive := by
      first | exact fun _ => rfl | exact setQueue_proj Queue.kickActive (by simp))
    (hruns : gather Frame.runs F' = gather Frame.runs F := by simp [gather_coe_add])
    (harms : ∀ d ∈ gather Frame.arms F, d ∈ gather Frame.arms F' := by
      simp +contextual [gather_coe_add])
    (hitem : k'.workItem = k.workItem := by rfl) : Awake k' F' where
  waiting d hp := by
    rcases hwait d hp with hslot | harm | ⟨hpend, hslot⟩
    · exact .inl hslot
    · exact .inr (.inr harm)
    · rw [hslot, hrearm]
      exact (h.waiting d hpend).imp_right (.imp_right (harms d))
  rearm d hr := by
    rw [hrearm] at hr
    rw [hactive]
    exact h.rearm d hr
  runs d := by
    rw [hactive, ← h.runs d, outstandingRuns, outstandingRuns, hruns, hitem]

/-- A section that leaves every queue's lists, slots and flags alone. -/
theorem quiet (h : Awake k (call ::ₘ F)) (hk : ∀ d, (k'.queue d).pending = (k.queue d).pending ∧
      (k'.queue d).inFlight 0 = (k.queue d).inFlight 0 ∧
      (k'.queue d).kickRearm = (k.queue d).kickRearm ∧
      (k'.queue d).kickActive = (k.queue d).kickActive)
    (hruns : calls.flatMap Frame.runs = call.runs := by simp) (harms : call.arms = [] := by rfl)
    (hitem : k'.workItem = k.workItem := by rfl) : Awake k' (↑calls + F) := by
  refine h.keep (fun d hp => .inr (.inr ⟨(hk d).1 ▸ hp, (hk d).2.1⟩)) (fun d => (hk d).2.2.1)
    (fun d => (hk d).2.2.2) ?_ (fun d hd => ?_) hitem
  · rw [gather_coe_add, hruns, gather_cons]
  · rw [gather_cons, harms, Multiset.coe_nil, zero_add] at hd
    exact mem_gather_coe_add.mpr (.inr hd)

theorem runs_cons :
    outstandingRuns k (call ::ₘ F) d = call.runs.count d + outstandingRuns k F d := by
  simp [outstandingRuns, add_assoc]

theorem runs_coe_add :
    outstandingRuns k (↑calls + F) d =
    (calls.flatMap Frame.runs).count d + outstandingRuns k F d := by
  simp [outstandingRuns, gather_coe_add, add_assoc]

/-- The promotions of one section: the flags stay, and if a job still waits the own core is
taken. -/
theorem promoted_flags :
    ((k.promoted d).queue d).kickRearm = (k.queue d).kickRearm ∧
    ((k.promoted d).queue d).kickActive = (k.queue d).kickActive :=
  promoted_inv (I := fun k' _ => (k'.queue d).kickRearm = (k.queue d).kickRearm ∧
    (k'.queue d).kickActive = (k.queue d).kickActive) ⟨rfl, rfl⟩
    fun k' out p c _ _ hk' => by simpa [Promoting.promote] using hk'

/-- A section that only takes jobs off the lists of one queue. -/
theorem shrink {g : Queue → Queue} (h : Awake k (call ::ₘ F))
    (hpending : ∀ p ∈ (g (k.queue d)).pending, p ∈ (k.queue d).pending)
    (hruns : calls.flatMap Frame.runs = call.runs := by rfl)
    (hslot : (g (k.queue d)).inFlight 0 = (k.queue d).inFlight 0 := by first | rfl | simp)
    (hrearm : (g (k.queue d)).kickRearm = (k.queue d).kickRearm := by rfl)
    (hactive : (g (k.queue d)).kickActive = (k.queue d).kickActive := by rfl)
    (harms : call.arms = [] := by rfl) : Awake (k.setQueue d g) (↑calls + F) := by
  refine h.keep (fun d' hp => ?_) (setQueue_proj Queue.kickRearm hrearm)
    (setQueue_proj Queue.kickActive hactive) ?_ (fun d' hd' => ?_)
  · right
    right
    by_cases hd : d' = d
    · subst hd
      simp only [setQueue_queue, Function.update_self] at hp ⊢
      obtain ⟨p, hp⟩ := List.exists_mem_of_ne_nil _ hp
      exact ⟨List.ne_nil_of_mem (hpending p hp), hslot⟩
    · exact ⟨by simpa [hd] using hp, by simp [hd]⟩
  · rw [gather_coe_add, hruns, gather_cons]
  · rw [gather_cons, harms, Multiset.coe_nil, zero_add] at hd'
    exact mem_gather_coe_add.mpr (.inr hd')

theorem setJob (h : Awake k F) (p : Ptr) (g : Job → Job) : Awake (k.setJob p g) F :=
  ⟨h.waiting, h.rearm, h.runs⟩

/-- A section that stores into jobs, or into what the worker never looks at. -/
theorem still (h : Awake k (call ::ₘ F)) (hqueue : k'.queue = k.queue := by rfl)
    (hitem : k'.workItem = k.workItem := by rfl)
    (hruns : calls.flatMap Frame.runs = call.runs := by rfl) (harms : call.arms = [] := by rfl) :
    Awake k' (↑calls + F) :=
  h.quiet (fun d => by rw [hqueue]; exact ⟨rfl, rfl, rfl, rfl⟩) hruns harms hitem

theorem workItemEnqueue (h : Awake k (.workItemEnqueue d ::ₘ F)) :
    Awake { k with workItem := Function.update k.workItem d (k.workItem d + 1) } F := by
  refine ⟨fun d' hp => ?_, h.rearm, fun d' => ?_⟩
  · simpa using h.waiting d' hp
  · have := h.runs d'
    rw [runs_cons] at this
    by_cases hd : d' = d
    · subst hd
      simp only [outstandingRuns, Frame.runs, List.count_singleton_self, Function.update_self]
        at this ⊢
      omega
    · simpa [outstandingRuns, hd, Ne.symm hd] using this

theorem kickWorker (hshape : Shape k (.kickWorker d ::ₘ F) tr) (h : Awake k (.kickWorker d ::ₘ F))
    (hruns : Runs k (.kickWorker d) good k' calls events) : Awake k' (↑calls + F) := by
  have hshape' := hshape.runs hruns
  cases hruns with
  | workerExit rearm =>
    refine ⟨fun d' hp => ?_, fun d' hr => ?_, fun d' => ?_⟩
    · have := h.waiting d'
      by_cases hd : d' = d <;> simp_all
    · have := h.rearm d'
      by_cases hd : d' = d <;> simp_all
    · have := h.runs d'
      rw [runs_cons] at this
      rw [runs_coe_add]
      by_cases hd : d' = d
      · subst hd
        have hzero : outstandingRuns k F d' = 0 := by
          simp only [Frame.runs, List.count_singleton_self] at this
          split at this <;> omega
        simpa [outstandingRuns] using hzero
      · simpa [hd, Ne.symm hd, outstandingRuns] using this
  | kickWorker rearm =>
    have hactive := h.rearm d rearm
    obtain ⟨hflag, hact⟩ := promoted_flags (k := k.disarm d) (d := d)
    refine ⟨fun d' hp => ?_, fun d' hr => ?_, fun d' => ?_⟩
    · by_cases hd : d' = d
      · subst hd
        have hidle := promoted_full (by simpa using hshape.slots.coreCount d') hp
        left
        intro hnone
        rw [(hshape'.slots.idle d').mpr hnone] at hidle
        simp at hidle
      · have := h.waiting d'
        simp_all [gather_coe_add]
    · by_cases hd : d' = d
      · subst hd
        rw [hflag] at hr
        simp at hr
      · have := h.rearm d'
        simp_all
    · have := h.runs d'
      rw [runs_cons] at this
      rw [runs_coe_add]
      by_cases hd : d' = d
      · subst hd
        rw [hact]
        simpa [outstandingRuns, hactive] using this
      · simpa [hd, Ne.symm hd, outstandingRuns] using this

/-- Every section keeps it. -/
theorem of_runs (hshape : Shape k (call ::ₘ F) tr) (h : Awake k (call ::ₘ F))
    (hruns : Runs k call good k' calls events) : Awake k' (↑calls + F) := by
  have hshape' := hshape.runs hruns
  cases hruns with
  | workerExit rearm => exact h.kickWorker hshape (Runs.workerExit rearm : Runs k _ good _ _ _)
  | kickWorker rearm => exact h.kickWorker hshape (Runs.kickWorker rearm : Runs k _ good _ _ _)
  | workItemEnqueue => exact coe_nil_add ▸ h.workItemEnqueue
  | @enqueueKickWorker d =>
    refine ⟨fun d' hp => ?_, fun d' hr => ?_, fun d' => ?_⟩
    · by_cases hd : d' = d
      · subst hd
        simp
      · have := h.waiting d'
        split <;> simp_all
    · by_cases hd : d' = d
      · subst hd
        simp
      · have := h.rearm d'
        simp_all
    · have := h.runs d'
      rw [runs_cons] at this
      rw [runs_coe_add]
      by_cases hd : d' = d
      · subst hd
        split <;> simp_all [outstandingRuns]
      · split <;> simp_all [outstandingRuns, Ne.symm hd]
  | submitEnqueue room =>
    obtain ⟨hflag, hact⟩ := promoted_flags (k := k.pend _) (d := .rvd0)
    refine h.keep (fun d hp => ?_) (fun d => ?_) fun d => ?_
    · cases d with
      | rvd0 =>
        left
        intro hnone
        have hidle := promoted_full (by simpa using hshape.slots.coreCount .rvd0) hp
        have := (hshape'.slots.idle .rvd0).mpr hnone
        simp_all
      | rvd1 =>
        have := hshape.slots.peerPending
        simp_all
    · cases d with
      | rvd0 => simpa using hflag
      | rvd1 => simp
    · cases d with
      | rvd0 => simpa using hact
      | rvd1 => simp
  | @completeOrphan d _ _ p _ slot | @complete d _ _ p _ slot =>
    have harm : (k.queue d).pending ≠ [] → d ∈ (wantKick k d).flatMap Frame.arms := by
      intro hp
      simp [wantKick, hp]
    refine h.keep fun d' hp => ?_
    by_cases hd : d' = d
    · subst hd
      have := harm (by simpa using hp)
      exact .inr (.inl (mem_gather_coe_add.mpr (.inl (by simpa using this))))
    · exact .inr (.inr (by simpa [hd] using hp))
  | peerCompletion | foreignBusy =>
    refine h.quiet fun d => ?_
    cases d <;> simp
  | rollback =>
    obtain ⟨rfl, rfl⟩ := (fits_cons.mp hshape.fits).1
    exact h.shrink fun _ hq => hq
  | foreignRun slot =>
    refine h.keep (fun d hp => ?_) (fun d => ?_) fun d => ?_
    · cases d with
      | rvd0 => exact .inr (.inr ⟨by simpa using hp, by simp⟩)
      | rvd1 => exact .inl (by simp)
    all_goals cases d <;> simp
  | foreignReap | rollbackLost => exact h.shrink fun _ hq => hq
  | waitExpiredPending => exact (h.setJob _ _).shrink fun _ hq => List.mem_of_mem_erase hq
  | waitExpiredCompleted | waitReap => exact (h.setJob _ _).shrink fun _ hq => hq
  | @drainPost f p timedOut =>
    have hstill : Awake (unpinned k f p timedOut) (.drainPost f p timedOut ::ₘ F) := by
      cases timedOut with
      | true => exact ⟨h.waiting, h.rearm, h.runs⟩
      | false => exact h.setJob p _
    refine hstill.shrink (fun _ hq => hq) ?_
    cases timedOut <;> rfl
  | _ => exact h.still

/-- A thread that starts is one with a call that does nothing yet. -/
theorem spawn (h : Awake k F) : Awake k (.registerCompletion ::ₘ F) :=
  h.keep fun _ hp => .inr (.inr ⟨hp, rfl⟩)

/-- Every request keeps it. -/
theorem of_enters {r : Request} (h : Awake k F) (henters : Enters k r k' calls events) :
    Awake k' (↑calls + F) := by
  cases henters with
  | submit =>
    refine h.spawn.quiet fun d => ?_
    cases d <;> simp
  | waitTake | peerArrival => exact h.spawn.shrink fun _ hp => hp
  | drainOwner => exact h.spawn.shrink fun _ hp => List.mem_of_mem_filter hp
  | detachPeer waits =>
    refine h.spawn.shrink (fun _ hp => hp) ?_
    rcases waits with rfl | ⟨p, -, rfl⟩ <;> rfl
  | @startWorker d queued =>
    refine ⟨fun d' hp => ?_, h.rearm, fun d' => ?_⟩
    · simpa using h.waiting d' hp
    · have := h.runs d'
      rw [runs_coe_add]
      by_cases hd : d' = d
      · subst hd
        simp only [outstandingRuns, List.flatMap_cons, List.flatMap_nil, Frame.runs,
          List.append_nil, List.count_singleton_self, Function.update_self] at this ⊢
        omega
      · simpa [outstandingRuns, hd, Ne.symm hd] using this
  | _ => exact h.spawn.still

end Awake

theorem awake_init : Awake kernelInit 0 where
  waiting d hp := absurd rfl hp
  rearm d hr := by simp [kernelInit, jobQueueInit] at hr
  runs d := rfl

theorem awake_reachable {G : Guard} {s : Sys} (h : Reachable G s) : Awake s.mem s.calls :=
  Reachable.invariant (J := fun k F _ => Awake k F) (fun _ hs => shape_reachable hs) awake_init
    (fun _ hawake _ henters => hawake.of_enters henters)
    (fun hshape hawake _ hruns => hawake.of_runs hshape hruns) h

/-- The completion of the job on the own core arms the worker while a job waits. -/
theorem jobComplete_arms {k : Kernel} {d : Dev} {p : Ptr} (hslot : (k.queue d).inFlight 0 = some p)
    (hpending : (k.queue d).pending ≠ []) (result : NtStatus) (hwStatus : BitVec 32) :
    ∃ k' calls, jobComplete k d result hwStatus = .next k' calls [] ∧
      .enqueueKickWorker d ∈ calls := by
  have harm : .enqueueKickWorker d ∈ wantKick k d := by
    simp [wantKick, hpending]
  simp only [jobComplete, hslot]
  split
  · exact ⟨_, _, rfl, List.mem_cons_of_mem _ harm⟩
  · exact ⟨_, _, rfl, harm⟩

/-- No stranded work: outside the submit, completion and kick steps a waiting job means that one
run of the worker is outstanding and will look at `Pending`, or that the job on the device's own
core arms the worker when it completes. -/
theorem no_stranded_work {s : Sys} (h : Reachable .any s) (d : Dev) :
    outstandingRuns s.mem s.calls d ≤ 1 ∧
    ((∀ call ∈ s.calls, call.dispatching = false) → (s.mem.queue d).pending ≠ [] →
      ((s.mem.queue d).kickActive = true ∧ (s.mem.queue d).kickRearm = true ∧
        outstandingRuns s.mem s.calls d = 1) ∨
      ∃ p, (s.mem.queue d).inFlight 0 = some p ∧ ∀ result hwStatus, ∃ k' calls,
        jobComplete s.mem d result hwStatus = .next k' calls [] ∧
          .enqueueKickWorker d ∈ calls) := by
  have hawake := awake_reachable h
  constructor
  · rw [hawake.runs d]
    split <;> decide
  · intro hquiet hpending
    rcases hawake.waiting d hpending with hslot | hrearm | harms
    · obtain ⟨p, hp⟩ := Option.ne_none_iff_exists'.mp hslot
      exact .inr ⟨p, hp, jobComplete_arms hp hpending⟩
    · have hactive := hawake.rearm d hrearm
      exact .inl ⟨hactive, hrearm, by simp [hawake.runs d, hactive]⟩
    · obtain ⟨call, hcall, hd⟩ := mem_gather.mp harms
      have := hquiet call hcall
      cases call <;> simp_all

/-- Two submissions on the one core of RVD0: the second job waits for the first. -/
abbrev secondWaits : List (Action Request) :=
  .enter (.mapMmio .rvd0 4096) :: submitBare 1 0 ++ [.run 1 true, .run 1 true, .run 1 true,
    .run 1 true, .run 1 true] ++ submitBare 2 0 ++ [.run 2 true]

theorem secondWaits_runs : (machine.run init secondWaits).isSome = true := by
  decide +kernel

/-- The state it ends in. -/
abbrev secondWaiting : Sys := (machine.run init secondWaits).get secondWaits_runs

theorem no_stranded_work_second : (secondWaiting.mem.queue .rvd0).pending = [1] ∧
    (((secondWaiting.mem.queue .rvd0).kickActive = true ∧
        (secondWaiting.mem.queue .rvd0).kickRearm = true ∧
        outstandingRuns secondWaiting.mem secondWaiting.calls .rvd0 = 1) ∨
      ∃ p, (secondWaiting.mem.queue .rvd0).inFlight 0 = some p ∧ ∀ result hwStatus, ∃ k' calls,
        jobComplete secondWaiting.mem .rvd0 result hwStatus = .next k' calls [] ∧
          .enqueueKickWorker .rvd0 ∈ calls) :=
  ⟨by decide +kernel, (no_stranded_work (.of_get secondWaits_runs (by decide +kernel)) .rvd0).2
    (by decide +kernel) (by decide +kernel)⟩

end Rkvdec.Dispatch
