import Rkvdec.Av1d.JobFreed

/-! The lifetime of a job of the AV1 queue. A pin keeps a job from a thread that gives up or reaps
it, but not from one that asks for it, and some threads touch a job without a pin. -/
namespace Rkvdec.Av1d.JobQueue

open Lib Kernel
open Dispatch (File Ptr)

variable {k k' : Kernel} {F : Multiset Frame} {call : Frame} {calls : List Frame}
  {tr events : List Event} {r : Request} {good : Bool} {p q : Ptr} {f : File} {G : Guard} {s : Sys}

namespace Frame

/-- The job the call will touch without a pin. -/
def touches : Frame → List Ptr
  | .readId p => [p]
  | .quiesceWait p => [p]
  | _ => []

/-- Every job the call counts on. -/
def uses (call : Frame) : List Ptr := call.pins ++ call.touches

/-- The job the call expects on `Completed`. -/
def expects : Frame → List Ptr
  | .waitReap p => [p]
  | _ => []

/-- The jobs the section takes out of the queue to free them. -/
def reaps (k : Kernel) : Frame → List Ptr
  | .jobComplete _ _ => k.queue.inFlight.toList.filter fun p =>
      (k.jobs p).orphanOnComplete = true ∧ ¬ 0 < (k.jobs p).waiterPin
  | .waitExpired p =>
      if (k.jobs p).waiterPin - 1 = 0 ∧ (p ∈ k.queue.pending ∨ p ∈ k.queue.completed) then [p]
      else []
  | .waitReap p => if (k.jobs p).waiterPin - 1 = 0 then [p] else []
  | .drainPost f p timedOut => k.queue.completed.filter fun q =>
      ((unpinned k f p timedOut).jobs q).owner = f ∧
        ((unpinned k f p timedOut).jobs q).waiterPin = 0
  | _ => []

end Frame

/-- The jobs the request takes out of the queue to free them, whoever has them pinned: the one a
wait finds completed, and those of phase 1 of a drain. -/
def Request.takes (k : Kernel) : Request → List Ptr
  | .wait f id _ => (k.queue.completed.find? fun p => (k.jobs p).id = id).toList.filter fun p =>
      (k.jobs p).owner = f
  | .drainOwner f => drained k f
  | _ => []

/-- Runs in which a wait and the first phase of a drain meet no pinned job, and nobody takes a job
out of the queue to free it while a thread has yet to touch it without a pin. -/
def uncontested : Guard where
  enter := fun k F r => ∀ p ∈ r.takes k, (k.jobs p).waiterPin = 0 ∧ p ∉ gather Frame.touches F
  exec := fun k call F _ => ∀ p ∈ call.reaps k, p ∉ gather Frame.touches F

instance (mem : Kernel) (F : Multiset Frame) (r : Request) :
    Decidable (uncontested.enter mem F r) :=
  inferInstanceAs (Decidable (∀ p ∈ r.takes mem, _ ∧ _))

instance (mem : Kernel) (call : Frame) (F : Multiset Frame) (good : Bool) :
    Decidable (uncontested.exec mem call F good) :=
  inferInstanceAs (Decidable (∀ p ∈ call.reaps mem, _))

attribute [local simp] Frame.uses Frame.pins Frame.touches Frame.expects

section Sections

theorem linked_iff : k.linked p = true ↔
    p ∈ k.queue.pending ∨ p ∈ k.queue.completed ∨ k.queue.inFlight = some p := by
  simp [linked]

/-- A job stays in the queue until a section takes it out to free it. -/
theorem Runs.linked (h : Runs k call good k' calls events) (hp : k.linked p = true) :
    k'.linked p = true ∨ p ∈ call.reaps k := by
  rw [linked_iff] at hp ⊢
  induction h with
  | submitStart room free =>
    rcases hp with hp | hp | hp
    · exact .inl (.inl hp)
    · exact .inl (.inr (.inl hp))
    · cases free.symm.trans hp
  | submitWait => exact .inl (hp.imp_left (List.mem_append_left _))
  | completeOrphan slot orphan pin =>
    rcases hp with hp | hp | hp
    · exact .inl (.inl hp)
    · exact .inl (.inr (.inl hp))
    · exact .inr (by simp [Frame.reaps, hp, Option.some.inj (slot.symm.trans hp) ▸ orphan,
        Option.some.inj (slot.symm.trans hp) ▸ not_lt.mp pin])
  | complete slot keep =>
    rcases hp with hp | hp | hp
    · exact .inl (.inl hp)
    · exact .inl (.inr (.inl (List.mem_append_left _ hp)))
    · obtain rfl := Option.some.inj (slot.symm.trans hp)
      exact .inl (.inr (.inl (List.mem_append_right _ (List.mem_singleton_self _))))
  | workerPromote rearm open_ free head | resumePromote free head =>
    rcases hp with hp | hp | hp
    · rw [head, List.mem_cons] at hp
      rcases hp with rfl | hp
      · exact .inl (.inr (.inr rfl))
      · exact .inl (.inl hp)
    · exact .inl (.inr (.inl hp))
    · cases free.symm.trans hp
  | @waitExpiredPending q _ alive pin pending =>
    by_cases hne : p = q
    · exact .inr (by simp [Frame.reaps, hne, pin, pending])
    · exact .inl (hp.imp_left (List.mem_erase_of_ne hne).mpr)
  | @waitExpiredCompleted q _ alive pin pending completed =>
    by_cases hne : p = q
    · exact .inr (by simp [Frame.reaps, hne, pin, completed])
    · exact .inl (hp.imp_right (.imp_left (List.mem_erase_of_ne hne).mpr))
  | @waitReap q _ alive pin completed =>
    by_cases hne : p = q
    · exact .inr (by simp [Frame.reaps, hne, pin])
    · exact .inl (hp.imp_right (.imp_left (List.mem_erase_of_ne hne).mpr))
  | @drainPost f q timedOut _ alive =>
    rcases hp with hp | hp | hp
    · exact .inl (.inl hp)
    · by_cases hreap : ((unpinned k f q timedOut).jobs p).owner = f ∧
          ((unpinned k f q timedOut).jobs p).waiterPin = 0
      · exact .inr (List.mem_filter.mpr ⟨hp, decide_eq_true hreap⟩)
      · exact .inl (.inr (.inl (List.mem_filter.mpr ⟨hp, decide_eq_true hreap⟩)))
    · exact .inl (.inr (.inr hp))
  | _ => exact .inl hp

/-- What a call counts on its caller did, or it is in the queue. -/
theorem Runs.uses (h : Runs k call good k' calls events) (hp : p ∈ calls.flatMap Frame.uses) :
    call.reaps k = [] ∧ (p ∈ call.uses ∨ k'.linked p = true) := by
  have hwant := flatMap_wantKick (g := Frame.uses) rfl k.queue
  induction h with
  | submitStart =>
    obtain rfl : p = _ := by simpa using hp
    exact ⟨rfl, .inr (linked_inFlight rfl)⟩
  | submitWait =>
    obtain rfl : p = _ := by simpa using hp
    exact ⟨rfl, .inr (linked_pending (List.mem_append_right _ (List.mem_singleton_self _)))⟩
  | dpcError slot | quiesceSnapshot slot =>
    obtain rfl : p = _ := by simpa using hp
    exact ⟨rfl, .inr (linked_inFlight slot)⟩
  | waitDone | waitTimeout | drainDone | drainTimeout => exact ⟨rfl, .inl hp⟩
  | completeOrphan | complete =>
    simp [hwant] at hp
  | _ => simp at hp

/-- A thread goes on to reap a job it has seen signalled. -/
theorem Runs.expects (h : Runs k call good k' calls events)
    (hp : p ∈ calls.flatMap Frame.expects) : (k'.jobs p).done = true := by
  have hwant := flatMap_wantKick (g := Frame.expects) rfl k.queue
  induction h with
  | waitDone alive done =>
    obtain rfl : p = _ := by simpa using hp
    exact done
  | completeOrphan | complete => simp [hwant] at hp
  | _ => simp at hp

/-- A job that is signalled stays so. -/
theorem Runs.signalled (h : Runs k call good k' calls events) (hp : (k.jobs p).done = true) :
    (k'.jobs p).done = true := by
  rcases h.moves (F := 0) with ⟨-, -, -, hfixed⟩ | ⟨-, -, -, -, -, -, -, -, hfixed⟩ |
    ⟨-, -, -, -, -, -, -, hfixed⟩ | ⟨q, -, -, -, -, -, hdone⟩
  · rw [hfixed, hp]
  · rw [hfixed, hp]
  · rw [hfixed, hp]
  · rw [hdone, hp, Bool.true_or]

/-- What a section takes out of the queue has no pin but that of its own thread. -/
theorem Frame.reaps_pin (hp : p ∈ call.reaps k) :
    (k.jobs p).waiterPin ≤ (call.pins.count p : Int) := by
  cases call with
  | jobComplete result hwStatus =>
    simp only [Frame.reaps, List.mem_filter, decide_eq_true_eq] at hp
    exact (not_lt.mp hp.2.2).trans (Int.natCast_nonneg _)
  | waitExpired | waitReap =>
    simp only [Frame.reaps] at hp
    split at hp
    · rename_i hpin
      obtain rfl := List.mem_singleton.mp hp
      simp only [Frame.pins, List.count_singleton_self]
      omega
    · cases hp
  | drainPost f q timedOut =>
    simp only [Frame.reaps, List.mem_filter, decide_eq_true_eq, unpinned_pin] at hp
    have hpin := hp.2.2
    simp only [Frame.pins]
    omega
  | _ => cases hp

/-- No other thread has it pinned. -/
theorem Pins.reaped (h : Pins k (call ::ₘ F)) (hp : p ∈ call.reaps k) :
    p ∉ gather Frame.pins F := by
  intro hmem
  have hcount := h.count p (h.bound p (mem_gather_cons.mpr (.inr hmem)))
  rw [gather_cons, Multiset.count_add, Multiset.coe_count] at hcount
  have hpos := Multiset.count_pos.mpr hmem
  have hpin := Frame.reaps_pin hp
  push_cast at hcount
  omega

/-- A job stays in the queue until a request takes it out to free it. -/
theorem Enters.linked (h : Enters k r k' calls events) (hp : k.linked p = true) :
    k'.linked p = true ∨ p ∈ r.takes k := by
  rw [linked_iff] at hp ⊢
  induction h with
  | @waitTake f id timeoutMs q found owner =>
    by_cases hne : p = q
    · exact .inr (by simp [Request.takes, found, owner, hne])
    · exact .inl (hp.imp_right (.imp_left (List.mem_erase_of_ne hne).mpr))
  | @drain f | @drainPin f =>
    have hkeep {l : List Ptr} (hl : p ∈ l) :
        p ∈ l.filter (fun p => ¬ (k.jobs p).owner = f) ∨ p ∈ k.ofFile f l := by
      by_cases hf : (k.jobs p).owner = f
      · exact .inr (List.mem_filter.mpr ⟨hl, decide_eq_true hf⟩)
      · exact .inl (List.mem_filter.mpr ⟨hl, decide_eq_true hf⟩)
    rcases hp with hp | hp | hp
    · exact (hkeep hp).imp .inl (List.mem_append_left _)
    · exact (hkeep hp).imp (fun hin => .inr (.inl hin)) (List.mem_append_right _)
    · exact .inl (.inr (.inr hp))
  | _ => exact .inl hp

/-- A request counts on a job that is in the queue. -/
theorem Enters.uses (h : Enters k r k' calls events) (hp : p ∈ calls.flatMap Frame.uses) :
    k'.linked p = true := by
  induction h with
  | waitPin linked =>
    obtain rfl : p = _ := by simpa using hp
    exact linked_iff.mpr (linked.elim (fun hin => .inr (.inr hin)) .inl)
  | drainPin slot =>
    obtain rfl : p = _ := by simpa using hp
    exact linked_inFlight slot
  | _ => simp at hp

theorem Enters.expects (h : Enters k r k' calls events) : calls.flatMap Frame.expects = [] := by
  induction h with
  | _ => rfl

end Sections

theorem mem_uses : p ∈ gather Frame.uses F ↔
    p ∈ gather Frame.pins F ∨ p ∈ gather Frame.touches F := by
  simp only [mem_gather, Frame.uses, List.mem_append]
  grind

/-- What a thread counts on is in the queue, and what it is about to reap is signalled. -/
structure Custody (k : Kernel) (F : Multiset Frame) : Prop where
  used : ∀ p ∈ gather Frame.uses F, k.linked p = true
  expected : ∀ p ∈ gather Frame.expects F, (k.jobs p).done = true

namespace Custody

theorem runs (h : Custody k (call ::ₘ F)) (hpins : Pins k (call ::ₘ F))
    (hguard : uncontested.exec k call F good) (hrun : Runs k call good k' calls events) :
    Custody k' (↑calls + F) := by
  refine ⟨fun p hp => ?_, fun p hp => ?_⟩
  · rcases mem_gather_coe_add.mp hp with hp | hp
    · obtain ⟨hnone, huses | hlinked⟩ := hrun.uses hp
      · refine (hrun.linked (h.used p (mem_gather_cons.mpr (.inl huses)))).resolve_right ?_
        rw [hnone]
        exact List.not_mem_nil
      · exact hlinked
    · refine (hrun.linked (h.used p (mem_gather_cons.mpr (.inr hp)))).resolve_right fun hreap => ?_
      exact (mem_uses.mp hp).elim (hpins.reaped hreap) (hguard p hreap)
  · rcases mem_gather_coe_add.mp hp with hp | hp
    · exact hrun.expects hp
    · exact hrun.signalled (h.expected p (mem_gather_cons.mpr (.inr hp)))

theorem enters (h : Custody k F) (hledger : Ledger k F) (hpins : Pins k F)
    (hguard : uncontested.enter k F r) (hrun : Enters k r k' calls events) :
    Custody k' (↑calls + F) := by
  have hlt {p : Ptr} (hp : p ∈ gather Frame.uses F) : p < k.nextPtr :=
    hledger.bound p (hledger.of_linked (h.used p hp)).1
  refine ⟨fun p hp => ?_, fun p hp => ?_⟩
  · rcases mem_gather_coe_add.mp hp with hp | hp
    · exact hrun.uses hp
    · refine (hrun.linked (h.used p hp)).resolve_right fun htaken => ?_
      obtain ⟨hzero, htouches⟩ := hguard p htaken
      refine (mem_uses.mp hp).elim (fun hpin => ?_) htouches
      have hcount := hpins.count p (hlt hp)
      have hpos := Multiset.count_pos.mpr hpin
      omega
  · rw [gather_keep hrun.expects] at hp
    have hused : p ∈ gather Frame.uses F := by
      obtain ⟨call, hcall, hp⟩ := mem_gather.mp hp
      refine mem_gather.mpr ⟨call, hcall, ?_⟩
      cases call with
      | waitReap q => exact hp
      | _ => cases hp
    rw [hrun.done (hlt hused).ne]
    exact h.expected p hp

end Custody

theorem custody_reachable (h : Reachable uncontested s) : Custody s.mem s.calls :=
  Reachable.invariant (I := fun k F _ => Ledger k F ∧ Pins k F) (J := fun k F _ => Custody k F)
    (fun _ hs => ⟨ledger_reachable hs, pins_reachable hs⟩) ⟨by simp, by simp⟩
    (fun hi hj hguard hrun => hj.enters hi.1 hi.2 hguard hrun)
    (fun hi hj hguard hrun => hj.runs hi.2 hguard hrun) h

section Safety

theorem waitEvent_crash {finite : Bool} {done expired : List Frame × List Event}
    (h : waitEvent k p finite good done expired = some .crash) : k.alive p = false := by
  unfold waitEvent at h
  split_ifs at h with halive
  · exact halive
  · cases h
  · cases h

/-- The ways a section goes wrong: it touches a job that was freed, or unlinks one that is not on
the list. -/
theorem exec_crash (h : exec k call good = some .crash) :
    (∃ p, (p ∈ call.uses ∨ p ∈ call.owns ∨ p ∈ call.starts ∨ k.queue.inFlight = some p) ∧
      k.alive p = false) ∨ ∃ p ∈ call.expects, p ∉ k.queue.completed := by
  cases call with
  | jobStart p =>
    simp only [exec, jobStart, Option.some.injEq] at h
    split_ifs at h with halive
    exact .inl ⟨p, .inr (.inr (.inl (List.mem_singleton_self p))), halive⟩
  | readId p =>
    simp only [exec, readId, Option.some.injEq] at h
    split_ifs at h with halive
    exact .inl ⟨p, .inl (List.mem_singleton_self p), halive⟩
  | jobComplete result hwStatus =>
    simp only [exec, jobComplete, Option.some.injEq] at h
    split at h
    · cases h
    · rename_i p hslot
      split_ifs at h with halive
      exact .inl ⟨p, .inr (.inr (.inr hslot)), halive⟩
  | release jobs =>
    rcases jobs with _ | ⟨p, rest⟩
    · cases h
    · simp only [exec, release, Option.some.injEq] at h
      split_ifs at h with halive
      exact .inl ⟨p, .inr (.inl (List.mem_cons_self ..)), halive⟩
  | takeResult p =>
    simp only [exec, takeResult, Option.some.injEq] at h
    split_ifs at h with halive
    exact .inl ⟨p, .inr (.inl (List.mem_singleton_self p)), halive⟩
  | waitDone p | drainWait _ p | quiesceWait p =>
    exact .inl ⟨p, .inl (List.mem_singleton_self p), waitEvent_crash h⟩
  | waitExpired p =>
    simp only [exec, waitExpired, Option.some.injEq] at h
    split_ifs at h with halive
    exact .inl ⟨p, .inl (List.mem_singleton_self p), halive⟩
  | waitReap p =>
    simp only [exec, waitReap, Option.some.injEq] at h
    split_ifs at h with halive hpin hlisted
    · exact .inl ⟨p, .inl (List.mem_singleton_self p), halive⟩
    · exact .inr ⟨p, List.mem_singleton_self p, hlisted⟩
  | drainPost f p timedOut =>
    simp only [exec, drainPost, Option.some.injEq] at h
    split_ifs at h with halive
    exact .inl ⟨p, .inl (List.mem_singleton_self p), halive⟩
  | submitEnqueue f p =>
    simp only [exec, submitEnqueue, Option.some.injEq] at h
    split_ifs at h
  | evtDpc hwStatus =>
    simp only [exec, evtDpc, Option.some.injEq] at h
    split at h
    · cases h
    · split_ifs at h
  | kickWorker =>
    simp only [exec, kickWorker, Option.some.injEq] at h
    split at h
    · cases h
    · split at h <;> cases h
  | quiesceSnapshot =>
    simp only [exec, quiesceSnapshot, Option.some.injEq] at h
    split at h <;> cases h
  | resumeChain =>
    simp only [exec, resumeChain, Option.some.injEq] at h
    split at h <;> cases h
  | _ => cases h

/-- A job that is freed has no pin. -/
theorem Custody.freed (h : Custody k (call ::ₘ F)) (hledger : Ledger k (call ::ₘ F))
    (hpins : Pins k (call ::ₘ F)) (hrun : Runs k call good k' calls events) :
    ∀ x ∈ JobQueue.freed events, x.waiterPin = 0 := by
  rcases hrun.freed with hnone | ⟨p, howns, hone, halive, -⟩
  · rw [hnone]
    exact fun x hx => absurd hx List.not_mem_nil
  · intro x hx
    rw [hone] at hx
    obtain rfl := List.mem_singleton.mp hx
    change (k.jobs p).waiterPin = 0
    rw [hpins.count p (hledger.bound p halive), Int.natCast_eq_zero, Multiset.count_eq_zero]
    intro hpin
    have hlinked := h.used p (mem_uses.mpr (.inl hpin))
    exact (hledger.of_linked hlinked).2 (mem_gather_cons.mpr (.inl howns))

theorem unpinned_reachable (h : Reachable uncontested s) :
    ∀ x ∈ freed s.trace, x.waiterPin = 0 := by
  refine Reachable.invariant (I := fun k F _ => Ledger k F ∧ Pins k F ∧ Custody k F)
    (J := fun _ _ tr => ∀ x ∈ freed tr, x.waiterPin = 0)
    (fun _ hs => ⟨ledger_reachable hs, pins_reachable hs, custody_reachable hs⟩)
    (by simp [freed]) ?_ ?_ h
  · intro k F tr r k' calls events _ hj _ hrun
    rw [freed_append, hrun.freed, List.append_nil]
    exact hj
  · intro k call F tr good k' calls events hi hj _ hrun x hx
    rw [freed_append, List.mem_append] at hx
    exact hx.elim (hj x) (hi.2.2.freed hi.1 hi.2.1 hrun x)

/-- What holds of the jobs in a state of the system. -/
structure Lifetime (s : Sys) : Prop where
  /-- No thread has touched a job that was freed, freed it again, or unlinked one that is on no
  list. -/
  safe : s.crashed = false
  once : ((freed s.trace).map Freeing.job).Nodup
  unlinked : ∀ x ∈ freed s.trace, x.linked = false
  unpinned : ∀ x ∈ freed s.trace, x.waiterPin = 0

/-- A job of the AV1 queue is freed once, at pin 0 and out of the queue, and nobody touches it
afterwards, in every run in which a wait and the first phase of a drain meet no pinned job and
nobody takes a job out of the queue to free it while a thread has yet to touch it without a pin. -/
theorem no_av1_job_freed_in_use (h : Reachable uncontested s) : Lifetime s where
  safe := by
    refine Reaches.not_crashed
      (I := fun k F _ => Ledger k F ∧ Drive k F ∧ Idle k F ∧ Custody k F)
      (fun _ hs => ⟨ledger_reachable hs, drive_reachable hs, idle_reachable hs,
        custody_reachable hs⟩) rfl ?_ h
    rintro k call F tr good ⟨hledger, hdrive, hidle, hcustody⟩ - hcrash
    have halive {p : Ptr} (hp : k.linked p = true) : k.alive p = true := (hledger.of_linked hp).1
    rcases exec_crash hcrash with ⟨p, hp | hp | hp | hp, hdead⟩ | ⟨p, hp, hlisted⟩
    · have := halive (hcustody.used p (mem_gather_cons.mpr (.inl hp)))
      exact absurd (hdead.symm.trans this) (by simp)
    · have := hledger.alive p (mem_places.mpr (.inr (.inr (.inr (mem_gather_cons.mpr (.inl hp))))))
      exact absurd (hdead.symm.trans this) (by simp)
    · have := halive (linked_inFlight (hdrive.starts p (mem_gather_cons.mpr (.inl hp))))
      exact absurd (hdead.symm.trans this) (by simp)
    · exact absurd (hdead.symm.trans (halive (linked_inFlight hp))) (by simp)
    · -- the job is signalled, so it is not waiting or in flight any more
      have hdone := hcustody.expected p (mem_gather_cons.mpr (.inl hp))
      have hused : p ∈ call.uses := by
        cases call with
        | waitReap => exact hp
        | _ => cases hp
      have hbusy : ¬ Unfinished k (call ::ₘ F) p := fun hp => by
        cases (hidle p hp).symm.trans hdone
      rcases linked_iff.mp (hcustody.used p (mem_gather_cons.mpr (.inl hused))) with hin | hin | hin
      · exact hbusy (.inl hin)
      · exact hlisted hin
      · exact hbusy (.inr (.inl hin))
  once := (freed_reachable h).once
  unlinked := (freed_reachable h).unlinked
  unpinned := unpinned_reachable h

/-- Two threads wait for a job that runs, the wait of a third expires, and a drain of the file waits
too. The job is completed, and the last of them to let it go frees it. -/
abbrev manyWait : List (Action Request) :=
  .enter (.mapMmio 4096) :: submitBare 1 0 ++ List.replicate 3 (.run 1 true) ++
    [.enter (.wait 0 1 0), .enter (.wait 0 1 0), .enter (.wait 0 1 10), .run 4 false, .run 4 true,
      .enter (.drainOwner 0), .run 5 true, .enter (.interrupt 0x1100), .run 6 true, .run 6 true,
      .run 2 true, .run 2 true, .run 5 true, .run 5 true, .run 5 true, .run 3 true, .run 3 true,
      .run 3 true]

theorem manyWait_runs : (machine.run init manyWait).isSome = true := by
  decide +kernel

theorem no_av1_job_freed_in_use_many :
    freed ((machine.run init manyWait).get manyWait_runs).trace = [⟨0, false, 0⟩] ∧
      Lifetime ((machine.run init manyWait).get manyWait_runs) :=
  ⟨by decide +kernel, no_av1_job_freed_in_use (.of_get manyWait_runs (by decide +kernel))⟩

/-- A job is completed while a thread waits for it, and before that goes on a second one asks for
it. -/
abbrev secondAsks : List (Action Request) :=
  .enter (.mapMmio 4096) :: submitBare 1 0 ++ List.replicate 3 (.run 1 true) ++
    [.enter (.wait 0 1 0), .enter (.interrupt 0x1100), .run 3 true, .run 3 true,
      .enter (.wait 0 1 0), .run 4 true, .run 4 true, .run 2 true]

theorem secondAsks_runs : (machine.run init secondAsks).isSome = true := by
  decide +kernel

/-- It is freed with the pin of the first thread, which then touches it. -/
theorem pinned_av1_job_freed : ∃ s : Sys, Reachable .any s ∧ freed s.trace = [⟨0, false, 1⟩] ∧
    s.crashed = true ∧ ¬ Lifetime s := by
  have hcrashed : ((machine.run init secondAsks).get secondAsks_runs).crashed = true := by
    decide +kernel
  refine ⟨_, .of_get secondAsks_runs (by decide +kernel), by decide +kernel, hcrashed, fun h => ?_⟩
  exact absurd (hcrashed.symm.trans h.safe) (by simp)

end Safety

end Rkvdec.Av1d.JobQueue
