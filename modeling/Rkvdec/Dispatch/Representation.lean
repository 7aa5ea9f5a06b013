import Rkvdec.Dispatch.Cores

/-! Every live job has its place, and the four encodings of the two-core queue agree. -/
namespace Rkvdec.Dispatch

open Lib Kernel

variable {k k' : Kernel} {F : Multiset Frame} {call : Frame} {calls : List Frame}
  {tr events : List Event} {r : Request} {good : Bool} {p : Ptr} {d : Dev}

attribute [local simp] Frame.owns Frame.kicks

/-- The job is on a list or in a slot of a queue. -/
def Queue.Holds (q : Queue) (p : Ptr) : Prop :=
  p ∈ q.pending ∨ p ∈ q.completed ∨ ∃ c, q.inFlight c = some p

/-- Every live job is in a queue or with a thread. -/
def Homed (k : Kernel) (F : Multiset Frame) : Prop :=
  ∀ p, k.alive p = true → (∃ d, (k.queue d).Holds p) ∨ p ∈ owned F

namespace Homed

/-- A section that frees nothing: the jobs it takes off a queue it owns afterwards, and those it
owned it links or still owns. -/
theorem step (h : Homed k (call ::ₘ F)) (halive : ∀ p, k'.alive p = true → k.alive p = true)
    (hheld : ∀ p, k.alive p = true → (∃ d, (k.queue d).Holds p) →
      (∃ d, (k'.queue d).Holds p) ∨ p ∈ calls.flatMap Frame.owns)
    (howned : ∀ p ∈ call.owns, k'.alive p = true →
      (∃ d, (k'.queue d).Holds p) ∨ p ∈ calls.flatMap Frame.owns) :
    Homed k' (↑calls + F) := by
  intro p hp
  rw [owned, gather_coe_add, Multiset.mem_add, Multiset.mem_coe]
  rcases h p (halive p hp) with hold | hold
  · exact (hheld p (halive p hp) hold).imp_right .inl
  · rw [owned, gather_cons, Multiset.mem_add] at hold
    rcases hold with hold | hold
    · exact (howned p hold hp).imp_right .inl
    · exact .inr (.inr hold)

/-- A section that works on one queue. -/
theorem relink {k₁ : Kernel} {g : Queue → Queue} (h : Homed k (call ::ₘ F))
    (hg : ∀ p, (k.queue d).Holds p → (g (k.queue d)).Holds p ∨ p ∈ calls.flatMap Frame.owns)
    (hqueue : k₁.queue = k.queue := by rfl) (halive : k₁.alive = k.alive := by rfl)
    (howned : ∀ p ∈ call.owns, (k₁.setQueue d g).alive p = true →
      (∃ d', ((k₁.setQueue d g).queue d').Holds p) ∨ p ∈ calls.flatMap Frame.owns := by simp) :
    Homed (k₁.setQueue d g) (↑calls + F) := by
  refine h.step (fun p hp => halive ▸ hp) (fun p _ ⟨d', hp⟩ => ?_) howned
  by_cases hd : d' = d
  · subst hd
    exact (hg p hp).imp_left fun hp => ⟨d', by simpa [hqueue] using hp⟩
  · exact .inl ⟨d', by simpa [hd, hqueue] using hp⟩

/-- A section that touches no list and no slot. -/
theorem quiet (h : Homed k (call ::ₘ F)) (halive : k'.alive = k.alive)
    (hqueue : ∀ d p, (k.queue d).Holds p → (k'.queue d).Holds p)
    (howns : calls.flatMap Frame.owns = call.owns) : Homed k' (↑calls + F) :=
  h.step (fun _ hp => halive ▸ hp) (fun p _ ⟨d, hd⟩ => .inl ⟨d, hqueue d p hd⟩)
    (fun _ hp _ => .inr (howns ▸ hp))

end Homed

theorem Queue.Holds.append_pending {q : Queue} {l : List Ptr} (h : q.Holds p) :
    Queue.Holds { q with pending := q.pending ++ l } p :=
  h.imp_left fun h => List.mem_append_left _ h

theorem Queue.Holds.append_completed {q : Queue} {l : List Ptr} (h : q.Holds p) :
    Queue.Holds { q with completed := q.completed ++ l } p :=
  h.imp_right (.imp_left fun h => List.mem_append_left _ h)

theorem Queue.Holds.erase_pending {q : Queue} {p' : Ptr} (h : q.Holds p) :
    Queue.Holds { q with pending := q.pending.erase p' } p ∨ p = p' := by
  by_cases heq : p = p'
  · exact .inr heq
  · exact .inl (h.imp_left fun h => (List.mem_erase_of_ne heq).mpr h)

theorem Queue.Holds.erase_completed {q : Queue} {p' : Ptr} (h : q.Holds p) :
    Queue.Holds { q with completed := q.completed.erase p' } p ∨ p = p' := by
  by_cases heq : p = p'
  · exact .inr heq
  · exact .inl (h.imp_right (.imp_left fun h => (List.mem_erase_of_ne heq).mpr h))

/-- A released slot's job has gone to `Completed`, or is the one that was there. -/
theorem Queue.Holds.releaseSlot {q : Queue} {p' : Ptr} {c : Core} (h : q.Holds p)
    (hslot : q.inFlight c = some p') : (Dispatch.releaseSlot q c).Holds p ∨ p = p' := by
  rcases h with h | h | ⟨c', h⟩
  · exact .inl (.inl h)
  · exact .inl (.inr (.inl h))
  · by_cases hc : c' = c
    · subst hc
      exact .inr (Option.some.inj (h.symm.trans hslot))
    · exact .inl (.inr (.inr ⟨c', by simpa [hc] using h⟩))

theorem Queue.Holds.complete {q : Queue} {p' : Ptr} {c : Core} (h : q.Holds p)
    (hslot : q.inFlight c = some p') :
    (Dispatch.releaseSlot { q with completed := q.completed ++ [p'] } c).Holds p := by
  rcases h.releaseSlot hslot with h | rfl
  · exact h.imp_right (.imp_left fun h => List.mem_append_left _ h)
  · exact .inr (.inl (by simp))

/-- The core a promotion picks has nothing in its slot. -/
theorem pickTargetCore_empty {c : Core} (hshape : Shape k F tr) (hcores : Cores k F)
    (hcore : (k.queue d).pickTargetCore = some c) : (k.queue d).inFlight c = none := by
  obtain ⟨hcount, hidle⟩ := Queue.pickTargetCore_spec hcore
  rcases core_cases c with rfl | rfl
  · exact (hshape.slots.idle d).mp hidle
  · cases d with
    | rvd0 =>
      cases hopen : (k.queue .rvd0).peerOpen with
      | true => exact (hcores.idle hopen).mp hidle
      | false => exact (hcores.closed hopen).1
    | rvd1 => exact hcores.foreignSlot.1

namespace Homed

theorem promote {out : List Promotion} {c : Core} (h : Homed k (.kickPromotions d out ::ₘ F))
    (hslot : (k.queue d).inFlight c = none) :
    Homed (k.promote d p c) (.kickPromotions d (out ++ [⟨p, c⟩]) ::ₘ F) := by
  intro q hq
  rcases h q hq with ⟨d', hold⟩ | hold
  · left
    refine ⟨d', ?_⟩
    by_cases hd : d' = d
    · subst hd
      simp only [promote_queue, Function.update_self, Promoting.promote]
      rcases hold with hold | hold | ⟨c', hold⟩
      · by_cases heq : q = p
        · exact .inr (.inr ⟨c, by simp [heq]⟩)
        · exact .inl ((List.mem_erase_of_ne heq).mpr hold)
      · exact .inr (.inl hold)
      · have hc : c' ≠ c := by
          rintro rfl
          simp [hslot] at hold
        exact .inr (.inr ⟨c', by simpa [hc] using hold⟩)
    · simpa [hd] using hold
  · exact .inr (by simpa [owned] using hold)

theorem promoted (h : Homed k (.kickPromotions d [] ::ₘ F))
    (hshape : Shape k (.kickPromotions d [] ::ₘ F) tr)
    (hcores : Cores k (.kickPromotions d [] ::ₘ F)) :
    Homed (k.promoted d) (.kickPromotions d (k.promoting d).out ::ₘ F) := by
  refine (hshape.promotions (J := fun k F => Cores k F ∧ Homed k F) ⟨hcores, h⟩ ?_).2
  rintro k out p c hshape hcore hpick ⟨hcores, h⟩
  exact ⟨hcores.promote hshape hcore hpick, h.promote (pickTargetCore_empty hshape hcores hcore)⟩

/-- A fresh job goes to the thread that allocated it, or straight into a slot. -/
theorem alloc (h : Homed k (call ::ₘ F))
    (halive : k'.alive = Function.update k.alive k.nextPtr true)
    (hqueue : ∀ d p, (k.queue d).Holds p → (k'.queue d).Holds p) (howns : call.owns = [])
    (hnew : (∃ d, (k'.queue d).Holds k.nextPtr) ∨ k.nextPtr ∈ calls.flatMap Frame.owns) :
    Homed k' (↑calls + F) := by
  intro q hq
  rw [owned, gather_coe_add, Multiset.mem_add, Multiset.mem_coe]
  by_cases heq : q = k.nextPtr
  · rw [heq]
    exact hnew.imp_right .inl
  · rw [halive, Function.update_of_ne heq] at hq
    rcases h q hq with ⟨d, hold⟩ | hold
    · exact .inl ⟨d, hqueue d q hold⟩
    · rw [owned, gather_cons, howns, Multiset.coe_nil, zero_add] at hold
      exact .inr (.inr hold)

theorem holds_keep {g : Queue → Queue} (hg : ∀ p, (k.queue d).Holds p → (g (k.queue d)).Holds p)
    (d' : Dev) (p : Ptr) (h : (k.queue d').Holds p) : ((k.setQueue d g).queue d').Holds p := by
  by_cases hd : d' = d
  · subst hd
    simpa using hg p h
  · simpa [hd] using h

theorem runs (h : Homed k (call ::ₘ F)) (hshape : Shape k (call ::ₘ F) tr)
    (hcores : Cores k (call ::ₘ F)) (hrun : Runs k call good k' calls events) :
    Homed k' (↑calls + F) := by
  cases hrun with
  | @submitEnqueue f p =>
    simp only [coe_cons_add, coe_nil_add]
    have hinsert : Homed (k.pend p) (↑[Frame.kickPromotions .rvd0 [], .readJob p] + F) := by
      refine h.step (fun _ hq => hq) (fun q _ hq => .inl ?_) (fun q hq _ => .inl ?_)
      · obtain ⟨d, hq⟩ := hq
        exact ⟨d, holds_keep (fun _ hq => hq.append_pending) d q hq⟩
      · obtain rfl : q = p := by simpa using hq
        exact ⟨.rvd0, .inl (by simp)⟩
    simp only [coe_cons_add, coe_nil_add] at hinsert
    exact hinsert.promoted hshape.insert hcores.insert
  | @kickWorker d _ rearm =>
    have hdisarm : Homed (k.disarm d) (↑[Frame.kickPromotions d [], .kickWorker d] + F) :=
      h.quiet rfl (holds_keep fun _ hq => hq) rfl
    simp only [coe_cons_add, coe_nil_add] at hdisarm ⊢
    exact hdisarm.promoted hshape.disarm hcores.disarm
  | rollback _ slot | peerCompletion slot => exact h.relink fun q hq => .inl (hq.complete slot)
  | rollbackLost => exact h.relink fun q hq => .inl hq.append_completed
  | @completeOrphan d _ _ p _ slot =>
    refine h.relink fun q hq => ?_
    rw [hshape.slots.target d p slot]
    exact (hq.releaseSlot slot).imp_right fun heq => by simp [heq]
  | @complete d _ _ p _ slot =>
    refine h.relink fun q hq => ?_
    rw [hshape.slots.target d p slot]
    exact .inl (hq.complete slot)
  | @release p tag rest _ alive =>
    refine h.step (fun q hq => ?_) (fun q _ hq => .inl hq) (fun q hq hlive => .inr ?_)
    · by_cases heq : q = p
      · simp [heq] at hq
      · simpa [heq] using hq
    · have hne : q ≠ p := by
        rintro rfl
        simp at hlive
      simpa [hne] using hq
  | foreignBusy slot =>
    refine h.alloc rfl (fun d q hq => ?_) rfl (.inr (by simp))
    cases d <;> simpa [Queue.Holds] using hq
  | foreignRun slot =>
    refine h.alloc rfl (fun d q hq => ?_) rfl (.inl ⟨.rvd1, .inr (.inr ⟨0, by simp⟩)⟩)
    cases d with
    | rvd0 => simpa using hq
    | rvd1 =>
      simp only [setQueue_queue, alloc_queue, Function.update_self]
      refine hq.imp_right (.imp_right ?_)
      rintro ⟨c, hc⟩
      refine ⟨c, ?_⟩
      have hne : c ≠ 0 := by
        rintro rfl
        simp [slot] at hc
      simpa [hne] using hc
  | foreignReap | waitExpiredCompleted | waitReap =>
    exact h.relink fun q hq => hq.erase_completed.imp_right (by simp)
  | waitExpiredPending => exact h.relink fun q hq => hq.erase_pending.imp_right (by simp)
  | @drainPost f p timedOut =>
    refine h.relink (fun q hq => ?_) (unpinned_queue ..) (unpinned_alive ..)
    rcases hq with hq | hq | hq
    · exact .inl (.inl hq)
    · by_cases hreap : ((unpinned k f p timedOut).jobs q).owner = some f ∧
          ((unpinned k f p timedOut).jobs q).waiterPin = 0
      · right
        rw [List.flatMap_cons]
        exact List.mem_append_left _ (by simpa using ⟨hq, hreap⟩)
      · exact .inl (.inr (.inl (List.mem_filter.mpr ⟨hq, decide_eq_true hreap⟩)))
    · exact .inl (.inr (.inr hq))
  | enqueueKickWorker =>
    refine h.quiet rfl (holds_keep fun _ hq => hq) ?_
    split <;> rfl
  | workerExit => exact h.quiet rfl (holds_keep fun _ hq => hq) rfl
  | _ => exact h.quiet rfl (fun _ _ hq => hq) rfl

theorem spawn (h : Homed k F) : Homed k (.registerCompletion ::ₘ F) := by
  simpa [Homed, owned] using h

theorem enters (h : Homed k F) (hrun : Enters k r k' calls events) : Homed k' (↑calls + F) := by
  cases hrun with
  | submit =>
    refine h.spawn.alloc rfl (fun d q hq => ?_) rfl (.inr (by simp))
    cases d <;> simpa [Queue.Holds] using hq
  | waitTake => exact h.spawn.relink fun q hq => hq.erase_completed.imp_right (by simp)
  | @drainOwner f =>
    refine h.spawn.relink fun q hq => ?_
    by_cases howner : (k.jobs q).owner = some f
    · rcases hq with hq | hq | hq
      · exact .inr (by simp [hq, howner])
      · exact .inr (by simp [hq, howner])
      · exact .inl (.inr (.inr hq))
    · left
      refine hq.imp (fun hq => ?_) (.imp_left fun hq => ?_)
      · exact List.mem_filter.mpr ⟨hq, by simpa using howner⟩
      · exact List.mem_filter.mpr ⟨hq, by simpa using howner⟩
  | peerArrival => exact h.spawn.quiet rfl (holds_keep fun _ hq => hq) rfl
  | detachPeer waits =>
    refine h.spawn.quiet rfl (holds_keep fun _ hq => hq) ?_
    obtain rfl | ⟨p, -, rfl⟩ := waits <;> rfl
  | _ => exact h.spawn.quiet rfl (fun _ _ hq => hq) rfl

end Homed

theorem homed_reachable {G : Guard} {s : Sys}
    (hG : ∀ k F r, G.enter k F r → r.detaches = false ∨ (k.queue .rvd0).inFlight 1 = none)
    (h : Reachable G s) : Homed s.mem s.calls :=
  Reachable.invariant (I := fun k F tr => Shape k F tr ∧ Cores k F) (J := fun k F _ => Homed k F)
    (fun _ hs => ⟨shape_reachable hs, cores_reachable hG hs⟩) (by simp [Homed, kernelInit])
    (fun _ hhomed _ hrun => hhomed.enters hrun)
    (fun hi hhomed _ hrun => hhomed.runs hi.1 hi.2 hrun) h

/-- The four places of a queue. -/
def Queue.places (q : Queue) : Multiset Ptr :=
  (q.pending : Multiset Ptr) + q.completed + (q.inFlight 0).toList + (q.inFlight 1).toList

theorem mem_places {q : Queue} : p ∈ q.places ↔ q.Holds p := by
  simp only [Queue.places, Multiset.mem_add, Multiset.mem_coe, Option.mem_toList,
    Queue.Holds, or_assoc]
  refine or_congr_right (or_congr_right ⟨?_, ?_⟩)
  · rintro (h | h)
    · exact ⟨0, h⟩
    · exact ⟨1, h⟩
  · rintro ⟨c, h⟩
    rcases core_cases c with rfl | rfl
    · exact .inl h
    · exact .inr h

/-- The representation invariant of the dispatcher. -/
structure Representation (k : Kernel) (F : Multiset Frame) : Prop where
  /-- A live job is in one of the places of a queue, or a thread has it and no queue does. -/
  live : ∀ p, k.alive p = true ↔
    p ∈ (k.queue .rvd0).places + (k.queue .rvd1).places + owned F
  /-- No job is in two places. -/
  once : ((k.queue .rvd0).places + (k.queue .rvd1).places + owned F).Nodup
  idle : ∀ d (c : Core), c.val < (k.queue d).coreCount →
    ((k.queue d).coreIdle c = true ↔ (k.queue d).inFlight c = none)
  target : ∀ d c p, (k.queue d).inFlight c = some p → (k.jobs p).targetCore = c
  /-- `CorePending` counts the promoted job of a core. -/
  pending : ∀ c, (k.queue .rvd0).corePending c = ((k.queue .rvd0).inFlight c).toList.length
  /-- RVD1 runs the jobs of peer kicks, which nothing there promotes. -/
  foreign : ∀ c, (k.queue .rvd1).corePending c = 0
  /-- A core that gets a job promoted has none. -/
  promotion : ∀ d c, (k.queue d).pickTargetCore = some c → (k.queue d).inFlight c = none
  /-- A kick of the own core finds the codec idle and its job in the slot. -/
  kick : ∀ d p, .jobKickLocalInner d p ∈ F → k.hw d = none ∧ (k.queue d).inFlight 0 = some p
  /-- A kick of the peer finds its job in the slot and no earlier kick outstanding. -/
  peerKick : ∀ p ∈ loose F, (k.queue .rvd0).inFlight 1 = some p ∧ outstanding k F = 0

/-- The queue representation invariant holds in every state of every run in which the peer stays
attached. -/
theorem queue_representation {s : Sys} (h : Reachable attached s) :
    Representation s.mem s.calls := by
  have hG : ∀ k F r, attached.enter k F r →
      r.detaches = false ∨ (k.queue .rvd0).inFlight 1 = none := fun _ _ _ hr => .inl hr
  have hshape := shape_reachable h
  have hdrive := drive_reachable h
  have hcores := cores_reachable hG h
  have hhomed := homed_reachable hG h
  have hplaces : (s.mem.queue .rvd0).places + (s.mem.queue .rvd1).places + owned s.calls =
      core s.mem s.calls + s.mem.peerSlot := by
    simp only [Queue.places, core, Kernel.listed, Queue.listed, Kernel.peerSlot, Queue.peerSlot,
      hcores.foreignSlot.1, Option.toList_none, Multiset.coe_nil, add_zero]
    abel
  refine ⟨fun p => ⟨fun hp => ?_, fun hp => ?_⟩, hplaces ▸ hshape.ledger.slot, fun d c hc => ?_,
    fun d c p hp => ?_, hcores.pending, hcores.foreign,
    fun d c hc => pickTargetCore_empty hshape hcores hc, fun d p hp => ?_, fun p hp => ?_⟩
  · rw [Multiset.mem_add, Multiset.mem_add, mem_places, mem_places]
    refine (hhomed p hp).imp_left ?_
    rintro ⟨d, hd⟩
    cases d with
    | rvd0 => exact .inl hd
    | rvd1 => exact .inr hd
  · rw [hplaces] at hp
    exact hshape.ledger.alive p (Multiset.mem_add.mpr (.inl hp))
  · rcases core_cases c with rfl | rfl
    · exact hshape.slots.idle d
    · cases d with
      | rvd0 =>
        refine hcores.idle ?_
        by_contra hclosed
        rw [hcores.count, if_neg hclosed] at hc
        exact absurd hc (by decide)
      | rvd1 =>
        rw [hshape.slots.peerCount] at hc
        exact absurd hc (by decide)
  · rcases core_cases c with rfl | rfl
    · exact hshape.slots.target d p hp
    · cases d with
      | rvd0 => exact hcores.target p hp
      | rvd1 => simp [hcores.foreignSlot.1] at hp
  · obtain ⟨F, hF⟩ := Multiset.exists_cons_of_mem hp
    rw [hF] at hdrive
    exact ⟨(hdrive.alone (List.mem_singleton_self d)).2.1,
      hdrive.kicks d p (by simp)⟩
  · have hslot := hcores.loose p hp
    refine ⟨hslot, Multiset.eq_zero_of_forall_notMem fun c hc => ?_⟩
    obtain ⟨q, hq, rfl⟩ := hcores.kicked c hc
    obtain rfl : p = q := Option.some.inj (hslot.symm.trans hq)
    exact Cores.loose_fresh hshape hp hc

/-- Three submissions on two cores, up to the hand-over of the second job. -/
abbrev twoCores : List (Action Request) :=
  [.enter (.mapMmio .rvd0 4096), .enter .peerArrival, .run 1 true] ++ submitBare 2 0 ++
    [.run 2 true, .run 2 true] ++ submitBare 3 0 ++ submitBare 4 1

theorem twoCores_runs : (machine.run init twoCores).isSome = true := by
  decide +kernel

/-- The state it ends in. -/
abbrev twoCoresBusy : Sys := (machine.run init twoCores).get twoCores_runs

theorem queue_representation_busy : (twoCoresBusy.mem.queue .rvd0).places = {0, 1, 2} ∧
    (twoCoresBusy.mem.queue .rvd0).pending = [2] ∧
    Representation twoCoresBusy.mem twoCoresBusy.calls :=
  ⟨by decide +kernel, by decide +kernel,
    queue_representation (.of_get twoCores_runs (by decide +kernel))⟩

end Rkvdec.Dispatch
