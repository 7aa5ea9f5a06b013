import Rkvdec.Dispatch.Shape

/-! Every request and every section keeps the shape. -/
namespace Rkvdec.Dispatch

open Lib Kernel

variable {k k' : Kernel} {F : Multiset Frame} {calls : List Frame} {tr events : List Event}
  {p : Ptr} {d : Dev}

attribute [local simp] Frame.submits Frame.owns Frame.loose Frame.cookies Frame.fits

theorem mem_of_young (h : p ∈ young k F) : p ∈ core k F + loose F := by
  simp only [young, core, Kernel.listed, Queue.listed, Multiset.mem_add, mem_gather] at h ⊢
  rcases h with (h | ⟨call, hcall, hp⟩) | h
  · exact .inl (.inl (.inl (.inl (.inl h))))
  · refine .inl (.inr ⟨call, hcall, ?_⟩)
    cases call <;> simp_all
  · exact .inr h

namespace Ledger

theorem young_alive (h : Ledger k F) (hp : p ∈ young k F) : k.alive p = true := by
  rcases Multiset.mem_add.mp (mem_of_young hp) with hp | hp
  · exact h.alive_of_core hp
  · exact h.alive_of_loose hp

theorem young_ne (h : Ledger k F) (hp : p ∈ young k F) : p ≠ k.nextPtr :=
  (h.bound p (h.young_alive hp)).ne

end Ledger

namespace Slots

theorem alloc (h : Slots k) {job : Job} (hjob : job.targetCore = 0) : Slots (k.alloc job) := by
  refine ⟨h.idle, fun d p hp => ?_, h.coreCount, h.peerCount, h.peerPending⟩
  by_cases heq : p = k.nextPtr
  · simp [heq, hjob]
  · simpa [heq] using h.target d p hp

end Slots

section Promote

variable {c : Core} {out : List Promotion}

theorem peerSlot_promote_own : (k.promote .rvd0 p 0).peerSlot = k.peerSlot := by
  simp [Kernel.peerSlot, Queue.peerSlot, promote, Promoting.promote]

theorem peerSlot_promote_peer : (k.promote .rvd0 p 1).peerSlot = {p} := by
  simp [Kernel.peerSlot, Queue.peerSlot, promote, Promoting.promote]

theorem listed_promote_own (hp : p ∈ (k.queue .rvd0).pending)
    (hslot : (k.queue .rvd0).inFlight 0 = none) : (k.promote .rvd0 p 0).listed = k.listed := by
  have := coe_erase_add hp
  simp only [Kernel.listed, Queue.listed, promote, Promoting.promote, Function.update_self, hslot,
    ne_eq, reduceCtorEq, not_false_eq_true, Function.update_of_ne, Option.toList_some,
    Option.toList_none, Multiset.coe_singleton, Multiset.coe_nil, add_zero]
  rw [← this]
  abel

theorem listed_promote_peer (hp : p ∈ (k.queue .rvd0).pending) :
    p ::ₘ (k.promote .rvd0 p 1).listed = k.listed := by
  have := coe_erase_add hp
  simp only [Kernel.listed, Queue.listed, promote, Promoting.promote, Function.update_self,
    ne_eq, reduceCtorEq, not_false_eq_true, Function.update_of_ne, Fin.isValue, zero_ne_one]
  rw [← this, ← Multiset.singleton_add]
  abel

/-- A waiting job is in no own-core slot. -/
theorem Ledger.own_ne_pending {q : Ptr} (h : Ledger k F) (hp : p ∈ (k.queue .rvd0).pending)
    (hq : (k.queue d).inFlight 0 = some q) : q ≠ p := by
  rintro rfl
  have hN := (Multiset.nodup_add.mp (Multiset.nodup_add.mp h.slot).1).1
  have hpend : q ∈ ((k.queue .rvd0).pending : Multiset Ptr) := hp
  simp only [Kernel.listed, Queue.listed] at hN
  cases d with
  | rvd0 =>
    rw [hq] at hN
    have hN' := (Multiset.nodup_add.mp hN).1
    exact (Multiset.disjoint_left.mp (Multiset.nodup_add.mp hN').2.2
      (Multiset.mem_add.mpr (.inl hpend))) (by simp)
  | rvd1 =>
    rw [hq] at hN
    exact (Multiset.disjoint_left.mp (Multiset.nodup_add.mp hN).2.2
      (Multiset.mem_add.mpr (.inl (Multiset.mem_add.mpr (.inl hpend))))) (by simp)

/-- A waiting job is not in the peer slot. -/
theorem Ledger.peer_ne_pending (h : Ledger k F) (hp : p ∈ (k.queue .rvd0).pending) :
    (k.queue .rvd0).inFlight 1 ≠ some p := by
  intro hslot
  have hlisted : p ∈ core k F := by
    simp only [core, Kernel.listed, Queue.listed, Multiset.mem_add, Multiset.mem_coe]
    exact .inl (.inl (.inl (.inl hp)))
  refine Multiset.disjoint_left.mp (Multiset.nodup_add.mp h.slot).2.2 hlisted ?_
  simp [Kernel.peerSlot, Queue.peerSlot, hslot]

theorem id_promote (q : Ptr) : ((k.promote d p c).jobs q).id = (k.jobs q).id := by
  by_cases hq : q = p
  · subst hq
    simp [Promoting.promote]
  · simp [Promoting.promote, hq]

theorem Slots.promote (h : Slots k) (hne : ∀ d q, (k.queue d).inFlight 0 = some q → q ≠ p) :
    Slots (k.promote .rvd0 p c) := by
  have hpeer : (k.promote .rvd0 p c).queue .rvd1 = k.queue .rvd1 := by simp
  refine ⟨fun d => ?_, fun d q hq => ?_, fun d => ?_, ?_, ?_⟩
  · cases d with
    | rvd0 =>
      rcases core_cases c with rfl | rfl
      · simp [Promoting.promote]
      · simpa [Promoting.promote] using h.idle .rvd0
    | rvd1 =>
      rw [hpeer]
      exact h.idle .rvd1
  · cases d with
    | rvd0 =>
      rcases core_cases c with rfl | rfl
      · obtain rfl : p = q := by simpa [Promoting.promote] using hq
        simp [Promoting.promote]
      · have hq' : (k.queue .rvd0).inFlight 0 = some q := by simpa [Promoting.promote] using hq
        simpa [Promoting.promote, hne _ _ hq'] using h.target .rvd0 q hq'
    | rvd1 =>
      rw [hpeer] at hq
      simpa [Promoting.promote, hne _ _ hq] using h.target .rvd1 q hq
  · cases d with
    | rvd0 => simpa [Promoting.promote] using h.coreCount .rvd0
    | rvd1 =>
      rw [hpeer]
      exact h.coreCount .rvd1
  · rw [hpeer, h.peerCount]
  · rw [hpeer, h.peerPending]

theorem Ledger.promote (h : Ledger k (.kickPromotions .rvd0 out ::ₘ F))
    (hp : p ∈ (k.queue .rvd0).pending) (hslot : c = 0 → (k.queue .rvd0).inFlight 0 = none) :
    Ledger (k.promote .rvd0 p c) (.kickPromotions .rvd0 (out ++ [⟨p, c⟩]) ::ₘ F) := by
  rcases core_cases c with rfl | rfl
  · refine h.congr (listed_promote_own hp (hslot rfl)) peerSlot_promote_own ?_ ?_ rfl rfl
    · simp
    · simp
  · have hl := listed_promote_peer hp
    refine h.of_le ?_ ?_ rfl rfl
    · rw [peerSlot_promote_peer, core, core, ← hl]
      simp only [gather_cons, Frame.owns, Multiset.coe_nil, zero_add]
      refine le_trans (le_of_eq ?_) (Multiset.le_add_right _ _)
      rw [← Multiset.singleton_add]
      abel
    · rw [core, core, ← hl]
      simp only [gather_cons, Frame.owns, Frame.loose, Multiset.coe_nil, zero_add]
      refine le_of_eq ?_
      rw [← Multiset.singleton_add, List.filter_append, List.map_append, ← Multiset.coe_add]
      simp only [Fin.isValue, ne_eq, one_ne_zero, not_false_eq_true, decide_true,
        List.filter_cons_of_pos, List.filter_nil, List.map_cons, List.map_nil,
        Multiset.coe_singleton]
      abel

theorem Ids.promote (h : Ids k (.kickPromotions .rvd0 out ::ₘ F) tr)
    (hp : p ∈ (k.queue .rvd0).pending) :
    Ids (k.promote .rvd0 p c) (.kickPromotions .rvd0 (out ++ [⟨p, c⟩]) ::ₘ F) tr := by
  refine h.mono (fun q hq => ?_) (fun q _ => id_promote q) ?_ rfl (fun _ hc => ?_)
  · simp only [young, promote_queue, Promoting.promote, Function.update_self, Multiset.mem_add,
      gather_cons, Frame.loose, Frame.submits, Multiset.mem_coe, List.filter_append,
      List.map_append, List.mem_append] at hq ⊢
    rcases hq with (hq | hq) | (hq | hq) | hq
    · exact .inl (.inl (List.mem_of_mem_erase hq))
    · exact .inl (.inr hq)
    · exact .inr (.inl hq)
    · obtain ⟨pr, hpr, rfl⟩ := List.mem_map.mp hq
      obtain rfl := List.mem_singleton.mp (List.mem_filter.mp hpr).1
      exact .inl (.inl hp)
    · exact .inr (.inr hq)
  · simp [Promoting.promote]
  · simpa [Dispatch.outstanding] using hc

/-- A promotion moves the job from `Pending` into the slot of the core, and into the hands of the
promoting thread if it is the peer's. -/
theorem Shape.promote (h : Shape k (.kickPromotions d out ::ₘ F) tr)
    (hcore : (k.queue d).pickTargetCore = some c)
    (hpick : (k.queue d).pickPendingByOwnerLru k.jobs = some p) :
    Shape (k.promote d p c) (.kickPromotions d (out ++ [⟨p, c⟩]) ::ₘ F) tr := by
  have hp := Queue.pickPendingByOwnerLru_mem hpick
  obtain ⟨-, hidle⟩ := Queue.pickTargetCore_spec hcore
  cases d with
  | rvd1 => simp [h.slots.peerPending] at hp
  | rvd0 =>
    refine ⟨h.ledger.promote hp ?_, h.slots.promote ?_, ?_, h.ids.promote hp⟩
    · rintro rfl
      exact (h.slots.idle .rvd0).mp hidle
    · intro d q hq
      exact h.ledger.own_ne_pending hp hq
    · simpa using (fits_cons.mp h.fits).2

theorem Shape.promoted (h : Shape k (.kickPromotions d [] ::ₘ F) tr) :
    Shape (k.promoted d) (.kickPromotions d (k.promoting d).out ::ₘ F) tr :=
  promoted_inv (I := fun k out => Shape k (.kickPromotions d out ::ₘ F) tr) h
    fun _ _ _ _ hcore hpick h => h.promote hcore hpick

/-- The rule for invariants over `PromoteUntilFull`: what a promotion out of a state of this shape
keeps, the whole loop keeps. -/
theorem Shape.promotions {J : Kernel → Multiset Frame → Prop}
    (h : Shape k (.kickPromotions d [] ::ₘ F) tr) (hJ : J k (.kickPromotions d [] ::ₘ F))
    (hpromote : ∀ k out p c, Shape k (.kickPromotions d out ::ₘ F) tr →
      (k.queue d).pickTargetCore = some c →
      (k.queue d).pickPendingByOwnerLru k.jobs = some p → J k (.kickPromotions d out ::ₘ F) →
      J (k.promote d p c) (.kickPromotions d (out ++ [⟨p, c⟩]) ::ₘ F)) :
    J (k.promoted d) (.kickPromotions d (k.promoting d).out ::ₘ F) := by
  refine (promoted_inv (I := fun k out => Shape k (.kickPromotions d out ::ₘ F) tr ∧
    J k (.kickPromotions d out ::ₘ F)) ⟨h, hJ⟩ ?_).2
  rintro k out p c hcore hpick ⟨hshape, hJ⟩
  exact ⟨hshape.promote hcore hpick, hpromote k out p c hshape hcore hpick hJ⟩

end Promote

section Submit

variable {f : File} {w : KickWork} {promos : List Promotion}

/-- The fresh id is larger than every id and every cookie so far. -/
theorem Shape.submit {prog : Dense.Program} (h : Shape k F tr) :
    Shape (((k.setQueue .rvd0 fun q => { q with nextId := (k.queue .rvd0).nextId + 1 }).alloc
      (submitJob f ((k.queue .rvd0).nextId + 1) prog)).setFileLock f true)
      (↑[Frame.submitEnqueue f k.nextPtr] + F) (tr ++ []) := by
  have hyoung : ∀ q ∈ young k F, q ≠ k.nextPtr := fun q hq => h.ledger.young_ne hq
  refine ⟨?_, ?_, ?_, ?_⟩
  · refine h.ledger.alloc ?_ rfl ?_ rfl rfl
    · simp only [core, listed_setFileLock, listed_alloc]
      rw [listed_setQueue_eq rfl, ← Multiset.singleton_add]
      simp only [Multiset.coe_singleton, gather_singleton_add, Frame.owns]
      abel
    · simp
  · exact (Slots.alloc (h.slots.setQueue_keep rfl rfl rfl fun hp _ => hp) rfl).setFileLock _ _
  · exact Shape.fits_calls h.fits (by simp)
  · -- The fresh id is larger than every id and every cookie so far.
    have hold : ∀ q ∈ young ((((k.setQueue .rvd0 fun q => { q with
        nextId := (k.queue .rvd0).nextId + 1 }).alloc
          (submitJob f ((k.queue .rvd0).nextId + 1) prog)).setFileLock f true))
        (↑[Frame.submitEnqueue f k.nextPtr] + F), q = k.nextPtr ∨ q ∈ young k F := by
      intro q hq
      simp only [young, loose, gather_coe_add, setFileLock_queue, alloc_queue, setQueue_queue,
        Function.update_self, List.flatMap_cons, List.flatMap_nil, Frame.submits, Frame.loose,
        List.append_nil, Multiset.coe_nil, zero_add, Multiset.mem_add, Multiset.mem_coe,
        List.mem_singleton] at hq ⊢
      tauto
    refine ⟨fun q hq r hr heq => ?_, fun q hq => ?_, fun c hc => ?_,
      fun c hc q hq => ?_, ?_, ?_⟩
    · rcases hold q hq with rfl | hq' <;> rcases hold r hr with rfl | hr'
      · rfl
      · have := h.ids.le r hr'
        simp [submitJob, hyoung r hr'] at heq
        omega
      · have := h.ids.le q hq'
        simp [submitJob, hyoung q hq'] at heq
        omega
      · simp only [setFileLock_jobs, alloc_jobs, setQueue_nextPtr, setQueue_jobs, ne_eq,
          hyoung q hq', not_false_eq_true, Function.update_of_ne, hyoung r hr'] at heq
        exact h.ids.inj q hq' r hr' heq
    · rcases hold q hq with rfl | hq'
      · simp [submitJob]
      · have := h.ids.le q hq'
        simp [hyoung q hq']
        omega
    · have := h.ids.acceptedLe c (by simpa [accepted_append, accepted] using hc)
      simp only [setFileLock_queue, alloc_queue, setQueue_queue, Function.update_self]
      omega
    · have hc' : c ∈ accepted tr := by simpa [accepted_append, accepted] using hc
      rcases hold q hq with rfl | hq'
      · have := h.ids.acceptedLe c hc'
        simp [submitJob]
        omega
      · simpa [hyoung q hq'] using h.ids.fresh c hc' q hq'
    · simpa [accepted_append, accepted] using h.ids.nodup
    · intro c hc
      have := h.ids.outstanding c
        (by simpa [Dispatch.outstanding, gather_coe_add] using hc)
      simpa [accepted_append, accepted] using this

theorem accepted_events (s : Promoting) : accepted s.events = [] := s.filterMap_events

/-- The job goes from the submitting thread to the tail of `Pending`. -/
theorem Shape.insert (h : Shape k (.submitEnqueue f p ::ₘ F) tr) :
    Shape (k.pend p) (.kickPromotions .rvd0 [] ::ₘ .readJob p ::ₘ F) tr := by
  refine ⟨?_, ?_, ?_, ?_⟩
  · have hl := listed_setQueue (k := k) (d := .rvd0)
      (g := fun q => { q with pending := q.pending ++ [p] }) (A := 0) (B := {p})
      (by simp only [Queue.listed, ← Multiset.coe_add, Multiset.coe_singleton]; abel)
    refine h.ledger.of_le (le_of_eq ?_) (le_of_eq ?_) rfl rfl
    · rw [peerSlot_setQueue rfl, core, core, ← add_zero (Kernel.listed _), hl]
      simp only [gather_cons, Frame.owns, Multiset.coe_nil, Multiset.coe_singleton]
      abel
    · rw [core, core, ← add_zero (Kernel.listed _), hl]
      simp only [gather_cons, Frame.owns, Frame.loose, Multiset.coe_nil,
        Multiset.coe_singleton, List.filter_nil, List.map_nil]
      abel
  · exact h.slots.setQueue_keep rfl rfl rfl (by simp)
  · simpa using h.fits
  · refine h.ids.mono (fun q hq => ?_) (fun _ _ => rfl) (by simp) rfl (fun c hc => ?_)
    · simp only [young, setQueue_queue, Function.update_self, gather_cons, Frame.submits,
        Frame.loose, Multiset.mem_add, Multiset.mem_coe, List.mem_append, List.filter_nil,
        List.map_nil, List.not_mem_nil, false_or] at hq ⊢
      tauto
    · simpa [outstanding] using hc

/-- The peer takes the kick: the job leaves the hands of the promoting thread, and its id is the
cookie of an outstanding kick from now on. -/
theorem Shape.accept {w : KickWork}
    (h : Shape k (.kickPromotions .rvd0 (⟨p, 1⟩ :: promos) ::ₘ F) tr)
    (hcookie : w.cookie = (k.jobs p).id) :
    Shape { k with work := k.work ++ [w] } (.kickPromotions .rvd0 promos ::ₘ F)
      (tr ++ [.accepted w.cookie]) := by
  have hloose : loose (.kickPromotions .rvd0 (⟨p, 1⟩ :: promos) ::ₘ F) =
      p ::ₘ loose (.kickPromotions .rvd0 promos ::ₘ F) := by
    simp [← Multiset.cons_coe]
  have hpyoung : p ∈ young k (.kickPromotions .rvd0 (⟨p, 1⟩ :: promos) ::ₘ F) := by
    simp [young, hloose]
  have hN := h.ledger.promo
  rw [hloose, Multiset.add_cons, Multiset.nodup_cons] at hN
  have hcore : core { k with work := k.work ++ [w] } (.kickPromotions .rvd0 promos ::ₘ F) =
      core k (.kickPromotions .rvd0 (⟨p, 1⟩ :: promos) ::ₘ F) := by
    simp only [core, gather_cons, Frame.owns]
    rfl
  have hyoung : ∀ q ∈ young { k with work := k.work ++ [w] } (.kickPromotions .rvd0 promos ::ₘ F),
      q ∈ young k (.kickPromotions .rvd0 (⟨p, 1⟩ :: promos) ::ₘ F) ∧ q ≠ p := by
    intro q hq
    constructor
    · simp only [young, hloose, gather_cons, Frame.submits, Multiset.mem_add,
        Multiset.mem_cons] at hq ⊢
      tauto
    · rintro rfl
      exact hN.1 (hcore ▸ mem_of_young hq)
  refine ⟨?_, ?_, ?_, ?_⟩
  · refine h.ledger.of_le (le_of_eq (by rw [hcore]; rfl)) ?_ rfl rfl
    rw [hcore, hloose]
    exact add_le_add_right (Multiset.le_cons_self _ _) _
  · exact h.slots.congr (fun _ => rfl) (fun _ => rfl) (fun _ => rfl) (fun _ => rfl) rfl
  · exact fits_cons.mpr ⟨trivial, (fits_cons.mp h.fits).2⟩
  · have hacc : accepted (tr ++ [.accepted w.cookie]) = accepted tr ++ [w.cookie] := by
      simp [accepted, acceptedCookie]
    refine ⟨fun q hq r hr => ?_, fun q hq => ?_, fun c hc => ?_, fun c hc q hq => ?_, ?_,
      fun c hc => ?_⟩
    · exact h.ids.inj q (hyoung q hq).1 r (hyoung r hr).1
    · exact h.ids.le q (hyoung q hq).1
    · rw [hacc, List.mem_append, List.mem_singleton] at hc
      rcases hc with hc | rfl
      · exact h.ids.acceptedLe c hc
      · rw [hcookie]
        exact h.ids.le p hpyoung
    · rw [hacc, List.mem_append, List.mem_singleton] at hc
      rcases hc with hc | rfl
      · exact h.ids.fresh c hc q (hyoung q hq).1
      · rw [hcookie]
        exact fun heq => (hyoung q hq).2 (h.ids.inj q (hyoung q hq).1 p hpyoung heq)
    · rw [hacc]
      refine List.nodup_append.mpr ⟨h.ids.nodup, List.nodup_singleton _, ?_⟩
      rintro c hc _ hc' rfl
      rw [List.mem_singleton.mp hc', hcookie] at hc
      exact h.ids.fresh _ hc p hpyoung rfl
    · rw [hacc, List.mem_append, List.mem_singleton]
      have hc' : c ∈ Dispatch.outstanding k
          (.kickPromotions .rvd0 (⟨p, 1⟩ :: promos) ::ₘ F) ∨ c = w.cookie := by
        simp only [Dispatch.outstanding, List.map_append, List.map_cons, List.map_nil,
          gather_cons, Frame.cookies, Multiset.mem_add, Multiset.mem_coe, List.mem_append,
          List.mem_singleton] at hc ⊢
        tauto
      exact hc'.imp_left (h.ids.outstanding c)

/-- The worker takes notice of the kick and promotes. -/
theorem Shape.disarm (h : Shape k (.kickWorker d ::ₘ F) tr) :
    Shape (k.disarm d) (.kickPromotions d [] ::ₘ .kickWorker d ::ₘ F) tr := by
  have hstart : Shape (k.disarm d)
      (↑[Frame.kickPromotions d [], .kickWorker d] + F) (tr ++ []) :=
    h.quiet (.setQueue rfl rfl rfl rfl rfl rfl) rfl rfl (by simp)
      (by simp) (by cases d <;> simp) rfl
  simpa only [coe_cons_add, coe_nil_add, List.append_nil] using hstart

end Submit

section Moves

/-- Jobs change hands between the places of one queue and the threads. -/
theorem Ledger.relink {F' : Multiset Frame} {g : Queue → Queue} {A B : Multiset Ptr}
    (h : Ledger k F) (hlisted : (g (k.queue d)).listed + A = (k.queue d).listed + B)
    (hslot : (g (k.queue d)).inFlight 1 = (k.queue d).inFlight 1)
    (howned : owned F' + B = owned F + A) (hloose : loose F' = loose F) :
    Ledger (k.setQueue d g) F' := by
  have hcore : core (k.setQueue d g) F' = core k F := by
    have hk := listed_setQueue hlisted
    refine add_right_cancel (b := A + B) ?_
    calc core (k.setQueue d g) F' + (A + B)
        = ((k.setQueue d g).listed + A) + (owned F' + B) := by rw [core]; abel
      _ = core k F + (A + B) := by rw [hk, howned, core]; abel
  refine h.of_le (le_of_eq ?_) (le_of_eq ?_) rfl rfl
  · rw [hcore, peerSlot_setQueue hslot]
  · rw [hcore, hloose]

/-- Jobs leave the lists or the own-core slot of one queue for a thread that frees them. -/
theorem Ledger.unlink {F' : Multiset Frame} {g : Queue → Queue} {A : Multiset Ptr}
    (h : Ledger k F) (hlisted : (g (k.queue d)).listed + A = (k.queue d).listed)
    (hslot : (g (k.queue d)).inFlight 1 = (k.queue d).inFlight 1)
    (howned : owned F' = A + owned F) (hloose : loose F' = loose F) :
    Ledger (k.setQueue d g) F' :=
  h.relink (B := 0) (by simpa using hlisted) hslot (by rw [howned, add_zero, add_comm]) hloose

theorem Ledger.setJob (h : Ledger k F) (p : Ptr) (g : Job → Job) : Ledger (k.setJob p g) F :=
  h.congr rfl rfl rfl rfl rfl rfl

theorem id_update {jobs : Ptr → Job} {job : Job} (hjob : job.id = (jobs p).id) (q : Ptr) :
    (Function.update jobs p job q).id = (jobs q).id := by
  by_cases hq : q = p
  · subst hq
    simpa using hjob
  · simp [hq]

/-- The slot of RVD1's core takes a job out of the hands of a thread. -/
theorem Slots.stamp (h : Slots k) (hp : (k.jobs p).targetCore = 0) :
    Slots (k.setQueue .rvd1 fun q =>
      { q with
        inFlight := Function.update q.inFlight 0 (some p)
        coreIdle := Function.update q.coreIdle 0 false }) := by
  refine h.setQueue (by simp) (fun q hq => ?_) (h.coreCount _)
    fun _ => ⟨h.peerCount, h.peerPending⟩
  obtain rfl : p = q := by simpa using hq
  exact hp

theorem listed_erase_completed {q : Queue} (hp : p ∈ q.completed) :
    Queue.listed { q with completed := q.completed.erase p } + {p} = q.listed := by
  simp only [Queue.listed]
  rw [← coe_erase_add hp]
  abel

theorem listed_erase_pending {q : Queue} (hp : p ∈ q.pending) :
    Queue.listed { q with pending := q.pending.erase p } + {p} = q.listed := by
  simp only [Queue.listed]
  rw [← coe_erase_add hp]
  abel

theorem same_addPin (n : Int) : Same k (k.setJob p (addPin n)) := .setJob rfl rfl

theorem same_markOrphans : Same k (markOrphans k f) := by
  refine ⟨fun _ => rfl, fun _ => rfl, fun _ => rfl, fun _ => rfl, fun _ => rfl, fun _ => rfl,
    fun q => ?_, fun q => ?_, rfl, rfl, rfl⟩
  · simp only [markOrphans]
    split <;> rfl
  · simp only [markOrphans]
    split <;> rfl

/-- The transient job of a peer kick belongs to the thread that allocated it. -/
theorem Shape.alloc_foreign {w : KickWork} {id : Nat}
    (h : Shape k (.jobRunForeign w ::ₘ F) tr) :
    Ledger (k.allocForeign id w) (.release [(k.nextPtr, .gFKR)] ::ₘ F) ∧
    Slots (k.allocForeign id w) := by
  refine ⟨h.ledger.alloc ?_ rfl ?_ rfl rfl,
    .alloc (h.slots.setQueue_keep rfl rfl rfl fun hp _ => hp) rfl⟩
  · simp only [core, listed_alloc]
    rw [listed_setQueue_eq rfl]
    simp only [gather_cons, Frame.owns, List.map_cons, List.map_nil, Multiset.coe_singleton,
      Multiset.coe_nil, zero_add]
    rw [Multiset.singleton_add, Multiset.add_cons]
  · simp

end Moves

/-- Every section keeps the shape. -/
theorem Shape.runs {call : Frame} {good : Bool} (h : Shape k (call ::ₘ F) tr)
    (hruns : Runs k call good k' calls events) : Shape k' (↑calls + F) (tr ++ events) := by
  cases hruns with
  | bufInsert | endWork | registerCompletion | workItemEnqueue | kicked | submitBusy =>
    exact h.quiet (by constructor <;> intros <;> rfl) rfl rfl
  | submitEnqueue room =>
    simp only [coe_cons_add, coe_nil_add]
    exact (h.insert.promoted.setFileLock _ _).append (accepted_events _)
  | @kickOwn d | @kickRefused d =>
    obtain rfl : d = .rvd0 := by
      cases d with
      | rvd0 => rfl
      | rvd1 => simpa using (fits_cons.mp h.fits).1
    exact h.quiet (.refl _) rfl (by simp)
  | @kickPeer d p rest w _ alive peerOpen ok =>
    obtain rfl : d = .rvd0 := by
      cases d with
      | rvd0 => rfl
      | rvd1 => simpa using (fits_cons.mp h.fits).1
    obtain ⟨rfl, -⟩ := peerKickJob_ok ok
    simp only [coe_cons_add, coe_nil_add]
    exact h.accept rfl
  | @rollback d p c status _ alive slot | @rollbackLost d p c status _ alive slot =>
    obtain ⟨rfl, rfl⟩ : d = .rvd0 ∧ c = 1 := (fits_cons.mp h.fits).1
    -- The refused job goes to `Completed`; it leaves the peer slot if that still holds it.
    refine h.step (h.ledger.complete_loose (p := p) ?_ ?_ ?_ ?_ rfl rfl)
      (h.slots.setQueue_keep ?_ ?_ rfl fun hp _ => hp) fun _ _ => rfl
    · simp [Multiset.singleton_add]
    · simp only [core, gather_cons, coe_cons_add, Frame.owns, Multiset.coe_nil, zero_add]
      rw [← add_zero (Kernel.listed (setQueue _ _ _)), listed_setQueue (B := {p}),
        ← Multiset.singleton_add]
      · abel
      · simp only [Queue.listed, releaseSlot_pending, releaseSlot_completed, releaseSlot_inFlight,
          ← Multiset.coe_add, Multiset.coe_singleton, Fin.isValue, ne_eq, zero_ne_one,
          not_false_eq_true, Function.update_of_ne]
        abel
    · simp [Kernel.peerSlot, Queue.peerSlot]
    · simp [Kernel.peerSlot, Queue.peerSlot, slot]
    · simp
    · simp
  | @completeOrphan d result hwStatus p _ slot orphan pin =>
    rw [h.slots.target d p slot]
    refine h.step ((h.ledger.setJob p _).unlink (A := {p}) ?_ (by simp)
      (by simp [gather_coe_add]) (by simp [gather_coe_add]))
      ((h.slots.setJob p rfl).releaseSlot 0 Queue.completed)
      (fun q _ => id_update (by rfl) q) ?_ ?_
    · simp only [setJob_queue, Queue.listed, releaseSlot_pending, releaseSlot_completed,
        releaseSlot_inFlight, Function.update_self, slot, Option.toList_none, Option.toList_some,
        Multiset.coe_nil, Multiset.coe_singleton]
      abel
    · cases d <;> simp
    · cases d <;> simp
  | @complete d result hwStatus p _ slot keep =>
    rw [h.slots.target d p slot]
    refine h.step ((h.ledger.setJob p _).unlink (A := 0) ?_ (by simp)
      (by simp [gather_coe_add]) (by simp [gather_coe_add]))
      ((h.slots.setJob p rfl).releaseSlot 0 fun q => q.completed ++ [p])
      (fun q _ => id_update (by rfl) q) ?_ ?_
    · simp only [setJob_queue, Queue.listed, releaseSlot_pending, releaseSlot_completed,
        releaseSlot_inFlight, Function.update_self, slot, Option.toList_none, Option.toList_some,
        Multiset.coe_nil, Multiset.coe_singleton, ← Multiset.coe_add]
      abel
    · cases d <;> simp
    · cases d <;> simp
  | signal | foreignExpired => exact h.quiet (.setJob rfl rfl) rfl rfl
  | @release p tag rest _ alive =>
    refine h.step (h.ledger.free (p := p) ?_ rfl ?_ rfl rfl)
      (h.slots.congr (fun _ => rfl) (fun _ => rfl) (fun _ => rfl) (fun _ => rfl) rfl)
      fun _ _ => rfl
    · simp only [core, gather_cons, gather_coe_add, List.flatMap_cons, List.flatMap_nil,
        List.append_nil, Frame.owns, List.map_cons, listed_free]
      rw [← Multiset.cons_coe, Multiset.cons_add, Multiset.add_cons]
    · simp
  | workerExit => exact h.quiet (.setQueue rfl rfl rfl rfl rfl rfl)
  | enqueueKickWorker => split <;> exact h.quiet (.setQueue rfl rfl rfl rfl rfl rfl)
  | kickWorker rearm =>
    simp only [coe_cons_add, coe_nil_add]
    exact h.disarm.promoted.append (accepted_events _)
  | foreignBusy slot =>
    obtain ⟨hledger, hslots⟩ := h.alloc_foreign
    refine h.step (by simpa using hledger) hslots fun q hq => ?_
    simp [h.ledger.young_ne hq]
  | foreignRun slot =>
    obtain ⟨hledger, hslots⟩ := h.alloc_foreign
    refine h.step (hledger.relink (A := 0) (B := {k.nextPtr}) ?_ rfl ?_ ?_)
      (hslots.stamp (by simp [foreignJob])) fun q hq => ?_
    · simp [Queue.listed, slot]
    · simp [gather_coe_add, add_comm (gather Frame.owns F)]
    · simp [gather_coe_add]
    · simp [h.ledger.young_ne hq]
  | @foreignReap p w _ alive completed =>
    exact h.step (h.ledger.unlink (A := {p}) (listed_erase_completed completed) rfl
      (by simp [gather_coe_add]) (by simp [gather_coe_add]))
      (h.slots.setQueue_keep rfl rfl rfl fun hp _ => hp) fun _ _ => rfl
  | @peerCompletion cookie result hwStatus p _ slot id =>
    -- The cookie was accepted, so no promoting thread still has the job.
    have hloose : p ∉ loose (.peerCompletion cookie result hwStatus ::ₘ F) := by
      intro hp
      have hacc := h.ids.outstanding cookie (by simp [Dispatch.outstanding])
      exact h.ids.fresh cookie hacc p (by simp only [young, Multiset.mem_add, hp, or_true]) id
    refine h.step (h.ledger.complete_peer (p := p) ?_ hloose ?_ ?_ ?_ rfl rfl)
      ((h.slots.setJob p rfl).releaseSlot 1 fun q => q.completed ++ [p])
      fun q _ => id_update (by rfl) q
    · simp [Kernel.peerSlot, Queue.peerSlot, slot]
    · simp only [core, owned, gather_coe_add, List.flatMap_cons, Frame.owns, flatMap_wantKick,
        ite_self, List.append_nil, Multiset.coe_nil, zero_add, gather_cons]
      rw [← add_zero (Kernel.listed (setQueue _ _ _)), listed_setQueue (B := {p}),
        ← Multiset.singleton_add]
      · simp only [listed_setJob]
        abel
      · simp only [Queue.listed, releaseSlot_pending, releaseSlot_completed,
          releaseSlot_inFlight, ← Multiset.coe_add, Multiset.coe_singleton, Fin.isValue,
          ne_eq, zero_ne_one, not_false_eq_true, Function.update_of_ne]
        abel
    · simp [Kernel.peerSlot, Queue.peerSlot]
    · simp [gather_coe_add]
  | waitExpiredPinned | waitExpiredLost | waitReapPinned | drainScan =>
    exact h.quiet (same_addPin _) rfl rfl
  | waitExpiredInFlight => exact h.quiet ((same_addPin _).trans (.setJob rfl rfl)) rfl rfl
  | @waitExpiredPending p _ alive pin pending =>
    refine h.step ((h.ledger.setJob p _).unlink (A := {p}) (listed_erase_pending pending) rfl
      (by simp) (by simp))
      ((h.slots.setJob p rfl).setQueue_keep rfl rfl rfl (by simp +contextual))
      (fun q _ => id_update (by rfl) q) fun q hq => ?_
    exact List.mem_of_mem_erase (by simpa using hq)
  | @waitExpiredCompleted p _ alive pin completed | @waitReap p _ alive pin completed =>
    exact h.step ((h.ledger.setJob p _).unlink (A := {p}) (listed_erase_completed completed) rfl
      (by simp) (by simp))
      ((h.slots.setJob p rfl).setQueue_keep rfl rfl rfl fun hp _ => hp)
      fun q _ => id_update (by rfl) q
  | @drainPost f p timedOut =>
    have hsame : Same k (unpinned k f p timedOut) := by
      cases timedOut with
      | true => exact (same_addPin _).trans same_markOrphans
      | false => exact same_addPin _
    generalize unpinned k f p timedOut = k₁ at hsame ⊢
    have h₁ : Shape k₁ (.drainPost f p timedOut ::ₘ F) tr :=
      h.congr hsame rfl rfl (fun _ hp => hp) (fun _ hc => hc) h.fits rfl
    refine h₁.step (h₁.ledger.unlink (A := ↑((k₁.queue .rvd0).completed.filter fun p =>
        (k₁.jobs p).owner = some f ∧ (k₁.jobs p).waiterPin = 0)) ?_ rfl ?_ ?_)
      (h₁.slots.setQueue_keep rfl rfl rfl fun hp _ => hp) (fun _ _ => rfl) (by simp) (by simp)
      (by simp) ?_ ?_ ?_ ?_
    · have hc := coe_filter_add (k₁.queue .rvd0).completed fun p =>
        (k₁.jobs p).owner = some f ∧ (k₁.jobs p).waiterPin = 0
      simp only [Queue.listed]
      rw [← hc]
      abel
    all_goals cases timedOut <;>
      simp [gather_coe_add, Function.comp_def]
  | _ => exact h.quiet (.refl _) rfl rfl

/-- Every request keeps the shape. -/
theorem Shape.enters {r : Request} (h : Shape k F tr) (henters : Enters k r k' calls events) :
    Shape k' (↑calls + F) (tr ++ events) := by
  cases henters with
  | submit lock ok fresh =>
    subst fresh
    exact h.submit
  | @waitTake f id timeoutMs p completed found owner =>
    exact h.spawn.step (h.spawn.ledger.unlink (A := {p}) (listed_erase_completed completed) rfl
      (by simp) (by simp))
      (h.slots.setQueue_keep rfl rfl rfl fun hp _ => hp) fun _ _ => rfl
  | waitPin => exact h.spawn.quiet (same_addPin 1)
  | @drainOwner f =>
    refine h.spawn.step (h.spawn.ledger.unlink (A := ↑(((k.queue .rvd0).pending.filter
        fun p => (k.jobs p).owner = some f) ++ ((k.queue .rvd0).completed.filter
        fun p => (k.jobs p).owner = some f))) ?_ rfl ?_ ?_)
      (h.slots.setQueue_keep rfl rfl rfl (by simp)) (fun _ _ => rfl) fun q hq => ?_
    · have hp := coe_filter_add (k.queue .rvd0).pending fun p => (k.jobs p).owner = some f
      have hc := coe_filter_add (k.queue .rvd0).completed fun p => (k.jobs p).owner = some f
      simp only [Queue.listed, ← Multiset.coe_add]
      rw [← hp, ← hc]
      abel
    · simp [gather_coe_add, Function.comp_def]
    · simp [gather_coe_add]
    · simp only [setQueue_queue, Function.update_self] at hq
      exact List.mem_of_mem_filter hq
  | @startPeerKick i w queued =>
    refine ⟨h.ledger.congr rfl rfl (by simp [gather_coe_add])
        (by simp [gather_coe_add]) rfl rfl,
      h.slots.congr (fun _ => rfl) (fun _ => rfl) (fun _ => rfl) (fun _ => rfl) rfl,
      fits_calls h.fits (by simp), ?_⟩
    refine h.ids.mono (fun p hp => ?_) (fun _ _ => rfl) rfl (by simp) (fun c hc => ?_)
    · simpa [young, gather_coe_add] using hp
    · simp only [outstanding, gather_coe_add, List.flatMap_cons, List.flatMap_nil,
        Frame.cookies, List.append_nil, Multiset.coe_singleton, Multiset.mem_add,
        Multiset.mem_coe, Multiset.mem_singleton, List.mem_map] at hc ⊢
      rcases hc with ⟨w', hw', rfl⟩ | rfl | hc
      · exact .inl ⟨w', List.mem_of_mem_eraseIdx hw', rfl⟩
      · exact .inl ⟨w, List.mem_of_getElem? queued, rfl⟩
      · exact .inr hc
  | peerArrival =>
    exact h.spawn.step (h.spawn.ledger.unlink (A := 0) (by simp [Queue.listed]) rfl
      (by simp) (by simp))
      (h.slots.setQueue (by simpa using h.slots.idle .rvd0) (h.slots.target .rvd0) (by simp)
        (by simp)) fun _ _ => rfl
  | detachPeer waits =>
    refine h.spawn.step (h.spawn.ledger.unlink (A := 0) (by simp [Queue.listed]) rfl ?_ ?_)
      (h.slots.setQueue (by simpa using h.slots.idle .rvd0) (h.slots.target .rvd0) (by simp)
        (by simp)) (fun _ _ => rfl) (by simp) (by simp) (by simp) ?_ ?_ ?_ ?_
    all_goals
      rcases waits with rfl | ⟨p, -, rfl⟩ <;>
        simp
  | _ => exact h.spawn.quiet (by constructor <;> intros <;> rfl)

theorem shape_init : Shape kernelInit 0 [] where
  ledger := by constructor <;> simp [core, Kernel.listed, Queue.listed, Kernel.peerSlot,
    Queue.peerSlot, kernelInit, jobQueueInit]
  slots := by constructor <;> simp [kernelInit, jobQueueInit]
  fits := by simp [Fits]
  ids := by constructor <;> simp [young, outstanding, accepted, kernelInit, jobQueueInit]

/-- Every state any run reaches has the shape. -/
theorem shape_reachable {G : Guard} {s : Sys} (h : Reachable G s) :
    Shape s.mem s.calls s.trace :=
  Reachable.invariant (I := fun _ _ _ => True) (fun _ _ => trivial) shape_init
    (fun _ hshape _ henters => hshape.enters henters) (fun _ hshape _ hruns => hshape.runs hruns) h

end Rkvdec.Dispatch
