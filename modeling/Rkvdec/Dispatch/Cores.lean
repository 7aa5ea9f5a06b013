import Rkvdec.Dispatch.Drive

/-! The representation of the two-core queue while the peer leaves no job behind: slots, idle bits,
counters and the jobs handed over to the peer. -/
namespace Rkvdec.Dispatch

open Lib Kernel

variable {k k' : Kernel} {F : Multiset Frame} {call : Frame} {calls : List Frame}
  {tr events : List Event} {r : Request} {good : Bool} {p : Ptr} {d : Dev} {w : KickWork}

def Request.detaches : Request → Bool
  | .detachPeer => true
  | _ => false

/-- Runs in which the peer, once there, stays. -/
def attached : Guard := ⟨fun _ _ r => r.detaches = false, fun _ _ _ _ => True⟩

instance (mem : Kernel) (F : Multiset Frame) (r : Request) : Decidable (attached.enter mem F r) :=
  inferInstanceAs (Decidable (r.detaches = false))

instance (mem : Kernel) (call : Frame) (F : Multiset Frame) (good : Bool) :
    Decidable (attached.exec mem call F good) :=
  inferInstanceAs (Decidable True)

namespace Frame

/-- The sections that promote jobs. -/
def promotes : Frame → Bool
  | .submitEnqueue .. | .kickWorker _ => true
  | _ => false

/-- The peer kick a call works on, up to its completion callback. -/
def works : Frame → List KickWork
  | .jobRunForeign w => [w]
  | .foreignWait _ w => [w]
  | .foreignExpired _ w => [w]
  | .foreignReap _ w => [w]
  | .trampoline w _ _ => [w]
  | _ => []

end Frame

attribute [local simp] Frame.promotes Frame.works Frame.cookies Frame.loose Frame.fits

/-- The peer kicks whose completion callback is still to be called. -/
def works (k : Kernel) (F : Multiset Frame) : Multiset KickWork :=
  (k.work : Multiset KickWork) + gather Frame.works F

/-- What a queue says of its cores. -/
def Queue.cells (q : Queue) :
    (Core → Option Ptr) × (Core → Bool) × (Core → Nat) × Nat × Bool :=
  (q.inFlight, q.coreIdle, q.corePending, q.coreCount, q.peerOpen)

/-- What it says of the peer's core. -/
def Queue.peerCells (q : Queue) : Option Ptr × Bool × Nat × Nat × Bool :=
  (q.inFlight 1, q.coreIdle 1, q.corePending 1, q.coreCount, q.peerOpen)

/-- The cores of both devices. A job still in the hands of its promoter is the one in the peer slot,
and so is the job of a peer kick that is not completed yet. -/
structure Cores (k : Kernel) (F : Multiset Frame) : Prop where
  count : (k.queue .rvd0).coreCount = if (k.queue .rvd0).peerOpen then 2 else 1
  closed : (k.queue .rvd0).peerOpen = false →
    (k.queue .rvd0).inFlight 1 = none ∧ (k.queue .rvd0).coreIdle 1 = false
  idle : (k.queue .rvd0).peerOpen = true →
    ((k.queue .rvd0).coreIdle 1 = true ↔ (k.queue .rvd0).inFlight 1 = none)
  target : ∀ p, (k.queue .rvd0).inFlight 1 = some p → (k.jobs p).targetCore = 1
  pending : ∀ c, (k.queue .rvd0).corePending c = ((k.queue .rvd0).inFlight c).toList.length
  foreign : ∀ c, (k.queue .rvd1).corePending c = 0
  foreignSlot : (k.queue .rvd1).inFlight 1 = none ∧ (k.queue .rvd1).coreIdle 1 = false
  loose : ∀ p ∈ loose F, (k.queue .rvd0).inFlight 1 = some p
  kicked : ∀ c ∈ outstanding k F, ∃ p, (k.queue .rvd0).inFlight 1 = some p ∧ (k.jobs p).id = c
  works : ∀ w ∈ works k F, ∀ p, (k.queue .rvd0).inFlight 1 = some p →
    (k.jobs p).prog.iovaSlots = w.iovaSlots
  single : (outstanding k F).Nodup

theorem setJob_target {g : Job → Job} (q : Ptr)
    (hg : (g (k.jobs q)).targetCore = (k.jobs q).targetCore) :
    ((k.setJob q g).jobs p).targetCore = (k.jobs p).targetCore :=
  setJob_proj Job.targetCore q hg

theorem unpinned_target (f : File) (q : Ptr) (timedOut : Bool) :
    ((unpinned k f q timedOut).jobs p).targetCore = (k.jobs p).targetCore :=
  unpinned_proj Job.targetCore (fun _ _ => rfl) (fun _ => rfl) f q timedOut

/-- Only a promotion moves a job to a core. -/
theorem Runs.target (h : Runs k call good k' calls events)
    (hcall : call.promotes = false ∨ k'.jobs = k.jobs) (hp : p ≠ k.nextPtr) :
    (k'.jobs p).targetCore = (k.jobs p).targetCore := by
  cases h with
  | submitEnqueue | kickWorker =>
    have hjobs := hcall.resolve_left (by simp)
    rw [hjobs]
  | completeOrphan | complete | peerCompletion =>
    rw [setQueue_jobs]
    exact setJob_target _ rfl
  | foreignBusy slot | foreignRun slot => simp [hp]
  | waitExpiredInFlight => exact (setJob_target _ rfl).trans (setJob_target _ rfl)
  | @drainPost f q timedOut _ alive =>
    exact unpinned_target f q timedOut
  | _ => first | rfl | exact setJob_target _ rfl

theorem Enters.target (h : Enters k r k' calls events) (hp : p ≠ k.nextPtr) :
    (k'.jobs p).targetCore = (k.jobs p).targetCore := by
  cases h with
  | submit => simp [hp]
  | _ => first | rfl | exact setJob_target _ rfl

theorem mem_works_cookie (h : w ∈ works k F) : w.cookie ∈ outstanding k F := by
  simp only [works, outstanding, Multiset.mem_add, Multiset.mem_coe, mem_gather] at h ⊢
  rcases h with h | ⟨call, hcall, hw⟩
  · exact .inl (List.mem_map.mpr ⟨w, h, rfl⟩)
  · refine .inr ⟨call, hcall, ?_⟩
    cases call <;> simp_all

/-- A queued work item that is started leaves the queue. -/
theorem coe_work_eraseIdx {i : Nat} (queued : k.work[i]? = some w) :
    ((w :: k.work.eraseIdx i : List KickWork) : Multiset KickWork) = k.work := by
  obtain ⟨hlt, hget⟩ := List.getElem?_eq_some_iff.mp queued
  rw [Multiset.coe_eq_coe, ← hget]
  exact List.getElem_cons_eraseIdx_perm hlt

theorem cookies_work_eraseIdx {i : Nat} (queued : k.work[i]? = some w) :
    ((k.work.map KickWork.cookie : List Nat) : Multiset Nat) =
      {w.cookie} + ((k.work.eraseIdx i).map KickWork.cookie : List Nat) := by
  rw [← Multiset.map_coe, ← coe_work_eraseIdx queued, Multiset.map_coe, List.map_cons,
    ← Multiset.cons_coe, Multiset.singleton_add]

namespace Cores

/-- A step that leaves the peer's core alone. -/
theorem mono {F' : Multiset Frame} (h : Cores k F)
    (hcells : ∀ d, (k'.queue d).peerCells = (k.queue d).peerCells)
    (hown : (k'.queue .rvd0).corePending 0 = ((k'.queue .rvd0).inFlight 0).toList.length)
    (hforeign : (k'.queue .rvd1).corePending 0 = 0)
    (htarget : ∀ p, (k.queue .rvd0).inFlight 1 = some p →
      (k'.jobs p).targetCore = (k.jobs p).targetCore ∧ (k'.jobs p).fixed = (k.jobs p).fixed)
    (hloose : ∀ p ∈ Dispatch.loose F', p ∈ Dispatch.loose F)
    (hworks : ∀ w ∈ Dispatch.works k' F', w ∈ Dispatch.works k F)
    (hout : outstanding k' F' ≤ outstanding k F) : Cores k' F' := by
  have h₀ := hcells .rvd0
  have h₁ := hcells .rvd1
  simp only [Queue.peerCells, Prod.mk.injEq] at h₀ h₁
  obtain ⟨hslot, hidle, hpending, hcount, hopen⟩ := h₀
  obtain ⟨hslot₁, hidle₁, hpending₁, -, -⟩ := h₁
  refine ⟨?_, ?_, ?_, fun p hp => ?_, fun c => ?_, fun c => ?_, ?_, fun p hp => ?_, fun c hc => ?_,
    fun w hw p hp => ?_, Multiset.nodup_of_le hout h.single⟩
  · rw [hcount, hopen]
    exact h.count
  · rw [hslot, hidle, hopen]
    exact h.closed
  · rw [hslot, hidle, hopen]
    exact h.idle
  · rw [hslot] at hp
    rw [(htarget p hp).1]
    exact h.target p hp
  · rcases core_cases c with rfl | rfl
    · exact hown
    · rw [hslot, hpending]
      exact h.pending 1
  · rcases core_cases c with rfl | rfl
    · exact hforeign
    · rw [hpending₁]
      exact h.foreign 1
  · rw [hslot₁, hidle₁]
    exact h.foreignSlot
  · rw [hslot]
    exact h.loose p (hloose p hp)
  · obtain ⟨p, hp, hid⟩ := h.kicked c (Multiset.mem_of_le hout hc)
    refine ⟨p, by rw [hslot, hp], ?_⟩
    rw [← hid]
    exact congrArg Prod.fst (htarget p hp).2
  · rw [hslot] at hp
    rw [← h.works w (hworks w hw) p hp]
    exact congrArg (fun x => x.2.2.2.iovaSlots) (htarget p hp).2

/-- A step that keeps the cells of the queues. -/
theorem of_cells (h : Cores k F) (hcells : ∀ d, (k'.queue d).cells = (k.queue d).cells) :
    (∀ d, (k'.queue d).peerCells = (k.queue d).peerCells) ∧
    (k'.queue .rvd0).corePending 0 = ((k'.queue .rvd0).inFlight 0).toList.length ∧
    (k'.queue .rvd1).corePending 0 = 0 := by
  simp only [Queue.cells, Prod.mk.injEq] at hcells
  refine ⟨fun d => by simp only [Queue.peerCells, hcells], ?_, ?_⟩
  · rw [(hcells .rvd0).1, (hcells .rvd0).2.2.1]
    exact h.pending 0
  · rw [(hcells .rvd1).2.2.1]
    exact h.foreign 0

theorem mono_cells {F' : Multiset Frame} (h : Cores k F)
    (hcells : ∀ d, (k'.queue d).cells = (k.queue d).cells) (hjobs : k'.jobs = k.jobs)
    (hwork : k'.work = k.work) (hloose : ∀ p ∈ Dispatch.loose F', p ∈ Dispatch.loose F)
    (hworks : ∀ w ∈ gather Frame.works F', w ∈ gather Frame.works F)
    (hcookies : gather Frame.cookies F' ≤ gather Frame.cookies F) : Cores k' F' := by
  obtain ⟨hpeer, hown, hforeign⟩ := h.of_cells hcells
  refine h.mono hpeer hown hforeign (fun p _ => by simp [hjobs]) hloose (fun w hw => ?_) ?_
  · rw [Dispatch.works, hwork, Multiset.mem_add] at hw
    rw [Dispatch.works, Multiset.mem_add]
    exact hw.imp_right (hworks w)
  · rw [outstanding, outstanding, hwork]
    exact add_le_add_right hcookies _

theorem peer_ne (hshape : Shape k F tr) (hp : (k.queue .rvd0).inFlight 1 = some p) :
    p ≠ k.nextPtr :=
  (hshape.ledger.bound p (hshape.ledger.alive_of_peerSlot
    (by simp [Kernel.peerSlot, Queue.peerSlot, hp]))).ne

/-- A section that leaves the peer's core alone. -/
theorem step (h : Cores k (call ::ₘ F)) (hshape : Shape k (call ::ₘ F) tr)
    (hrun : Runs k call good k' calls events)
    (hcells : ∀ d, (k'.queue d).peerCells = (k.queue d).peerCells)
    (hown : (k'.queue .rvd0).corePending 0 = ((k'.queue .rvd0).inFlight 0).toList.length)
    (hforeign : (k'.queue .rvd1).corePending 0 = 0)
    (hcall : call.promotes = false ∨ k'.jobs = k.jobs := by exact .inl rfl)
    (hwork : k'.work = k.work := by rfl)
    (hloose : ∀ p ∈ calls.flatMap Frame.loose, p ∈ call.loose := by simp)
    (hworks : ∀ w ∈ calls.flatMap Frame.works, w ∈ call.works := by simp)
    (hcookies : (calls.flatMap Frame.cookies).Sublist call.cookies := by simp) :
    Cores k' (↑calls + F) := by
  refine h.mono hcells hown hforeign (fun p hp => ?_) (fun p hp => ?_) (fun w hw => ?_) ?_
  · have hne := peer_ne hshape hp
    exact ⟨hrun.target hcall hne, hrun.fixed hne⟩
  · rw [Dispatch.loose, gather_coe_add, Multiset.mem_add] at hp
    rw [Dispatch.loose, gather_cons, Multiset.mem_add]
    exact hp.imp_left (hloose p)
  · rw [Dispatch.works, gather_coe_add, hwork, Multiset.mem_add, Multiset.mem_add] at hw
    rw [Dispatch.works, gather_cons, Multiset.mem_add, Multiset.mem_add]
    exact hw.imp_right (.imp_left (hworks w))
  · rw [outstanding, outstanding, gather_coe_add, gather_cons, hwork]
    exact add_le_add_right (add_le_add_left (Multiset.coe_le.mpr hcookies.subperm) _) _

/-- A section that leaves every core alone. -/
theorem quiet (h : Cores k (call ::ₘ F)) (hshape : Shape k (call ::ₘ F) tr)
    (hrun : Runs k call good k' calls events)
    (hcells : ∀ d, (k'.queue d).cells = (k.queue d).cells := by
      first | exact fun _ => rfl | exact setQueue_proj Queue.cells rfl)
    (hcall : call.promotes = false ∨ k'.jobs = k.jobs := by first | exact .inl rfl | exact .inr rfl)
    (hwork : k'.work = k.work := by rfl)
    (hloose : ∀ p ∈ calls.flatMap Frame.loose, p ∈ call.loose := by simp)
    (hworks : ∀ w ∈ calls.flatMap Frame.works, w ∈ call.works := by simp)
    (hcookies : (calls.flatMap Frame.cookies).Sublist call.cookies := by simp) :
    Cores k' (↑calls + F) := by
  obtain ⟨hpeer, hown, hforeign⟩ := h.of_cells hcells
  exact h.step hshape hrun hpeer hown hforeign hcall hwork hloose hworks hcookies

variable {out : List Promotion} {c : Core}

/-- With the peer slot empty nothing is on its way to or from the peer. -/
theorem no_peer (h : Cores k F) (hslot : (k.queue .rvd0).inFlight 1 = none) :
    Dispatch.loose F = 0 ∧ outstanding k F = 0 := by
  constructor
  · refine Multiset.eq_zero_of_forall_notMem fun p hp => ?_
    have := h.loose p hp
    simp [hslot] at this
  · refine Multiset.eq_zero_of_forall_notMem fun c hc => ?_
    obtain ⟨p, hp, -⟩ := h.kicked c hc
    simp [hslot] at hp

theorem promote_own (h : Cores k (.kickPromotions .rvd0 out ::ₘ F))
    (hslot : (k.queue .rvd0).inFlight 0 = none) (hp : (k.queue .rvd0).inFlight 1 ≠ some p) :
    Cores (k.promote .rvd0 p 0) (.kickPromotions .rvd0 (out ++ [⟨p, 0⟩]) ::ₘ F) := by
  refine h.mono (fun d => ?_) ?_ ?_ (fun q hq => ?_) (fun q hq => ?_) (fun w hw => ?_) ?_
  · cases d <;> simp [Queue.peerCells, Promoting.promote]
  · have := h.pending 0
    simp only [hslot, Option.toList_none, List.length_nil] at this
    simp [Promoting.promote, this]
  · simpa using h.foreign 0
  · have hne : q ≠ p := by
      rintro rfl
      exact hp hq
    simp [Promoting.promote, hne]
  · simpa using hq
  · simpa [Dispatch.works] using hw
  · simp [outstanding]

theorem promote_peer (h : Cores k (.kickPromotions .rvd0 out ::ₘ F))
    (hcore : (k.queue .rvd0).pickTargetCore = some 1) :
    Cores (k.promote .rvd0 p 1) (.kickPromotions .rvd0 (out ++ [⟨p, 1⟩]) ::ₘ F) := by
  obtain ⟨hcount, hidle⟩ := Queue.pickTargetCore_spec hcore
  have hopen : (k.queue .rvd0).peerOpen = true := by
    have := h.count
    by_contra hopen
    simp only [hopen, if_false] at this
    rw [this] at hcount
    exact absurd hcount (by decide)
  have hnone := (h.idle hopen).mp hidle
  obtain ⟨hloose, hout⟩ := h.no_peer hnone
  have hout' : outstanding (k.promote .rvd0 p 1) (.kickPromotions .rvd0 (out ++ [⟨p, 1⟩]) ::ₘ F) =
      0 := by
    simpa [outstanding] using hout
  refine ⟨?_, ?_, ?_, fun q hq => ?_, fun c => ?_, fun c => ?_, ?_, fun q hq => ?_, ?_,
    fun w hw => ?_, ?_⟩
  · simpa [Promoting.promote] using h.count
  · simp [Promoting.promote, hopen]
  · simp [Promoting.promote]
  · obtain rfl : p = q := by simpa [Promoting.promote] using hq
    simp [Promoting.promote]
  · rcases core_cases c with rfl | rfl
    · simpa [Promoting.promote] using h.pending 0
    · have := h.pending 1
      simp only [hnone, Option.toList_none, List.length_nil] at this
      simp [Promoting.promote, this]
  · simpa using h.foreign c
  · simpa using h.foreignSlot
  · simp only [Dispatch.loose, gather_cons, Frame.loose, List.filter_append, List.map_append,
      ← Multiset.coe_add] at hq hloose
    rw [add_eq_zero] at hloose
    rw [hloose.1, hloose.2, zero_add, add_zero] at hq
    obtain rfl : q = p := by simpa using hq
    simp [Promoting.promote]
  · simp [hout']
  · have := mem_works_cookie hw
    simp [hout'] at this
  · simp [hout']

theorem promote (h : Cores k (.kickPromotions d out ::ₘ F))
    (hshape : Shape k (.kickPromotions d out ::ₘ F) tr)
    (hcore : (k.queue d).pickTargetCore = some c)
    (hpick : (k.queue d).pickPendingByOwnerLru k.jobs = some p) :
    Cores (k.promote d p c) (.kickPromotions d (out ++ [⟨p, c⟩]) ::ₘ F) := by
  have hp := Queue.pickPendingByOwnerLru_mem hpick
  cases d with
  | rvd1 => simp [hshape.slots.peerPending] at hp
  | rvd0 =>
    rcases core_cases c with rfl | rfl
    · refine h.promote_own ((hshape.slots.idle _).mp (Queue.pickTargetCore_spec hcore).2) ?_
      exact hshape.ledger.peer_ne_pending hp
    · exact h.promote_peer hcore

theorem promoted (h : Cores k (.kickPromotions d [] ::ₘ F))
    (hshape : Shape k (.kickPromotions d [] ::ₘ F) tr) :
    Cores (k.promoted d) (.kickPromotions d (k.promoting d).out ::ₘ F) :=
  hshape.promotions h fun _ _ _ _ hshape hcore hpick h => h.promote hshape hcore hpick

/-- The job in the peer slot leaves it, and nothing else was on its way to the peer. -/
theorem vacate {F' : Multiset Frame} (h : Cores k F) (hslot : (k.queue .rvd0).inFlight 1 = some p)
    (hcells : (k'.queue .rvd0).cells = (releaseSlot (k.queue .rvd0) 1).cells)
    (hforeign : k'.queue .rvd1 = k.queue .rvd1) (hloose : Dispatch.loose F' = 0)
    (hout : outstanding k' F' = 0) : Cores k' F' := by
  simp only [Queue.cells, releaseSlot, Prod.mk.injEq] at hcells
  obtain ⟨hslot', hidle, hpending, hcount, hopen⟩ := hcells
  have hopen' : (k.queue .rvd0).peerOpen = true := by
    by_contra hclosed
    have := (h.closed (by simpa using hclosed)).1
    simp [hslot] at this
  refine ⟨?_, ?_, ?_, ?_, fun c => ?_, ?_, ?_, ?_, ?_, ?_, ?_⟩
  · rw [hcount, hopen]
    exact h.count
  · simp [hopen, hopen']
  · simp [hidle, hslot']
  · simp [hslot']
  · rcases core_cases c with rfl | rfl
    · simpa [hslot', hpending] using h.pending 0
    · have := h.pending 1
      simp only [hslot, Option.toList_some, List.length_singleton] at this
      simp [hslot', hpending, this]
  · rw [hforeign]
    exact h.foreign
  · rw [hforeign]
    exact h.foreignSlot
  · simp [hloose]
  · simp [hout]
  · simp [hslot']
  · simp [hout]

/-- The job in the peer slot is loose or the job of an outstanding kick, not both. -/
theorem loose_fresh (hshape : Shape k F tr) (hp : p ∈ Dispatch.loose F)
    (hc : (k.jobs p).id ∈ outstanding k F) : False := by
  refine hshape.ids.fresh _ (hshape.ids.outstanding _ hc) p ?_ rfl
  simp only [young, Multiset.mem_add]
  exact .inr hp

theorem rollback {status : NtStatus} (h : Cores k (.rollback .rvd0 p 1 status ::ₘ F))
    (hshape : Shape k (.rollback .rvd0 p 1 status ::ₘ F) tr) :
    Cores (k.setQueue .rvd0 fun q => releaseSlot { q with completed := q.completed ++ [p] } 1)
      (.signal p (some status) ::ₘ F) := by
  have hp : p ∈ Dispatch.loose (.rollback .rvd0 p 1 status ::ₘ F) := by simp
  have hslot := h.loose p hp
  refine h.vacate hslot (by simp [Queue.cells, releaseSlot]) (by simp) ?_ ?_
  · refine Multiset.eq_zero_of_forall_notMem fun q hq => ?_
    have hq' : q ∈ Dispatch.loose F := by simpa using hq
    obtain rfl : p = q := Option.some.inj
      (hslot.symm.trans (h.loose q (by simp only [gather_cons, Multiset.mem_add]; exact .inr hq')))
    have hN := (Multiset.nodup_add.mp hshape.ledger.promo).2.1
    simp only [gather_cons, Frame.loose, Multiset.coe_singleton, Multiset.singleton_add,
      Multiset.nodup_cons] at hN
    exact hN.1 hq'
  · refine Multiset.eq_zero_of_forall_notMem fun c hc => ?_
    have hc' : c ∈ outstanding k (.rollback .rvd0 p 1 status ::ₘ F) := by
      simpa [outstanding] using hc
    obtain ⟨q, hq, rfl⟩ := h.kicked c hc'
    obtain rfl : p = q := Option.some.inj (hslot.symm.trans hq)
    exact loose_fresh hshape hp hc'

theorem peerCompletion {result : NtStatus} {hwStatus : BitVec 32}
    (h : Cores k (.peerCompletion (k.jobs p).id result hwStatus ::ₘ F))
    (hshape : Shape k (.peerCompletion (k.jobs p).id result hwStatus ::ₘ F) tr)
    (hslot : (k.queue .rvd0).inFlight 1 = some p) :
    Cores ((k.setJob p fun j => { j with result := result, hwStatus := hwStatus }).setQueue .rvd0
      fun q => releaseSlot { q with completed := q.completed ++ [p] } 1)
      (↑(.signal p none :: wantKick k .rvd0) + F) := by
  refine h.vacate hslot (by simp [Queue.cells, releaseSlot]) (by simp) ?_ ?_
  · refine Multiset.eq_zero_of_forall_notMem fun q hq => ?_
    have hq' : q ∈ Dispatch.loose (.peerCompletion (k.jobs p).id result hwStatus ::ₘ F) := by
      simpa [Dispatch.loose, gather_coe_add] using hq
    obtain rfl : p = q := Option.some.inj (hslot.symm.trans (h.loose q hq'))
    exact loose_fresh hshape hq' (by simp [outstanding])
  · refine Multiset.eq_zero_of_forall_notMem fun c hc => ?_
    have hc' : c ∈ outstanding k F := by
      simpa [outstanding, gather_coe_add] using hc
    obtain ⟨q, hq, rfl⟩ := h.kicked c (by
      simp only [outstanding, gather_cons, Multiset.mem_add] at hc' ⊢
      tauto)
    obtain rfl : p = q := Option.some.inj (hslot.symm.trans hq)
    have hN := h.single
    simp only [outstanding, gather_cons, Frame.cookies, Multiset.coe_singleton] at hN hc'
    rw [add_left_comm, Multiset.singleton_add, Multiset.nodup_cons] at hN
    exact hN.1 hc'

theorem kickPeer (h : Cores k (.kickPromotions .rvd0 (⟨p, 1⟩ :: out) ::ₘ F))
    (hshape : Shape k (.kickPromotions .rvd0 (⟨p, 1⟩ :: out) ::ₘ F) tr)
    (hcookie : w.cookie = (k.jobs p).id) (hslots : w.iovaSlots = (k.jobs p).prog.iovaSlots) :
    Cores { k with work := k.work ++ [w] } (.kickPromotions .rvd0 out ::ₘ F) := by
  have hp : p ∈ Dispatch.loose (.kickPromotions .rvd0 (⟨p, 1⟩ :: out) ::ₘ F) := by
    simp
  have hout : outstanding { k with work := k.work ++ [w] } (.kickPromotions .rvd0 out ::ₘ F) =
      w.cookie ::ₘ outstanding k (.kickPromotions .rvd0 (⟨p, 1⟩ :: out) ::ₘ F) := by
    simp only [outstanding, List.map_append, List.map_cons, List.map_nil, ← Multiset.coe_add,
      gather_cons, Frame.cookies, Multiset.coe_singleton, Multiset.coe_nil, zero_add]
    rw [add_right_comm, add_comm, Multiset.singleton_add]
  refine ⟨h.count, h.closed, h.idle, h.target, h.pending, h.foreign, h.foreignSlot,
    fun q hq => ?_, fun c hc => ?_, fun w' hw q hq => ?_, ?_⟩
  · refine h.loose q ?_
    simp only [gather_cons, Frame.loose, Multiset.mem_add] at hq ⊢
    refine hq.imp_left fun hq => ?_
    simp only [Fin.isValue, ne_eq, one_ne_zero, not_false_eq_true, decide_true,
      List.filter_cons_of_pos, List.map_cons, Multiset.mem_coe, List.mem_cons]
    exact .inr hq
  · rw [hout, Multiset.mem_cons] at hc
    rcases hc with rfl | hc
    · exact ⟨p, h.loose p hp, hcookie.symm⟩
    · exact h.kicked c hc
  · simp only [Dispatch.works, ← Multiset.coe_add, gather_cons, Frame.works, Multiset.coe_nil,
      zero_add, Multiset.mem_add, Multiset.mem_coe, List.mem_singleton] at hw
    rcases hw with (hw | rfl) | hw
    · exact h.works w' (by simp only [Dispatch.works, Multiset.mem_add]; exact .inl hw) q hq
    · obtain rfl : p = q := Option.some.inj ((h.loose p hp).symm.trans hq)
      exact hslots.symm
    · exact h.works w' (by simpa [Dispatch.works] using .inr hw) q hq
  · rw [hout, Multiset.nodup_cons]
    exact ⟨fun hmem => loose_fresh hshape hp (hcookie ▸ hmem), h.single⟩

theorem insert {f : File} (h : Cores k (.submitEnqueue f p ::ₘ F)) :
    Cores (k.pend p) (.kickPromotions .rvd0 [] ::ₘ .readJob p ::ₘ F) :=
  h.mono_cells (setQueue_proj Queue.cells rfl) rfl rfl (by simp) (by simp) (by simp)

theorem disarm (h : Cores k (.kickWorker d ::ₘ F)) :
    Cores (k.disarm d) (.kickPromotions d [] ::ₘ .kickWorker d ::ₘ F) :=
  h.mono_cells (setQueue_proj Queue.cells rfl) rfl rfl (by simp) (by simp) (by simp)

theorem runs (h : Cores k (call ::ₘ F)) (hshape : Shape k (call ::ₘ F) tr)
    (hrun : Runs k call good k' calls events) : Cores k' (↑calls + F) := by
  have hstep := hrun
  cases hrun with
  | @submitEnqueue f p =>
    simp only [coe_cons_add, coe_nil_add]
    exact (h.insert.promoted hshape.insert).mono_cells (fun _ => rfl) rfl rfl (fun _ hp => hp)
      (fun _ hw => hw) le_rfl
  | @kickWorker d _ rearm =>
    simp only [coe_cons_add, coe_nil_add]
    exact h.disarm.promoted hshape.disarm
  | @kickPeer d _ _ _ _ alive _ ok =>
    obtain ⟨rfl, -⟩ := peerKickJob_ok ok
    cases d with
    | rvd0 => simpa only [coe_cons_add, coe_nil_add] using h.kickPeer hshape rfl rfl
    | rvd1 => simpa using (fits_cons.mp hshape.fits).1
  | rollback =>
    obtain ⟨rfl, rfl⟩ := (fits_cons.mp hshape.fits).1
    simpa only [coe_cons_add, coe_nil_add] using h.rollback hshape
  | rollbackLost alive slot =>
    obtain ⟨rfl, rfl⟩ := (fits_cons.mp hshape.fits).1
    exact absurd (h.loose _ (by simp)) slot
  | peerCompletion slot id =>
    subst id
    exact h.peerCompletion hshape slot
  | @completeOrphan d _ _ p _ slot | @complete d _ _ p _ slot =>
    have htarget := hshape.slots.target d p slot
    refine h.step hshape hstep (fun d' => ?_) ?_ ?_
    · by_cases hd : d' = d
      · subst hd
        simp [Queue.peerCells, htarget]
      · simp [hd]
    · cases d with
      | rvd0 =>
        have := h.pending 0
        simp only [slot, Option.toList_some, List.length_singleton] at this
        simp [htarget, this]
      | rvd1 => simpa using h.pending 0
    · cases d with
      | rvd0 => simpa using h.foreign 0
      | rvd1 => simp [htarget, h.foreign 0]
  | foreignBusy slot =>
    refine h.quiet hshape hstep fun d => ?_
    cases d <;> simp [Queue.cells]
  | foreignRun slot =>
    refine h.step hshape hstep (fun d => ?_) ?_ ?_
    · cases d <;> simp [Queue.peerCells]
    · simpa using h.pending 0
    · simpa using h.foreign 0
  | @drainPost f p timedOut _ alive =>
    refine h.quiet hshape hstep (fun d => ?_) (.inl rfl) (unpinned_work ..) ?_ ?_ ?_
    · cases d <;> simp [Queue.cells]
    all_goals cases timedOut <;> simp
  | enqueueKickWorker =>
    refine h.quiet hshape hstep (setQueue_proj Queue.cells rfl) (.inl rfl) rfl ?_ ?_ ?_
    all_goals split <;> simp
  | _ => exact h.quiet hshape hstep

theorem quiet_enter (h : Cores k F) (hshape : Shape k F tr) (hrun : Enters k r k' calls events)
    (hcells : ∀ d, (k'.queue d).cells = (k.queue d).cells := by
      first | exact fun _ => rfl | exact setQueue_proj Queue.cells rfl)
    (hwork : k'.work = k.work := by rfl) (hloose : calls.flatMap Frame.loose = [] := by rfl)
    (hworks : calls.flatMap Frame.works = [] := by rfl)
    (hcookies : calls.flatMap Frame.cookies = [] := by rfl) : Cores k' (↑calls + F) := by
  obtain ⟨hpeer, hown, hforeign⟩ := h.of_cells hcells
  refine h.mono hpeer hown hforeign (fun p hp => ?_) (fun p hp => ?_) (fun w hw => ?_) ?_
  · have hne := peer_ne hshape hp
    exact ⟨hrun.target hne, hrun.fixed hne⟩
  · simpa [gather_coe_add, hloose] using hp
  · simpa [Dispatch.works, hwork, gather_coe_add, hworks] using hw
  · simp [outstanding, hwork, gather_coe_add, hcookies]

theorem peerArrival (h : Cores k F) (hopen : (k.queue .rvd0).peerOpen = false) :
    Cores (k.setQueue .rvd0 fun q =>
      { q with
        peerOpen := true
        coreCount := 2
        coreIdle := Function.update q.coreIdle 1 true
        corePending := Function.update q.corePending 1 0 }) (.registerCompletion ::ₘ F) := by
  have hnone := (h.closed hopen).1
  obtain ⟨hloose, hout⟩ := h.no_peer hnone
  refine ⟨by simp, by simp, by simp [hnone], by simp [hnone], fun c => ?_, fun c => ?_, ?_, ?_, ?_,
    by simp [hnone], ?_⟩
  · rcases core_cases c with rfl | rfl
    · simpa using h.pending 0
    · simp [hnone]
  · simpa using h.foreign c
  · simpa using h.foreignSlot
  · simp [hloose]
  · intro c hc
    have : c ∈ outstanding k F := by simpa [outstanding] using hc
    simp [hout] at this
  · simpa [outstanding] using h.single

theorem startPeerKick {i : Nat} (h : Cores k F) (queued : k.work[i]? = some w) :
    Cores { k with work := k.work.eraseIdx i } (.jobRunForeign w ::ₘ .endWork w ::ₘ F) := by
  have hout : outstanding { k with work := k.work.eraseIdx i }
      (.jobRunForeign w ::ₘ .endWork w ::ₘ F) = outstanding k F := by
    simp only [outstanding, cookies_work_eraseIdx queued, gather_cons, Frame.cookies,
      Multiset.coe_singleton, Multiset.coe_nil, zero_add]
    rw [add_left_comm, ← add_assoc]
  refine ⟨h.count, h.closed, h.idle, h.target, h.pending, h.foreign, h.foreignSlot,
    fun q hq => ?_, fun c hc => h.kicked c (hout ▸ hc), fun w' hw => ?_, hout ▸ h.single⟩
  · exact h.loose q (by simpa using hq)
  · refine h.works w' ?_
    rw [Dispatch.works, ← coe_work_eraseIdx queued, ← Multiset.cons_coe, ← Multiset.singleton_add]
    rw [Dispatch.works] at hw
    simp only [gather_cons, Frame.works, Multiset.coe_singleton, Multiset.coe_nil, zero_add,
      Multiset.mem_add] at hw ⊢
    tauto

/-- A peer that leaves while its core has nothing to do. -/
theorem detachPeer (h : Cores k F) (hslot : (k.queue .rvd0).inFlight 1 = none)
    (hloose : calls.flatMap Frame.loose = [])
    (hcookies : calls.flatMap Frame.cookies = []) :
    Cores (k.setQueue .rvd0 fun q =>
      { q with
        peerOpen := false
        coreCount := 1
        coreIdle := Function.update q.coreIdle 1 false
        corePending := Function.update q.corePending 1 0 }) (↑calls + F) := by
  refine ⟨by simp, by simp [hslot], by simp, by simp [hslot], fun c => ?_, fun c => ?_, ?_,
    fun p hp => ?_, fun c hc => ?_, by simp [hslot], ?_⟩
  · rcases core_cases c with rfl | rfl
    · simpa using h.pending 0
    · simp [hslot]
  · simpa using h.foreign c
  · simpa using h.foreignSlot
  · simpa using h.loose p (by simpa [gather_coe_add, hloose] using hp)
  · simpa using h.kicked c (by simpa [outstanding, gather_coe_add, hcookies] using hc)
  · simpa [outstanding, gather_coe_add, hcookies] using h.single

theorem enters (h : Cores k F) (hshape : Shape k F tr)
    (hguard : r.detaches = false ∨ (k.queue .rvd0).inFlight 1 = none)
    (hrun : Enters k r k' calls events) : Cores k' (↑calls + F) := by
  have hstep := hrun
  cases hrun with
  | submit =>
    refine h.quiet_enter hshape hstep fun d => ?_
    cases d <;> simp [Queue.cells]
  | startPeerKick queued =>
    simpa only [coe_cons_add, coe_nil_add] using h.startPeerKick queued
  | peerArrival peerOpen =>
    simpa only [coe_cons_add, coe_nil_add] using h.peerArrival peerOpen
  | detachPeer waits =>
    have hslot := hguard.resolve_left (by simp [Request.detaches])
    obtain rfl | ⟨p, hp, -⟩ := waits
    · exact h.detachPeer hslot rfl rfl
    · simp [hslot] at hp
  | _ => exact h.quiet_enter hshape hstep

end Cores

theorem cores_init : Cores kernelInit 0 := by
  constructor <;> simp [kernelInit, jobQueueInit, works, outstanding]

theorem cores_reachable {G : Guard} {s : Sys}
    (hG : ∀ k F r, G.enter k F r → r.detaches = false ∨ (k.queue .rvd0).inFlight 1 = none)
    (h : Reachable G s) : Cores s.mem s.calls :=
  Reachable.invariant (J := fun k F _ => Cores k F) (fun _ => shape_reachable) cores_init
    (fun hshape hcores hguard hrun => hcores.enters hshape (hG _ _ _ hguard) hrun)
    (fun hshape hcores _ hrun => hcores.runs hshape hrun) h

end Rkvdec.Dispatch
