import Rkvdec.Dispatch.Running

/-! Peer kicks and their callbacks. For a kick the peer accepted it owes the consumer one callback
with the cookie, and after that the end of the work item. -/
namespace Rkvdec.Dispatch

open Lib Kernel

variable {k k' : Kernel} {F : Multiset Frame} {call : Frame} {calls : List Frame}
  {tr events : List Event} {r : Request} {good : Bool} {p : Ptr} {d : Dev} {w : KickWork} {c : Nat}

def calledCookie : Event → Option Nat
  | .called cookie => some cookie
  | _ => none

def endedCookie : Event → Option Nat
  | .ended cookie => some cookie
  | _ => none

/-- The cookies the consumer was called back with so far. -/
def called (tr : List Event) : List Nat := tr.filterMap calledCookie

/-- The cookies of the work items that ended so far. -/
def ended (tr : List Event) : List Nat := tr.filterMap endedCookie

/-- The cookies of the peer kicks whose completion callback is still to be called. -/
def uncalled (k : Kernel) (F : Multiset Frame) : Multiset Nat := (works k F).map KickWork.cookie

/-- The cookies of the work items that are queued or worked on. -/
def unended (k : Kernel) (F : Multiset Frame) : Multiset Nat :=
  ((k.work.map KickWork.cookie : List Nat) : Multiset Nat) + gather Frame.ends F

/-- The run of a peer kick does not return early: its transient job is allocated and finds the slot
of RVD1's core empty, and the callback is registered by the time it is called. -/
def Frame.heard (k : Kernel) (good : Bool) : Frame → Bool
  | .jobRunForeign _ => good && ((k.queue .rvd1).inFlight 0).isNone
  | .trampoline .. => k.completionCb
  | _ => true

def heard : Guard := ⟨fun _ _ _ => True, fun k call _ good => call.heard k good = true⟩

instance (mem : Kernel) (F : Multiset Frame) (r : Request) : Decidable (heard.enter mem F r) :=
  inferInstanceAs (Decidable True)

instance (mem : Kernel) (call : Frame) (F : Multiset Frame) (good : Bool) :
    Decidable (heard.exec mem call F good) :=
  inferInstanceAs (Decidable (call.heard mem good = true))

attribute [local simp] Frame.works Frame.cookies Frame.ends Frame.heard

section Count

theorem called_append : called (tr ++ events) = called tr ++ called events := by
  simp [called]

theorem ended_append : ended (tr ++ events) = ended tr ++ ended events := by
  simp [ended]

theorem called_events (s : Promoting) : called s.events = [] := s.filterMap_events

theorem accepted_insert {f : File} (s : Promoting) : accepted (.inserted f p :: s.events) = [] :=
  accepted_events s

theorem ended_events (s : Promoting) : ended s.events = [] := s.filterMap_events

theorem Frame.cookies_of_works (h : w ∈ call.works) : w.cookie ∈ call.cookies := by
  cases call <;> simp_all

theorem uncalled_coe_add : uncalled k' (↑calls + F) =
    ((k'.work.map KickWork.cookie : List Nat) : Multiset Nat) +
      ((calls.flatMap Frame.works).map KickWork.cookie : List Nat) +
      (gather Frame.works F).map KickWork.cookie := by
  simp only [uncalled, works, gather_coe_add, Multiset.map_add, Multiset.map_coe, add_assoc]

theorem uncalled_cons : uncalled k (call ::ₘ F) =
    ((k.work.map KickWork.cookie : List Nat) : Multiset Nat) +
      (call.works.map KickWork.cookie : List Nat) +
      (gather Frame.works F).map KickWork.cookie := by
  simp only [uncalled, works, gather_cons, Multiset.map_add, Multiset.map_coe, add_assoc]

/-- A section calls back the kicks it works off and takes on the kicks it accepts. -/
theorem Runs.uncalled (h : Runs k call good k' calls events) (hheard : call.heard k good = true)
    (hfit : ∀ w ∈ call.works, w.iovaSlots.length ≤ Dense.maxDenseIovaSlots) :
    Dispatch.uncalled k' (↑calls + F) + called events =
      Dispatch.uncalled k (call ::ₘ F) + accepted events := by
  have quiet : k'.work = k.work → calls.flatMap Frame.works = call.works → called events = [] →
      accepted events = [] → Dispatch.uncalled k' (↑calls + F) + called events =
        Dispatch.uncalled k (call ::ₘ F) + accepted events := by
    intro hwork hworks hcalled haccepted
    rw [uncalled_coe_add, uncalled_cons, hwork, hworks, hcalled, haccepted]
  cases h with
  | submitEnqueue | kickWorker => exact quiet rfl rfl (called_events _) (accepted_events _)
  | kickPeer alive peerOpen ok =>
    rw [uncalled_coe_add, uncalled_cons]
    simp only [Frame.works, List.map_append, List.map_cons, List.map_nil, ← Multiset.coe_add,
      List.flatMap_cons, List.flatMap_nil, List.append_nil, called, accepted, List.filterMap_cons,
      List.filterMap_nil, calledCookie, acceptedCookie, Multiset.coe_nil, add_zero]
    exact add_right_comm _ _ _
  | trampoline callback =>
    rw [uncalled_coe_add, uncalled_cons]
    simp only [Frame.works, List.map_cons, List.map_nil, List.flatMap_cons, List.flatMap_nil,
      List.append_nil, called, accepted, List.filterMap_cons, List.filterMap_nil, calledCookie,
      acceptedCookie, Multiset.coe_nil, add_zero]
    exact add_right_comm _ _ _
  | trampolineNone callback => simp [callback] at hheard
  | foreignRefused refused =>
    rcases refused with hlong | rfl
    · exact absurd (hfit _ (List.mem_singleton_self _)) (not_le.mpr hlong)
    · simp at hheard
  | foreignBusy slot => simp [slot] at hheard
  | drainPost => exact quiet (unpinned_work ..) (by simp) rfl rfl
  | _ => exact quiet rfl (by simp) rfl rfl

/-- A kick the peer accepts has no more slots than its run allows. -/
theorem peerKickJob_slots {job : Job} {allocOk : Bool} (h : peerKickJob job allocOk = .ok w) :
    w.iovaSlots.length ≤ Dense.maxDenseIovaSlots := by
  simp only [peerKickJob] at h
  grind

theorem Runs.works (h : Runs k call good k' calls events)
    (hw : w ∈ Dispatch.works k' (↑calls + F)) :
    w ∈ Dispatch.works k (call ::ₘ F) ∨ w.iovaSlots.length ≤ Dense.maxDenseIovaSlots := by
  rw [Dispatch.works, Multiset.mem_add, mem_gather_coe_add, Multiset.mem_coe] at hw
  rw [Dispatch.works, Multiset.mem_add, mem_gather_cons, Multiset.mem_coe]
  have quiet : k'.work = k.work → (∀ w ∈ calls.flatMap Frame.works, w ∈ call.works) →
      (w ∈ k.work ∨ w ∈ call.works ∨ w ∈ gather Frame.works F) ∨
        w.iovaSlots.length ≤ Dense.maxDenseIovaSlots := by
    intro hwork hworks
    rw [hwork] at hw
    exact .inl (hw.imp_right (.imp_left (hworks w)))
  cases h with
  | kickPeer alive peerOpen ok =>
    rcases hw with hw | hw
    · rcases List.mem_append.mp hw with hw | hw
      · exact .inl (.inl hw)
      · obtain rfl := List.mem_singleton.mp hw
        exact .inr (peerKickJob_slots ok)
    · exact .inl (.inr hw)
  | drainPost => exact quiet (unpinned_work ..) (by simp)
  | _ => exact quiet rfl (by simp)

/-- A section ends the work items it says it ends. -/
theorem Runs.unended (h : Runs k call good k' calls events) :
    Dispatch.unended k' (↑calls + F) + ended events =
      Dispatch.unended k (call ::ₘ F) + accepted events := by
  have quiet : k'.work = k.work → calls.flatMap Frame.ends = call.ends → ended events = [] →
      accepted events = [] → Dispatch.unended k' (↑calls + F) + ended events =
        Dispatch.unended k (call ::ₘ F) + accepted events := by
    intro hwork hends hended haccepted
    rw [Dispatch.unended, Dispatch.unended, gather_coe_add, gather_cons, hwork, hends, hended,
      haccepted]
  cases h with
  | submitEnqueue | kickWorker => exact quiet rfl rfl (ended_events _) (accepted_events _)
  | kickPeer alive peerOpen ok =>
    simp only [Dispatch.unended, Frame.ends, List.map_append, List.map_cons, List.map_nil,
      ← Multiset.coe_add, gather_coe_add, gather_cons, List.flatMap_cons, List.flatMap_nil,
      List.append_nil, ended, accepted, List.filterMap_cons, List.filterMap_nil, endedCookie,
      acceptedCookie, Multiset.coe_nil, add_zero, zero_add]
    exact add_right_comm _ _ _
  | endWork =>
    simp only [Dispatch.unended, Frame.ends, gather_cons, ended, accepted, List.filterMap_cons,
      List.filterMap_nil, endedCookie, acceptedCookie, Multiset.coe_nil, add_zero, zero_add]
    rw [add_assoc, add_comm (gather Frame.ends F)]
  | drainPost => exact quiet (unpinned_work ..) (by simp) rfl rfl
  | _ => exact quiet rfl (by simp) rfl rfl

/-- A request starts a work item, and calls nobody back. -/
theorem Enters.works (h : Enters k r k' calls events) :
    Dispatch.works k' (↑calls + F) = Dispatch.works k F ∧
    Dispatch.unended k' (↑calls + F) = Dispatch.unended k F ∧
    called events = [] ∧ ended events = [] ∧ accepted events = [] := by
  have quiet : k'.work = k.work → calls.flatMap Frame.works = [] → calls.flatMap Frame.ends = [] →
      Dispatch.works k' (↑calls + F) = Dispatch.works k F ∧
        Dispatch.unended k' (↑calls + F) = Dispatch.unended k F := by
    intro hwork hworks hends
    rw [Dispatch.works, Dispatch.works, Dispatch.unended, Dispatch.unended, gather_coe_add,
      gather_coe_add, hwork, hworks, hends, Multiset.coe_nil, zero_add, Multiset.coe_nil, zero_add]
    exact ⟨rfl, rfl⟩
  cases h with
  | @startPeerKick i w queued =>
    refine ⟨?_, ?_, rfl, rfl, rfl⟩
    · rw [Dispatch.works, Dispatch.works, ← coe_work_eraseIdx queued, gather_coe_add]
      simp only [List.flatMap_cons, List.flatMap_nil, Frame.works, List.append_nil,
        ← Multiset.cons_coe, ← Multiset.singleton_add, Multiset.coe_nil, add_zero]
      rw [add_left_comm, ← add_assoc]
    · rw [Dispatch.unended, Dispatch.unended, cookies_work_eraseIdx queued, gather_coe_add]
      simp only [List.flatMap_cons, List.flatMap_nil, Frame.ends, List.append_nil,
        List.nil_append, Multiset.coe_singleton]
      rw [add_left_comm, ← add_assoc]
  | detachPeer waits =>
    refine ⟨(quiet rfl ?_ ?_).1, (quiet rfl ?_ ?_).2, rfl, rfl, rfl⟩
    all_goals obtain rfl | ⟨q, -, rfl⟩ := waits <;> rfl
  | _ => exact ⟨(quiet rfl rfl rfl).1, (quiet rfl rfl rfl).2, rfl, rfl, rfl⟩

/-- Only the end of a work item is reported as one. -/
theorem Runs.ended_cases (h : Runs k call good k' calls events) (hc : c ∈ ended events) :
    ∃ w, call = .endWork w ∧ w.cookie = c := by
  cases h with
  | submitEnqueue | kickWorker =>
    change c ∈ ended (Promoting.events _) at hc
    rw [ended_events] at hc
    cases hc
  | @endWork w =>
    refine ⟨w, rfl, ?_⟩
    simpa [ended, endedCookie, eq_comm] using hc
  | _ => simp [ended, endedCookie] at hc

end Count

/-- The job in the peer slot, once its kick is accepted, is one whose completion is still to
come. -/
def Answered (k : Kernel) (F : Multiset Frame) (tr : List Event) : Prop :=
  ∀ p, (k.queue .rvd0).inFlight 1 = some p → (k.jobs p).id ∈ accepted tr →
    (k.jobs p).id ∈ outstanding k F

namespace Answered

theorem step (h : Answered k (call ::ₘ F) tr) (hshape : Shape k (call ::ₘ F) tr)
    (hrun : Runs k call good k' calls events)
    (hslot : (k'.queue .rvd0).inFlight 1 = (k.queue .rvd0).inFlight 1 := by simp)
    (hwork : k'.work = k.work := by rfl)
    (hcookies : ∀ c ∈ call.cookies, c ∈ calls.flatMap Frame.cookies := by simp)
    (haccepted : accepted events = [] := by rfl) : Answered k' (↑calls + F) (tr ++ events) := by
  intro p hp hid
  rw [hslot] at hp
  rw [accepted_append, haccepted, List.append_nil] at hid
  have hjob : (k'.jobs p).id = (k.jobs p).id :=
    Owners.id_fixed (hrun.fixed (Cores.peer_ne hshape hp))
  rw [hjob] at hid ⊢
  have hold := h p hp hid
  rw [outstanding, gather_cons, Multiset.mem_add, Multiset.mem_add] at hold
  rw [outstanding, gather_coe_add, hwork, Multiset.mem_add, Multiset.mem_add]
  exact hold.imp_right (.imp_left (hcookies _))

/-- With the peer slot empty there is nothing to answer. -/
theorem of_empty (hslot : (k.queue .rvd0).inFlight 1 = none) : Answered k F tr := by
  intro p hp
  rw [hslot] at hp
  cases hp

/-- A job that is promoted has an id the peer has not accepted. -/
theorem promoted (h : Answered k (.kickPromotions d [] ::ₘ F) tr)
    (hshape : Shape k (.kickPromotions d [] ::ₘ F) tr) :
    Answered (k.promoted d) (.kickPromotions d (k.promoting d).out ::ₘ F) tr := by
  refine hshape.promotions (J := fun k F => Answered k F tr) h ?_
  intro k out p c hshape hcore hpick h q hq hid
  have hp := Queue.pickPendingByOwnerLru_mem hpick
  cases d with
  | rvd1 => simp [hshape.slots.peerPending] at hp
  | rvd0 =>
    rw [id_promote] at hid ⊢
    rcases core_cases c with rfl | rfl
    · have hold := h q (by simpa [Promoting.promote] using hq) hid
      simpa [outstanding] using hold
    · obtain rfl : p = q := by simpa [Promoting.promote] using hq
      refine absurd rfl (hshape.ids.fresh _ hid p ?_)
      simp [young, hp]

theorem runs (h : Answered k (call ::ₘ F) tr) (hshape : Shape k (call ::ₘ F) tr)
    (hheard : call.heard k good = true)
    (hfit : ∀ w ∈ call.works, w.iovaSlots.length ≤ Dense.maxDenseIovaSlots)
    (hrun : Runs k call good k' calls events) : Answered k' (↑calls + F) (tr ++ events) := by
  have hstep := hrun
  cases hrun with
  | @submitEnqueue f q =>
    have hinsert : Answered (k.setQueue .rvd0 fun q' => { q' with pending := q'.pending ++ [q] })
        (.kickPromotions .rvd0 [] ::ₘ .readJob q ::ₘ F) tr := by
      intro p hp hid
      simpa [outstanding] using h p (by simpa using hp) hid
    have hpromoted := hinsert.promoted hshape.insert
    intro p hp hid
    rw [accepted_append, accepted_insert, List.append_nil] at hid
    simp only [coe_cons_add, coe_nil_add]
    exact hpromoted p hp hid
  | @kickWorker d _ rearm =>
    have hdisarm : Answered (k.disarm d) (.kickPromotions d [] ::ₘ .kickWorker d ::ₘ F) tr := by
      intro p hp hid
      have hp : (k.queue .rvd0).inFlight 1 = some p := by
        cases d <;> simpa using hp
      simpa [outstanding] using h p hp hid
    have hpromoted := hdisarm.promoted hshape.disarm
    intro p hp hid
    rw [accepted_append, accepted_events, List.append_nil] at hid
    simpa only [coe_cons_add, coe_nil_add] using hpromoted p hp hid
  | @kickPeer d q _ w _ alive _ ok =>
    intro p hp hid
    rw [accepted_append, List.mem_append] at hid
    simp only [outstanding, List.map_append, List.map_cons, List.map_nil, ← Multiset.coe_add,
      gather_coe_add, List.flatMap_cons, List.flatMap_nil, Frame.cookies, List.append_nil,
      Multiset.coe_nil, zero_add, Multiset.mem_add, Multiset.mem_coe, List.mem_singleton]
    rcases hid with hid | hid
    · have hold := h p hp hid
      simp only [outstanding, gather_cons, Frame.cookies, Multiset.coe_nil, zero_add,
        Multiset.mem_add, Multiset.mem_coe] at hold
      exact hold.imp_left .inl
    · exact .inl (.inr (by simpa [accepted, acceptedCookie] using hid))
  | @rollback d q c status _ alive slot =>
    obtain ⟨rfl, rfl⟩ := (fits_cons.mp hshape.fits).1
    exact of_empty (by simp)
  | peerCompletion => exact of_empty (by simp)
  | @peerStale cookie _ _ _ stale =>
    intro p hp hid
    rw [accepted_append, show accepted [] = [] from rfl, List.append_nil] at hid
    have hold := h p hp hid
    simp only [outstanding, gather_cons, Frame.cookies, Multiset.mem_add, Multiset.mem_coe,
      List.mem_singleton] at hold
    simp only [outstanding, coe_nil_add, Multiset.mem_add, Multiset.mem_coe]
    exact hold.imp_right fun hold => hold.resolve_left (stale p hp)
  | trampolineNone callback => simp [callback] at hheard
  | foreignRefused refused =>
    rcases refused with hlong | rfl
    · exact absurd (hfit _ (List.mem_singleton_self _)) (not_le.mpr hlong)
    · simp at hheard
  | foreignBusy slot => simp [slot] at hheard
  | @completeOrphan d _ _ q _ slot | @complete d _ _ q _ slot =>
    have htarget := hshape.slots.target d q slot
    refine h.step hshape hstep ?_
    cases d <;> simp [htarget]
  | @enqueueKickWorker d | @workerExit d | @rollbackLost d q c status _ alive slot =>
    refine h.step hshape hstep ?_
    cases d <;> simp
  | @drainPost f q timedOut _ alive =>
    exact h.step hshape hstep (by simp) (unpinned_work ..)
  | _ => exact h.step hshape hstep

theorem enters (h : Answered k F tr) (hshape : Shape k F tr)
    (hrun : Enters k r k' calls events) : Answered k' (↑calls + F) (tr ++ events) := by
  have hstep := hrun
  have keep : (k'.queue .rvd0).inFlight 1 = (k.queue .rvd0).inFlight 1 →
      (∀ c ∈ outstanding k F, c ∈ outstanding k' (↑calls + F)) → accepted events = [] →
      Answered k' (↑calls + F) (tr ++ events) := by
    intro hslot hout haccepted p hp hid
    rw [hslot] at hp
    rw [accepted_append, haccepted, List.append_nil] at hid
    have hjob : (k'.jobs p).id = (k.jobs p).id :=
      Owners.id_fixed (hstep.fixed (Cores.peer_ne hshape hp))
    rw [hjob] at hid ⊢
    exact hout _ (h p hp hid)
  have more : ∀ {k' : Kernel}, k'.work = k.work → ∀ c ∈ outstanding k F,
      c ∈ outstanding k' (↑calls + F) := by
    intro k' hwork c hc
    rw [outstanding, Multiset.mem_add] at hc
    rw [outstanding, gather_coe_add, hwork, Multiset.mem_add, Multiset.mem_add]
    exact hc.imp_right .inr
  cases hrun with
  | @startPeerKick i w queued =>
    refine keep rfl (fun c hc => ?_) rfl
    rw [outstanding, ← Multiset.map_coe, ← coe_work_eraseIdx queued, Multiset.mem_add,
      Multiset.map_coe, Multiset.mem_coe, List.map_cons, List.mem_cons] at hc
    simp only [outstanding, gather_coe_add, List.flatMap_cons, List.flatMap_nil, Frame.cookies,
      List.append_nil, Multiset.mem_add, Multiset.mem_coe, List.mem_singleton]
    tauto
  | _ => exact keep (by simp) (more rfl) rfl

end Answered

structure Callbacks (k : Kernel) (F : Multiset Frame) (tr : List Event) : Prop where
  fit : ∀ w ∈ works k F, w.iovaSlots.length ≤ Dense.maxDenseIovaSlots
  uncalled : uncalled k F + called tr = accepted tr
  unended : unended k F + ended tr = accepted tr
  before : ∀ pre c post, tr = pre ++ .ended c :: post → c ∈ called pre
  answered : Answered k F tr

namespace Callbacks

/-- A work item that ends has been called back: its thread is past the callback, and no other thread
works on the same kick. -/
theorem called_of_end (h : Callbacks k (.endWork w ::ₘ F) tr)
    (hshape : Shape k (.endWork w ::ₘ F) tr) (hstack : Reaches.Stacked Nested (.endWork w) F) :
    w.cookie ∈ called tr := by
  have hnodup : (Dispatch.unended k (.endWork w ::ₘ F)).Nodup := by
    have hall : (Dispatch.unended k (.endWork w ::ₘ F) + ended tr).Nodup := by
      rw [h.unended]
      exact Multiset.coe_nodup.mpr hshape.ids.nodup
    exact (Multiset.nodup_add.mp hall).1
  rw [Dispatch.unended, gather_cons, add_left_comm, Frame.ends, Multiset.coe_singleton,
    Multiset.singleton_add, Multiset.nodup_cons] at hnodup
  have hmem : w.cookie ∈ (accepted tr : Multiset Nat) := by
    rw [← h.unended]
    simp [Dispatch.unended]
  rw [← h.uncalled, Multiset.mem_add] at hmem
  refine Multiset.mem_coe.mp (hmem.resolve_left fun hmem => hnodup.1 ?_)
  obtain ⟨v, hv, hcookie⟩ := Multiset.mem_map.mp hmem
  rw [← hcookie, Multiset.mem_add]
  rcases Multiset.mem_add.mp hv with hv | hv
  · exact .inl (Multiset.mem_coe.mpr (List.mem_map_of_mem hv))
  · refine .inr (Stacked.gather_of hstack (fun _ hnested => hnested.cookies_ended) ?_)
    obtain ⟨x, hx, hvx⟩ := mem_gather.mp hv
    refine mem_gather.mpr ⟨x, (Multiset.mem_cons.mp hx).resolve_left ?_, Frame.cookies_of_works hvx⟩
    rintro rfl
    cases hvx

theorem runs (h : Callbacks k (call ::ₘ F) tr) (hshape : Shape k (call ::ₘ F) tr)
    (hstack : Reaches.Stacked Nested call F) (hheard : call.heard k good = true)
    (hrun : Runs k call good k' calls events) : Callbacks k' (↑calls + F) (tr ++ events) := by
  have hfit : ∀ w ∈ call.works, w.iovaSlots.length ≤ Dense.maxDenseIovaSlots := by
    intro w hw
    refine h.fit w (Multiset.mem_add.mpr (.inr ?_))
    exact mem_gather_cons.mpr (.inl hw)
  refine ⟨fun w hw => ?_, ?_, ?_, fun pre c post hsplit => ?_, ?_⟩
  · exact (hrun.works hw).elim (h.fit w) id
  · rw [called_append, accepted_append, ← Multiset.coe_add, ← Multiset.coe_add, ← h.uncalled,
      add_left_comm, hrun.uncalled hheard hfit, add_left_comm, add_assoc]
  · rw [ended_append, accepted_append, ← Multiset.coe_add, ← Multiset.coe_add, ← h.unended,
      add_left_comm, hrun.unended, add_left_comm, add_assoc]
  · obtain ⟨mid, rfl, hmid⟩ | ⟨mid, rfl, hmid⟩ := List.append_eq_append_iff.mp hsplit
    · rw [called_append, List.mem_append]
      obtain ⟨w, rfl, rfl⟩ := hrun.ended_cases (c := c) (by simp [hmid, ended, endedCookie])
      exact .inl (h.called_of_end hshape hstack)
    · cases mid with
      | nil =>
        obtain ⟨w, rfl, rfl⟩ := hrun.ended_cases (c := c) (by
          simp [← (List.nil_append _ ▸ hmid), ended, endedCookie])
        simpa using h.called_of_end hshape hstack
      | cons e mid =>
        obtain ⟨rfl, -⟩ := List.cons.inj hmid
        exact h.before _ _ _ rfl
  · exact h.answered.runs hshape hheard hfit hrun

theorem enters (h : Callbacks k F tr) (hshape : Shape k F tr)
    (hrun : Enters k r k' calls events) : Callbacks k' (↑calls + F) (tr ++ events) := by
  obtain ⟨hworks, hunended, hcalled, hended, haccepted⟩ := hrun.works (F := F)
  refine ⟨fun w hw => ?_, ?_, ?_, fun pre c post hsplit => ?_, h.answered.enters hshape hrun⟩
  · exact h.fit w (hworks ▸ hw)
  · rw [Dispatch.uncalled, hworks, called_append, accepted_append, hcalled, haccepted,
      List.append_nil, List.append_nil]
    exact h.uncalled
  · rw [hunended, ended_append, accepted_append, hended, haccepted, List.append_nil,
      List.append_nil]
    exact h.unended
  · obtain ⟨mid, rfl, hmid⟩ | ⟨mid, rfl, hmid⟩ := List.append_eq_append_iff.mp hsplit
    · simp [hmid, ended, endedCookie] at hended
    · cases mid with
      | nil => simp [← (List.nil_append _ ▸ hmid), ended, endedCookie] at hended
      | cons e mid =>
        obtain ⟨rfl, -⟩ := List.cons.inj hmid
        exact h.before _ _ _ rfl

end Callbacks

theorem callbacks_init : Callbacks kernelInit 0 [] where
  fit w hw := by simp [works, kernelInit] at hw
  uncalled := by simp [uncalled, works, kernelInit, called, accepted]
  unended := by simp [unended, kernelInit, ended, accepted]
  before pre c post hsplit := by simp at hsplit
  answered := Answered.of_empty rfl

theorem callbacks_reachable {s : Sys} (h : Reachable heard s) :
    Callbacks s.mem s.calls s.trace := by
  have hstacked := Reaches.stacked (fun _ => nested_reachable) h
  refine Reachable.invariant (I := Shape) (fun s hs => shape_reachable hs) callbacks_init ?_ ?_
    hstacked
  · intro k F tr r k' calls events hshape hj _ hrun
    exact hj.enters hshape hrun
  · intro k call F tr good k' calls events hshape hj hguard hrun
    exact hj.runs hshape hguard.2 hguard.1 hrun

/-- What the consumer sees of the kicks its peer accepted. -/
structure CalledBack (s : Sys) : Prop where
  once : (called s.trace).Nodup
  kicked : ∀ c ∈ called s.trace, c ∈ accepted s.trace
  before : ∀ pre c post, s.trace = pre ++ .ended c :: post → c ∈ called pre
  /-- A kick is with the peer until its work item ends. -/
  owed : ∀ c ∈ accepted s.trace, c ∈ ended s.trace ∨ (∃ w ∈ s.mem.work, w.cookie = c) ∨
    ∃ stack ∈ s.threads, ∃ w, .endWork w ∈ stack ∧ w.cookie = c
  slot : ∀ c ∈ ended s.trace, ∀ p, (s.mem.queue .rvd0).inFlight 1 = some p →
    (s.mem.jobs p).id ≠ c

/-- Every accepted kick is called back once before its work item ends, and its job is then out of
the peer slot, in every run in which no run of a kick on RVD1 returns early. -/
theorem peer_kicks_called_back {s : Sys} (h : Reachable heard s) : CalledBack s := by
  have hshape := shape_reachable h
  have hcallbacks := callbacks_reachable h
  have hnested := nested_reachable h
  have hnodup : (accepted s.trace : Multiset Nat).Nodup :=
    Multiset.coe_nodup.mpr hshape.ids.nodup
  refine ⟨?_, fun c hc => ?_, hcallbacks.before, fun c hc => ?_, ?_⟩
  · rw [← hcallbacks.uncalled] at hnodup
    exact Multiset.coe_nodup.mp (Multiset.nodup_add.mp hnodup).2.1
  · rw [← Multiset.mem_coe, ← hcallbacks.uncalled]
    exact Multiset.mem_add.mpr (.inr hc)
  · rw [← Multiset.mem_coe, ← hcallbacks.unended, unended, Multiset.mem_add, Multiset.mem_add,
      Multiset.mem_coe, Multiset.mem_coe, List.mem_map] at hc
    rcases hc with (hwork | hends) | hended
    · exact .inr (.inl hwork)
    · obtain ⟨x, hx, hcx⟩ := mem_gather.mp hends
      obtain ⟨stack, hstack, hxs⟩ := List.mem_flatten.mp (Multiset.mem_coe.mp hx)
      cases x with
      | endWork w => exact .inr (.inr ⟨stack, hstack, w, hxs, (List.mem_singleton.mp hcx).symm⟩)
      | _ => cases hcx
    · exact .inl hended
  · rintro c hc p hslot rfl
    have hout := hcallbacks.answered p hslot (by
      rw [← Multiset.mem_coe, ← hcallbacks.unended]
      exact Multiset.mem_add.mpr (.inr hc))
    -- the work item of a completion still to come has not ended
    have hunended : (s.mem.jobs p).id ∈ unended s.mem s.calls := by
      rw [outstanding, Multiset.mem_add] at hout
      rw [unended, Multiset.mem_add]
      refine hout.imp_right fun hcookie => ?_
      obtain ⟨x, hx, hcx⟩ := mem_gather.mp hcookie
      obtain ⟨stack, hstack, hxs⟩ := List.mem_flatten.mp (Multiset.mem_coe.mp hx)
      obtain ⟨y, hy, hcy⟩ := List.mem_flatMap.mp
        ((hnested stack hstack).cookies_ended (List.mem_flatMap.mpr ⟨x, hxs, hcx⟩))
      exact mem_gather.mpr ⟨y, Multiset.mem_coe.mpr (List.mem_flatten.mpr ⟨stack, hstack, hy⟩), hcy⟩
    rw [← hcallbacks.unended] at hnodup
    exact Multiset.disjoint_left.mp (Multiset.nodup_add.mp hnodup).2.2 hunended hc

/-- A file has two jobs in flight, and a worker of the peer has kicked RVD1 with the second. -/
abbrev peerWorks : List (Action Request) :=
  [.enter (.mapMmio .rvd1 4096), .enter .peerArrival, .run 1 true] ++ submitBare 2 0 ++
    submitBare 3 0 ++ [.run 3 true, .enter (.startPeerKick 0), .run 4 true, .run 4 true,
    .run 4 true]

/-- The codec reports the job done, and the worker calls back and ends. -/
abbrev peerReports : List (Action Request) :=
  peerWorks ++ [.enter (.interrupt .rvd1 1), .run 5 true, .run 5 true] ++
    List.replicate 8 (.run 4 true)

theorem peerReports_runs : (machine.run init peerReports).isSome = true := by
  decide +kernel

abbrev peerReported : Sys := (machine.run init peerReports).get peerReports_runs

theorem peer_kicks_called_back_once : accepted peerReported.trace = [2] ∧
    called peerReported.trace = [2] ∧ ended peerReported.trace = [2] ∧ CalledBack peerReported :=
  ⟨by decide +kernel, by decide +kernel, by decide +kernel,
    peer_kicks_called_back (.of_get peerReports_runs (by decide +kernel))⟩

/-- The worker gives up on its job after 100 ms, and the next kick finds RVD1's slot still taken. -/
abbrev slotTaken : List (Action Request) :=
  peerWorks ++ .run 4 false :: List.replicate 5 (.run 4 true) ++ submitBare 5 0 ++
    [.run 5 true, .enter (.startPeerKick 0)] ++ List.replicate 4 (.run 6 true)

theorem slotTaken_runs : (machine.run init slotTaken).isSome = true := by
  decide +kernel

/-- Its work item has ended without a callback, and its job stays in the peer slot. -/
theorem busy_kick_never_called_back : ∃ s : Sys, Reachable .any s ∧ accepted s.trace = [2, 3] ∧
    ended s.trace = [2, 3] ∧ called s.trace = [2] ∧ s.mem.work.length = 0 ∧
    (s.mem.queue .rvd0).inFlight 1 = some 3 ∧ (s.mem.jobs 3).id = 3 ∧ ¬ CalledBack s := by
  have hended : ended ((machine.run init slotTaken).get slotTaken_runs).trace = [2, 3] := by
    decide +kernel
  have hslot : (((machine.run init slotTaken).get slotTaken_runs).mem.queue .rvd0).inFlight 1 =
      some 3 := by
    decide +kernel
  have hid : (((machine.run init slotTaken).get slotTaken_runs).mem.jobs 3).id = 3 := by
    decide +kernel
  refine ⟨_, .of_get slotTaken_runs (by decide +kernel), by decide +kernel, hended,
    by decide +kernel, by decide +kernel, hslot, hid, fun h => ?_⟩
  exact h.slot 3 (by rw [hended]; decide) 3 hslot hid

end Rkvdec.Dispatch
