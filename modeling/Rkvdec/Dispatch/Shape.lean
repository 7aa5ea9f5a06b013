import Rkvdec.Dispatch.Promotion

/-! The shape every reachable state has, detached peer or not: the ledger of the jobs, the slot of
each device's own core, and the ids that tie a peer kick to its job. -/
namespace Rkvdec.Dispatch

open Lib Kernel

namespace Frame

/-- RVD1 never promotes, and only a job for the peer is rolled back. -/
def fits : Frame → Prop
  | .kickPromotions .rvd1 promos => promos = []
  | .rollback d _ c _ => d = .rvd0 ∧ c = 1
  | _ => True

/-- A job with an id but not yet on `Pending`. -/
def submits : Frame → List Ptr
  | .submitEnqueue _ p => [p]
  | _ => []

/-- The cookie of a peer kick whose completion callback is still to come. -/
def cookies : Frame → List Nat
  | .jobRunForeign w => [w.cookie]
  | .foreignWait _ w => [w.cookie]
  | .foreignExpired _ w => [w.cookie]
  | .foreignReap _ w => [w.cookie]
  | .trampoline w _ _ => [w.cookie]
  | .peerCompletion cookie _ _ => [cookie]
  | _ => []

end Frame

def Fits (F : Multiset Frame) : Prop := ∀ call ∈ F, call.fits

@[simp] theorem fits_cons {call : Frame} {F : Multiset Frame} :
    Fits (call ::ₘ F) ↔ call.fits ∧ Fits F := by simp [Fits]

/-- The slot and the idle bit of each device's own core agree, and RVD1 has no jobs waiting. -/
structure Slots (k : Kernel) : Prop where
  idle : ∀ d, (k.queue d).coreIdle 0 = true ↔ (k.queue d).inFlight 0 = none
  target : ∀ d p, (k.queue d).inFlight 0 = some p → (k.jobs p).targetCore = 0
  coreCount : ∀ d, 1 ≤ (k.queue d).coreCount
  peerCount : (k.queue .rvd1).coreCount = 1
  peerPending : (k.queue .rvd1).pending = []

/-- The jobs not yet handed to a core. -/
def young (k : Kernel) (F : Multiset Frame) : Multiset Ptr :=
  ((k.queue .rvd0).pending : Multiset Ptr) + gather Frame.submits F + loose F

/-- The cookies of the peer kicks whose completion callback is still to come. -/
def outstanding (k : Kernel) (F : Multiset Frame) : Multiset Nat :=
  ((k.work.map KickWork.cookie : List Nat) : Multiset Nat) + gather Frame.cookies F

def acceptedCookie : Event → Option Nat
  | .accepted cookie => some cookie
  | _ => none

/-- The cookies of the kicks the peer accepted so far. -/
def accepted (tr : List Event) : List Nat := tr.filterMap acceptedCookie

/-- The ids of RVD0: no two jobs share one before they are handed over, and a cookie the peer
accepted is the id of no job still to be handed over. -/
structure Ids (k : Kernel) (F : Multiset Frame) (tr : List Event) : Prop where
  inj : ∀ p ∈ young k F, ∀ q ∈ young k F, (k.jobs p).id = (k.jobs q).id → p = q
  le : ∀ p ∈ young k F, (k.jobs p).id ≤ (k.queue .rvd0).nextId
  acceptedLe : ∀ c ∈ accepted tr, c ≤ (k.queue .rvd0).nextId
  fresh : ∀ c ∈ accepted tr, ∀ p ∈ young k F, (k.jobs p).id ≠ c
  nodup : (accepted tr).Nodup
  outstanding : ∀ c ∈ outstanding k F, c ∈ accepted tr

structure Shape (k : Kernel) (F : Multiset Frame) (tr : List Event) : Prop where
  ledger : Ledger k F
  slots : Slots k
  fits : Fits F
  ids : Ids k F tr

theorem accepted_append (tr events : List Event) :
    accepted (tr ++ events) = accepted tr ++ accepted events := by
  simp [accepted]

namespace Slots

variable {k k' : Kernel} {d : Dev}

/-- A step that leaves every own-core slot alone. -/
theorem congr (h : Slots k) (hidle : ∀ d, (k'.queue d).coreIdle 0 = (k.queue d).coreIdle 0)
    (hslot : ∀ d, (k'.queue d).inFlight 0 = (k.queue d).inFlight 0)
    (htarget : ∀ p, (k'.jobs p).targetCore = (k.jobs p).targetCore)
    (hcount : ∀ d, (k'.queue d).coreCount = (k.queue d).coreCount)
    (hpending : (k'.queue .rvd1).pending = (k.queue .rvd1).pending) : Slots k' where
  idle d := by rw [hidle, hslot, h.idle]
  target d p hp := by
    rw [hslot] at hp
    rw [htarget, h.target d p hp]
  coreCount d := by rw [hcount]; exact h.coreCount d
  peerCount := by rw [hcount, h.peerCount]
  peerPending := by rw [hpending, h.peerPending]

/-- A step on the queue of one device. -/
theorem setQueue (h : Slots k) {g : Queue → Queue}
    (hidle : (g (k.queue d)).coreIdle 0 = true ↔ (g (k.queue d)).inFlight 0 = none)
    (htarget : ∀ p, (g (k.queue d)).inFlight 0 = some p → (k.jobs p).targetCore = 0)
    (hcount : 1 ≤ (g (k.queue d)).coreCount)
    (hpeer : d = .rvd1 → (g (k.queue d)).coreCount = 1 ∧ (g (k.queue d)).pending = []) :
    Slots (k.setQueue d g) := by
  refine ⟨fun d' => ?_, fun d' p => ?_, fun d' => ?_, ?_, ?_⟩
  · by_cases hd : d' = d
    · subst hd
      simpa using hidle
    · simpa [hd] using h.idle d'
  · by_cases hd : d' = d
    · subst hd
      simpa using htarget p
    · simpa [hd] using h.target d' p
  · by_cases hd : d' = d
    · subst hd
      simpa using hcount
    · simpa [hd] using h.coreCount d'
  · by_cases hd : d = .rvd1
    · subst hd
      simpa using (hpeer rfl).1
    · simpa [Ne.symm hd] using h.peerCount
  · by_cases hd : d = .rvd1
    · subst hd
      simpa using (hpeer rfl).2
    · simpa [Ne.symm hd] using h.peerPending

/-- A step on lists and flags only. -/
theorem setQueue_keep (h : Slots k) {g : Queue → Queue}
    (hidle : (g (k.queue d)).coreIdle 0 = (k.queue d).coreIdle 0)
    (hslot : (g (k.queue d)).inFlight 0 = (k.queue d).inFlight 0)
    (hcount : (g (k.queue d)).coreCount = (k.queue d).coreCount)
    (hpending : (k.queue d).pending = [] → d = .rvd1 → (g (k.queue d)).pending = []) :
    Slots (k.setQueue d g) := by
  refine h.setQueue ?_ ?_ ?_ ?_
  · rw [hidle, hslot, h.idle]
  · intro p hp
    exact h.target d p (hslot ▸ hp)
  · rw [hcount]
    exact h.coreCount d
  · rintro rfl
    exact ⟨hcount ▸ h.peerCount, hpending h.peerPending rfl⟩

theorem setFileLock (h : Slots k) (f : File) (held : Bool) : Slots (k.setFileLock f held) :=
  h.congr (fun _ => rfl) (fun _ => rfl) (fun _ => rfl) (fun _ => rfl) rfl

theorem setJob (h : Slots k) (p : Ptr) {g : Job → Job}
    (hg : (g (k.jobs p)).targetCore = (k.jobs p).targetCore) : Slots (k.setJob p g) := by
  refine h.congr (fun _ => rfl) (fun _ => rfl) (fun q => ?_) (fun _ => rfl) rfl
  by_cases hq : q = p
  · subst hq
    simpa using hg
  · simp [hq]

/-- A slot is released, whatever happens to `Completed`. -/
theorem releaseSlot (h : Slots k) (c : Core) (g : Queue → List Ptr) :
    Slots (k.setQueue d fun q => Dispatch.releaseSlot { q with completed := g q } c) := by
  rcases core_cases c with rfl | rfl
  · refine h.setQueue (by simp) (by simp) (h.coreCount d) ?_
    rintro rfl
    exact ⟨h.peerCount, h.peerPending⟩
  · exact h.setQueue_keep (by simp) (by simp) rfl (fun hp _ => hp)

end Slots

namespace Ids

variable {k k' : Kernel} {F F' : Multiset Frame} {tr tr' : List Event}

/-- Steps that hand nothing over and bring no new job. -/
theorem mono (h : Ids k F tr) (hyoung : ∀ p ∈ young k' F', p ∈ young k F)
    (hid : ∀ p ∈ young k' F', (k'.jobs p).id = (k.jobs p).id)
    (hnext : (k.queue .rvd0).nextId = (k'.queue .rvd0).nextId)
    (haccepted : accepted tr' = accepted tr)
    (hout : ∀ c ∈ Dispatch.outstanding k' F', c ∈ Dispatch.outstanding k F) : Ids k' F' tr' where
  inj p hp q hq heq := by
    rw [hid p hp, hid q hq] at heq
    exact h.inj p (hyoung p hp) q (hyoung q hq) heq
  le p hp := by
    rw [hid p hp, ← hnext]
    exact h.le p (hyoung p hp)
  acceptedLe c hc := by
    rw [haccepted] at hc
    rw [← hnext]
    exact h.acceptedLe c hc
  fresh c hc p hp := by
    rw [haccepted] at hc
    rw [hid p hp]
    exact h.fresh c hc p (hyoung p hp)
  nodup := by rw [haccepted]; exact h.nodup
  outstanding c hc := by
    rw [haccepted]
    exact h.outstanding c (hout c hc)

end Ids

/-- The parts of the memory the shape speaks of are the same. -/
structure Same (k k' : Kernel) : Prop where
  pending : ∀ d, (k'.queue d).pending = (k.queue d).pending
  completed : ∀ d, (k'.queue d).completed = (k.queue d).completed
  inFlight : ∀ d, (k'.queue d).inFlight = (k.queue d).inFlight
  coreIdle : ∀ d, (k'.queue d).coreIdle = (k.queue d).coreIdle
  coreCount : ∀ d, (k'.queue d).coreCount = (k.queue d).coreCount
  nextId : ∀ d, (k'.queue d).nextId = (k.queue d).nextId
  id : ∀ p, (k'.jobs p).id = (k.jobs p).id
  targetCore : ∀ p, (k'.jobs p).targetCore = (k.jobs p).targetCore
  alive : k'.alive = k.alive
  nextPtr : k'.nextPtr = k.nextPtr
  work : k'.work = k.work

namespace Same

variable {k k' : Kernel} {d : Dev} {p : Ptr}

theorem refl (k : Kernel) : Same k k := by constructor <;> intros <;> rfl

theorem trans {k'' : Kernel} (h : Same k k') (h' : Same k' k'') : Same k k'' where
  pending d := (h'.pending d).trans (h.pending d)
  completed d := (h'.completed d).trans (h.completed d)
  inFlight d := (h'.inFlight d).trans (h.inFlight d)
  coreIdle d := (h'.coreIdle d).trans (h.coreIdle d)
  coreCount d := (h'.coreCount d).trans (h.coreCount d)
  nextId d := (h'.nextId d).trans (h.nextId d)
  id p := (h'.id p).trans (h.id p)
  targetCore p := (h'.targetCore p).trans (h.targetCore p)
  alive := h'.alive.trans h.alive
  nextPtr := h'.nextPtr.trans h.nextPtr
  work := h'.work.trans h.work

/-- A store into a job's own fields. -/
theorem setJob {g : Job → Job} (hid : (g (k.jobs p)).id = (k.jobs p).id)
    (htarget : (g (k.jobs p)).targetCore = (k.jobs p).targetCore) : Same k (k.setJob p g) := by
  refine ⟨fun _ => rfl, fun _ => rfl, fun _ => rfl, fun _ => rfl, fun _ => rfl, fun _ => rfl,
    fun q => ?_, fun q => ?_, rfl, rfl, rfl⟩
  · by_cases hq : q = p
    · subst hq
      simpa using hid
    · simp [hq]
  · by_cases hq : q = p
    · subst hq
      simpa using htarget
    · simp [hq]

/-- A store into the flags of a queue. -/
theorem setQueue {g : Queue → Queue} (hpending : (g (k.queue d)).pending = (k.queue d).pending)
    (hcompleted : (g (k.queue d)).completed = (k.queue d).completed)
    (hinFlight : (g (k.queue d)).inFlight = (k.queue d).inFlight)
    (hidle : (g (k.queue d)).coreIdle = (k.queue d).coreIdle)
    (hcount : (g (k.queue d)).coreCount = (k.queue d).coreCount)
    (hnext : (g (k.queue d)).nextId = (k.queue d).nextId) : Same k (k.setQueue d g) := by
  constructor
  all_goals first
    | (intro d'; by_cases hd : d' = d; (subst hd; simpa using by assumption); simp [hd])
    | (intros; rfl)

end Same

namespace Shape

variable {k k' : Kernel} {F F' : Multiset Frame} {call : Frame} {calls : List Frame}
  {tr tr' events : List Event}

theorem fits_calls (h : Fits F) (hcalls : ∀ c ∈ calls, c.fits) : Fits (↑calls + F) := by
  intro c hc
  rcases Multiset.mem_add.mp hc with hc | hc
  · exact hcalls c (by simpa using hc)
  · exact h c hc

/-- A step that brings no new job and hands none over. -/
theorem move (h : Shape k F tr) (hledger : Ledger k' F') (hslots : Slots k') (hfits : Fits F')
    (hpending : ∀ p ∈ (k'.queue .rvd0).pending, p ∈ (k.queue .rvd0).pending)
    (hloose : ∀ p ∈ loose F', p ∈ loose F)
    (hsubmits : ∀ p ∈ gather Frame.submits F', p ∈ gather Frame.submits F)
    (hid : ∀ p ∈ young k F, (k'.jobs p).id = (k.jobs p).id)
    (hnext : (k'.queue .rvd0).nextId = (k.queue .rvd0).nextId) (hwork : k'.work = k.work)
    (hcookies : ∀ c ∈ gather Frame.cookies F', c ∈ gather Frame.cookies F)
    (haccepted : accepted tr' = accepted tr) : Shape k' F' tr' := by
  have hyoung : ∀ p ∈ young k' F', p ∈ young k F := by
    intro p hp
    simp only [young, Multiset.mem_add, Multiset.mem_coe] at hp ⊢
    exact hp.imp (.imp (hpending p) (hsubmits p)) (hloose p)
  refine ⟨hledger, hslots, hfits, ?_⟩
  refine h.ids.mono hyoung (fun p hp => hid p (hyoung p hp)) hnext.symm haccepted (fun c hc => ?_)
  simp only [outstanding, hwork, Multiset.mem_add] at hc ⊢
  exact hc.imp_right (hcookies c)

/-- `move` for a section. -/
theorem step (h : Shape k (call ::ₘ F) tr) (hledger : Ledger k' (↑calls + F)) (hslots : Slots k')
    (hid : ∀ p ∈ young k (call ::ₘ F), (k'.jobs p).id = (k.jobs p).id)
    (hpending : ∀ p ∈ (k'.queue .rvd0).pending, p ∈ (k.queue .rvd0).pending := by simp)
    (hnext : (k'.queue .rvd0).nextId = (k.queue .rvd0).nextId := by simp)
    (hwork : k'.work = k.work := by simp)
    (hfits : ∀ c ∈ calls, c.fits := by simp [Frame.fits, mem_wantKick])
    (hloose : ∀ p ∈ calls.flatMap Frame.loose, p ∈ call.loose := by simp [Frame.loose])
    (hsubmits : ∀ p ∈ calls.flatMap Frame.submits, p ∈ call.submits := by simp [Frame.submits])
    (hcookies : ∀ c ∈ calls.flatMap Frame.cookies, c ∈ call.cookies := by simp [Frame.cookies])
    (haccepted : accepted events = [] := by rfl) : Shape k' (↑calls + F) (tr ++ events) := by
  refine h.move hledger hslots (fits_calls (fits_cons.mp h.fits).2 hfits) hpending (fun p hp => ?_)
    (fun p hp => ?_) hid hnext hwork (fun c hc => ?_) (by simp [accepted_append, haccepted])
  · rw [loose, gather_coe_add, Multiset.mem_add] at hp
    rw [loose, gather_cons, Multiset.mem_add]
    exact hp.imp_left (hloose p)
  · rw [mem_gather_coe_add] at hp
    rw [mem_gather_cons]
    exact hp.imp_left (hsubmits p)
  · rw [mem_gather_coe_add] at hc
    rw [mem_gather_cons]
    exact hc.imp_left (hcookies c)

/-- A step that moves no job. -/
theorem congr (h : Shape k F tr) (hk : Same k k') (howned : owned F' = owned F)
    (hloose : loose F' = loose F)
    (hsubmits : ∀ p ∈ gather Frame.submits F', p ∈ gather Frame.submits F)
    (hcookies : ∀ c ∈ gather Frame.cookies F', c ∈ gather Frame.cookies F) (hfits : Fits F')
    (haccepted : accepted tr' = accepted tr) : Shape k' F' tr' := by
  have hlisted : k'.listed = k.listed := by
    simp [Kernel.listed, Queue.listed, hk.pending, hk.completed, hk.inFlight]
  refine h.move ?_ ?_ hfits (by simp [hk.pending]) (by simp [hloose]) hsubmits (fun p _ => hk.id p)
    (hk.nextId _) hk.work hcookies haccepted
  · exact h.ledger.congr hlisted (by simp [Kernel.peerSlot, Queue.peerSlot, hk.inFlight]) howned
      hloose hk.alive hk.nextPtr
  · exact h.slots.congr (fun d => by rw [hk.coreIdle]) (fun d => by rw [hk.inFlight])
      hk.targetCore hk.coreCount (hk.pending _)

/-- A section that moves no job. -/
theorem quiet (h : Shape k (call ::ₘ F) tr) (hk : Same k k')
    (howns : calls.flatMap Frame.owns = call.owns := by simp [Frame.owns])
    (hloose : calls.flatMap Frame.loose = call.loose := by simp [Frame.loose])
    (hsubmits : ∀ p ∈ calls.flatMap Frame.submits, p ∈ call.submits := by simp [Frame.submits])
    (hcookies : ∀ c ∈ calls.flatMap Frame.cookies, c ∈ call.cookies := by simp [Frame.cookies])
    (hfits : ∀ c ∈ calls, c.fits := by simp [Frame.fits])
    (haccepted : accepted events = [] := by rfl) : Shape k' (↑calls + F) (tr ++ events) := by
  refine h.step ?_ ?_ (fun p _ => hk.id p) (by simp [hk.pending]) (hk.nextId _) hk.work hfits
    (by simp [hloose]) hsubmits hcookies haccepted
  · refine h.ledger.congr ?_ (by simp [Kernel.peerSlot, Queue.peerSlot, hk.inFlight]) ?_ ?_ hk.alive
      hk.nextPtr
    · simp [Kernel.listed, Queue.listed, hk.pending, hk.completed, hk.inFlight]
    · simp [owned, gather_coe_add, howns]
    · simp [loose, gather_coe_add, hloose]
  · exact h.slots.congr (fun d => by rw [hk.coreIdle]) (fun d => by rw [hk.inFlight])
      hk.targetCore hk.coreCount (hk.pending _)

theorem setFileLock (h : Shape k F tr) (f : File) (held : Bool) :
    Shape (k.setFileLock f held) F tr :=
  h.congr (by constructor <;> intros <;> rfl) rfl rfl (fun _ hp => hp) (fun _ hc => hc) h.fits rfl

theorem append (h : Shape k F tr) (hevents : accepted events = []) : Shape k F (tr ++ events) :=
  h.congr (.refl _) rfl rfl (fun _ hp => hp) (fun _ hc => hc) h.fits
    (by simp [accepted_append, hevents])

/-- A thread that starts is one with a call that holds nothing yet. -/
theorem spawn (h : Shape k F tr) : Shape k (.registerCompletion ::ₘ F) tr :=
  h.congr (.refl _) (by simp [Frame.owns]) (by simp [Frame.loose]) (by simp [Frame.submits])
    (by simp [Frame.cookies]) (by simp [Frame.fits, h.fits]) rfl

end Shape

end Rkvdec.Dispatch
