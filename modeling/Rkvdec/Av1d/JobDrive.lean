import Rkvdec.Av1d.JobPlaces

/-! What drives the job in flight: one call that starts it, the codec that runs it, or one call on
the way to its completion. And the pin count of a job: how many threads wait for it. -/
namespace Rkvdec.Av1d.JobQueue

open Lib Kernel
open Dispatch (File Ptr)

variable {k k' : Kernel} {F : Multiset Frame} {call : Frame} {calls : List Frame}
  {events : List Event} {r : Request} {good : Bool} {p q : Ptr} {G : Guard} {s : Sys}

namespace Event

/-- The event is about the way of a job through `InFlight`. -/
def moves : Event → Bool
  | .launched _ | .started _ | .completed _ => true
  | _ => false

end Event

/-- The job is submitted, waiting or in flight. -/
def Unfinished (k : Kernel) (F : Multiset Frame) (p : Ptr) : Prop :=
  p ∈ k.queue.pending ∨ k.queue.inFlight = some p ∨ p ∈ gather Frame.submits F

/-- What a section does to the way of the jobs through `InFlight`. -/
inductive Moves (k k' : Kernel) (F : Multiset Frame) (call : Frame) (calls : List Frame)
    (events : List Event) : Prop
  | none (quiet : ∀ e ∈ events, e.moves = false) (slot : k'.queue.inFlight = k.queue.inFlight)
      (hw : k'.hw = k.hw) (fixed : ∀ p, (k'.jobs p).done = (k.jobs p).done)
      (drives : calls.countP Frame.drives ≤ call.drives.toNat) (before : call.starts = [])
      (after : calls.flatMap Frame.starts = [])
  | launch (p : Ptr) (post : List Event) (quiet : ∀ e ∈ post, e.moves = false)
      (eq : events = .launched p :: post) (free : k.queue.inFlight = none)
      (slot : k'.queue.inFlight = some p) (hw : k'.hw = k.hw)
        (unfinished : Unfinished k (call ::ₘ F) p)
      (fixed : ∀ p, (k'.jobs p).done = (k.jobs p).done) (drives : calls.countP Frame.drives = 1)
      (after : calls.flatMap Frame.starts = [p])
  | start (p : Ptr) (post : List Event) (quiet : ∀ e ∈ post, e.moves = false)
      (eq : events = .started p :: post) (is : call = .jobStart p)
      (slot : k'.queue.inFlight = k.queue.inFlight)
      (hw : k'.hw = k.hw ∧ calls.countP Frame.drives ≤ 1 ∨
        k'.hw = some p ∧ calls.countP Frame.drives = 0)
      (fixed : ∀ p, (k'.jobs p).done = (k.jobs p).done) (after : calls.flatMap Frame.starts = [])
  | complete (p : Ptr) (eq : events = [.completed p]) (slot : k.queue.inFlight = some p)
      (empty : k'.queue.inFlight = none) (hw : k'.hw = k.hw)
      (pending : k'.queue.pending = k.queue.pending)
      (done : ∀ q, (k'.jobs q).done = ((k.jobs q).done || q = p)) (drives : call.drives = true)
      (none : calls.countP Frame.drives = 0) (before : call.starts = [])
      (after : calls.flatMap Frame.starts = [])

theorem Runs.moves (h : Runs k call good k' calls events) : Moves k k' F call calls events := by
  have hdrives := countP_wantKick k.queue
  have hstarts := flatMap_wantKick (g := Frame.starts) rfl k.queue
  have hpin : ∀ q (g : RkMppJob → RkMppJob), (∀ j, (g j).done = j.done) →
      ∀ p, ((k.setJob q g).jobs p).done = (k.jobs p).done := fun q g hg p => setJob_proj _ q (hg _)
  have hfinish : ∀ p result hwStatus q, ((k.setJob p (finish result hwStatus)).jobs q).done =
      ((k.jobs q).done || decide (q = p)) := by
    intro p result hwStatus q
    by_cases hq : q = p
    · simp [hq, finish]
    · simp [hq]
  induction h with
  | @submitStart f p good room free =>
    refine .launch p [_] (by simp [Event.moves]) rfl free rfl rfl ?_ (fun _ => rfl) rfl rfl
    exact .inr (.inr (mem_gather_cons.mpr (.inl (List.mem_singleton_self p))))
  | startFailed alive events_eq =>
    rcases events_eq with rfl | rfl
    · exact .start _ [] (by simp) rfl rfl rfl (.inl ⟨rfl, le_rfl⟩) (fun _ => rfl) rfl
    · exact .start _ [_] (by simp [Event.moves]) rfl rfl rfl (.inl ⟨rfl, le_rfl⟩) (fun _ => rfl) rfl
  | started =>
    exact .start _ [_] (by simp [Event.moves]) rfl rfl rfl (.inr ⟨rfl, rfl⟩) (fun _ => rfl) rfl
  | startedIdle =>
    exact .start _ [_] (by simp [Event.moves]) rfl rfl rfl (.inl ⟨rfl, Nat.zero_le _⟩)
      (fun _ => rfl) rfl
  | completeOrphan slot | complete slot =>
    exact .complete _ rfl slot rfl rfl rfl (hfinish _ _ _) rfl (by simp [hdrives, Frame.drives]) rfl
      (by simp [hstarts, Frame.starts])
  | enqueueKickWorker =>
    exact .none (by simp) rfl rfl (fun _ => rfl) (by split <;> rfl) rfl (by split <;> rfl)
  | workerPromote rearm open_ free head | resumePromote free head =>
    exact .launch _ [] (by simp) rfl free rfl rfl (.inl (by simp [head])) (fun _ => rfl) rfl rfl
  | waitExpiredPinned | waitReapPinned | waitExpiredLost =>
    exact .none (by simp) rfl rfl (hpin _ _ fun _ => rfl) (Nat.zero_le _) rfl rfl
  | waitExpiredPending | waitExpiredCompleted | waitReap =>
    exact .none (by simp [Event.moves]) rfl rfl (hpin _ _ fun _ => rfl) (Nat.zero_le _) rfl rfl
  | waitExpiredInFlight =>
    refine .none (by simp) rfl rfl (fun p => ?_) (Nat.zero_le _) rfl rfl
    exact (setJob_proj RkMppJob.done _ rfl).trans (setJob_proj RkMppJob.done _ rfl)
  | drainPost alive =>
    exact .none (by simp) rfl rfl (fun _ => unpinned_proj RkMppJob.done (fun _ _ => rfl) _)
      (Nat.zero_le _) rfl rfl
  | dpc | dpcError => exact .none (by simp) rfl rfl (fun _ => rfl) le_rfl rfl rfl
  | _ => exact .none (by simp [Event.moves]) rfl rfl (fun _ => rfl) (Nat.zero_le _) rfl rfl

theorem Runs.pending (h : Runs k call good k' calls events) (hp : p ∈ k'.queue.pending) :
    p ∈ k.queue.pending ∨ p ∈ call.submits := by
  induction h with
  | submitWait => simpa [Frame.submits] using hp
  | workerPromote rearm open_ free head | resumePromote free head =>
    exact .inl (head ▸ List.mem_cons_of_mem _ hp)
  | waitExpiredPending => exact .inl (List.mem_of_mem_erase hp)
  | _ => exact .inl hp

/-- A section finishes jobs, and starts on none that was finished. -/
theorem Runs.unfinished (h : Runs k call good k' calls events) (hp : Unfinished k' (↑calls + F) p) :
    Unfinished k (call ::ₘ F) p := by
  rcases hp with hp | hp | hp
  · rcases h.pending hp with hold | hsubmit
    · exact .inl hold
    · exact .inr (.inr (mem_gather_cons.mpr (.inl hsubmit)))
  · rcases h.moves (F := F) with ⟨-, hslot⟩ | ⟨q, -, -, -, -, hslot, -, hunfinished⟩ |
      ⟨-, -, -, -, -, hslot⟩ | ⟨-, -, -, hempty⟩
    · exact .inr (.inl (hslot ▸ hp))
    · obtain rfl := Option.some.inj (hslot.symm.trans hp)
      exact hunfinished
    · exact .inr (.inl (hslot ▸ hp))
    · rw [hempty] at hp
      cases hp
  · rw [gather_keep h.submits] at hp
    exact .inr (.inr (mem_gather_cons.mpr (.inr hp)))

/-- The calls that drive a job. -/
def drivers (F : Multiset Frame) : Nat := F.countP fun call => call.drives = true

theorem drivers_cons : drivers (call ::ₘ F) = call.drives.toNat + drivers F := by
  unfold drivers
  rw [Multiset.countP_cons]
  cases call.drives <;> simp [add_comm]

theorem drivers_coe_add : drivers (↑calls + F) = calls.countP Frame.drives + drivers F := by
  unfold drivers
  rw [Multiset.countP_add, Multiset.coe_countP]
  simp

theorem drivers_of_starts (h : p ∈ gather Frame.starts F) : 0 < drivers F := by
  obtain ⟨call, hcall, hp⟩ := mem_gather.mp h
  refine Multiset.countP_pos.mpr ⟨call, hcall, ?_⟩
  cases call with
  | jobStart => rfl
  | _ => cases hp

/-- There is a job in flight for what the codec runs and for every call that drives one, so at most
one of these. -/
structure Drive (k : Kernel) (F : Multiset Frame) : Prop where
  single : k.hw.toList.length + drivers F ≤ k.queue.inFlight.toList.length
  hw : ∀ p, k.hw = some p → k.queue.inFlight = some p
  starts : ∀ p ∈ gather Frame.starts F, k.queue.inFlight = some p

namespace Drive

/-- A step that leaves the codec and the job in flight alone and starts nothing. -/
theorem keep {F' : Multiset Frame} (h : Drive k F) (hhw : k'.hw = k.hw)
    (hslot : k'.queue.inFlight = k.queue.inFlight) (hdrivers : drivers F' ≤ drivers F)
    (hstarts : ∀ p ∈ gather Frame.starts F', p ∈ gather Frame.starts F) : Drive k' F' := by
  refine ⟨?_, fun p hp => ?_, fun p hp => ?_⟩
  · rw [hhw, hslot]
    exact (Nat.add_le_add_left hdrivers _).trans h.single
  · rw [hslot]
    exact h.hw p (hhw ▸ hp)
  · rw [hslot]
    exact h.starts p (hstarts p hp)

theorem keep_cons (h : Drive k (call ::ₘ F)) (hhw : k'.hw = k.hw)
    (hslot : k'.queue.inFlight = k.queue.inFlight)
    (hdrives : calls.countP Frame.drives ≤ call.drives.toNat)
    (hstarts : calls.flatMap Frame.starts = []) : Drive k' (↑calls + F) := by
  refine h.keep hhw hslot ?_ fun p hp => ?_
  · rw [drivers_cons, drivers_coe_add]
    exact Nat.add_le_add_right hdrives _
  · rw [gather_keep hstarts] at hp
    exact mem_gather_cons.mpr (.inr hp)

/-- With nothing in flight the codec is idle and nothing is driven. -/
theorem idle (h : Drive k F) (hslot : k.queue.inFlight = none) : k.hw = none ∧ drivers F = 0 := by
  have hsingle := h.single
  rw [hslot] at hsingle
  refine ⟨?_, Nat.eq_zero_of_le_zero (le_trans (Nat.le_add_left _ _) hsingle)⟩
  cases hhw : k.hw with
  | none => rfl
  | some p => simp [hhw] at hsingle

/-- A job that is taken into the empty slot and started. -/
theorem launch (h : Drive k (call ::ₘ F)) (hfree : k.queue.inFlight = none) (hhw : k'.hw = k.hw)
    (hslot : k'.queue.inFlight = some p) (hdrives : calls.countP Frame.drives = 1)
    (hstarts : calls.flatMap Frame.starts = [p]) : Drive k' (↑calls + F) := by
  obtain ⟨hidle, hnone⟩ := h.idle hfree
  rw [drivers_cons] at hnone
  refine ⟨?_, fun q hq => ?_, fun q hq => ?_⟩
  · rw [hhw, hidle, hslot, drivers_coe_add, hdrives]
    simp only [Option.toList_none, List.length_nil, Option.toList_some, List.length_singleton]
    omega
  · rw [hhw, hidle] at hq
    cases hq
  · rw [gather_coe_add, hstarts, Multiset.mem_add, Multiset.mem_coe, List.mem_singleton] at hq
    rcases hq with rfl | hq
    · exact hslot
    · have := drivers_of_starts hq
      omega

/-- The completion of the job in flight. -/
theorem finished (h : Drive k (call ::ₘ F)) (hcall : call.drives = true)
    (hslot : k.queue.inFlight = some p) (hhw : k'.hw = k.hw) (hempty : k'.queue.inFlight = none)
    (hdrives : calls.countP Frame.drives = 0) (hstarts : calls.flatMap Frame.starts = []) :
    Drive k' (↑calls + F) := by
  have hsingle := h.single
  rw [drivers_cons, hcall, hslot, Option.toList_some, List.length_singleton,
    Bool.toNat_true] at hsingle
  refine ⟨?_, fun q hq => ?_, fun q hq => ?_⟩
  · rw [hhw, hempty, drivers_coe_add, hdrives]
    simp only [Option.toList_none, List.length_nil]
    omega
  · rw [hhw] at hq
    rw [hq, Option.toList_some, List.length_singleton] at hsingle
    omega
  · have := drivers_of_starts (gather_keep hstarts ▸ hq)
    omega

theorem runs (h : Drive k (call ::ₘ F)) (hrun : Runs k call good k' calls events) :
    Drive k' (↑calls + F) := by
  rcases hrun.moves (F := F) with ⟨-, hslot, hhw, -, hdrives, -, hafter⟩ |
    ⟨p, -, -, -, hfree, hslot, hhw, -, -, hdrives, hafter⟩ |
    ⟨p, -, -, -, rfl, hslot, ⟨hhw, hdrives⟩ | ⟨hhw, hdrives⟩, -, hafter⟩ |
    ⟨p, -, hslot, hempty, hhw, -, -, hcall, hdrives, -, hafter⟩
  · exact h.keep_cons hhw hslot hdrives hafter
  · exact h.launch hfree hhw hslot hdrives hafter
  · exact h.keep_cons hhw hslot hdrives hafter
  · -- the codec is kicked with the job in flight
    have hrunning := h.starts p (mem_gather_cons.mpr (.inl (List.mem_singleton_self p)))
    have hsingle := h.single
    rw [drivers_cons] at hsingle
    simp only [Frame.drives, Bool.toNat_true] at hsingle
    refine ⟨?_, fun q hq => ?_, fun q hq => ?_⟩
    · rw [drivers_coe_add, hdrives, hhw, hslot, Option.toList_some, List.length_singleton]
      omega
    · rw [hslot, hrunning, ← hhw, hq]
    · rw [gather_keep hafter] at hq
      rw [hslot]
      exact h.starts q (mem_gather_cons.mpr (.inr hq))
  · exact h.finished hcall hslot hhw hempty hdrives hafter

theorem enters (h : Drive k F) (hrun : Enters k r k' calls events) : Drive k' (↑calls + F) := by
  have keep : k'.hw = k.hw → k'.queue.inFlight = k.queue.inFlight → calls.countP Frame.drives = 0 →
      calls.flatMap Frame.starts = [] → Drive k' (↑calls + F) := by
    intro hhw hslot hdrives hstarts
    refine h.keep hhw hslot ?_ fun p hp => ?_
    · rw [drivers_coe_add, hdrives, Nat.zero_add]
    · rwa [gather_keep hstarts] at hp
  induction hrun with
  | @interrupt hwStatus q busy =>
    have hsingle := h.single
    rw [busy] at hsingle
    refine ⟨?_, fun p hp => ?_, fun p hp => ?_⟩
    · rw [drivers_coe_add]
      simpa [Frame.drives] using hsingle
    · cases hp
    · exact h.starts p (by rwa [gather_keep (by rfl)] at hp)
  | _ => exact keep rfl rfl rfl rfl

end Drive

theorem drive_init : Drive kernelInit 0 where
  single := by simp [drivers, kernelInit]
  hw p hp := by cases hp
  starts p hp := by simp at hp

theorem drive_reachable (h : Reachable G s) : Drive s.mem s.calls :=
  Reachable.invariant (I := fun _ _ _ => True) (J := fun k F _ => Drive k F) (fun _ _ => trivial)
    drive_init (fun _ hj _ hrun => hj.enters hrun) (fun _ hj _ hrun => hj.runs hrun) h

section Idle

/-- What is unfinished has not been signalled. -/
def Idle (k : Kernel) (F : Multiset Frame) : Prop := ∀ p, Unfinished k F p → (k.jobs p).done = false

theorem Enters.unfinished (h : Enters k r k' calls events) (hp : Unfinished k' (↑calls + F) p) :
    Unfinished k F p ∨ p = k.nextPtr ∧ (k'.jobs p).done = false := by
  unfold Unfinished at hp ⊢
  rw [mem_gather_coe_add] at hp
  induction h with
  | submit =>
    simp only [setFileLock_queue, alloc_queue, setQueue_queue, Frame.submits, List.flatMap_cons,
      List.flatMap_nil, List.append_nil, List.mem_singleton] at hp
    rcases hp with hp | hp | rfl | hp
    · exact .inl (.inl hp)
    · exact .inl (.inr (.inl hp))
    · exact .inr ⟨rfl, by simp [newJob]⟩
    · exact .inl (.inr (.inr hp))
  | drain | drainPin =>
    simp only [undrained, setJob_queue, List.mem_filter, List.flatMap_cons, List.flatMap_nil,
      Frame.submits, List.append_nil, List.not_mem_nil, false_or] at hp
    tauto
  | _ => exact .inl (by simpa [Frame.submits] using hp)

theorem Ledger.unfinished_alive (h : Ledger k F) (hp : Unfinished k F p) : k.alive p = true := by
  rcases hp with hp | hp | hp
  · exact (h.of_linked (linked_pending hp)).1
  · exact (h.of_linked (linked_inFlight hp)).1
  · exact h.alive p (mem_places.mpr (.inr (.inr (.inr (owned_of_submits hp)))))

/-- The job in flight leaves the unfinished ones when it is completed. -/
theorem Ledger.finished (h : Ledger k (call ::ₘ F)) (hslot : k.queue.inFlight = some p)
    (hempty : k'.queue.inFlight = none) (hpending : k'.queue.pending = k.queue.pending)
    (hsubmits : calls.flatMap Frame.submits = []) : ¬ Unfinished k' (↑calls + F) p := by
  rintro (hp | hp | hp)
  · rw [hpending] at hp
    exact (h.pending_apart hp).2 hslot
  · rw [hempty] at hp
    cases hp
  · rw [gather_keep hsubmits] at hp
    have hheld : p ∈ gather Frame.owns F := owned_of_submits hp
    exact (h.of_linked (linked_inFlight hslot)).2 (mem_gather_cons.mpr (.inr hheld))

theorem Idle.runs (h : Idle k (call ::ₘ F)) (hledger : Ledger k (call ::ₘ F))
    (hrun : Runs k call good k' calls events) : Idle k' (↑calls + F) := by
  intro p hp
  have hold := h p (hrun.unfinished hp)
  rcases hrun.moves (F := F) with ⟨-, -, -, hfixed⟩ | ⟨-, -, -, -, -, -, -, -, hfixed⟩ |
    ⟨-, -, -, -, -, -, -, hfixed⟩ | ⟨q, -, hslot, hempty, -, hpending, hdone⟩
  · rw [hfixed, hold]
  · rw [hfixed, hold]
  · rw [hfixed, hold]
  · rw [hdone, hold, Bool.false_or, decide_eq_false_iff_not]
    rintro rfl
    exact hledger.finished hslot hempty hpending hrun.submits hp

theorem Enters.done (h : Enters k r k' calls events) (hp : p ≠ k.nextPtr) :
    (k'.jobs p).done = (k.jobs p).done := by
  induction h with
  | submit => simp [hp]
  | waitPin => exact setJob_proj RkMppJob.done _ rfl
  | drainPin => exact setJob_proj RkMppJob.done (k := undrained k _) _ rfl
  | _ => rfl

theorem Idle.enters (h : Idle k F) (hledger : Ledger k F) (hrun : Enters k r k' calls events) :
    Idle k' (↑calls + F) := by
  intro p hp
  rcases hrun.unfinished hp with hold | ⟨-, hdone⟩
  · rw [hrun.done (hledger.bound _ (hledger.unfinished_alive hold)).ne]
    exact h p hold
  · exact hdone

theorem idle_init : Idle kernelInit 0 := fun _ _ => rfl

theorem idle_reachable (h : Reachable G s) : Idle s.mem s.calls :=
  Reachable.invariant (I := fun k F _ => Ledger k F) (J := fun k F _ => Idle k F)
    (fun _ => ledger_reachable) idle_init (fun hi hj _ hrun => hj.enters hi hrun)
    (fun hi hj _ hrun => hj.runs hi hrun) h

end Idle

section Pins

/-- A pin for each thread that waits. -/
structure Pins (k : Kernel) (F : Multiset Frame) : Prop where
  count : ∀ p < k.nextPtr, (k.jobs p).waiterPin = (gather Frame.pins F).count p
  bound : ∀ p ∈ gather Frame.pins F, p < k.nextPtr

theorem addPin_pin (n : Int) : ((k.setJob q (addPin n)).jobs p).waiterPin =
    (k.jobs p).waiterPin + n * ([q].count p : Int) := by
  by_cases hq : q = p
  · subst hq
    simp [addPin]
  · simp [hq, Ne.symm hq]

theorem unpinned_pin (timedOut : Bool) : ((unpinned k f q timedOut).jobs p).waiterPin =
    (k.jobs p).waiterPin + -1 * ([q].count p : Int) := by
  rw [← addPin_pin]
  unfold unpinned
  by_cases hq : p = q
  · subst hq
    simp [addPin]
  · simp [hq]

/-- The pin of a job goes down with the calls that held one. -/
theorem Runs.pin (h : Runs k call good k' calls events) :
    (k'.jobs p).waiterPin + (call.pins.count p : Int) =
      (k.jobs p).waiterPin + ((calls.flatMap Frame.pins).count p : Int) := by
  have hwant := flatMap_wantKick (g := Frame.pins) rfl k.queue
  induction h with
  | completeOrphan | complete =>
    rw [setQueue_jobs, setJob_proj RkMppJob.waiterPin _ (by rfl)]
    simp [Frame.pins, hwant]
  | waitExpiredPinned | waitReapPinned | waitExpiredLost =>
    rw [addPin_pin]
    simp [Frame.pins]
  | waitExpiredPending | waitExpiredCompleted | waitReap =>
    rw [setQueue_jobs, addPin_pin]
    simp [Frame.pins]
  | waitExpiredInFlight =>
    rw [setJob_proj RkMppJob.waiterPin _ (by rfl), addPin_pin]
    simp [Frame.pins]
  | drainPost alive =>
    rw [setQueue_jobs, unpinned_pin]
    simp [Frame.pins]
  | _ => simp [Frame.pins]

/-- A section's calls hold no pin that its own call did not hold. -/
theorem Runs.pins (h : Runs k call good k' calls events) (hp : p ∈ calls.flatMap Frame.pins) :
    p ∈ call.pins := by
  have hwant := flatMap_wantKick (g := Frame.pins) rfl k.queue
  induction h with
  | completeOrphan | complete => simp [Frame.pins, hwant] at hp
  | waitDone | waitTimeout | drainDone | drainTimeout => exact hp
  | _ => simp [Frame.pins] at hp

theorem Pins.runs (h : Pins k (call ::ₘ F)) (hrun : Runs k call good k' calls events) :
    Pins k' (↑calls + F) := by
  refine ⟨fun p hp => ?_, fun p hp => ?_⟩
  · have hcount := h.count p (hrun.nextPtr ▸ hp)
    have hpin := hrun.pin (p := p)
    simp only [gather_cons, gather_coe_add, Multiset.count_add, Multiset.coe_count] at hcount ⊢
    push_cast at hcount ⊢
    omega
  · rw [hrun.nextPtr]
    rcases mem_gather_coe_add.mp hp with hp | hp
    · exact h.bound p (mem_gather_cons.mpr (.inl (hrun.pins hp)))
    · exact h.bound p (mem_gather_cons.mpr (.inr hp))

theorem Pins.enters (h : Pins k F) (hledger : Ledger k F) (hrun : Enters k r k' calls events) :
    Pins k' (↑calls + F) := by
  have keep : k'.jobs = k.jobs → k'.nextPtr = k.nextPtr → calls.flatMap Frame.pins = [] →
      Pins k' (↑calls + F) := by
    intro hjobs hnext hpins
    refine ⟨fun p hp => ?_, fun p hp => ?_⟩
    · rw [hjobs, gather_keep hpins]
      exact h.count p (hnext ▸ hp)
    · rw [hnext]
      rw [gather_keep hpins] at hp
      exact h.bound p hp
  -- A request that pins one job more.
  have pinned : ∀ q, k.alive q = true → (∀ p, (k'.jobs p).waiterPin =
      (k.jobs p).waiterPin + 1 * ([q].count p : Int)) → k'.nextPtr = k.nextPtr →
      calls.flatMap Frame.pins = [q] → Pins k' (↑calls + F) := by
    intro q hq hjobs hnext hpins
    refine ⟨fun p hp => ?_, fun p hp => ?_⟩
    · have hcount := h.count p (hnext ▸ hp)
      rw [hjobs, gather_coe_add, hpins, Multiset.count_add, Multiset.coe_count]
      push_cast
      omega
    · rw [hnext]
      rw [gather_coe_add, hpins, Multiset.mem_add, Multiset.mem_coe, List.mem_singleton] at hp
      rcases hp with rfl | hp
      · exact hledger.bound p hq
      · exact h.bound p hp
  induction hrun with
  | submit =>
    refine ⟨fun p hp => ?_, fun p hp => ?_⟩
    · simp only [gather_coe_add, List.flatMap_cons, List.flatMap_nil, Frame.pins, List.append_nil,
        Multiset.coe_nil, zero_add]
      by_cases hnew : p = k.nextPtr
      · subst hnew
        have hnone : (gather Frame.pins F).count k.nextPtr = 0 :=
          Multiset.count_eq_zero.mpr fun hpin => (h.bound _ hpin).false
        simp [hnone, newJob]
      · have hlt : p < k.nextPtr := lt_of_le_of_ne (Nat.lt_succ_iff.mp hp) hnew
        simpa [hnew] using h.count p hlt
    · have hp : p ∈ gather Frame.pins F := by simpa [Frame.pins] using hp
      exact (h.bound p hp).trans (Nat.lt_succ_self _)
  | @waitPin f id timeoutMs q linked owner =>
    refine pinned q ?_ (fun p => addPin_pin 1) rfl rfl
    rcases linked with hslot | hpending
    · exact (hledger.of_linked (linked_inFlight hslot)).1
    · exact (hledger.of_linked (linked_pending hpending)).1
  | @drainPin f q slot owner =>
    refine pinned q (hledger.of_linked (linked_inFlight slot)).1 (fun p => ?_) rfl rfl
    exact addPin_pin (k := undrained k f) 1
  | _ => exact keep rfl rfl rfl

theorem pins_init : Pins kernelInit 0 where
  count p hp := by cases hp
  bound p hp := by simp at hp

theorem pins_reachable (h : Reachable G s) : Pins s.mem s.calls :=
  Reachable.invariant (I := fun k F _ => Ledger k F) (J := fun k F _ => Pins k F)
    (fun _ => ledger_reachable) pins_init (fun hi hj _ hrun => hj.enters hi hrun)
    (fun _ hj _ hrun => hj.runs hrun) h

end Pins

end Rkvdec.Av1d.JobQueue
