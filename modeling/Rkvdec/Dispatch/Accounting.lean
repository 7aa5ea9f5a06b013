import Rkvdec.Dispatch.Running

/-! RVD0 answers for the jobs the codecs run: it finds them in its slots, and with them the buffers
they use. The peer may come and go, if it leaves no job behind. -/
namespace Rkvdec.Dispatch

open Lib Kernel

variable {k k' : Kernel} {F : Multiset Frame} {tr events : List Event} {p q : Ptr} {f : File}
  {c : Core}

/-- Runs in which the peer leaves only with nothing in its slot, and no worker gives up on a job
that RVD1 still runs. -/
def undisturbed : Guard where
  enter := fun k _ r => r.detaches = false ∨ (k.queue .rvd0).inFlight 1 = none
  exec := fun k call _ good =>
    match call with
    | .foreignWait p _ => good = true ∨ k.hw .rvd1 ≠ some p
    | _ => True

instance (mem : Kernel) (F : Multiset Frame) (r : Request) :
    Decidable (undisturbed.enter mem F r) :=
  inferInstanceAs (Decidable (r.detaches = false ∨ (mem.queue .rvd0).inFlight 1 = none))

instance (mem : Kernel) (call : Frame) (F : Multiset Frame) (good : Bool) :
    Decidable (undisturbed.exec mem call F good) :=
  match call with
  | .foreignWait p _ => inferInstanceAs (Decidable (good = true ∨ mem.hw .rvd1 ≠ some p))
  | .bufInsert .. | .submitEnqueue .. | .kickPromotions .. | .rollback .. | .signal ..
  | .jobKickLocalInner .. | .kickTail .. | .jobComplete .. | .release .. | .enqueueKickWorker ..
  | .workItemEnqueue .. | .kickWorker .. | .evtDpc .. | .readJob .. | .takeResult ..
  | .jobRunForeign .. | .foreignExpired .. | .foreignReap .. | .trampoline .. | .peerCompletion ..
  | .endWork .. | .waitDone .. | .waitExpired .. | .waitReap .. | .drainScan .. | .drainWait ..
  | .drainPost .. | .detachWait .. | .registerCompletion => inferInstanceAs (Decidable True)

/-- What RVD0 knows of a job of a file: its buffers are in use, a wait for its id pins it, and a
drain of the file has it among the jobs it scans and does not end. -/
structure Accounted (k : Kernel) (q : Ptr) (f : File) : Prop where
  owner : (k.jobs q).owner = some f
  inUse : ∀ s ∈ (k.jobs q).prog.iovaSlots, jobBufferInUse k f s.bufferHandle = true
  wait : ∀ timeoutMs, jobWait k f (k.jobs q).id timeoutMs =
    (k.setJob q (addPin 1), [.waitDone q (finiteTimeout timeoutMs)], [])
  drain : q ∈ k.inFlight .rvd0 ∧
    ∃ p, drainScan k f = .next (k.setJob p (addPin 1)) [.drainWait f p] []

section Slots

theorem inUse_of_slot (hhandles : Handles k F) (hc : c.val < (k.queue .rvd0).coreCount)
    (hslot : (k.queue .rvd0).inFlight c = some q) (hlt : q < k.nextPtr)
    (howner : (k.jobs q).owner = some f) {s : Dense.IovaSlot}
    (hs : s ∈ (k.jobs q).prog.iovaSlots) : jobBufferInUse k f s.bufferHandle = true := by
  have hne := (hhandles.slots q hlt f howner s hs).1
  rw [jobBufferInUse, List.any_eq_true]
  refine ⟨q, ?_, ?_⟩
  · exact List.mem_append_left _ (List.mem_append_left _ (mem_inFlight.mpr ⟨c, hc, hslot⟩))
  · simp only [jobReferencesBuffer, decide_eq_true_eq]
    exact ⟨howner, hne, .inl ⟨s, hs, rfl⟩⟩

/-- A search of the slots that the job satisfies finds some job that does. -/
theorem findInFlight_of_slot (pred : Job → Bool) (hc : c.val < (k.queue .rvd0).coreCount)
    (hslot : (k.queue .rvd0).inFlight c = some q) (hpred : pred (k.jobs q) = true) :
    ∃ p c', k.findInFlight .rvd0 pred = some p ∧ (k.queue .rvd0).inFlight c' = some p ∧
      pred (k.jobs p) = true := by
  have hsome : (k.findInFlight .rvd0 pred).isSome = true := by
    rw [findInFlight, List.findSome?_isSome_iff]
    exact ⟨c, Queue.mem_cores.mpr hc, by simp [hslot, hpred]⟩
  obtain ⟨p, hp⟩ := Option.isSome_iff_exists.mp hsome
  obtain ⟨c', -, hslot', hpred'⟩ := findInFlight_some hp
  exact ⟨p, c', hp, hslot', hpred'⟩

/-- The ids of RVD0's jobs tell them apart. -/
theorem home_unique (howners : Owners k F) (hp : Home k F p) (hq : Home k F q)
    (hid : (k.jobs p).id = (k.jobs q).id) : p = q := by
  obtain ⟨hplt, hpown⟩ := howners.home p hp
  obtain ⟨hqlt, hqown⟩ := howners.home q hq
  exact howners.inj p hplt q hqlt hpown hqown hid

theorem wait_of_slot (hshape : Shape k F tr) (howners : Owners k F)
    (hc : c.val < (k.queue .rvd0).coreCount) (hslot : (k.queue .rvd0).inFlight c = some q)
    (howner : (k.jobs q).owner = some f) (timeoutMs : BitVec 32) :
    jobWait k f (k.jobs q).id timeoutMs =
      (k.setJob q (addPin 1), [.waitDone q (finiteTimeout timeoutMs)], []) := by
  have hhome : Home k F q := .inl (.inr (.inr ⟨c, hslot⟩))
  have hcompleted : (k.queue .rvd0).completed.find? (fun p => (k.jobs p).id = (k.jobs q).id) =
      none := by
    refine List.find?_eq_none.mpr fun p hp hid => ?_
    obtain rfl := home_unique howners (.inl (.inr (.inl hp))) hhome (by simpa using hid)
    have hplace : ∃ a : Place, p ∈ a.jobs k F ∧ a ≠ .completed := by
      rcases core_cases c with rfl | rfl
      · exact ⟨.own, mem_own.mpr hslot, nofun⟩
      · exact ⟨.peer, mem_peer.mpr hslot, nofun⟩
    obtain ⟨a, ha, hne⟩ := hplace
    exact hne (place_unique hshape ha (mem_completed.mpr hp))
  obtain ⟨p, c', hfind, hslot', hpred⟩ := findInFlight_of_slot
    (fun j => j.id = (k.jobs q).id ∧ j.owner = some f) hc hslot (by simp [howner])
  obtain rfl : p = q :=
    home_unique howners (.inl (.inr (.inr ⟨c', hslot'⟩))) hhome (of_decide_eq_true hpred).1
  simp only [jobWait, hcompleted, hfind, Option.some_or, howner, ne_eq, not_true_eq_false,
    if_false]

theorem drain_of_slot (hc : c.val < (k.queue .rvd0).coreCount)
    (hslot : (k.queue .rvd0).inFlight c = some q) (howner : (k.jobs q).owner = some f) :
    ∃ p, drainScan k f = .next (k.setJob p (addPin 1)) [.drainWait f p] [] := by
  obtain ⟨p, -, hfind, -⟩ := findInFlight_of_slot (fun j => j.owner = some f) hc hslot
    (by simp [howner])
  exact ⟨p, by simp only [drainScan, hfind]⟩

/-- A job in the slot of an attached core is accounted for. -/
theorem accounted_of_slot (hshape : Shape k F tr) (howners : Owners k F) (hhandles : Handles k F)
    (hc : c.val < (k.queue .rvd0).coreCount) (hslot : (k.queue .rvd0).inFlight c = some q) :
    ∃ f, Accounted k q f := by
  obtain ⟨hlt, hown⟩ := howners.home q (.inl (.inr (.inr ⟨c, hslot⟩)))
  obtain ⟨f, howner⟩ := Option.ne_none_iff_exists'.mp hown
  refine ⟨f, howner, fun s hs => inUse_of_slot hhandles hc hslot hlt howner hs,
    wait_of_slot hshape howners hc hslot howner, mem_inFlight.mpr ⟨c, hc, hslot⟩, ?_⟩
  exact drain_of_slot hc hslot howner

end Slots

section Promotions

/-- The states of a promotion loop. -/
abbrev Promoting.Visits : Promoting → Promoting → Prop :=
  Relation.ReflTransGen fun s s' => s.turn = some s'

/-- No attached core is idle with a job in its slot. -/
def Queue.Clean (q : Queue) : Prop :=
  ∀ c : Core, c.val < q.coreCount → q.coreIdle c = true → q.inFlight c = none

theorem Queue.Clean.visits {s s' : Promoting} (h : s.queue.Clean) (hvisits : s.Visits s') :
    s'.queue.Clean := by
  induction hvisits with
  | refl => exact h
  | tail _ hturn ih =>
    obtain ⟨p, c, -, -, rfl⟩ := Promoting.turn_eq hturn
    intro c' hc' hidle
    by_cases hc : c' = c
    · simp [Promoting.promote, hc] at hidle
    · simp only [Promoting.promote, Function.update_of_ne hc] at hidle ⊢
      exact ih c' hc' hidle

theorem clean_of_cores (hshape : Shape k F tr) (hcores : Cores k F) :
    (k.queue .rvd0).Clean := by
  intro c hc hidle
  rcases core_cases c with rfl | rfl
  · exact (hshape.slots.idle .rvd0).mp hidle
  · cases hopen : (k.queue .rvd0).peerOpen with
    | true => exact (hcores.idle hopen).mp hidle
    | false => exact (hcores.closed hopen).1

end Promotions

/-- What must hold of the jobs in flight, whatever the peer does. -/
structure Accounting (s : Sys) : Prop where
  /-- RVD0 answers for what its own codec runs. -/
  own : ∀ p, s.mem.hw .rvd0 = some p → ∃ f, Accounted s.mem p f
  /-- It answers for the job whose kick the codec of RVD1 runs, the one on its second core. -/
  peer : ∀ p, s.mem.hw .rvd1 = some p → ∃ q f, (s.mem.queue .rvd0).inFlight 1 = some q ∧
    (s.mem.jobs q).id ∈ accepted s.trace ∧
    (s.mem.jobs q).prog.iovaSlots = (s.mem.jobs p).prog.iovaSlots ∧ Accounted s.mem q f
  /-- A promotion loop that starts now, whatever waits, picks no core with a job in its slot. -/
  promotion : ∀ jobs q s', q.cells = (s.mem.queue .rvd0).cells →
    Promoting.Visits ⟨jobs, q, [], []⟩ s' → ∀ c, s'.queue.pickTargetCore = some c →
      s'.queue.inFlight c = none

theorem undisturbed_detach : ∀ k F r, undisturbed.enter k F r →
    r.detaches = false ∨ (k.queue .rvd0).inFlight 1 = none := fun _ _ _ h => h

theorem undisturbed_wait : ∀ k p w F, undisturbed.exec k (.foreignWait p w) F false →
    k.hw .rvd1 ≠ some p := fun _ _ _ _ h => h.resolve_left Bool.false_ne_true

/-- The job RVD1 runs is the one in RVD0's peer slot. -/
theorem running_peer {G : Guard} {s : Sys}
    (hdetach : ∀ k F r, G.enter k F r → r.detaches = false ∨ (k.queue .rvd0).inFlight 1 = none)
    (hwait : ∀ k p w F, G.exec k (.foreignWait p w) F false → k.hw .rvd1 ≠ some p)
    (h : Reachable G s) (hp : s.mem.hw .rvd1 = some p) :
    ∃ q, (s.mem.queue .rvd0).inFlight 1 = some q ∧ (s.mem.jobs q).id ∈ accepted s.trace ∧
      (s.mem.jobs q).prog.iovaSlots = (s.mem.jobs p).prog.iovaSlots ∧
      (1 : Core).val < (s.mem.queue .rvd0).coreCount := by
  have hshape := shape_reachable h
  have hcores := cores_reachable hdetach h
  have hwaits := waits_reachable hwait h
  obtain ⟨w, hw⟩ := hwaits.running p hp
  have hcookie : w.cookie ∈ outstanding s.mem s.calls := by
    refine Multiset.mem_add.mpr (.inr (mem_gather.mpr ⟨_, hw, ?_⟩))
    simp [Frame.cookies]
  have hwork : w ∈ works s.mem s.calls := by
    refine Multiset.mem_add.mpr (.inr (mem_gather.mpr ⟨_, hw, ?_⟩))
    simp [Frame.works]
  obtain ⟨q, hslot, hid⟩ := hcores.kicked w.cookie hcookie
  refine ⟨q, hslot, ?_, ?_, ?_⟩
  · rw [hid]
    exact hshape.ids.outstanding w.cookie hcookie
  · rw [hcores.works w hwork q hslot, (hwaits.slots p w hw).2]
  · rw [hcores.count]
    cases hopen : (s.mem.queue .rvd0).peerOpen with
    | true => decide
    | false => simp [(hcores.closed hopen).1] at hslot

/-- Every job in flight is accounted for, in every state of every run in which the peer leaves only
with nothing in its slot and no worker gives up on a job that RVD1 still runs. -/
theorem peer_jobs_accounted {s : Sys} (h : Reachable undisturbed s) : Accounting s := by
  have hshape := shape_reachable h
  have howners := owners_reachable h
  have hhandles := handles_reachable h
  refine ⟨fun p hp => ?_, fun p hp => ?_, fun jobs q s' hcells hvisits c hpick => ?_⟩
  · exact accounted_of_slot hshape howners hhandles (c := 0) (hshape.slots.coreCount .rvd0)
      ((drive_reachable h).hw .rvd0 p hp)
  · obtain ⟨q, hslot, haccepted, hslots, hcount⟩ :=
      running_peer undisturbed_detach undisturbed_wait h hp
    obtain ⟨f, hf⟩ := accounted_of_slot hshape howners hhandles hcount hslot
    exact ⟨q, f, hslot, haccepted, hslots, hf⟩
  · have hclean := clean_of_cores hshape (cores_reachable undisturbed_detach h)
    have hq : q.Clean := by
      simp only [Queue.cells, Prod.mk.injEq] at hcells
      obtain ⟨hflight, hidle, -, hcount, -⟩ := hcells
      simpa only [Queue.Clean, hflight, hidle, hcount] using hclean
    obtain ⟨hcount, hidle⟩ := Queue.pickTargetCore_spec hpick
    exact Queue.Clean.visits hq hvisits c hcount hidle

/-- A file has two jobs in flight, the second over its buffer and on RVD1. -/
abbrev peerRuns : List (Action Request) :=
  [.enter (.mapMmio .rvd0 4096), .enter (.mapMmio .rvd1 4096), .enter .peerArrival, .run 2 true,
    .enter (.bufAlloc 0 0 16 (by decide)), .run 3 true] ++ submitBare 4 0 ++
    [.enter (.submit 0 (bareInput [⟨128, 0, 2⟩]) true), .run 5 true, .run 5 true,
      .enter (.startPeerKick 0), .run 6 true, .run 6 true]

theorem peerRuns_runs : (machine.run init peerRuns).isSome = true := by
  decide +kernel

abbrev peerRunning : Sys := (machine.run init peerRuns).get peerRuns_runs

theorem peer_jobs_accounted_running : peerRunning.mem.hw .rvd1 = some 2 ∧
    jobBufferInUse peerRunning.mem 0 2 = true ∧ Accounting peerRunning :=
  ⟨by decide +kernel, by decide +kernel,
    peer_jobs_accounted (.of_get peerRuns_runs (by decide +kernel))⟩

/-- The peer leaves while its codec runs the job, and comes back. -/
abbrev peerLeaves : List (Action Request) := peerRuns ++ [.enter .detachPeer]
abbrev peerReturns : List (Action Request) := peerLeaves ++ [.enter .peerArrival]

theorem peerLeaves_runs : (machine.run init peerLeaves).isSome = true := by
  decide +kernel

theorem peerReturns_runs : (machine.run init peerReturns).isSome = true := by
  decide +kernel

/-- After the peer has left the buffer counts as free although the codec of RVD1 still uses it;
once it is back the next promotion goes to the slot that still holds the job. -/
theorem detached_job_lost :
    (∃ s : Sys, Reachable .any s ∧ ¬ Accounting s ∧ s.mem.hw .rvd1 = some 2 ∧
      jobBufferInUse s.mem 0 2 = false) ∧
    ∃ s : Sys, Reachable .any s ∧ ¬ Accounting s ∧
      (s.mem.queue .rvd0).inFlight 1 = some 1 ∧ (s.mem.queue .rvd0).pickTargetCore = some 1 := by
  refine ⟨⟨_, .of_get peerLeaves_runs (by decide +kernel), fun h => ?_, by decide +kernel,
    by decide +kernel⟩, ⟨_, .of_get peerReturns_runs (by decide +kernel), fun h => ?_,
    by decide +kernel, by decide +kernel⟩⟩
  · have hhw : ((machine.run init peerLeaves).get peerLeaves_runs).mem.hw .rvd1 = some 2 := by
      decide +kernel
    have hslot : (((machine.run init peerLeaves).get peerLeaves_runs).mem.queue .rvd0).inFlight 1 =
        some 1 := by
      decide +kernel
    obtain ⟨q, f, hq, -, -, hf⟩ := h.peer 2 hhw
    obtain rfl : 1 = q := Option.some.inj (hslot.symm.trans hq)
    have hin := hf.drain.1
    revert hin
    decide +kernel
  · have hempty := h.promotion (fun _ => noJob) _ _ rfl .refl 1 (by decide +kernel)
    revert hempty
    decide +kernel

theorem enter_bufFree {cookie : Nat} (hlock : k.fileLock f = false)
    (hidle : jobBufferInUse k f cookie = false)
    (hlook : (Dense.bufLookup (k.buffers f) cookie).isSome = true) :
    ∃ k', enter k (.bufFree f cookie) = some (k', [], [.bufFreed f cookie]) := by
  obtain ⟨b, hb⟩ := Option.isSome_iff_exists.mp hlook
  refine ⟨{ k with buffers := Function.update k.buffers f ((k.buffers f).erase b) }, ?_⟩
  simp [enter, bufFreeIfNotInUse, hlock, hidle, hb]

/-- A buffer that is freed is in use by no job a codec runs, in every run in which the peer leaves
only with nothing in its slot and no worker gives up on a job that RVD1 still runs. -/
theorem free_spares_running {s : Sys} (h : Reachable undisturbed s) {f : File} {cookie : Nat}
    {k' : Kernel} {calls : List Frame} {events : List Event}
    (hfree : enter s.mem (.bufFree f cookie) = some (k', calls, events))
    (hfreed : .bufFreed f cookie ∈ events) (d : Dev) (p : Ptr) (hp : s.mem.hw d = some p) :
    ∀ slot ∈ (s.mem.jobs p).prog.iovaSlots, slot.bufferHandle ≠ cookie := by
  rintro slot hslot rfl
  obtain ⟨b, hidle, hlook⟩ : ∃ b, jobBufferInUse s.mem f slot.bufferHandle = false ∧
      Dense.bufLookup (s.mem.buffers f) slot.bufferHandle = some b := by
    cases enter_enters hfree with
    | bufFreeRefused => simp at hfreed
    | bufFree lock idle lookup => exact ⟨_, idle, lookup⟩
  have hshape := shape_reachable h
  have howners := owners_reachable h
  have hhandles := handles_reachable h
  -- the job of RVD0 that a codec runs, over the buffers of the kick
  have hjob : ∃ q g, q < s.mem.nextPtr ∧ slot ∈ (s.mem.jobs q).prog.iovaSlots ∧
      Accounted s.mem q g := by
    cases d with
    | rvd0 =>
      have hin : (s.mem.queue .rvd0).inFlight 0 = some p := (drive_reachable h).hw .rvd0 p hp
      obtain ⟨g, hg⟩ :=
        accounted_of_slot hshape howners hhandles (c := 0) (hshape.slots.coreCount .rvd0) hin
      exact ⟨p, g, (howners.home p (.inl (.inr (.inr ⟨0, hin⟩)))).1, hslot, hg⟩
    | rvd1 =>
      obtain ⟨q, hin, -, hslots, hcount⟩ := running_peer undisturbed_detach undisturbed_wait h hp
      obtain ⟨g, hg⟩ := accounted_of_slot hshape howners hhandles hcount hin
      exact ⟨q, g, (howners.home q (.inl (.inr (.inr ⟨1, hin⟩)))).1, hslots ▸ hslot, hg⟩
  obtain ⟨q, g, hlt, hmem, hg⟩ := hjob
  obtain ⟨hb, hcookie⟩ := Dense.bufLookup_mem hlook
  obtain rfl : f = g := (hhandles.slots q hlt g hg.owner slot hmem).2.2 f b (.inl hb) hcookie
  rw [hg.inUse slot hmem] at hidle
  exact Bool.noConfusion hidle

/-- The file has a second buffer, which no job uses. -/
abbrev spareRuns : List (Action Request) :=
  peerRuns ++ [.enter (.bufAlloc 0 16 16 (by decide)), .run 7 true]

theorem spareRuns_runs : (machine.run init spareRuns).isSome = true := by
  decide +kernel

abbrev spareBuffer : Sys := (machine.run init spareRuns).get spareRuns_runs

theorem free_spares_running_spare : spareBuffer.mem.hw .rvd1 = some 2 ∧
    (spareBuffer.mem.jobs 2).prog.iovaSlots = [⟨128, 0, 2⟩] ∧
    ∀ slot ∈ (spareBuffer.mem.jobs 2).prog.iovaSlots, slot.bufferHandle ≠ 3 := by
  have hhw : spareBuffer.mem.hw .rvd1 = some 2 := by
    decide +kernel
  obtain ⟨k', hfree⟩ := @enter_bufFree spareBuffer.mem 0 3 (by decide +kernel) (by decide +kernel)
    (by decide +kernel)
  exact ⟨hhw, by decide +kernel, free_spares_running (.of_get spareRuns_runs (by decide +kernel))
    hfree List.mem_cons_self .rvd1 2 hhw⟩

/-- The worker gives up on the job after 100 ms, which completes RVD0's; its file waits for it. -/
abbrev workerExpires : List (Action Request) :=
  peerRuns ++ [.run 6 true, .run 6 false, .run 6 true, .run 6 true, .run 6 true, .run 6 true,
    .enter (.wait 0 2 0), .run 7 true, .run 7 true]

theorem workerExpires_runs : (machine.run init workerExpires).isSome = true := by
  decide +kernel

/-- The buffer is freed although the codec of RVD1 still runs the job over it. -/
theorem expired_buffer_freed : ∃ s : Sys, Reachable .any s ∧ ∃ k',
    enter s.mem (.bufFree 0 2) = some (k', [], [.bufFreed 0 2]) ∧ s.mem.hw .rvd1 = some 2 ∧
    ∃ slot ∈ (s.mem.jobs 2).prog.iovaSlots, slot.bufferHandle = 2 := by
  refine ⟨_, .of_get workerExpires_runs (by decide +kernel), ?_⟩
  obtain ⟨k', hfree⟩ := @enter_bufFree ((machine.run init workerExpires).get workerExpires_runs).mem
    0 2 (by decide +kernel) (by decide +kernel) (by decide +kernel)
  exact ⟨k', hfree, by decide +kernel, by decide +kernel⟩

end Rkvdec.Dispatch
