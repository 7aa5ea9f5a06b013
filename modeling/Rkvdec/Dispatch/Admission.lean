import Rkvdec.Dispatch.Places

/-! The admission caps. They are tested when a job is submitted and cover what a file has waiting
and in flight; afterwards jobs only leave. -/
namespace Rkvdec.Dispatch

open Lib Kernel

variable {k k' : Kernel} {F : Multiset Frame} {call : Frame} {calls : List Frame}
  {tr events : List Event} {r : Request} {good : Bool} {p : Ptr} {d : Dev} {f : File}

/-- The jobs that wait or are in flight on a core, attached or not. -/
def Queue.unfinished (q : Queue) : Multiset Ptr :=
  (q.pending : Multiset Ptr) + (q.inFlight 0).toList + (q.inFlight 1).toList

/-- How many of them are the file's. -/
def fileJobs (k : Kernel) (f : File) : Nat :=
  (k.queue .rvd0).unfinished.countP fun p => (k.jobs p).owner = some f

/-- The submit the admission test gets wrong: the peer is gone, its slot still holds a job of the
file, and the test sees one job less than the cap. -/
def Overlooked (k : Kernel) (f : File) : Prop :=
  (k.queue .rvd0).coreCount = 1 ∧
    (((k.queue .rvd0).inFlight 1).any fun p => (k.jobs p).owner = some f) = true ∧
    ownerCount k f + 1 = maxPendingJobsPerFile ∧ (k.queue .rvd0).pending.length < maxPendingJobs

instance (k : Kernel) (f : File) : Decidable (Overlooked k f) :=
  inferInstanceAs (Decidable (_ ∧ _))

/-- Runs in which no submit meets its file's job in the slot of a detached peer. -/
def counted : Guard where
  enter := fun _ _ _ => True
  exec := fun k call _ _ =>
    match call with
    | .submitEnqueue f _ => ¬ Overlooked k f
    | _ => True

instance (mem : Kernel) (F : Multiset Frame) (r : Request) : Decidable (counted.enter mem F r) :=
  inferInstanceAs (Decidable True)

instance (mem : Kernel) (call : Frame) (F : Multiset Frame) (good : Bool) :
    Decidable (counted.exec mem call F good) :=
  match call with
  | .submitEnqueue f _ => inferInstanceAs (Decidable (¬ Overlooked mem f))
  | .bufInsert .. | .kickPromotions .. | .rollback .. | .signal .. | .jobKickLocalInner ..
  | .kickTail .. | .jobComplete .. | .release .. | .enqueueKickWorker .. | .workItemEnqueue ..
  | .kickWorker .. | .evtDpc .. | .readJob .. | .takeResult .. | .jobRunForeign .. | .foreignWait ..
  | .foreignExpired .. | .foreignReap .. | .trampoline .. | .peerCompletion .. | .endWork ..
  | .waitDone .. | .waitExpired .. | .waitReap .. | .drainScan .. | .drainWait .. | .drainPost ..
  | .detachWait .. | .registerCompletion => inferInstanceAs (Decidable True)

/-- A queue after jobs have left it. -/
structure Queue.Shrinks (q q' : Queue) : Prop where
  pending : q'.pending.Sublist q.pending
  slots : ∀ c, q'.inFlight c = q.inFlight c ∨ q'.inFlight c = none

namespace Queue.Shrinks

variable {q q' : Queue}

theorem refl (q : Queue) : Shrinks q q := ⟨.refl _, fun _ => .inl rfl⟩

theorem setQueue {g : Queue → Queue} (h : Shrinks (k.queue d) (g (k.queue d))) :
    Shrinks (k.queue .rvd0) ((k.setQueue d g).queue .rvd0) := by
  cases d with
  | rvd0 => simpa using h
  | rvd1 => simpa using refl (k.queue .rvd0)

/-- Jobs leave `Pending`, the slots are as before. -/
theorem of_pending {l : List Ptr} (h : l.Sublist q.pending) : Shrinks q { q with pending := l } :=
  ⟨h, fun _ => .inl rfl⟩

theorem releaseSlot (q : Queue) (completed : List Ptr) (c : Core) :
    Shrinks q (Dispatch.releaseSlot { q with completed := completed } c) := by
  refine ⟨.refl _, fun c' => ?_⟩
  by_cases hc : c' = c
  · exact .inr (by simp [Dispatch.releaseSlot, hc])
  · exact .inl (by simp [Dispatch.releaseSlot, hc])

theorem toList_le (h : Shrinks q q') (c : Core) :
    ((q'.inFlight c).toList : Multiset Ptr) ≤ (q.inFlight c).toList := by
  rcases h.slots c with hc | hc <;> simp [hc]

theorem unfinished_le (h : Shrinks q q') : q'.unfinished ≤ q.unfinished :=
  add_le_add (add_le_add (Multiset.coe_le.mpr h.pending.subperm) (h.toList_le 0)) (h.toList_le 1)

end Queue.Shrinks

open Queue (Shrinks)

/-- Every job waiting or in flight counts once. -/
structure Caps (k : Kernel) (F : Multiset Frame) : Prop where
  pending : (k.queue .rvd0).pending.length ≤ maxPendingJobs
  file : ∀ f, fileJobs k f ≤ maxPendingJobsPerFile
  owner : ∀ f p, .submitEnqueue f p ∈ F → (k.jobs p).owner = some f

theorem mem_unfinished (hp : p ∈ (k.queue .rvd0).unfinished) : ∃ a : Place, p ∈ a.jobs k F := by
  simp only [Queue.unfinished, Multiset.mem_add] at hp
  rcases hp with (hp | hp) | hp
  · exact ⟨.pending, hp⟩
  · exact ⟨.own, hp⟩
  · exact ⟨.peer, hp⟩

theorem owner_of_fixed {k k' : Kernel} (h : (k'.jobs p).fixed = (k.jobs p).fixed) :
    (k'.jobs p).owner = (k.jobs p).owner :=
  congrArg (fun x => x.2.1) h

theorem fileJobs_le (hle : (k'.queue .rvd0).unfinished ≤ (k.queue .rvd0).unfinished)
    (howner : ∀ p ∈ (k.queue .rvd0).unfinished, (k'.jobs p).owner = (k.jobs p).owner) (f : File) :
    fileJobs k' f ≤ fileJobs k f := by
  refine le_trans (Multiset.countP_le_of_le _ hle) (le_of_eq ?_)
  exact Multiset.countP_congr rfl fun p hp => by rw [howner p hp]

/-- A section that promotes nothing only takes jobs out. -/
theorem Runs.shrinks (h : Runs k call good k' calls events) (hcall : call.promotes = false) :
    Shrinks (k.queue .rvd0) (k'.queue .rvd0) := by
  cases h with
  | submitBusy | submitEnqueue | kickWorker | workerExit => simp [Frame.promotes] at hcall
  | rollback => exact .setQueue (.releaseSlot _ _ _)
  | rollbackLost | enqueueKickWorker | foreignReap =>
    exact .setQueue ⟨.refl _, fun _ => .inl rfl⟩
  | completeOrphan | complete | peerCompletion =>
    exact Shrinks.setQueue (k := k.setJob _ _) (.releaseSlot _ _ _)
  | foreignBusy | foreignRun => simpa using Shrinks.refl (k.queue .rvd0)
  | waitExpiredPending =>
    exact Shrinks.setQueue (k := k.setJob _ _) (.of_pending List.erase_sublist)
  | waitExpiredCompleted | waitReap =>
    exact Shrinks.setQueue (k := k.setJob _ _) ⟨.refl _, fun _ => .inl rfl⟩
  | drainPost => constructor <;> simp
  | _ => exact .refl _

/-- Only a SUBMIT starts the submission of a job. -/
theorem Runs.submits (h : Runs k call good k' calls events) : .submitEnqueue f p ∉ calls := by
  cases h with
  | _ => simp

namespace Caps

variable {F' : Multiset Frame}

theorem mono (h : Caps k F) (hle : (k'.queue .rvd0).unfinished ≤ (k.queue .rvd0).unfinished)
    (hpending : (k'.queue .rvd0).pending.length ≤ (k.queue .rvd0).pending.length)
    (howner : ∀ p ∈ (k.queue .rvd0).unfinished, (k'.jobs p).owner = (k.jobs p).owner)
    (hcalls : ∀ f p, .submitEnqueue f p ∈ F' →
      .submitEnqueue f p ∈ F ∧ (k'.jobs p).owner = (k.jobs p).owner) : Caps k' F' := by
  refine ⟨hpending.trans h.pending, fun f => ?_, fun f p hp => ?_⟩
  · exact (fileJobs_le hle howner f).trans (h.file f)
  · obtain ⟨hF, hown⟩ := hcalls f p hp
    rw [hown]
    exact h.owner f p hF

/-- A section that admits no job keeps the caps. -/
theorem step (h : Caps k (call ::ₘ F)) (hshape : Shape k (call ::ₘ F) tr)
    (hrun : Runs k call good k' calls events)
    (hle : (k'.queue .rvd0).unfinished ≤ (k.queue .rvd0).unfinished)
    (hpending : (k'.queue .rvd0).pending.length ≤ (k.queue .rvd0).pending.length)
    (hcalls : ∀ f p, .submitEnqueue f p ∉ calls) : Caps k' (↑calls + F) := by
  refine h.mono hle hpending (fun p hp => ?_) (fun f p hp => ?_)
  · obtain ⟨a, ha⟩ := mem_unfinished (F := call ::ₘ F) hp
    exact owner_of_fixed (hrun.fixed (place_bound hshape ha))
  · have hF : .submitEnqueue f p ∈ F := by
      rcases Multiset.mem_add.mp hp with hp | hp
      · exact absurd (by simpa using hp) (hcalls f p)
      · exact hp
    have hheld : p ∈ Place.held.jobs k (call ::ₘ F) :=
      mem_gather.mpr ⟨_, Multiset.mem_cons_of_mem hF, by simp [Frame.owns]⟩
    exact ⟨Multiset.mem_cons_of_mem hF, owner_of_fixed (hrun.fixed (place_bound hshape hheld))⟩

end Caps

/-- A promotion takes the job from `Pending` to a slot; whatever the slot held is gone. -/
theorem promote_unfinished {c : Core} (hp : p ∈ (k.queue .rvd0).pending) :
    ((k.promote .rvd0 p c).queue .rvd0).unfinished ≤ (k.queue .rvd0).unfinished := by
  have herase := coe_erase_add hp
  simp only [Queue.unfinished, promote_queue, Promoting.promote, Function.update_self]
  rw [← herase]
  rcases core_cases c with rfl | rfl
  · simp only [Function.update_self, ne_eq, Fin.isValue, one_ne_zero, not_false_eq_true,
      Function.update_of_ne, Option.toList_some, Multiset.coe_singleton]
    exact add_le_add_left (Multiset.le_add_right _ _) _
  · simp only [Function.update_self, ne_eq, Fin.isValue, zero_ne_one, not_false_eq_true,
      Function.update_of_ne, Option.toList_some, Multiset.coe_singleton]
    rw [add_right_comm]
    exact Multiset.le_add_right _ _

/-- The loop of `PromoteUntilFull` makes nothing of nothing. -/
theorem promoted_unfinished (d : Dev) :
    ((k.promoted d).queue .rvd0).unfinished ≤ (k.queue .rvd0).unfinished ∧
    ((k.promoted d).queue .rvd0).pending.length ≤ (k.queue .rvd0).pending.length := by
  refine promoted_inv (I := fun k' _ =>
    (k'.queue .rvd0).unfinished ≤ (k.queue .rvd0).unfinished ∧
    (k'.queue .rvd0).pending.length ≤ (k.queue .rvd0).pending.length) ⟨le_rfl, le_rfl⟩ ?_
  rintro k' out p c - hpick ⟨hle, hlen⟩
  cases d with
  | rvd0 =>
    have hp := Queue.pickPendingByOwnerLru_mem hpick
    refine ⟨(promote_unfinished hp).trans hle, ?_⟩
    simp only [promote_queue, Promoting.promote, Function.update_self]
    exact (List.length_erase_le).trans hlen
  | rvd1 =>
    simp only [promote_queue, ne_eq, reduceCtorEq, not_false_eq_true, Function.update_of_ne]
    exact ⟨hle, hlen⟩

section Insert

/-- The cap test counts what is attached; a detached peer's slot is left out. -/
theorem fileJobs_eq (hcount : 1 ≤ (k.queue .rvd0).coreCount) :
    fileJobs k f = ownerCount k f + if (k.queue .rvd0).coreCount = 1 then
      ((k.queue .rvd0).inFlight 1).toList.countP fun p => (k.jobs p).owner = some f else 0 := by
  simp only [fileJobs, Queue.unfinished, Multiset.countP_add, Multiset.coe_countP, ownerCount,
    Kernel.inFlight, Queue.cores]
  by_cases hone : (k.queue .rvd0).coreCount = 1
  · cases h0 : (k.queue .rvd0).inFlight 0 with
    | none => simp [hone, h0]
    | some q =>
      simp [hone, h0]
      omega
  · have hcores : [(0 : Core), 1].filter (fun c => c.val < (k.queue .rvd0).coreCount) = [0, 1] := by
      have htwo : 1 < (k.queue .rvd0).coreCount := by omega
      simp [htwo, Nat.lt_of_succ_lt htwo]
    rw [hcores]
    cases h0 : (k.queue .rvd0).inFlight 0 <;> cases h1 : (k.queue .rvd0).inFlight 1 <;>
      simp [hone, h0, h1, List.countP_cons] <;> omega

/-- What the test admits is below the cap. -/
theorem fileJobs_lt (hcount : 1 ≤ (k.queue .rvd0).coreCount) (hguard : ¬ Overlooked k f)
    (hpending : (k.queue .rvd0).pending.length < maxPendingJobs)
    (hroom : ownerCount k f < maxPendingJobsPerFile) : fileJobs k f < maxPendingJobsPerFile := by
  rw [fileJobs_eq hcount]
  split
  · rename_i hone
    cases hslot : (k.queue .rvd0).inFlight 1 with
    | none => simpa using hroom
    | some q =>
      by_cases howner : (k.jobs q).owner = some f
      · have hfew : ownerCount k f + 1 ≠ maxPendingJobsPerFile :=
          fun heq => hguard ⟨hone, by simp [hslot, howner], heq, hpending⟩
        simp only [Option.toList_some, List.countP_singleton, howner, decide_true, if_true]
        omega
      · simpa [howner] using hroom
  · simpa using hroom

theorem fileJobs_insert (f g : File) (hp : (k.jobs p).owner = some f) :
    fileJobs (k.pend p) g = fileJobs k g + if g = f then 1 else 0 := by
  simp only [fileJobs, Queue.unfinished, setQueue_queue, Function.update_self, setQueue_jobs,
    Multiset.countP_add, Multiset.coe_countP, List.countP_append, List.countP_singleton, hp,
    Option.some.injEq, decide_eq_true_eq]
  simp only [eq_comm (a := f)]
  omega

end Insert

namespace Caps

theorem insert (h : Caps k (.submitEnqueue f p ::ₘ F))
    (hcount : 1 ≤ (k.queue .rvd0).coreCount) (hguard : ¬ Overlooked k f)
    (hroom : ¬ (maxPendingJobs ≤ (k.queue .rvd0).pending.length ∨
      maxPendingJobsPerFile ≤ ownerCount k f)) :
    Caps (k.pend p) F := by
  push Not at hroom
  have howner := h.owner f p (Multiset.mem_cons_self _ _)
  refine ⟨?_, fun g => ?_, fun g q hq => ?_⟩
  · simpa using hroom.1
  · rw [fileJobs_insert f g howner]
    split
    · rename_i hg
      subst hg
      exact fileJobs_lt hcount hguard hroom.1 hroom.2
    · exact h.file g
  · exact h.owner g q (Multiset.mem_cons_of_mem hq)

theorem promoted (h : Caps k F) (d : Dev) : Caps (k.promoted d) F := by
  obtain ⟨hle, hlen⟩ := promoted_unfinished (k := k) d
  exact h.mono hle hlen (fun p _ => owner_of_fixed (promoted_fixed d p))
    (fun f p hp => ⟨hp, owner_of_fixed (promoted_fixed d p)⟩)

theorem spawn (h : Caps k F) (hcalls : ∀ f p, .submitEnqueue f p ∉ calls) :
    Caps k (↑calls + F) := by
  refine h.mono le_rfl le_rfl (fun _ _ => rfl) (fun f p hp => ⟨?_, rfl⟩)
  rcases Multiset.mem_add.mp hp with hp | hp
  · exact absurd (by simpa using hp) (hcalls f p)
  · exact hp

theorem disarm (h : Caps k (.kickWorker d ::ₘ F)) :
    Caps (k.disarm d) F := by
  have hq : Shrinks (k.queue .rvd0) ((k.disarm d).queue .rvd0) :=
    .setQueue ⟨.refl _, fun _ => .inl rfl⟩
  exact h.mono hq.unfinished_le hq.pending.length_le (fun _ _ => rfl)
    (fun _ _ hp => ⟨Multiset.mem_cons_of_mem hp, rfl⟩)

theorem runs (h : Caps k (call ::ₘ F)) (hshape : Shape k (call ::ₘ F) tr)
    (hguard : counted.exec k call F good) (hrun : Runs k call good k' calls events) :
    Caps k' (↑calls + F) := by
  have hstep := hrun
  have shrink : Shrinks (k.queue .rvd0) (k'.queue .rvd0) → Caps k' (↑calls + F) :=
    fun hq => h.step hshape hstep hq.unfinished_le hq.pending.length_le fun _ _ => hstep.submits
  cases hrun with
  | submitEnqueue room =>
    have hin := (h.insert (hshape.slots.coreCount _) hguard room).promoted .rvd0
    exact Caps.spawn (hin.mono le_rfl le_rfl (fun _ _ => rfl) fun _ _ hp => ⟨hp, rfl⟩) (by simp)
  | @kickWorker d => exact (h.disarm.promoted d).spawn (by simp)
  | submitBusy => exact shrink (.refl _)
  | workerExit => exact shrink (.setQueue ⟨.refl _, fun _ => .inl rfl⟩)
  | _ => exact shrink (hstep.shrinks rfl)

/-- A request admits no job by itself. -/
theorem enters (h : Caps k F) (hshape : Shape k F tr) (hrun : Enters k r k' calls events) :
    Caps k' (↑calls + F) := by
  have hfresh : ∀ p, p ∈ (k.queue .rvd0).unfinished ∨ p ∈ owned F →
      (k'.jobs p).owner = (k.jobs p).owner := by
    rintro p (hp | hp)
    · obtain ⟨a, ha⟩ := mem_unfinished (F := F) hp
      exact owner_of_fixed (hrun.fixed (place_bound hshape ha))
    · exact owner_of_fixed (hrun.fixed (place_bound (a := .held) hshape hp))
  have hheld : ∀ f p, .submitEnqueue f p ∈ F → p ∈ owned F :=
    fun f p hp => mem_gather.mpr ⟨_, hp, by simp [Frame.owns]⟩
  have shrink : Shrinks (k.queue .rvd0) (k'.queue .rvd0) →
      (∀ f p, .submitEnqueue f p ∈ calls → (k'.jobs p).owner = some f) → Caps k' (↑calls + F) := by
    intro hq hcalls
    refine ⟨hq.pending.length_le.trans h.pending, fun f => ?_, fun f p hp => ?_⟩
    · exact (fileJobs_le hq.unfinished_le (fun p hp => hfresh p (.inl hp)) f).trans (h.file f)
    · rcases Multiset.mem_add.mp hp with hp | hp
      · exact hcalls f p (by simpa using hp)
      · rw [hfresh p (.inr (hheld f p hp))]
        exact h.owner f p hp
  cases hrun with
  | submit lock ok fresh =>
    refine shrink ⟨by simp, by simp⟩ ?_
    simp [submitJob]
  | waitTake | peerArrival =>
    exact shrink (.setQueue ⟨.refl _, fun _ => .inl rfl⟩) (by simp)
  | drainOwner =>
    exact shrink (.setQueue ⟨List.filter_sublist, fun _ => .inl rfl⟩) (by simp)
  | detachPeer waits =>
    refine shrink (.setQueue ⟨.refl _, fun _ => .inl rfl⟩) ?_
    obtain rfl | ⟨q, -, rfl⟩ := waits <;> simp
  | _ => exact shrink (.refl _) (by simp)

end Caps

theorem caps_init : Caps kernelInit 0 where
  pending := by simp [kernelInit, jobQueueInit]
  file := by simp [fileJobs, Queue.unfinished, kernelInit, jobQueueInit]
  owner := by simp

theorem caps_reachable {s : Sys} (h : Reachable counted s) : Caps s.mem s.calls :=
  h.invariant (I := Shape) (J := fun k F _ => Caps k F) (fun _ hs => shape_reachable hs) caps_init
    (fun hshape hcaps _ hrun => hcaps.enters hshape hrun)
    (fun hshape hcaps hguard hrun => hcaps.runs hshape hguard hrun)

/-- No queue has gained or lost a job. -/
def SameJobs (k k' : Kernel) : Prop :=
  ∀ d, (k'.queue d).pending = (k.queue d).pending ∧ (k'.queue d).completed = (k.queue d).completed ∧
    (k'.queue d).inFlight = (k.queue d).inFlight

/-- A refused submit touches no queue: neither while it resolves its handles, nor when the admission
test refuses it, nor when it frees its job. -/
structure RefusalsSilent (k : Kernel) : Prop where
  resolve : ∀ {f input allocOk k' calls events},
    enter k (.submit f input allocOk) = some (k', calls, events) → SameJobs k k'
  busy : ∀ {f p good k' calls events status},
    exec k (.submitEnqueue f p) good = some (.next k' calls events) → .refused f status ∈ events →
      SameJobs k k' ∧ calls = [.release [(p, .jppM)]]
  free : ∀ {jobs good k' calls events},
    exec k (.release jobs) good = some (.next k' calls events) → SameJobs k k'

theorem refused_events (s : Promoting) (status : NtStatus) : .refused f status ∉ s.events := by
  intro h
  obtain ⟨p, c, waiting, heq⟩ := s.mem_events h
  cases heq

theorem refusalsSilent (k : Kernel) : RefusalsSilent k where
  resolve := by
    intro f input allocOk k' calls events henter
    cases enter_enters henter with
    | submitRefused => exact fun _ => ⟨rfl, rfl, rfl⟩
    | submit lock ok fresh =>
      intro d
      cases d <;> simp
  busy := by
    intro f p good k' calls events status hexec hmem
    cases exec_runs hexec with
    | submitBusy => exact ⟨fun _ => ⟨rfl, rfl, rfl⟩, rfl⟩
    | submitEnqueue room =>
      rcases List.mem_cons.mp hmem with heq | hmem
      · cases heq
      · exact absurd hmem (refused_events _ _)
  free := by
    intro jobs good k' calls events hexec
    cases exec_runs hexec with
    | releaseDone | release => exact fun _ => ⟨rfl, rfl, rfl⟩

/-- The caps, in every run whose submits never meet their file's job in the slot of a detached
peer. -/
theorem admission_caps {s : Sys} (h : Reachable counted s) :
    (s.mem.queue .rvd0).pending.length ≤ maxPendingJobs ∧
    (∀ f, fileJobs s.mem f ≤ maxPendingJobsPerFile) ∧ RefusalsSilent s.mem :=
  have hcaps := caps_reachable h
  ⟨hcaps.pending, hcaps.file, refusalsSilent s.mem⟩

/-- One file submits up to its cap on two cores; the fifth job is refused. -/
abbrev fillUp : List (Action Request) :=
  [.enter .peerArrival, .run 0 true] ++ submitBare 1 0 ++ submitBare 2 0 ++ submitBare 3 0 ++
    submitBare 4 0 ++ submitBare 5 0

theorem fillUp_runs : (machine.run init fillUp).isSome = true := by
  decide +kernel

/-- The state it ends in. -/
abbrev filledUp : Sys := (machine.run init fillUp).get fillUp_runs

theorem admission_caps_filled : fileJobs filledUp.mem 0 = maxPendingJobsPerFile ∧
    (filledUp.mem.queue .rvd0).pending.length ≤ maxPendingJobs ∧
    (∀ f, fileJobs filledUp.mem f ≤ maxPendingJobsPerFile) ∧ RefusalsSilent filledUp.mem :=
  ⟨by decide +kernel, admission_caps (.of_get fillUp_runs (by decide +kernel))⟩

/-- With a job in each slot the peer is detached; three more submits are admitted. -/
abbrev detachFull : List (Action Request) :=
  [.enter .peerArrival, .run 0 true] ++ submitBare 1 0 ++ submitBare 2 0 ++ [.enter .detachPeer] ++
    submitBare 4 0 ++ submitBare 5 0 ++ submitBare 6 0

theorem detachFull_runs : (machine.run init detachFull).isSome = true := by
  decide +kernel

theorem fifth_job_admitted :
    ∃ s : Sys, Reachable .any s ∧ ¬ ∀ f, fileJobs s.mem f ≤ maxPendingJobsPerFile := by
  refine ⟨_, .of_get detachFull_runs (by decide +kernel), fun hcap => ?_⟩
  have hfive : fileJobs ((machine.run init detachFull).get detachFull_runs).mem 0 = 5 := by
    decide +kernel
  have := hcap 0
  rw [hfive] at this
  exact absurd this (by decide)

end Rkvdec.Dispatch
