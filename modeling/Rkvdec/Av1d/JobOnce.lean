import Rkvdec.Av1d.JobDrive
import Rkvdec.Lib.History

/-! What every run of the AV1 queue does with a job: it gets into `InFlight`, is started and is
completed once, in this order, and no other job gets into `InFlight` in between. -/
namespace Rkvdec.Av1d.JobQueue

open Lib Kernel
open Dispatch (File Ptr)

variable {k k' : Kernel} {F : Multiset Frame} {call : Frame} {calls : List Frame}
  {tr events : List Event} {r : Request} {good : Bool} {p : Ptr} {G : Guard} {s : Sys}

/-- What went before an event about the way of a job through `InFlight`: a job gets in when every
one before it is completed, and is started and then completed, each of it once. -/
def InTurn (pre : List Event) : Event → Prop
  | .launched q => .launched q ∉ pre ∧ ∀ p, .launched p ∈ pre → .completed p ∈ pre
  | .started p => .launched p ∈ pre ∧ .started p ∉ pre ∧ .completed p ∉ pre
  | .completed p => .started p ∈ pre ∧ .completed p ∉ pre
  | _ => True

abbrev OneAtATime (tr : List Event) : Prop := Each InTurn tr

/-- A request leaves the job in flight alone. -/
theorem Enters.still (h : Enters k r k' calls events) : (∀ e ∈ events, e.moves = false) ∧
    k'.queue.inFlight = k.queue.inFlight ∧ calls.flatMap Frame.starts = [] ∧
    k.nextPtr ≤ k'.nextPtr := by
  have hquiet : ∀ e ∈ events, e.moves = false := by
    intro e he
    rcases h.emits he with ⟨f, status, rfl⟩ | rfl | ⟨rfl, -⟩ | ⟨p, -, rfl⟩ <;> rfl
  induction h with
  | submit => exact ⟨hquiet, rfl, rfl, Nat.le_succ _⟩
  | _ => exact ⟨hquiet, rfl, rfl, le_rfl⟩

section Quiet

theorem of_moves {e : Event} (h : e ∈ tr ++ events) (hquiet : ∀ e ∈ events, e.moves = false)
    (he : e.moves = true) : e ∈ tr := by
  refine (List.mem_append.mp h).resolve_right fun hmem => ?_
  rw [hquiet e hmem] at he
  cases he

/-- An event of a step with one event about the way of a job. -/
theorem of_moving {e e₀ : Event} (h : e ∈ tr ++ e₀ :: events)
    (hquiet : ∀ e ∈ events, e.moves = false) (he : e.moves = true) (hne : e ≠ e₀) : e ∈ tr := by
  rw [List.append_cons] at h
  exact (List.mem_append.mp (of_moves h hquiet he)).resolve_right fun h =>
    hne (List.mem_singleton.mp h)

theorem each_quiet (pre : List Event) (hquiet : ∀ e ∈ events, e.moves = false) :
    Each (fun l => InTurn (pre ++ l)) events := by
  refine .of_forall fun e he _ => ?_
  have := hquiet e he
  cases e with
  | launched | started | completed => cases this
  | _ => trivial

/-- A step without an event about the way of a job. -/
theorem OneAtATime.quiet (h : OneAtATime tr) (hquiet : ∀ e ∈ events, e.moves = false) :
    OneAtATime (tr ++ events) :=
  each_append.mpr ⟨h, each_quiet tr hquiet⟩

/-- A step with one. -/
theorem OneAtATime.moving {e : Event} (h : OneAtATime tr) (he : InTurn tr e)
    (hquiet : ∀ e ∈ events, e.moves = false) : OneAtATime (tr ++ e :: events) := by
  refine each_append.mpr ⟨h, each_cons.mpr ⟨by rwa [List.append_nil], ?_⟩⟩
  simpa only [List.append_assoc, List.singleton_append] using each_quiet (tr ++ [e]) hquiet

end Quiet

/-- The trace says what is in flight and what was completed. -/
structure Traced (k : Kernel) (F : Multiset Frame) (tr : List Event) : Prop where
  running : ∀ p, .launched p ∈ tr → .completed p ∈ tr ∨ k.queue.inFlight = some p
  slot : ∀ p, k.queue.inFlight = some p → .launched p ∈ tr ∧
    (p ∈ gather Frame.starts F ∨ .started p ∈ tr)
  started : ∀ p, .started p ∈ tr → p ∉ gather Frame.starts F
  done : ∀ p, .completed p ∈ tr → (k.jobs p).done = true ∧ p < k.nextPtr
  once : OneAtATime tr

namespace Traced

/-- A job that is unfinished has not been completed. -/
theorem not_completed {F' : Multiset Frame} (h : Traced k F tr) (hidle : Idle k F')
    (hp : Unfinished k F' p) : .completed p ∉ tr := by
  intro hmem
  have := (h.done p hmem).1
  rw [hidle p hp] at this
  cases this

theorem launch (h : Traced k (call ::ₘ F) tr) (hidle : Idle k (call ::ₘ F))
    (hfree : k.queue.inFlight = none) (hp : Unfinished k (call ::ₘ F) p) :
    InTurn tr (.launched p) := by
  have hdone : ∀ q, .launched q ∈ tr → .completed q ∈ tr := by
    intro q hq
    refine (h.running q hq).resolve_right fun hslot => ?_
    rw [hfree] at hslot
    cases hslot
  exact ⟨fun hmem => h.not_completed hidle hp (hdone p hmem), hdone⟩

theorem start (h : Traced k (.jobStart p ::ₘ F) tr) (hidle : Idle k (.jobStart p ::ₘ F))
    (hdrive : Drive k (.jobStart p ::ₘ F)) : InTurn tr (.started p) := by
  have hstart : p ∈ gather Frame.starts (.jobStart p ::ₘ F) :=
    mem_gather_cons.mpr (.inl (List.mem_singleton_self p))
  have hslot := hdrive.starts p hstart
  exact ⟨(h.slot p hslot).1, fun hmem => h.started p hmem hstart,
    h.not_completed hidle (.inr (.inl hslot))⟩

theorem complete (h : Traced k (call ::ₘ F) tr) (hidle : Idle k (call ::ₘ F))
    (hdrive : Drive k (call ::ₘ F)) (hslot : k.queue.inFlight = some p)
    (hdrives : call.drives = true) (hbefore : call.starts = []) : InTurn tr (.completed p) := by
  refine ⟨(h.slot p hslot).2.resolve_left fun hstart => ?_,
    h.not_completed hidle (.inr (.inl hslot))⟩
  rw [mem_gather_cons, hbefore] at hstart
  have hsingle := hdrive.single
  rw [drivers_cons, hdrives, hslot, Option.toList_some, List.length_singleton,
    Bool.toNat_true] at hsingle
  have := drivers_of_starts (hstart.resolve_left List.not_mem_nil)
  omega

theorem runs (h : Traced k (call ::ₘ F) tr) (hledger : Ledger k (call ::ₘ F))
    (hdrive : Drive k (call ::ₘ F)) (hidle : Idle k (call ::ₘ F))
    (hrun : Runs k call good k' calls events) : Traced k' (↑calls + F) (tr ++ events) := by
  have hlt : ∀ p, .completed p ∈ tr → p < k'.nextPtr := fun p hp => by
    rw [hrun.nextPtr]
    exact (h.done p hp).2
  rcases hrun.moves (F := F) with ⟨hquiet, hslot, -, hfixed, -, hbefore, hafter⟩ |
    ⟨p, post, hquiet, rfl, hfree, hslot, -, hunfinished, hfixed, -, hafter⟩ |
    ⟨p, post, hquiet, rfl, rfl, hslot, -, hfixed, hafter⟩ |
    ⟨p, rfl, hslot, hempty, -, -, hdone, hdrives, -, hbefore, hafter⟩
  · refine ⟨fun p hp => ?_, fun p hp => ?_, fun p hp hq => ?_, fun p hp => ?_, h.once.quiet hquiet⟩
    · rw [hslot]
      exact (h.running p (of_moves hp hquiet rfl)).imp_left (List.mem_append_left _)
    · obtain ⟨hlaunched, hbegun⟩ := h.slot p (hslot ▸ hp)
      refine ⟨List.mem_append_left _ hlaunched, ?_⟩
      rw [mem_gather_cons, hbefore] at hbegun
      rcases hbegun with (hstart | hstart) | hstarted
      · cases hstart
      · exact .inl (mem_gather_coe_add.mpr (.inr hstart))
      · exact .inr (List.mem_append_left _ hstarted)
    · exact h.started p (of_moves hp hquiet rfl)
        (mem_gather_cons.mpr (.inr (gather_keep hafter ▸ hq)))
    · have hp := of_moves hp hquiet rfl
      rw [hfixed]
      exact ⟨(h.done p hp).1, hlt p hp⟩
  · have hold : ∀ e : Event, e.moves = true → e ≠ .launched p → e ∈ tr ++ .launched p :: post →
        e ∈ tr := fun e he hne hmem => of_moving hmem hquiet he hne
    have hnone : ∀ q, q ∉ gather Frame.starts F := by
      intro q hq
      have := drivers_of_starts hq
      have hidle := (hdrive.idle hfree).2
      rw [drivers_cons] at hidle
      omega
    have hturn := h.launch hidle hfree hunfinished
    refine ⟨fun q hq => ?_, fun q hq => ?_, fun q hq hstart => ?_, fun q hq => ?_,
      h.once.moving hturn hquiet⟩
    · by_cases hne : q = p
      · exact .inr (hne ▸ hslot)
      · have hq := hold _ rfl (fun heq => hne (Event.launched.inj heq)) hq
        exact .inl (List.mem_append_left _ (hturn.2 q hq))
    · obtain rfl := Option.some.inj (hslot.symm.trans hq)
      refine ⟨?_, .inl (mem_gather_coe_add.mpr (.inl ?_))⟩
      · simp
      · rw [hafter]
        exact List.mem_singleton_self p
    · have hbegun := hold _ rfl (by simp) hq
      rw [mem_gather_coe_add, hafter] at hstart
      obtain rfl := List.mem_singleton.mp (hstart.resolve_right (hnone q))
      -- what was started was launched before
      obtain ⟨pre, post, hsplit⟩ := List.append_of_mem hbegun
      have hlaunched := (h.once pre _ post hsplit).1
      rw [hsplit] at hturn
      exact hturn.1 (List.mem_append_left _ hlaunched)
    · have hq := hold _ rfl (by simp) hq
      rw [hfixed]
      exact ⟨(h.done q hq).1, hlt q hq⟩
  · have hold : ∀ e : Event, e.moves = true → e ≠ .started p →
        e ∈ tr ++ .started p :: post → e ∈ tr :=
      fun e he hne hmem => of_moving hmem hquiet he hne
    have hnone : ∀ q, q ∉ gather Frame.starts F := by
      intro q hq
      have := drivers_of_starts hq
      have hsingle := hdrive.single
      rw [drivers_cons] at hsingle
      have hle : k.queue.inFlight.toList.length ≤ 1 := by cases k.queue.inFlight <;> simp
      simp only [Frame.drives, Bool.toNat_true] at hsingle
      omega
    refine ⟨fun q hq => ?_, fun q hq => ?_, fun q hq hstart => ?_, fun q hq => ?_,
      h.once.moving (h.start hidle hdrive) hquiet⟩
    · rw [hslot]
      exact (h.running q (hold _ rfl (by simp) hq)).imp_left (List.mem_append_left _)
    · rw [hslot] at hq
      obtain ⟨hlaunched, hbegun⟩ := h.slot q hq
      refine ⟨List.mem_append_left _ hlaunched, .inr ?_⟩
      rcases hbegun with hstart | hstarted
      · rw [mem_gather_cons] at hstart
        obtain rfl := List.mem_singleton.mp (hstart.resolve_right (hnone q))
        simp
      · exact List.mem_append_left _ hstarted
    · exact hnone q (gather_keep hafter ▸ hstart)
    · have hq := hold _ rfl (by simp) hq
      rw [hfixed]
      exact ⟨(h.done q hq).1, hlt q hq⟩
  · have hold : ∀ e : Event, e.moves = true → e ≠ .completed p →
        e ∈ tr ++ [.completed p] → e ∈ tr :=
      fun e he hne hmem => of_moving hmem (by simp) he hne
    refine ⟨fun q hq => .inl ?_, fun q hq => ?_, fun q hq hstart => ?_, fun q hq => ?_,
      h.once.moving (h.complete hidle hdrive hslot hdrives hbefore) (by simp)⟩
    · rw [List.mem_append]
      rcases h.running q (hold _ rfl (by simp) hq) with hdone | hrunning
      · exact .inl hdone
      · obtain rfl := Option.some.inj (hslot.symm.trans hrunning)
        exact .inr (List.mem_singleton_self _)
    · rw [hempty] at hq
      cases hq
    · refine h.started q (hold _ rfl (by simp) hq) ?_
      exact mem_gather_cons.mpr (.inr (gather_keep hafter ▸ hstart))
    · rw [hdone]
      by_cases hne : q = p
      · subst hne
        rw [hrun.nextPtr]
        exact ⟨by simp, hledger.bound q (hledger.of_linked (linked_inFlight hslot)).1⟩
      · have hq := hold _ rfl (fun heq => hne (Event.completed.inj heq)) hq
        exact ⟨by simp [(h.done q hq).1], hlt q hq⟩

theorem enters (h : Traced k F tr) (hrun : Enters k r k' calls events) :
    Traced k' (↑calls + F) (tr ++ events) := by
  obtain ⟨hquiet, hslot, hstarts, hnext⟩ := hrun.still
  have hgather := gather_keep (F := F) hstarts
  refine ⟨fun p hp => ?_, fun p hp => ?_, fun p hp => ?_, fun p hp => ?_, h.once.quiet hquiet⟩
  · rw [hslot]
    exact (h.running p (of_moves hp hquiet rfl)).imp_left (List.mem_append_left _)
  · obtain ⟨hlaunched, hbegun⟩ := h.slot p (hslot ▸ hp)
    rw [hgather]
    exact ⟨List.mem_append_left _ hlaunched, hbegun.imp_right (List.mem_append_left _)⟩
  · rw [hgather]
    exact h.started p (of_moves hp hquiet rfl)
  · obtain ⟨hdone, hlt⟩ := h.done p (of_moves hp hquiet rfl)
    rw [hrun.done hlt.ne]
    exact ⟨hdone, hlt.trans_le hnext⟩

end Traced

theorem traced_init : Traced kernelInit 0 [] where
  running p hp := by cases hp
  slot p hp := by cases hp
  started p hp := by cases hp
  done p hp := by cases hp
  once := each_nil

theorem traced_reachable (h : Reachable G s) : Traced s.mem s.calls s.trace :=
  Reachable.invariant (I := fun k F _ => Ledger k F ∧ Drive k F ∧ Idle k F) (J := Traced)
    (fun _ hs => ⟨ledger_reachable hs, drive_reachable hs, idle_reachable hs⟩) traced_init
    (fun _ hj _ hrun => hj.enters hrun)
    (fun hi hj _ hrun => hj.runs hi.1 hi.2.1 hi.2.2 hrun) h

/-- The codec, the calls that start or complete a job and the trace all speak of the job in
flight. -/
structure Attributed (s : Sys) : Prop where
  once : OneAtATime s.trace
  single : s.mem.hw.toList.length + drivers s.calls ≤ s.mem.queue.inFlight.toList.length
  codec : ∀ p, s.mem.hw = some p → s.mem.queue.inFlight = some p

/-- In every run the AV1 core works on one job at a time, and what an interrupt completes is the job
the codec was kicked with. -/
theorem av1_jobs_attributed (h : Reachable .any s) : Attributed s where
  once := (traced_reachable h).once
  single := (drive_reachable h).single
  codec := (drive_reachable h).hw

/-- A job runs while the next one of its file waits, and both are started. -/
abbrev oneWaits : List (Action Request) :=
  .enter (.mapMmio 4096) :: submitBare 1 0 ++ [.run 1 true] ++ submitBare 2 0

/-- The first job is completed, and the worker starts the second. -/
abbrev workerFirst : List (Action Request) :=
  oneWaits ++ [.enter (.interrupt 0x1100)] ++ List.replicate 4 (.run 3 true) ++
    [.enter .startWorker, .run 4 true, .run 4 true]

theorem workerFirst_runs : (machine.run init workerFirst).isSome = true := by
  decide +kernel

theorem av1_jobs_attributed_two :
    ((machine.run init workerFirst).get workerFirst_runs).mem.hw = some 1 ∧
      Attributed ((machine.run init workerFirst).get workerFirst_runs) :=
  ⟨by decide +kernel, av1_jobs_attributed (.of_get workerFirst_runs (by decide +kernel))⟩

end Rkvdec.Av1d.JobQueue
