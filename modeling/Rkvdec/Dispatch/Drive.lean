import Rkvdec.Dispatch.Effects
import Rkvdec.Dispatch.Steps

/-! What a job is never changes, and the own core of a device has one driver: the kick still to be
made, the running codec, or the completion on its way. -/
namespace Rkvdec.Dispatch

open Lib Kernel

variable {k k' : Kernel} {F : Multiset Frame} {call : Frame} {calls : List Frame}
  {tr events : List Event} {r : Request} {good : Bool} {p : Ptr} {d : Dev}

/-- The fields of a job nothing stores into after its allocation. -/
def Job.fixed (j : Job) : Nat × Option File × PoolTag × Dense.Program :=
  (j.id, j.owner, j.tag, j.prog)

section Fixed

variable {α : Type} (π : Job → α)

/-- A projection of the jobs that a store leaves alone. -/
theorem setJob_proj {g : Job → Job} (q : Ptr) (hg : π (g (k.jobs q)) = π (k.jobs q)) :
    π ((k.setJob q g).jobs p) = π (k.jobs p) := by
  by_cases hq : p = q
  · subst hq
    simpa using hg
  · simp [hq]

/-- A promotion stores the core of the job. -/
theorem promoted_proj (hπ : ∀ j c, π { j with targetCore := c } = π j) (d : Dev) :
    π ((k.promoted d).jobs p) = π (k.jobs p) := by
  refine promoted_inv (I := fun k' _ => π (k'.jobs p) = π (k.jobs p)) rfl ?_
  intro k' out q c _ _ hk'
  rw [← hk']
  by_cases hq : p = q
  · subst hq
    simp [Promoting.promote, hπ]
  · simp [Promoting.promote, hq]

theorem unpinned_proj (hpin : ∀ j n, π (addPin n j) = π j)
    (hmark : ∀ j, π { j with orphanOnComplete := true } = π j) (f : File) (q : Ptr)
    (timedOut : Bool) : π ((unpinned k f q timedOut).jobs p) = π (k.jobs p) := by
  have hset : π ((k.setJob q (addPin (-1))).jobs p) = π (k.jobs p) := setJob_proj π q (hpin _ _)
  cases timedOut with
  | false => exact hset
  | true =>
    rw [← hset]
    simp only [unpinned, if_true, markOrphans]
    split
    · exact hmark _
    · rfl

theorem promoted_fixed (d : Dev) (p : Ptr) :
    ((k.promoted d).jobs p).fixed = (k.jobs p).fixed :=
  promoted_proj Job.fixed (fun _ _ => rfl) d

theorem setJob_fixed {g : Job → Job} (q : Ptr) (hg : (g (k.jobs q)).fixed = (k.jobs q).fixed) :
    ((k.setJob q g).jobs p).fixed = (k.jobs p).fixed :=
  setJob_proj Job.fixed q hg

theorem unpinned_fixed (f : File) (q : Ptr) (timedOut : Bool) :
    ((unpinned k f q timedOut).jobs p).fixed = (k.jobs p).fixed :=
  unpinned_proj Job.fixed (fun _ _ => rfl) (fun _ => rfl) f q timedOut

theorem Runs.fixed (h : Runs k call good k' calls events) (hp : p ≠ k.nextPtr) :
    (k'.jobs p).fixed = (k.jobs p).fixed := by
  cases h with
  | submitEnqueue | kickWorker => exact promoted_fixed _ _
  | completeOrphan | complete | peerCompletion =>
    rw [setQueue_jobs]
    exact setJob_fixed _ rfl
  | foreignBusy | foreignRun => simp [hp]
  | waitExpiredInFlight => exact (setJob_fixed _ rfl).trans (setJob_fixed _ rfl)
  | drainPost => exact unpinned_fixed _ _ _
  | _ => first | rfl | exact setJob_fixed _ rfl

theorem Enters.fixed (h : Enters k r k' calls events) (hp : p ≠ k.nextPtr) :
    (k'.jobs p).fixed = (k.jobs p).fixed := by
  cases h with
  | submit => simp [hp]
  | _ => first | rfl | exact setJob_fixed _ rfl

end Fixed

namespace Frame

/-- The devices whose own core the call is about to kick or to complete. -/
def drives : Frame → List Dev
  | .kickPromotions d promos => (promos.filter fun pr => pr.core = 0).map fun _ => d
  | .jobKickLocalInner d _ => [d]
  | .evtDpc d _ => [d]
  | .jobComplete d _ _ => [d]
  | _ => []

/-- The kicks among them. -/
def kicks : Frame → List (Dev × Ptr)
  | .kickPromotions d promos => (promos.filter fun pr => pr.core = 0).map fun pr => (d, pr.job)
  | .jobKickLocalInner d p => [(d, p)]
  | _ => []

/-- The peer kick the call is about to run. -/
def kickWork : Frame → List KickWork
  | .jobRunForeign w => [w]
  | _ => []

end Frame

attribute [local simp] Frame.drives Frame.kicks Frame.kickWork

/-- The kick bit is set, so that the codec will report the job done. -/
def Kickable (kickValue : BitVec 32) : Prop := kickValue &&& Dense.decEBit ≠ 0

/-- One driver for the own core of each device, and a job in the slot for as long as there is
one. -/
structure Drive (k : Kernel) (F : Multiset Frame) : Prop where
  one : ∀ d, (gather Frame.drives F).count d + (k.hw d).toList.length ≤
    ((k.queue d).inFlight 0).toList.length
  kicks : ∀ d p, (d, p) ∈ gather Frame.kicks F → (k.queue d).inFlight 0 = some p
  hw : ∀ d p, k.hw d = some p → (k.queue d).inFlight 0 = some p
  jobs : ∀ p, k.alive p = true → Kickable (k.jobs p).prog.kickValue
  work : ∀ w ∈ k.work, Kickable w.kickValue
  foreign : ∀ w ∈ gather Frame.kickWork F, Kickable w.kickValue

section Promotions

variable {out : List Promotion}

@[simp] theorem drives_append_own :
    (Frame.kickPromotions d (out ++ [⟨p, 0⟩])).drives =
    (Frame.kickPromotions d out).drives ++ [d] := by
  simp

@[simp] theorem kicks_append_own :
    (Frame.kickPromotions d (out ++ [⟨p, 0⟩])).kicks =
      (Frame.kickPromotions d out).kicks ++ [(d, p)] := by
  simp

@[simp] theorem drives_append_peer :
    (Frame.kickPromotions d (out ++ [⟨p, 1⟩])).drives = (Frame.kickPromotions d out).drives := by
  simp

@[simp] theorem kicks_append_peer :
    (Frame.kickPromotions d (out ++ [⟨p, 1⟩])).kicks = (Frame.kickPromotions d out).kicks := by
  simp

end Promotions

theorem Frame.drives_of_kicks (h : (d, p) ∈ call.kicks) : d ∈ call.drives := by
  cases call with
  | kickPromotions d' promos =>
    obtain ⟨pr, hpr, heq⟩ := List.mem_map.mp h
    cases heq
    exact List.mem_map.mpr ⟨pr, hpr, rfl⟩
  | jobKickLocalInner d' p' => simp_all
  | _ => simp at h

theorem drives_of_kicks (h : (d, p) ∈ gather Frame.kicks F) : d ∈ gather Frame.drives F := by
  obtain ⟨call, hcall, hp⟩ := mem_gather.mp h
  exact mem_gather.mpr ⟨call, hcall, Frame.drives_of_kicks hp⟩

namespace Drive

theorem count_coe_add : (gather Frame.drives (↑calls + F)).count d =
    (calls.flatMap Frame.drives).count d + (gather Frame.drives F).count d := by
  simp [gather_coe_add]

theorem count_cons : (gather Frame.drives (call ::ₘ F)).count d =
    call.drives.count d + (gather Frame.drives F).count d := by
  simp

/-- While a call drives the core of `d`, nothing else does. -/
theorem alone (h : Drive k (call ::ₘ F)) (hcall : d ∈ call.drives) :
    d ∉ gather Frame.drives F ∧ k.hw d = none ∧ ∃ p, (k.queue d).inFlight 0 = some p := by
  have hone := h.one d
  have hpos : 0 < call.drives.count d := List.count_pos_iff.mpr hcall
  have hslot : ((k.queue d).inFlight 0).toList.length ≤ 1 := by
    cases (k.queue d).inFlight 0 <;> simp
  rw [count_cons] at hone
  refine ⟨Multiset.count_eq_zero.mp (by omega), ?_, ?_⟩
  · cases hhw : k.hw d with
    | none => rfl
    | some p =>
      simp only [hhw, Option.toList_some, List.length_singleton] at hone
      omega
  · cases hp : (k.queue d).inFlight 0 with
    | none =>
      simp only [hp, Option.toList_none, List.length_nil] at hone
      omega
    | some p => exact ⟨p, rfl⟩

/-- A step that leaves the own cores alone and takes on no new driver. -/
theorem mono {F' : Multiset Frame} (h : Drive k F)
    (hslot : ∀ d, (k'.queue d).inFlight 0 = (k.queue d).inFlight 0 := by
      first | exact fun _ => rfl | exact setQueue_proj (·.inFlight 0) rfl)
    (hhw : k'.hw = k.hw := by rfl)
    (hjobs : ∀ p, k'.alive p = true → k.alive p = true ∧ (k'.jobs p).prog = (k.jobs p).prog := by
      exact fun _ hp => ⟨hp, rfl⟩) (hwork : k'.work = k.work := by rfl)
    (hdrives : ∀ d, (gather Frame.drives F').count d ≤ (gather Frame.drives F).count d := by simp)
    (hkicks : ∀ x ∈ gather Frame.kicks F', x ∈ gather Frame.kicks F := by simp)
    (hforeign : ∀ w ∈ gather Frame.kickWork F', w ∈ gather Frame.kickWork F := by simp) :
    Drive k' F' where
  one d := by
    rw [hslot, hhw]
    exact (Nat.add_le_add_right (hdrives d) _).trans (h.one d)
  kicks d p hp := by
    rw [hslot]
    exact h.kicks d p (hkicks _ hp)
  hw d p hp := by
    rw [hhw] at hp
    rw [hslot]
    exact h.hw d p hp
  jobs p hp := by
    obtain ⟨hold, hprog⟩ := hjobs p hp
    rw [hprog]
    exact h.jobs p hold
  work w hw := h.work w (hwork ▸ hw)
  foreign w hw := h.foreign w (hforeign w hw)

/-- A section that leaves the own cores alone and takes on no new driver. -/
theorem quiet (h : Drive k (call ::ₘ F)) (hshape : Shape k (call ::ₘ F) tr)
    (hrun : Runs k call good k' calls events)
    (hslot : ∀ d, (k'.queue d).inFlight 0 = (k.queue d).inFlight 0 := by
      first | exact fun _ => rfl | exact setQueue_proj (·.inFlight 0) (by simp))
    (halive : ∀ p, k'.alive p = true → k.alive p = true := by exact fun _ hp => hp)
    (hdrives : calls.flatMap Frame.drives = call.drives := by simp)
    (hkicks : ∀ x ∈ calls.flatMap Frame.kicks, x ∈ call.kicks := by simp)
    (hforeign : calls.flatMap Frame.kickWork = [] := by simp) (hhw : k'.hw = k.hw := by rfl)
    (hwork : k'.work = k.work := by rfl) : Drive k' (↑calls + F) := by
  refine h.mono hslot hhw (fun p hp => ⟨halive p hp, ?_⟩) hwork (fun d => ?_) (fun x hx => ?_)
    (fun w hw => ?_)
  · have := hrun.fixed (hshape.ledger.bound p (halive p hp)).ne
    exact congrArg (fun x => x.2.2.2) this
  · rw [count_coe_add, count_cons, hdrives]
  · rw [mem_gather_coe_add] at hx
    rw [mem_gather_cons]
    exact hx.imp_left (hkicks x)
  · rw [gather_keep hforeign] at hw
    rw [mem_gather_cons]
    exact .inr hw

variable {out : List Promotion} {c : Core}

theorem promote (h : Drive k (.kickPromotions d out ::ₘ F)) (hslots : Slots k)
    (hcore : (k.queue d).pickTargetCore = some c) :
    Drive (k.promote d p c) (.kickPromotions d (out ++ [⟨p, c⟩]) ::ₘ F) := by
  have hprog : ∀ q, ((k.promote d p c).jobs q).prog = (k.jobs q).prog := by
    intro q
    by_cases hq : q = p
    · subst hq
      simp [Promoting.promote]
    · simp [Promoting.promote, hq]
  rcases core_cases c with rfl | rfl
  · have hnone : (k.queue d).inFlight 0 = none :=
      (hslots.idle d).mp (Queue.pickTargetCore_spec hcore).2
    have hzero := h.one d
    rw [hnone, count_cons] at hzero
    simp only [Option.toList_none, List.length_nil, Nat.le_zero, Nat.add_eq_zero_iff] at hzero
    have hne : ∀ d' q, (k.queue d').inFlight 0 = some q → d' ≠ d := by
      rintro d' q hq rfl
      simp [hnone] at hq
    refine ⟨fun d' => ?_, fun d' q hq => ?_, fun d' q hq => ?_, fun q hq => ?_, h.work,
      fun w hw => ?_⟩
    · by_cases hd : d' = d
      · subst hd
        rw [count_cons, drives_append_own, List.count_append, hzero.1.1, hzero.1.2]
        simp [Promoting.promote, List.length_eq_zero_iff.mp hzero.2]
      · have := h.one d'
        rw [count_cons] at this
        rw [count_cons, drives_append_own, List.count_append]
        simpa [hd, Ne.symm hd] using this
    · rw [gather_cons, kicks_append_own, ← Multiset.coe_add, Multiset.mem_add,
        Multiset.mem_add] at hq
      rcases hq with (hq | hq) | hq
      · have := h.kicks d' q (mem_gather_cons.mpr (.inl hq))
        simpa [hne d' q this] using this
      · obtain ⟨rfl, rfl⟩ : d' = d ∧ q = p := by simpa using hq
        simp [Promoting.promote]
      · have := h.kicks d' q (mem_gather_cons.mpr (.inr hq))
        simpa [hne d' q this] using this
    · have := h.hw d' q hq
      simpa [hne d' q this] using this
    · rw [hprog]
      exact h.jobs q hq
    · exact h.foreign w (by simpa using hw)
  · refine h.mono (fun d' => ?_) rfl (fun q hq => ⟨hq, hprog q⟩) rfl (fun d' => ?_) (fun x hx => ?_)
      (fun w hw => ?_)
    · by_cases hd : d' = d
      · subst hd
        simp [Promoting.promote]
      · simp [hd]
    · rw [count_cons, count_cons, drives_append_peer]
    · rwa [gather_cons, kicks_append_peer, ← gather_cons] at hx
    · simpa using hw

theorem promoted (h : Drive k (.kickPromotions d [] ::ₘ F))
    (hshape : Shape k (.kickPromotions d [] ::ₘ F) tr) :
    Drive (k.promoted d) (.kickPromotions d (k.promoting d).out ::ₘ F) :=
  hshape.promotions h fun _ _ _ _ hshape hcore _ h => h.promote hshape.slots hcore

/-- The driver of an own core completes the job there. -/
theorem completed (h : Drive k (call ::ₘ F)) (hshape : Shape k (call ::ₘ F) tr)
    (hrun : Runs k call good k' calls events) (hcall : d ∈ call.drives)
    (hslot : (k'.queue d).inFlight 0 = none)
    (hslots : ∀ d', d' ≠ d → (k'.queue d').inFlight 0 = (k.queue d').inFlight 0)
    (hhw : k'.hw = k.hw := by rfl) (halive : k'.alive = k.alive := by rfl)
    (hwork : k'.work = k.work := by rfl) (hdrives : calls.flatMap Frame.drives = [] := by simp)
    (hkicks : calls.flatMap Frame.kicks = [] := by simp)
    (hforeign : calls.flatMap Frame.kickWork = [] := by simp) : Drive k' (↑calls + F) := by
  obtain ⟨halone, hnone, -⟩ := h.alone hcall
  refine ⟨fun d' => ?_, fun d' q hq => ?_, fun d' q hq => ?_, fun q hq => ?_,
    fun w hw => h.work w (hwork ▸ hw), fun w hw => ?_⟩
  · rw [count_coe_add, hdrives, hhw]
    by_cases hd : d' = d
    · subst hd
      simp [Multiset.count_eq_zero.mpr halone, hnone]
    · have := h.one d'
      rw [count_cons] at this
      rw [hslots d' hd]
      simp only [List.count_nil]
      omega
  · rw [gather_keep hkicks] at hq
    have hd : d' ≠ d := by
      rintro rfl
      exact halone (drives_of_kicks hq)
    rw [hslots d' hd]
    exact h.kicks d' q (mem_gather_cons.mpr (.inr hq))
  · rw [hhw] at hq
    have hd : d' ≠ d := by
      rintro rfl
      simp [hnone] at hq
    rw [hslots d' hd]
    exact h.hw d' q hq
  · rw [halive] at hq
    have hprog : (k'.jobs q).prog = (k.jobs q).prog :=
      congrArg (fun x => x.2.2.2) (hrun.fixed (hshape.ledger.bound q hq).ne)
    rw [hprog]
    exact h.jobs q hq
  · rw [gather_keep hforeign] at hw
    exact h.foreign w (mem_gather_cons.mpr (.inr hw))

/-- A fresh job whose kick bit is set. -/
theorem alloc (h : Drive k (call ::ₘ F)) {g : Queue → Queue} {job : Job}
    (hjob : Kickable job.prog.kickValue)
    (hslot : (g (k.queue d)).inFlight 0 = (k.queue d).inFlight 0)
    (hdrives : ∀ d, (calls.flatMap Frame.drives).count d ≤ call.drives.count d)
    (hkicks : calls.flatMap Frame.kicks = []) (hforeign : calls.flatMap Frame.kickWork = []) :
    Drive ((k.setQueue d g).alloc job) (↑calls + F) := by
  have hslots : ∀ d', (((k.setQueue d g).alloc job).queue d').inFlight 0 =
      (k.queue d').inFlight 0 := setQueue_proj (·.inFlight 0) hslot
  refine ⟨fun d' => ?_, fun d' q hq => ?_, fun d' q hq => ?_, fun q hq => ?_, h.work,
    fun w hw => ?_⟩
  · have := h.one d'
    rw [count_cons] at this
    rw [hslots, count_coe_add]
    exact (Nat.add_le_add_right (Nat.add_le_add_right (hdrives d') _) _).trans this
  · rw [gather_keep hkicks] at hq
    rw [hslots]
    exact h.kicks d' q (mem_gather_cons.mpr (.inr hq))
  · rw [hslots]
    exact h.hw d' q hq
  · by_cases heq : q = k.nextPtr
    · simpa [heq] using hjob
    · simpa [heq] using h.jobs q (by simpa [heq] using hq)
  · rw [gather_keep hforeign] at hw
    exact h.foreign w (mem_gather_cons.mpr (.inr hw))

theorem kicked (h : Drive k (.jobKickLocalInner d p ::ₘ F)) :
    Drive { k with hw := Function.update k.hw d (some p) } (.kickTail d p ::ₘ F) := by
  have hslot := h.kicks d p (by simp)
  obtain ⟨halone, hnone, -⟩ := h.alone (d := d) (List.mem_singleton_self _)
  refine ⟨fun d' => ?_, fun d' q hq => ?_, fun d' q hq => ?_, h.jobs, h.work, fun w hw => ?_⟩
  · by_cases hd : d' = d
    · subst hd
      rw [count_cons]
      simp [hslot, Multiset.count_eq_zero.mpr halone]
    · simpa [count_cons, hd, Ne.symm hd] using h.one d'
  · simp only [gather_cons, Frame.kicks, Multiset.coe_nil, zero_add] at hq
    exact h.kicks d' q (mem_gather_cons.mpr (.inr hq))
  · by_cases hd : d' = d
    · subst hd
      obtain rfl : p = q := by simpa using hq
      exact hslot
    · exact h.hw d' q (by simpa [hd] using hq)
  · exact h.foreign w (by simpa using hw)

/-- The transient job goes onto the idle core of RVD1. -/
theorem foreignRun {w : KickWork} {id : Nat} (h : Drive k (.jobRunForeign w ::ₘ F))
    (hslot : (k.queue .rvd1).inFlight 0 = none) :
    Drive ((k.allocForeign id w).setQueue .rvd1 fun q => { q with
        inFlight := Function.update q.inFlight 0 (some k.nextPtr)
        coreIdle := Function.update q.coreIdle 0 false })
      (.jobKickLocalInner .rvd1 k.nextPtr ::ₘ .foreignWait k.nextPtr w ::ₘ F) := by
  have hzero := h.one .rvd1
  rw [hslot, count_cons] at hzero
  simp only [Option.toList_none, List.length_nil, Nat.le_zero, Nat.add_eq_zero_iff] at hzero
  have hwork := h.foreign w (by simp)
  refine ⟨fun d => ?_, fun d q hq => ?_, fun d q hq => ?_, fun q hq => ?_, h.work, fun w' hw => ?_⟩
  · cases d with
    | rvd0 => simpa [count_cons] using h.one .rvd0
    | rvd1 =>
      rw [count_cons, count_cons]
      simp [hzero.1.2, List.length_eq_zero_iff.mp hzero.2]
  · simp only [gather_cons, Frame.kicks, Multiset.coe_singleton, Multiset.coe_nil, zero_add,
      Multiset.mem_add, Multiset.mem_singleton] at hq
    rcases hq with hq | hq
    · obtain ⟨rfl, rfl⟩ := Prod.mk.inj hq
      simp
    · cases d with
      | rvd0 => simpa using h.kicks .rvd0 q (by simpa using hq)
      | rvd1 => simpa [hslot] using h.kicks .rvd1 q (by simpa using hq)
  · cases d with
    | rvd0 => simpa using h.hw .rvd0 q hq
    | rvd1 => simpa [hslot] using h.hw .rvd1 q hq
  · by_cases heq : q = k.nextPtr
    · simpa [heq, foreignJob] using hwork
    · simpa [heq] using h.jobs q (by simpa [heq] using hq)
  · simp only [gather_cons, Frame.kickWork, Multiset.coe_nil, zero_add] at hw
    exact h.foreign w' (mem_gather_cons.mpr (.inr hw))

theorem runs (h : Drive k (call ::ₘ F)) (hshape : Shape k (call ::ₘ F) tr)
    (hrun : Runs k call good k' calls events) : Drive k' (↑calls + F) := by
  have hstep := hrun
  cases hrun with
  | submitEnqueue =>
    simp only [coe_cons_add, coe_nil_add]
    refine (promoted ?_ hshape.insert).mono
    exact h.mono
  | kickWorker =>
    simp only [coe_cons_add, coe_nil_add]
    exact promoted h.mono hshape.disarm
  | kickPeer alive _ ok =>
    obtain ⟨rfl, hbit⟩ := peerKickJob_ok ok
    refine ⟨fun d => ?_, fun d q hq => ?_, h.hw, h.jobs, fun w hw => ?_, fun w hw => ?_⟩
    · simpa [count_cons] using h.one d
    · exact h.kicks d q (by simpa using hq)
    · rcases List.mem_append.mp hw with hw | hw
      · exact h.work w hw
      · obtain rfl := List.mem_singleton.mp hw
        exact hbit
    · exact h.foreign w (by simpa using hw)
  | kicked => simpa only [coe_cons_add, coe_nil_add] using h.kicked
  | kickTailDone alive bit => exact absurd bit (h.jobs _ alive)
  | completeNone slot | dpcSpurious slot =>
    obtain ⟨-, -, p, hp⟩ := h.alone (List.mem_singleton_self _)
    simp [slot] at hp
  | @completeOrphan d _ _ p _ slot | @complete d _ _ p _ slot =>
    refine h.completed hshape hstep (d := d) (List.mem_singleton_self _) ?_ fun d' hd => ?_
    · simp [hshape.slots.target d p slot]
    · simp [hd]
  | @foreignBusy w => exact h.alloc (h.foreign w (by simp)) rfl (by simp) rfl rfl
  | foreignRun slot =>
    simpa only [coe_cons_add, coe_nil_add] using h.foreignRun slot
  | rollback | rollbackLost =>
    obtain ⟨rfl, rfl⟩ := (fits_cons.mp hshape.fits).1
    exact h.quiet hshape hstep
  | enqueueKickWorker =>
    refine h.quiet hshape hstep (setQueue_proj (·.inFlight 0) rfl) (fun _ hq => hq) ?_ ?_ ?_
    all_goals split <;> simp
  | @drainPost f p timedOut =>
    refine h.quiet hshape hstep (fun d => ?_) (fun q hq => ?_) ?_ ?_ ?_ (unpinned_hw ..)
      (unpinned_work ..)
    · cases d <;> simp
    · simpa using hq
    all_goals cases timedOut <;> simp
  | @release p _ _ _ alive =>
    refine h.quiet hshape hstep (fun _ => rfl) fun q hq => ?_
    by_cases heq : q = p
    · simp [heq] at hq
    · simpa [heq] using hq
  | _ => exact h.quiet hshape hstep

/-- A request that leaves the own cores alone. -/
theorem quiet_enter (h : Drive k F) (hshape : Shape k F tr) (hrun : Enters k r k' calls events)
    (hslot : ∀ d, (k'.queue d).inFlight 0 = (k.queue d).inFlight 0 := by
      first | exact fun _ => rfl | exact setQueue_proj (·.inFlight 0) rfl)
    (hdrives : calls.flatMap Frame.drives = [] := by rfl)
    (hkicks : calls.flatMap Frame.kicks = [] := by rfl)
    (hforeign : calls.flatMap Frame.kickWork = [] := by rfl) (hhw : k'.hw = k.hw := by rfl)
    (halive : k'.alive = k.alive := by rfl) (hwork : k'.work = k.work := by rfl) :
    Drive k' (↑calls + F) := by
  refine h.mono hslot hhw (fun p hp => ?_) hwork (fun d => ?_) (fun x hx => ?_) (fun w hw => ?_)
  · rw [halive] at hp
    exact ⟨hp, congrArg (fun x => x.2.2.2) (hrun.fixed (hshape.ledger.bound p hp).ne)⟩
  · simp [count_coe_add, hdrives]
  · simpa [gather_coe_add, hkicks] using hx
  · simpa [gather_coe_add, hforeign] using hw

theorem enters (h : Drive k F) (hshape : Shape k F tr) (hrun : Enters k r k' calls events) :
    Drive k' (↑calls + F) := by
  have hstep := hrun
  cases hrun with
  | @submit f input allocOk prog id lock ok fresh =>
    have hbit : Kickable (submitJob f id prog).prog.kickValue := (Dense.submitDense_ok ok).2.1
    have hnone : Drive k (.registerCompletion ::ₘ F) := h.mono
    have halloc : Drive ((k.setQueue .rvd0 fun q => { q with nextId := id }).alloc
        (submitJob f id prog)) (↑[Frame.submitEnqueue f k.nextPtr] + F) :=
      hnone.alloc hbit rfl (by simp) rfl rfl
    exact halloc.mono
  | @interrupt d hwStatus p hw =>
    have hslot := h.hw d p hw
    refine ⟨fun d' => ?_, fun d' q hq => ?_, fun d' q hq => ?_, h.jobs, h.work, fun w hw => ?_⟩
    · have := h.one d'
      rw [count_coe_add]
      by_cases hd : d' = d
      · subst hd
        simp only [hw, Option.toList_some, List.length_singleton] at this
        simp only [List.flatMap_cons, List.flatMap_nil, Frame.drives, List.append_nil,
          List.count_singleton_self, Function.update_self, Option.toList_none, List.length_nil]
        omega
      · simpa [hd, Ne.symm hd] using this
    · exact h.kicks d' q (by simpa [gather_coe_add] using hq)
    · by_cases hd : d' = d
      · subst hd
        simp at hq
      · exact h.hw d' q (by simpa [hd] using hq)
    · exact h.foreign w (by simpa [gather_coe_add] using hw)
  | @startPeerKick i w queued =>
    refine ⟨fun d => ?_, fun d q hq => ?_, h.hw, h.jobs, fun w' hw => ?_, fun w' hw => ?_⟩
    · simpa [count_coe_add] using h.one d
    · exact h.kicks d q (by simpa [gather_coe_add] using hq)
    · exact h.work w' (List.mem_of_mem_eraseIdx hw)
    · rw [mem_gather_coe_add] at hw
      rcases hw with hw | hw
      · obtain rfl : w' = w := by simpa using hw
        exact h.work w' (List.mem_of_getElem? queued)
      · exact h.foreign w' hw
  | detachPeer waits =>
    refine h.quiet_enter hshape hstep (setQueue_proj (·.inFlight 0) rfl) ?_ ?_ ?_
    all_goals obtain rfl | ⟨p, -, rfl⟩ := waits <;> rfl
  | _ => exact h.quiet_enter hshape hstep

end Drive

theorem drive_init : Drive kernelInit 0 where
  one d := by simp [kernelInit]
  kicks d p hp := by simp at hp
  hw d p hp := by simp [kernelInit] at hp
  jobs p hp := by simp [kernelInit] at hp
  work w hw := by simp [kernelInit] at hw
  foreign w hw := by simp at hw

theorem drive_reachable {G : Guard} {s : Sys} (h : Reachable G s) : Drive s.mem s.calls :=
  Reachable.invariant (J := fun k F _ => Drive k F) (fun _ => shape_reachable) drive_init
    (fun hshape hdrive _ hrun => hdrive.enters hshape hrun)
    (fun hshape hdrive _ hrun => hdrive.runs hshape hrun) h

end Rkvdec.Dispatch
