import Rkvdec.Dispatch.Running

/-! The pin count of a job: how many threads wait for it. -/
namespace Rkvdec.Dispatch

open Lib Kernel

variable {k k' : Kernel} {F : Multiset Frame} {call : Frame} {calls : List Frame}
  {tr events : List Event} {r : Request} {good : Bool} {p q : Ptr} {d : Dev} {f : File}

namespace Frame

/-- The job the call has pinned. -/
def pins : Frame → List Ptr
  | .waitDone p _ => [p]
  | .waitExpired p => [p]
  | .waitReap p => [p]
  | .drainWait _ p => [p]
  | .drainPost _ p _ => [p]
  | _ => []

/-- The job the drain of the file has pinned. -/
def drains (f : File) : Frame → List Ptr
  | .drainWait g p => if g = f then [p] else []
  | .drainPost g p _ => if g = f then [p] else []
  | _ => []

end Frame

attribute [local simp] Frame.drains Frame.pins

/-- A pin for each thread that waits, and a drain waits for a job of its file. -/
structure Pins (k : Kernel) (F : Multiset Frame) : Prop where
  count : ∀ p < k.nextPtr, (k.jobs p).waiterPin = (gather Frame.pins F).count p
  bound : ∀ p ∈ gather Frame.pins F, p < k.nextPtr
  owner : ∀ f, ∀ p ∈ gather (Frame.drains f) F, (k.jobs p).owner = some f

theorem addPin_pin (n : Int) : ((k.setJob q (addPin n)).jobs p).waiterPin =
    (k.jobs p).waiterPin + n * ([q].count p : Int) := by
  by_cases hq : q = p
  · subst hq
    simp [addPin]
  · simp [hq, Ne.symm hq]

theorem unpinned_pin (f : File) (timedOut : Bool) :
    ((unpinned k f q timedOut).jobs p).waiterPin =
      (k.jobs p).waiterPin + -1 * ([q].count p : Int) := by
  rw [← addPin_pin]
  cases timedOut with
  | false => rfl
  | true =>
    simp only [unpinned, if_true, markOrphans]
    split <;> rfl

theorem Frame.drains_pins (h : p ∈ call.drains f) : p ∈ call.pins := by
  cases call <;> simp_all

/-- The pin of a job goes up and down with the calls that hold one. -/
theorem Runs.pin (h : Runs k call good k' calls events) (hp : p ≠ k.nextPtr) :
    (k'.jobs p).waiterPin + (call.pins.count p : Int) =
      (k.jobs p).waiterPin + ((calls.flatMap Frame.pins).count p : Int) := by
  have hset : ∀ q (g : Job → Job), (∀ j, (g j).waiterPin = j.waiterPin) →
      ((k.setJob q g).jobs p).waiterPin = (k.jobs p).waiterPin :=
    fun q g hg => setJob_proj Job.waiterPin q (hg _)
  cases h with
  | submitEnqueue | kickWorker =>
    simpa using promoted_proj Job.waiterPin (fun _ _ => rfl) _ (k := k.setQueue _ _)
  | signal | foreignExpired =>
    rw [hset]
    · simp
    · exact fun _ => rfl
  | completeOrphan | complete | peerCompletion =>
    rw [setQueue_jobs, hset]
    · simp
    · exact fun _ => rfl
  | foreignBusy | foreignRun => simp [hp]
  | waitExpiredPinned | waitReapPinned | waitExpiredLost | drainScan =>
    rw [addPin_pin]
    simp
  | waitExpiredPending | waitExpiredCompleted | waitReap =>
    rw [setQueue_jobs, addPin_pin]
    simp
  | @waitExpiredInFlight q _ alive pin pending completed inFlight =>
    have hmark : (((k.setJob q (addPin (-1))).setJob q fun j =>
        { j with orphanOnComplete := true }).jobs p).waiterPin =
          ((k.setJob q (addPin (-1))).jobs p).waiterPin := setJob_proj Job.waiterPin q rfl
    rw [hmark, addPin_pin]
    simp
  | drainPost =>
    rw [setQueue_jobs, unpinned_pin]
    simp
  | _ => simp

/-- The jobs a section's calls have pinned are the ones its call had, but for the one a drain finds
in flight. -/
theorem Runs.pins (h : Runs k call good k' calls events) (hp : p ∈ calls.flatMap Frame.pins) :
    p ∈ call.pins ∨ ∃ c, (k.queue .rvd0).inFlight c = some p := by
  cases h with
  | drainScan attached slot owner =>
    obtain rfl : p = _ := by simpa using hp
    exact .inr ⟨_, slot⟩
  | waitDone | waitTimeout | drainDone | drainTimeout => exact .inl (by simpa using hp)
  | _ => simp at hp

theorem Runs.drains (h : Runs k call good k' calls events)
    (hp : p ∈ calls.flatMap (Frame.drains f)) :
    p ∈ call.drains f ∨ (k.jobs p).owner = some f ∧ ∃ c, (k.queue .rvd0).inFlight c = some p := by
  cases h with
  | drainScan attached slot owner =>
    simp only [List.flatMap_cons, List.flatMap_nil, Frame.drains, List.append_nil,
      List.mem_ite_nil_right, List.mem_singleton] at hp
    obtain ⟨rfl, rfl⟩ := hp
    exact .inr ⟨owner, _, slot⟩
  | drainDone | drainTimeout => exact .inl (by simpa using hp)
  | _ => simp at hp

/-- A job a section makes is the transient one of a peer kick. -/
theorem Runs.foreign (h : Runs k call good k' calls events) (hnext : k'.nextPtr = k.nextPtr + 1) :
    ∃ id w, k'.jobs k.nextPtr = foreignJob id w := by
  cases h with
  | @foreignBusy w id _ slot | @foreignRun w id _ slot => exact ⟨id, w, by simp⟩
  | _ => simp at hnext

namespace Pins

/-- The job of a slot has been allocated. -/
theorem slot_bound {c : Core} (hshape : Shape k F tr)
    (hslot : (k.queue .rvd0).inFlight c = some p) : p < k.nextPtr := by
  refine hshape.ledger.bound p ?_
  rcases core_cases c with rfl | rfl
  · exact place_alive hshape (mem_own.mpr hslot)
  · exact place_alive hshape (mem_peer.mpr hslot)

theorem drained_bound (h : Pins k F) (hp : p ∈ gather (Frame.drains f) F) : p < k.nextPtr := by
  obtain ⟨call, hcall, hp⟩ := mem_gather.mp hp
  exact h.bound p (mem_gather.mpr ⟨call, hcall, Frame.drains_pins hp⟩)

theorem runs (h : Pins k (call ::ₘ F)) (hshape : Shape k (call ::ₘ F) tr)
    (hrun : Runs k call good k' calls events) : Pins k' (↑calls + F) := by
  have hnext : k.nextPtr ≤ k'.nextPtr := by
    rcases hrun.fresh with hfresh | ⟨hfresh, -⟩ <;> exact hfresh ▸ by simp
  have hF : ∀ p ∈ gather Frame.pins F, p < k.nextPtr :=
    fun p hp => h.bound p (mem_gather_cons.mpr (.inr hp))
  have hcalls : ∀ p ∈ calls.flatMap Frame.pins, p < k.nextPtr := by
    intro p hp
    rcases hrun.pins hp with hp | ⟨c, hslot⟩
    · exact h.bound p (mem_gather_cons.mpr (.inl hp))
    · exact slot_bound hshape hslot
  refine ⟨fun p hp => ?_, fun p hp => ?_, fun f p hp => ?_⟩
  · simp only [gather_coe_add, Multiset.count_add, Multiset.coe_count]
    by_cases hold : p < k.nextPtr
    · have hcount := h.count p hold
      simp only [gather_cons, Multiset.count_add, Multiset.coe_count] at hcount
      have := hrun.pin hold.ne
      push_cast at hcount ⊢
      omega
    · -- The fresh job has no pin yet, and no call knows it.
      have hfresh : p = k.nextPtr ∧ k'.nextPtr = k.nextPtr + 1 := by
        rcases hrun.fresh with hfresh | ⟨hfresh, -⟩
        · exact absurd (hfresh ▸ hp) hold
        · exact ⟨le_antisymm (Nat.lt_succ_iff.mp (by rwa [hfresh] at hp)) (not_lt.mp hold), hfresh⟩
      obtain ⟨rfl, hone⟩ := hfresh
      have hnone : (calls.flatMap Frame.pins).count k.nextPtr = 0 :=
        List.count_eq_zero.mpr fun hp => hold (hcalls _ hp)
      have hnone' : (gather Frame.pins F).count k.nextPtr = 0 :=
        Multiset.count_eq_zero.mpr fun hp => hold (hF _ hp)
      obtain ⟨id, w, hjob⟩ := hrun.foreign hone
      simp [hnone, hnone', hjob, foreignJob]
  · exact ((mem_gather_coe_add.mp hp).elim (hcalls p) (hF p)).trans_le hnext
  · have hold : (k.jobs p).owner = some f ∧ p < k.nextPtr := by
      have hold : ∀ {p}, p ∈ gather (Frame.drains f) (call ::ₘ F) →
          (k.jobs p).owner = some f ∧ p < k.nextPtr :=
        fun hp => ⟨h.owner f _ hp, h.drained_bound hp⟩
      rcases mem_gather_coe_add.mp hp with hp | hp
      · rcases hrun.drains hp with hp | ⟨howner, c, hslot⟩
        · exact hold (mem_gather_cons.mpr (.inl hp))
        · exact ⟨howner, slot_bound hshape hslot⟩
      · exact hold (mem_gather_cons.mpr (.inr hp))
    rw [Owners.owner_fixed (hrun.fixed hold.2.ne)]
    exact hold.1

theorem enters (h : Pins k F) (hshape : Shape k F tr) (hrun : Enters k r k' calls events) :
    Pins k' (↑calls + F) := by
  -- A request that pins nothing and leaves the jobs alone.
  have keep : k'.jobs = k.jobs → k'.nextPtr = k.nextPtr → calls.flatMap Frame.pins = [] →
      (∀ f, calls.flatMap (Frame.drains f) = []) → Pins k' (↑calls + F) := by
    intro hjobs hnext hpins hdrains
    refine ⟨fun p hp => ?_, fun p hp => ?_, fun f p hp => ?_⟩
    · rw [hnext] at hp
      rw [hjobs, gather_keep hpins]
      exact h.count p hp
    · rw [gather_keep hpins] at hp
      rw [hnext]
      exact h.bound p hp
    · rw [gather_keep (hdrains f)] at hp
      rw [hjobs]
      exact h.owner f p hp
  cases hrun with
  | @submit f input allocOk prog id lock ok fresh =>
    refine ⟨fun p hp => ?_, fun p hp => ?_, fun g p hp => ?_⟩
    · simp only [coe_cons_add, gather_cons, Frame.pins, Multiset.coe_nil, zero_add]
      by_cases hold : p = k.nextPtr
      · subst hold
        have hnone : (gather Frame.pins F).count k.nextPtr = 0 :=
          Multiset.count_eq_zero.mpr fun hp' => lt_irrefl _ (h.bound _ hp')
        simp [hnone, submitJob]
      · have hlt : p < k.nextPtr := lt_of_le_of_ne (Nat.lt_succ_iff.mp hp) hold
        simpa [hold] using h.count p hlt
    · have hp : p ∈ gather Frame.pins F := by simpa using hp
      exact (h.bound p hp).trans (Nat.lt_succ_self _)
    · have hp : p ∈ gather (Frame.drains g) F := by simpa using hp
      simpa [(h.drained_bound hp).ne] using h.owner g p hp
  | @waitPin f id timeoutMs q linked owner =>
    refine ⟨fun p hp => ?_, fun p hp => ?_, fun g p hp => ?_⟩
    · have hcount := h.count p hp
      rw [addPin_pin]
      simp only [gather_coe_add, List.flatMap_cons, List.flatMap_nil, List.append_nil, Frame.pins,
        Multiset.count_add, Multiset.coe_count]
      push_cast
      omega
    · simp only [gather_coe_add, List.flatMap_cons, List.flatMap_nil, List.append_nil, Frame.pins,
        Multiset.mem_add, Multiset.mem_coe, List.mem_singleton] at hp
      change p < k.nextPtr
      rcases hp with rfl | hp
      · rcases linked with ⟨c, -, hslot⟩ | hpending
        · exact slot_bound hshape hslot
        · exact hshape.ledger.bound p (place_alive hshape (mem_pending.mpr hpending))
      · exact h.bound p hp
    · have hp : p ∈ gather (Frame.drains g) F := by simpa using hp
      rw [setJob_proj Job.owner q (by rfl)]
      exact h.owner g p hp
  | detachPeer waits =>
    refine keep rfl rfl ?_ ?_
    all_goals obtain rfl | ⟨q, -, rfl⟩ := waits <;> simp
  | _ => exact keep rfl rfl (by simp) (by simp)

end Pins

theorem pins_init : Pins kernelInit 0 := by
  constructor <;> simp [kernelInit]

theorem pins_reachable {G : Guard} {s : Sys} (h : Reachable G s) : Pins s.mem s.calls :=
  Reachable.invariant (J := fun k F _ => Pins k F) (fun _ => shape_reachable) pins_init
    (fun hshape hpins _ hrun => hpins.enters hshape hrun)
    (fun hshape hpins _ hrun => hpins.runs hshape hrun) h

end Rkvdec.Dispatch
