import Rkvdec.Engine.H264
import Rkvdec.Engine.Mirror
import Rkvdec.Lib.Bumping

/-! The two queues of the engine are a bumping buffer keyed by POC, whatever happens to the holds.
From that: pictures come out in display order, and when a full queue can still be polled. -/
namespace Rkvdec.Engine

theorem bind_pure_some {α β : Type} {o : Option α} {f : α → β} {b : β}
    (h : (do let a ← o; pure (f a)) = some b) : ∃ a, o = some a ∧ f a = b :=
  Option.map_eq_some_iff.mp ((Option.map_eq_bind ..).trans h)

namespace DecodeEngine

variable {R C : Type} {e e' : DecodeEngine R C} {entry : Entry} {bound fuel : Nat} {idr : Bool}

/-- The queues as a buffer; the DPB is forgotten. -/
def view (e : DecodeEngine R C) : Bumping Entry := ⟨e.reorderQ, e.readyQ⟩

theorem lowestFrom_eq {best : Entry} {bestIdx i : Nat} {es : List Entry} :
    Engine.lowestFrom best bestIdx i es = Bumping.lowestFrom Entry.poc best bestIdx i es := by
  induction es generalizing best bestIdx i with
  | nil => rfl
  | cons e es ih => simp only [Engine.lowestFrom, Bumping.lowestFrom, ih]

theorem lowestIdx_eq {es : List Entry} : lowestIdx es = Bumping.lowest Entry.poc es := by
  cases es with
  | nil => rfl
  | cons e es => exact lowestFrom_eq

theorem view_bumpLowest (h : e.bumpLowest = some e') : e'.view = Bumping.bump Entry.poc e.view ∧
    e'.maxNumReorderPics = e.maxNumReorderPics := by
  unfold bumpLowest at h
  dsimp only at h
  rw [lowestIdx_eq] at h
  unfold Bumping.bump
  split at h
  · rename_i hnone
    obtain rfl := Option.some.inj h
    exact ⟨by simp only [view, hnone], rfl⟩
  · rename_i best hsome
    obtain ⟨d, -, rfl⟩ := bind_pure_some h
    exact ⟨by simp only [view, hsome], rfl⟩

theorem view_bumpWhile (h : bumpWhile bound fuel e = some e') :
    e'.view = Bumping.bumpWhile Entry.poc bound fuel e.view ∧
      e'.maxNumReorderPics = e.maxNumReorderPics := by
  induction fuel generalizing e with
  | zero =>
    obtain rfl := Option.some.inj h
    exact ⟨rfl, rfl⟩
  | succ fuel ih =>
    unfold bumpWhile at h
    unfold Bumping.bumpWhile
    split at h
    · rename_i hlen
      obtain rfl := Option.some.inj h
      exact ⟨by rw [if_pos (by exact hlen)], rfl⟩
    · rename_i hlen
      rw [if_neg (by exact hlen)]
      simp only [Option.bind_eq_bind, Option.bind_eq_some_iff] at h
      obtain ⟨e₁, h₁, hrest⟩ := h
      obtain ⟨hv₁, hm₁⟩ := view_bumpLowest h₁
      obtain ⟨hv, hm⟩ := ih hrest
      exact ⟨by rw [hv, hv₁], hm.trans hm₁⟩

theorem view_drain (h : e.drain = some e') : e'.view = Bumping.drain Entry.poc e.view ∧
    e'.maxNumReorderPics = e.maxNumReorderPics :=
  view_bumpWhile h

/-- `DecodeEngine_OnDecodeComplete` is a push, with the bound the engine then remembers. -/
theorem view_onDecodeComplete {maxPics : Nat} (h : e.onDecodeComplete entry maxPics idr = some e') :
    e'.view = Bumping.push Entry.poc (min maxPics maxReorderPics) idr entry e.view ∧
      e'.maxNumReorderPics = min maxPics maxReorderPics := by
  unfold onDecodeComplete at h
  simp only [Option.bind_eq_some_iff] at h
  obtain ⟨e₁, h₁, h⟩ := h
  have hv₁ : e₁.view = if idr then Bumping.drain Entry.poc e.view else e.view := by
    cases idr with
    | true => exact (view_drain h₁).1
    | false =>
      obtain rfl := Option.some.inj h₁
      rfl
  obtain ⟨hv, hm⟩ := view_bumpWhile h
  refine ⟨?_, hm⟩
  rw [hv, Bumping.push, ← hv₁]
  rfl

theorem view_pollFrame {frame : Option Entry} (h : e.pollFrame = some (frame, e')) :
    (frame.toList, e'.view) = Bumping.pop e.view ∧
      e'.maxNumReorderPics = e.maxNumReorderPics := by
  unfold pollFrame at h
  unfold Bumping.pop
  split at h
  · rename_i hnil
    obtain ⟨rfl, rfl⟩ : none = frame ∧ e = e' := by simpa using h
    exact ⟨by simp [view, hnil], rfl⟩
  · rename_i first rest hcons
    simp only [Option.bind_eq_bind, Option.bind_eq_some_iff, Option.pure_def, Option.some.injEq,
      Prod.mk.injEq] at h
    obtain ⟨d, -, rfl, rfl⟩ := h
    exact ⟨by simp [view, hcons], rfl⟩

theorem view_flush {dpbFlush : Dpb R C → Option (Dpb R C)} (h : e.flush dpbFlush = some e') :
    e'.view = ⟨[], []⟩ ∧ e'.maxNumReorderPics = 0 := by
  simp only [flush, Option.bind_eq_bind, Option.bind_eq_some_iff, Option.pure_def,
    Option.some.injEq] at h
  obtain ⟨d₁, -, d₂, -, d₃, -, rfl⟩ := h
  exact ⟨rfl, rfl⟩

/-- `DecodeEngine_QueueDepth`. -/
def queueDepth (e : DecodeEngine R C) : Nat := e.reorderQ.length + e.readyQ.length

/-- `DecodeEngine_InputQueueCapacity`. -/
def inputQueueCapacity (e : DecodeEngine R C) : Nat :=
  let cap := e.maxNumReorderPics + 1
  let cap := if cap < 4 then 4 else cap
  let maxSafe := poolSize - 1
  if maxSafe < cap then maxSafe else cap

end DecodeEngine

/-- A call on the queues of the engine. -/
inductive QueueCall where
  | onDecodeComplete (entry : Entry) (maxNumReorderPics : Nat) (isIdrBoundary : Bool)
  | pollFrame
  | drain
  | flush

variable {R C : Type}

/-- One call; the frames handed out are collected. -/
def QueueCall.run (dpbFlush : Dpb R C → Option (Dpb R C)) (st : List Entry × DecodeEngine R C) :
    QueueCall → Option (List Entry × DecodeEngine R C)
  | .onDecodeComplete entry maxPics idr => do
    let e ← st.2.onDecodeComplete entry maxPics idr
    pure (st.1, e)
  | .pollFrame => do
    let (frame, e) ← st.2.pollFrame
    pure (st.1 ++ frame.toList, e)
  | .drain => do
    let e ← st.2.drain
    pure (st.1, e)
  | .flush => do
    let e ← st.2.flush dpbFlush
    pure (st.1, e)

/-- A list of calls on an engine; `none` when a check of the hold protocol failed. -/
def QueueCall.runAll (dpbFlush : Dpb R C → Option (Dpb R C)) (e : DecodeEngine R C)
    (calls : List QueueCall) : Option (List Entry × DecodeEngine R C) :=
  calls.foldlM (QueueCall.run dpbFlush) ([], e)

/-- An engine nobody has submitted a picture to. -/
def DecodeEngine.fresh (dpb : Dpb R C) : DecodeEngine R C where
  dpb := dpb
  reorderQ := []
  readyQ := []
  maxNumReorderPics := 0
  submitCount := 0
  waitForIdr := false
  lastDecodedSlot := none

variable {dpbFlush : Dpb R C → Option (Dpb R C)} {st st' : List Entry × DecodeEngine R C}
  {calls : List QueueCall} {n : Nat}

theorem foldlM_cons_some {α σ : Type} {f : σ → α → Option σ} {a : α} {l : List α} {s s' : σ}
    (h : (a :: l).foldlM f s = some s') : ∃ s₁, f s a = some s₁ ∧ l.foldlM f s₁ = some s' := by
  simpa [Option.bind_eq_some_iff] using h

section Capacity

/-- The bound the stream asks for in this call, if it asks for one. -/
def QueueCall.BoundAtMost (n : Nat) : QueueCall → Prop
  | .onDecodeComplete _ maxPics _ => maxPics ≤ n
  | _ => True

/-- No more pictures wait for reordering than the engine remembers as the bound. -/
def Bounded (n : Nat) (e : DecodeEngine R C) : Prop :=
  e.reorderQ.length ≤ e.maxNumReorderPics ∧ e.maxNumReorderPics ≤ n

theorem bounded_run {c : QueueCall} (h : Bounded n st.2) (hc : c.BoundAtMost n)
    (hrun : c.run dpbFlush st = some st') : Bounded n st'.2 := by
  cases c with
  | onDecodeComplete entry maxPics idr =>
    obtain ⟨e, he, rfl⟩ := bind_pure_some hrun
    obtain ⟨hv, hm⟩ := DecodeEngine.view_onDecodeComplete he
    refine ⟨?_, hm ▸ (min_le_left _ _).trans hc⟩
    have hlen := congrArg (List.length ∘ Bumping.window) hv
    change e.reorderQ.length = _ at hlen
    rw [hlen, hm]
    exact Bumping.length_push
  | pollFrame =>
    obtain ⟨⟨frame, e⟩, he, rfl⟩ := bind_pure_some hrun
    obtain ⟨hv, hm⟩ := DecodeEngine.view_pollFrame he
    have hwin : e.reorderQ = st.2.reorderQ := by
      have := congrArg (fun p => p.2.window) hv
      exact this.trans Bumping.pop_emitted.2
    exact ⟨by rw [hwin, hm]; exact h.1, hm ▸ h.2⟩
  | drain =>
    obtain ⟨e, he, rfl⟩ := bind_pure_some hrun
    obtain ⟨hv, hm⟩ := DecodeEngine.view_drain he
    have hwin : e.reorderQ = [] := (congrArg Bumping.window hv).trans Bumping.window_drain
    exact ⟨by simp [hwin], hm ▸ h.2⟩
  | flush =>
    obtain ⟨e, he, rfl⟩ := bind_pure_some hrun
    obtain ⟨hv, hm⟩ := DecodeEngine.view_flush he
    have hwin : e.reorderQ = [] := congrArg Bumping.window hv
    exact ⟨by simp [hwin], by simp [hm]⟩

theorem bounded_foldlM (h : Bounded n st.2) (hcalls : ∀ c ∈ calls, c.BoundAtMost n)
    (hrun : calls.foldlM (QueueCall.run dpbFlush) st = some st') : Bounded n st'.2 := by
  induction calls generalizing st with
  | nil =>
    obtain rfl := Option.some.inj hrun
    exact h
  | cons c calls ih =>
    obtain ⟨st₁, h₁, hrest⟩ := foldlM_cons_some hrun
    exact ih (bounded_run h (hcalls c List.mem_cons_self) h₁)
      (fun c' hc' => hcalls c' (List.mem_cons_of_mem _ hc')) hrest

/-- Below the pool limit the capacity exceeds the reorder bound. -/
theorem ready_of_full {e : DecodeEngine R C} (h : Bounded 14 e)
    (hfull : e.inputQueueCapacity ≤ e.queueDepth) : e.readyQ ≠ [] := by
  intro hnil
  obtain ⟨hlen, hmax⟩ := h
  have hdepth : e.queueDepth = e.reorderQ.length := by simp [DecodeEngine.queueDepth, hnil]
  have hcap : e.maxNumReorderPics + 1 ≤ e.inputQueueCapacity := by
    simp only [DecodeEngine.inputQueueCapacity, poolSize]
    split_ifs <;> omega
  omega

/-- A picture that holds no slot, as the reorder test makes them. -/
def bareEntry (poc ptsHns : Int) : Entry := ⟨poc, ptsHns, 333333, none, true, 0⟩

/-- A picture that fits under the bound just joins the queue. -/
theorem onDecodeComplete_fits {e : DecodeEngine R C} (entry : Entry) (maxPics : Nat)
    (hlen : e.reorderQ.length < min maxPics DecodeEngine.maxReorderPics) :
    e.onDecodeComplete entry maxPics false = some { e with
      reorderQ := e.reorderQ ++ [entry]
      maxNumReorderPics := min maxPics DecodeEngine.maxReorderPics } := by
  simp only [DecodeEngine.onDecodeComplete, Bool.false_eq_true, if_false, Option.bind_some,
    List.length_append, List.length_singleton, DecodeEngine.bumpWhile]
  rw [if_pos (by omega)]

/-- Pictures pile up below the bound, and none becomes ready. -/
theorem runAll_pile_up (dpbFlush : Dpb R C → Option (Dpb R C)) (k : Nat) {e : DecodeEngine R C}
    {out : List Entry} (hlen : e.reorderQ.length + k ≤ 15) :
    ∃ e', (List.replicate k (.onDecodeComplete (bareEntry 0 0) 15 false)).foldlM
        (QueueCall.run dpbFlush) (out, e) = some (out, e') ∧ e'.readyQ = e.readyQ ∧
      e'.reorderQ.length = e.reorderQ.length + k ∧ (0 < k → e'.maxNumReorderPics = 15) := by
  induction k generalizing e with
  | zero => exact ⟨e, rfl, rfl, rfl, by simp⟩
  | succ k ih =>
    have hfit := onDecodeComplete_fits (e := e) (bareEntry 0 0) 15
      (by simp only [DecodeEngine.maxReorderPics]; omega)
    obtain ⟨e', hrun, hready, hre, hmax⟩ := ih (e := { e with
      reorderQ := e.reorderQ ++ [bareEntry 0 0]
      maxNumReorderPics := min 15 DecodeEngine.maxReorderPics }) (by simp; omega)
    refine ⟨e', ?_, hready, by rw [hre]; simp; omega, fun _ => ?_⟩
    · rw [List.replicate_succ, List.foldlM_cons]
      simp only [QueueCall.run, hfit, Option.bind_eq_bind, Option.bind_some, Option.pure_def]
      exact hrun
    · cases k with
      | zero =>
        obtain ⟨-, rfl⟩ : out = out ∧ _ = e' := by simpa using hrun
        rfl
      | succ k => exact hmax (by omega)

/-- A full input queue always leaves a frame to poll exactly when no stream asks for a reorder
bound above 14, that is, one the capacity of at most 15 does not exceed. -/
theorem full_queue_polls_iff (dpbFlush : Dpb R C → Option (Dpb R C)) (dpb : Dpb R C) (n : Nat) :
    (∀ calls, (∀ c ∈ calls, c.BoundAtMost n) → ∀ out e,
        QueueCall.runAll dpbFlush (DecodeEngine.fresh dpb) calls = some (out, e) →
        e.inputQueueCapacity ≤ e.queueDepth → e.readyQ ≠ []) ↔ n ≤ 14 := by
  constructor
  · intro hall
    by_contra hn
    -- Fifteen pictures with a bound of fifteen fill the queue, and all of them wait.
    obtain ⟨e, hrun, hready, hre, hmax⟩ := runAll_pile_up dpbFlush 15
      (e := DecodeEngine.fresh dpb) (by simp [DecodeEngine.fresh])
    refine hall _ ?_ [] _ hrun ?_ (by simp [hready, DecodeEngine.fresh])
    · intro c hc
      rw [List.eq_of_mem_replicate hc]
      exact Nat.lt_of_not_le hn
    · simp [DecodeEngine.queueDepth, DecodeEngine.inputQueueCapacity, hmax, hre, hready,
        DecodeEngine.fresh, poolSize]
  · intro hn calls hcalls out e hrun hfull
    have hcalls' : ∀ c ∈ calls, c.BoundAtMost 14 := by
      intro c hc
      have hle := hcalls c hc
      cases c with
      | onDecodeComplete entry maxPics idr => exact le_trans hle hn
      | pollFrame => trivial
      | drain => trivial
      | flush => trivial
    have hb : Bounded 14 (out, e).2 :=
      bounded_foldlM ⟨Nat.zero_le _, Nat.zero_le _⟩ hcalls' hrun
    exact ready_of_full hb hfull

/-- Fifteen pictures of a stream with `max_num_ref_frames` 16 fill the input queue, and none of
them is ready. -/
theorem full_queue_without_output :
    ((QueueCall.runAll H264.flush (DecodeEngine.fresh H264.init)
      (List.replicate 15 (.onDecodeComplete (bareEntry 0 0) 16 false))).any fun st =>
        decide (st.2.inputQueueCapacity ≤ st.2.queueDepth) && st.2.readyQ.isEmpty) = true := by
  decide +kernel

end Capacity

section Order

open Bumping (Call)

/-- A call on the buffer as a call on the engine, with the bound of the stream. -/
def queueCall (n : Nat) : Call Entry → QueueCall
  | .push entry spill => .onDecodeComplete entry n spill
  | .pop => .pollFrame

theorem view_run {c : Call Entry} (hn : n ≤ DecodeEngine.maxReorderPics)
    (h : (queueCall n c).run dpbFlush st = some st') :
    (st'.1, st'.2.view) = Bumping.serve Entry.poc n (st.1, st.2.view) c := by
  cases c with
  | push entry spill =>
    simp only [queueCall, QueueCall.run, Option.bind_eq_bind, Option.bind_eq_some_iff,
      Option.pure_def, Option.some.injEq] at h
    obtain ⟨e, he, rfl⟩ := h
    have hv := (DecodeEngine.view_onDecodeComplete he).1
    rw [min_eq_left hn] at hv
    simp only [Bumping.serve, hv]
  | pop =>
    simp only [queueCall, QueueCall.run, Option.bind_eq_bind, Option.bind_eq_some_iff,
      Option.pure_def, Option.some.injEq] at h
    obtain ⟨⟨frame, e⟩, he, rfl⟩ := h
    have hv := (DecodeEngine.view_pollFrame he).1
    simp only [Bumping.serve, ← hv]

theorem view_foldlM {cs : List (Call Entry)} (hn : n ≤ DecodeEngine.maxReorderPics)
    (h : (cs.map (queueCall n)).foldlM (QueueCall.run dpbFlush) st = some st') :
    (st'.1, st'.2.view) = cs.foldl (Bumping.serve Entry.poc n) (st.1, st.2.view) := by
  induction cs generalizing st with
  | nil =>
    obtain rfl := Option.some.inj h
    rfl
  | cons c cs ih =>
    obtain ⟨st₁, h₁, hrest⟩ := foldlM_cons_some h
    rw [List.foldl_cons, ← view_run hn h₁]
    exact ih hrest

/-- Nothing in the queues holds a slot. -/
def Slotless (s : Bumping Entry) : Prop := ∀ x ∈ s.contents, x.slotIdx = none

theorem Slotless.of_perm {s s' : Bumping Entry} (h : Slotless s)
    (hp : s'.contents.Perm s.contents) : Slotless s' :=
  fun x hx => h x (hp.mem_iff.mp hx)

theorem Slotless.bumpWhile {e : DecodeEngine R C} (h : Slotless e.view) (bound fuel : Nat) :
    ∃ e', DecodeEngine.bumpWhile bound fuel e = some e' := by
  induction fuel generalizing e with
  | zero => exact ⟨e, rfl⟩
  | succ fuel ih =>
    unfold DecodeEngine.bumpWhile
    split
    · exact ⟨e, rfl⟩
    · obtain ⟨e₁, h₁⟩ : ∃ e₁, e.bumpLowest = some e₁ := by
        unfold DecodeEngine.bumpLowest
        dsimp only
        split
        · exact ⟨e, rfl⟩
        · rename_i best hbest
          have hslot := h best (List.mem_append_right _ (List.mem_of_getElem? hbest))
          simp [transferEntry, hslot]
      obtain ⟨e', h'⟩ := ih (e := e₁)
        (h.of_perm (by rw [(DecodeEngine.view_bumpLowest h₁).1]; exact Bumping.perm_bump))
      exact ⟨e', by simp [h₁, h']⟩

/-- Calls that bring in no slot never fail a check. -/
theorem Slotless.run (h : Slotless st.2.view) (dpbFlush : Dpb R C → Option (Dpb R C))
    {c : QueueCall} (hflush : c ≠ .flush)
    (hc : ∀ entry n idr, c = .onDecodeComplete entry n idr → entry.slotIdx = none) :
    ∃ st', c.run dpbFlush st = some st' ∧ Slotless st'.2.view := by
  cases c with
  | onDecodeComplete entry maxPics idr =>
    obtain ⟨e₁, h₁, hs₁⟩ : ∃ e₁, (if idr then st.2.drain else some st.2) = some e₁ ∧
        Slotless e₁.view := by
      cases idr with
      | true =>
        obtain ⟨e₁, h₁⟩ := h.bumpWhile 0 st.2.reorderQ.length
        exact ⟨e₁, h₁, h.of_perm (by
          rw [(DecodeEngine.view_drain h₁).1]; exact Bumping.perm_drain)⟩
      | false => exact ⟨st.2, rfl, h⟩
    have hentry : Slotless (⟨e₁.reorderQ ++ [entry], e₁.readyQ⟩ : Bumping Entry) := by
      intro x hx
      rw [Bumping.contents, ← List.append_assoc] at hx
      rcases List.mem_append.mp hx with hx | hx
      · exact hs₁ x hx
      · rw [List.mem_singleton.mp hx]
        exact hc entry maxPics idr rfl
    obtain ⟨e₂, h₂⟩ := Slotless.bumpWhile (e := { e₁ with
        reorderQ := e₁.reorderQ ++ [entry]
        maxNumReorderPics := min maxPics DecodeEngine.maxReorderPics }) hentry
      (min maxPics DecodeEngine.maxReorderPics) (e₁.reorderQ ++ [entry]).length
    have hcomplete : st.2.onDecodeComplete entry maxPics idr = some e₂ := by
      rw [DecodeEngine.onDecodeComplete, h₁]
      exact h₂
    refine ⟨(st.1, e₂), by simp [QueueCall.run, hcomplete], hentry.of_perm ?_⟩
    rw [(DecodeEngine.view_bumpWhile h₂).1]
    exact Bumping.perm_bumpWhile
  | pollFrame =>
    unfold QueueCall.run DecodeEngine.pollFrame
    dsimp only
    cases hr : st.2.readyQ with
    | nil => exact ⟨(st.1, st.2), by simp, h⟩
    | cons x rest =>
      have hslot := h x (List.mem_append_left _ (by simp [DecodeEngine.view, hr]))
      refine ⟨(st.1 ++ [x], { st.2 with readyQ := rest }), by simp [transferEntry, hslot], ?_⟩
      intro y hy
      apply h y
      rcases List.mem_append.mp hy with hy | hy
      · exact List.mem_append_left _ (by
          simp only [DecodeEngine.view, hr] at hy ⊢; exact List.mem_cons_of_mem _ hy)
      · exact List.mem_append_right _ hy
  | drain =>
    obtain ⟨e₁, h₁⟩ := h.bumpWhile 0 st.2.reorderQ.length
    refine ⟨(st.1, e₁), ?_, h.of_perm (by
      rw [(DecodeEngine.view_drain h₁).1]; exact Bumping.perm_drain)⟩
    simp [QueueCall.run, DecodeEngine.drain, h₁]
  | flush => exact absurd rfl hflush

theorem Slotless.foldlM (h : Slotless st.2.view) (dpbFlush : Dpb R C → Option (Dpb R C))
    (hflush : .flush ∉ calls)
    (hc : ∀ entry n idr, .onDecodeComplete entry n idr ∈ calls → entry.slotIdx = none) :
    ∃ st', calls.foldlM (QueueCall.run dpbFlush) st = some st' := by
  induction calls generalizing st with
  | nil => exact ⟨st, rfl⟩
  | cons c calls ih =>
    obtain ⟨st₁, h₁, hs₁⟩ := h.run dpbFlush (c := c)
      (fun heq => hflush (heq ▸ List.mem_cons_self))
      (fun entry n idr heq => hc entry n idr (heq ▸ List.mem_cons_self))
    obtain ⟨st', h'⟩ := ih hs₁ (fun hm => hflush (List.mem_cons_of_mem _ hm))
      (fun entry n idr hm => hc entry n idr (List.mem_cons_of_mem _ hm))
    exact ⟨st', by simp [h₁, h']⟩

/-- The calls of a caller that feeds `seqs`, polls as it likes, then drains and polls `k` times. -/
def feedingCalls (n : Nat) (cs : List (Call Entry)) (k : Nat) : List QueueCall :=
  cs.map (queueCall n) ++ .drain :: List.replicate k .pollFrame

theorem mem_pushed {cs : List (Call Entry)} {entry : Entry} {idr : Bool}
    (h : QueueCall.onDecodeComplete entry n idr ∈ cs.map (queueCall n)) :
    (entry, idr) ∈ Bumping.pushed cs := by
  obtain ⟨c, hc, heq⟩ := List.mem_map.mp h
  cases c with
  | push x spill =>
    obtain ⟨rfl, -, rfl⟩ : x = entry ∧ n = n ∧ spill = idr := by simpa [queueCall] using heq
    exact List.mem_filterMap.mpr ⟨_, hc, rfl⟩
  | pop => simp [queueCall] at heq

/-- Pictures of a stream whose reorder bound is `n ≤ 32`, fed sequence by sequence with the
boundary flag on the first picture of each, come out once each, sequence by sequence and by
ascending POC, wherever the caller polls. Entries that hold no slot pass every check; with slots
the checks are the caller's contract. -/
theorem display_order (dpbFlush : Dpb R C → Option (Dpb R C)) (dpb : Dpb R C) (n : Nat)
    (hn : n ≤ 32) (seqs : List (List Entry))
    (hadm : ∀ l ∈ seqs, Bumping.Admissible Entry.poc n l) (cs : List (Call Entry))
    (hcs : Bumping.pushed cs = Bumping.feed seqs) (k : Nat)
    (hk : (seqs.map List.length).sum ≤ k) :
    (∀ out e, QueueCall.runAll dpbFlush (DecodeEngine.fresh dpb) (feedingCalls n cs k) =
        some (out, e) →
      out = (seqs.map (Bumping.sorted Entry.poc)).flatten ∧ e.reorderQ = [] ∧ e.readyQ = []) ∧
    ((∀ l ∈ seqs, ∀ x ∈ l, x.slotIdx = none) →
      ∃ out e, QueueCall.runAll dpbFlush (DecodeEngine.fresh dpb) (feedingCalls n cs k) =
        some (out, e)) := by
  constructor
  · intro out e hrun
    unfold QueueCall.runAll feedingCalls at hrun
    rw [List.foldlM_append, Option.bind_eq_bind, Option.bind_eq_some_iff] at hrun
    obtain ⟨st₁, h₁, hrun⟩ := hrun
    obtain ⟨st₂, h₂, h₃⟩ := foldlM_cons_some hrun
    obtain ⟨e₂, hdrain, rfl⟩ := bind_pure_some h₂
    have hfeed := view_foldlM hn h₁
    have hpoll : (List.replicate k (Call.pop : Call Entry)).map (queueCall n) =
        List.replicate k .pollFrame := by simp [queueCall]
    rw [← hpoll] at h₃
    have hpops := view_foldlM hn h₃
    have hsorted := Bumping.serve_sorted hadm hcs hk
    have hstart : (([], (DecodeEngine.fresh dpb).view) : List Entry × Bumping Entry) =
        ([], ⟨[], []⟩) := rfl
    rw [hstart] at hfeed
    rw [← hfeed] at hsorted
    simp only [← (DecodeEngine.view_drain hdrain).1] at hsorted
    rw [hsorted] at hpops
    obtain ⟨hout, hview⟩ := Prod.mk.inj hpops
    exact ⟨hout, congrArg Bumping.window hview, congrArg Bumping.ready hview⟩
  · intro hslots
    have hstart :
        Slotless (([], DecodeEngine.fresh dpb) : List Entry × DecodeEngine R C).2.view := by
      intro x hx
      simp [Bumping.contents, DecodeEngine.view, DecodeEngine.fresh] at hx
    have hflush : .flush ∉ feedingCalls n cs k := by
      intro hmem
      rcases List.mem_append.mp hmem with hmem | hmem
      · obtain ⟨c, -, hc⟩ := List.mem_map.mp hmem
        cases c <;> simp [queueCall] at hc
      · simp at hmem
    have hfed : ∀ entry m idr, .onDecodeComplete entry m idr ∈ feedingCalls n cs k →
        entry.slotIdx = none := by
      intro entry m idr hmem
      rcases List.mem_append.mp hmem with hmem | hmem
      · have hm : m = n := by
          obtain ⟨c, -, hc⟩ := List.mem_map.mp hmem
          cases c <;> simp [queueCall] at hc
          exact hc.2.1.symm
        have hfed : (entry, idr) ∈ Bumping.feed seqs := hcs ▸ mem_pushed (hm ▸ hmem)
        obtain ⟨l, hl, hin⟩ := List.mem_flatMap.mp hfed
        refine hslots l hl entry ?_
        cases l with
        | nil => simp at hin
        | cons x xs =>
          rcases List.mem_cons.mp hin with heq | hin
          · exact (Prod.mk.inj heq).1 ▸ List.mem_cons_self
          · obtain ⟨y, hy, heq⟩ := List.mem_map.mp hin
            exact (Prod.mk.inj heq).1 ▸ List.mem_cons_of_mem _ hy
      · simp at hmem
    obtain ⟨⟨out, e⟩, hrun⟩ := hstart.foldlM dpbFlush hflush hfed
    exact ⟨out, e, hrun⟩

/-- Two sequences with a reorder bound of one and a poll in between. -/
theorem display_order_two_sequences :
    let seqs := [[bareEntry 0 0, bareEntry 4 1, bareEntry 2 2], [bareEntry 0 3, bareEntry 2 4]]
    let cs : List (Call Entry) := [.push (bareEntry 0 0) true, .push (bareEntry 4 1) false, .pop,
      .push (bareEntry 2 2) false, .push (bareEntry 0 3) true, .push (bareEntry 2 4) false]
    ∃ out e, QueueCall.runAll H264.flush (DecodeEngine.fresh H264.init) (feedingCalls 1 cs 5) =
      some (out, e) ∧ out = (seqs.map (Bumping.sorted Entry.poc)).flatten := by
  intro seqs cs
  have hadm : ∀ l ∈ seqs, Bumping.Admissible Entry.poc 1 l := by
    intro l hl
    rcases List.mem_cons.mp hl with rfl | hl
    · exact .of_take (by decide) (by decide)
    · obtain rfl := List.mem_singleton.mp hl
      exact .of_take (by decide) (by decide)
  obtain ⟨hall, hsome⟩ := display_order H264.flush H264.init 1 (by decide) seqs hadm cs rfl 5
    (by decide)
  obtain ⟨out, e, hrun⟩ := hsome (by
    intro l hl x hx
    simp only [seqs, List.mem_cons, List.not_mem_nil, or_false] at hl
    rcases hl with rfl | rfl <;> simp at hx <;> rcases hx with rfl | rfl | rfl <;> rfl)
  exact ⟨out, e, hrun, (hall out e hrun).1⟩

end Order

end Rkvdec.Engine
