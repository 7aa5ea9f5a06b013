import Rkvdec.Engine.Display
import Rkvdec.Engine.Exclusive
import Rkvdec.Engine.H265Session

/-! The order of output across IDR pictures, as `DecodeEngine_Submit` drives the queues. Every
submitted picture gets a ticket with the coded sequence it belongs to; the tickets move through a
buffer of their own, which the engine's queues are a projection of. -/
namespace Rkvdec.Engine

/-- A submitted picture and the number of IDR pictures submitted up to it. -/
structure Ticket where
  sequence : Nat
  entry : Entry

def Ticket.poc (t : Ticket) : Int := t.entry.poc

/-- What a call of the caller does to the queues. -/
inductive QueueEvent where
  | submitted (entry : Entry) (bound : Nat) (isIdr spill : Bool)
  | polled
  | drained
  | flushed
  | quiet

/-- The frames handed out, and the queues afterwards. -/
def QueueEvent.apply (s : Bumping Entry) : QueueEvent → List Entry × Bumping Entry
  | .submitted entry bound _ spill =>
    ([], Bumping.push Entry.poc (min bound DecodeEngine.maxReorderPics) spill entry s)
  | .polled => Bumping.pop s
  | .drained => ([], Bumping.drain Entry.poc s)
  | .flushed => ([], ⟨[], []⟩)
  | .quiet => ([], s)

/-- The history of a run: the number of IDR pictures so far, the pictures submitted and not
flushed away, those still in the queues, and those returned to the caller. -/
structure Log where
  sequence : Nat
  submitted : List Ticket
  waiting : Bumping Ticket
  returned : List Ticket

namespace Log

def empty : Log := ⟨0, [], ⟨[], []⟩, []⟩

/-- The ticket of the next picture. -/
def ticket (l : Log) (entry : Entry) (isIdr : Bool) : Ticket :=
  ⟨if isIdr then l.sequence + 1 else l.sequence, entry⟩

def record (l : Log) : QueueEvent → Log
  | .submitted entry bound isIdr spill =>
    { l with
      sequence := (l.ticket entry isIdr).sequence
      submitted := l.submitted ++ [l.ticket entry isIdr]
      waiting := Bumping.push Ticket.poc (min bound DecodeEngine.maxReorderPics) spill
        (l.ticket entry isIdr) l.waiting }
  | .polled =>
    { l with
      waiting := (Bumping.pop l.waiting).2
      returned := l.returned ++ (Bumping.pop l.waiting).1 }
  | .drained => { l with waiting := Bumping.drain Ticket.poc l.waiting }
  | .flushed => { l with submitted := l.returned, waiting := ⟨[], []⟩ }
  | .quiet => l

/-- Whenever a picture was returned, every picture of an earlier sequence had been returned. -/
def InSequenceOrder (l : Log) : Prop :=
  ∀ (i : Nat) (h : i < l.returned.length),
    (l.submitted.filter fun x => x.sequence < l.returned[i].sequence).Subperm (l.returned.take i)

/-- A picture that comes in without a spill has no lower POC than a waiting picture of an earlier
sequence. -/
def Orderly (l : Log) : QueueEvent → Prop
  | .submitted entry _ isIdr spill =>
    spill = true ∨ ∀ x ∈ l.waiting.window,
      x.sequence < (l.ticket entry isIdr).sequence → x.poc ≤ entry.poc
  | _ => True

instance (l : Log) : (ev : QueueEvent) → Decidable (l.Orderly ev)
  | .submitted _ _ _ _ => inferInstanceAs (Decidable (_ ∨ _))
  | .polled | .drained | .flushed | .quiet => inferInstanceAs (Decidable True)

variable {l : Log} {ev : QueueEvent}

/-- The queues of the engine follow the history. -/
theorem map_record (l : Log) (ev : QueueEvent) : (l.record ev).waiting.map Ticket.entry =
      (ev.apply (l.waiting.map Ticket.entry)).2 ∧
    (l.record ev).returned.map Ticket.entry =
      l.returned.map Ticket.entry ++ (ev.apply (l.waiting.map Ticket.entry)).1 := by
  have hkey : Ticket.poc = Entry.poc ∘ Ticket.entry := rfl
  cases ev with
  | submitted entry bound isIdr spill =>
    refine ⟨?_, by simp [record, QueueEvent.apply]⟩
    simp only [record, QueueEvent.apply, hkey, Bumping.map_push]
    rfl
  | polled =>
    simp only [record, QueueEvent.apply, Bumping.pop, Bumping.ready_map]
    cases l.waiting.ready with
    | nil => simp
    | cons x rest => simp [Bumping.map]
  | drained =>
    refine ⟨?_, by simp [record, QueueEvent.apply]⟩
    simp only [record, QueueEvent.apply, hkey, Bumping.map_drain]
  | flushed => simp [record, QueueEvent.apply, Bumping.map]
  | quiet => simp [record, QueueEvent.apply]

/-- A picture and one submitted after it, while both wait. -/
def Follows (a b : Ticket) : Prop :=
  a.sequence ≤ b.sequence ∧ (a.sequence < b.sequence → a.poc ≤ b.poc)

/-- The order invariant on what has left the window and what is in it. -/
structure Sorted (out : List Ticket) (s : Bumping Ticket) : Prop where
  emitted : (out ++ s.ready).Pairwise fun a b => a.sequence ≤ b.sequence
  below : ∀ x ∈ out ++ s.ready, ∀ y ∈ s.window, x.sequence ≤ y.sequence
  window : s.window.Pairwise Follows

theorem Sorted.bump {out : List Ticket} {s : Bumping Ticket} (h : Sorted out s) :
    Sorted out (Bumping.bump Ticket.poc s) := by
  obtain ⟨-, hb⟩ | ⟨pre, x, post, hw, hb, hpre, -⟩ := Bumping.bump_cases Ticket.poc s
  · rw [hb]
    exact h
  have hwin := h.window
  rw [hw, List.pairwise_append] at hwin
  obtain ⟨hlo, hxhi, hcross⟩ := hwin
  obtain ⟨hx, hhi⟩ := List.pairwise_cons.mp hxhi
  -- A waiting picture of an earlier sequence would stand before `x` with a POC not above its own.
  have hfirst : ∀ y ∈ pre ++ post, x.sequence ≤ y.sequence := by
    intro y hy
    rcases List.mem_append.mp hy with hy | hy
    · by_contra hlt
      have hle := (hcross y hy x List.mem_cons_self).2 (by omega)
      exact absurd (hpre y hy) (not_lt.mpr hle)
    · exact (hx y hy).1
  rw [hb]
  refine ⟨?_, ?_, ?_⟩
  · rw [← List.append_assoc, List.pairwise_append]
    refine ⟨h.emitted, by simp, ?_⟩
    intro a ha b hb'
    rw [List.mem_singleton.mp hb']
    exact h.below a ha x (by rw [hw]; simp)
  · intro a ha y hy
    rw [← List.append_assoc] at ha
    rcases List.mem_append.mp ha with ha | ha
    · refine h.below a ha y ?_
      rw [hw]
      rcases List.mem_append.mp hy with hy | hy
      · exact List.mem_append_left _ hy
      · exact List.mem_append_right _ (List.mem_cons_of_mem _ hy)
    · rw [List.mem_singleton.mp ha]
      exact hfirst y hy
  · rw [List.pairwise_append]
    exact ⟨hlo, hhi, fun a ha b hb' => hcross a ha b (List.mem_cons_of_mem _ hb')⟩

theorem Sorted.bumpWhile {out : List Ticket} {s : Bumping Ticket} {bound fuel : Nat}
    (h : Sorted out s) : Sorted out (Bumping.bumpWhile Ticket.poc bound fuel s) :=
  Bumping.bumpWhile_rule (fun _ hs _ => hs.bump) h

/-- Taking in a picture of the newest sequence that no waiting older one has to follow. -/
theorem Sorted.push {out : List Ticket} {s : Bumping Ticket} {t : Ticket} {bound : Nat}
    {spill : Bool} (h : Sorted out s)
    (hlast : ∀ x ∈ out ++ s.contents, x.sequence ≤ t.sequence)
    (hok : spill = true ∨ ∀ x ∈ s.window, x.sequence < t.sequence → x.poc ≤ t.poc) :
    Sorted out (Bumping.push Ticket.poc bound spill t s) := by
  refine Sorted.bumpWhile ?_
  have hspilt : Sorted out (if spill then Bumping.drain Ticket.poc s else s) := by
    split
    · exact h.bumpWhile
    · exact h
  have hperm : (if spill then Bumping.drain Ticket.poc s else s).contents.Perm s.contents := by
    split
    · exact Bumping.perm_drain
    · exact .refl _
  have hwin : ∀ x ∈ (if spill then Bumping.drain Ticket.poc s else s).window,
      x.sequence < t.sequence → x.poc ≤ t.poc := by
    intro x hx
    by_cases hs : spill = true
    · rw [if_pos hs, Bumping.window_drain] at hx
      simp at hx
    · rw [if_neg hs] at hx
      exact hok.resolve_left hs x hx
  generalize (if spill then Bumping.drain Ticket.poc s else s) = s₁ at hspilt hperm hwin
  have hlast₁ : ∀ x ∈ out ++ s₁.contents, x.sequence ≤ t.sequence := by
    intro x hx
    refine hlast x ?_
    rcases List.mem_append.mp hx with hx | hx
    · exact List.mem_append_left _ hx
    · exact List.mem_append_right _ (hperm.mem_iff.mp hx)
  refine ⟨hspilt.emitted, ?_, ?_⟩
  · intro x hx y hy
    rcases List.mem_append.mp hy with hy | hy
    · exact hspilt.below x hx y hy
    · rw [List.mem_singleton.mp hy]
      refine hlast₁ x ?_
      rw [Bumping.contents, ← List.append_assoc]
      exact List.mem_append_left _ hx
  · rw [List.pairwise_append]
    refine ⟨hspilt.window, by simp, ?_⟩
    intro x hx y hy
    rw [List.mem_singleton.mp hy]
    refine ⟨hlast₁ x ?_, hwin x hx⟩
    exact List.mem_append_right _ (List.mem_append_right _ hx)

/-- The run invariant: nothing is lost, tickets are numbered, and the order stands. -/
structure Ordered (l : Log) : Prop where
  conserved : (l.returned ++ l.waiting.contents).Perm l.submitted
  numbered : ∀ x ∈ l.submitted, x.sequence ≤ l.sequence
  sorted : Sorted l.returned l.waiting

theorem ordered_empty : empty.Ordered :=
  ⟨.refl _, by simp [empty], by simp [empty], by simp [empty], by simp [empty]⟩

theorem Ordered.record (h : l.Ordered) (hok : l.Orderly ev) : (l.record ev).Ordered := by
  obtain ⟨hcons, hnum, hsort⟩ := h
  cases ev with
  | submitted entry bound isIdr spill =>
    have hle : l.sequence ≤ (l.ticket entry isIdr).sequence := by
      unfold ticket
      dsimp only
      split <;> omega
    refine ⟨?_, ?_, ?_⟩
    · refine (List.Perm.append_left l.returned Bumping.perm_push).trans ?_
      rw [← List.append_assoc]
      exact hcons.append_right _
    · intro x hx
      rcases List.mem_append.mp hx with hx | hx
      · exact (hnum x hx).trans hle
      · rw [List.mem_singleton.mp hx]
        exact le_rfl
    · refine hsort.push ?_ hok
      intro x hx
      exact (hnum x (hcons.mem_iff.mp hx)).trans hle
  | polled =>
    obtain ⟨hready, hwin⟩ := Bumping.pop_emitted (s := l.waiting)
    have heq : (l.returned ++ (Bumping.pop l.waiting).1) ++ (Bumping.pop l.waiting).2.ready =
        l.returned ++ l.waiting.ready := by
      rw [List.append_assoc, hready]
    refine ⟨?_, hnum, ?_, ?_, ?_⟩
    · simp only [Log.record, Bumping.contents, hwin]
      rw [← List.append_assoc, heq, List.append_assoc]
      exact hcons
    · simp only [Log.record, heq]
      exact hsort.emitted
    · simp only [Log.record, heq, hwin]
      exact hsort.below
    · simp only [Log.record, hwin]
      exact hsort.window
  | drained =>
    exact ⟨(List.Perm.append_left l.returned Bumping.perm_drain).trans hcons, hnum,
      hsort.bumpWhile⟩
  | flushed =>
    refine ⟨by simp [Log.record, Bumping.contents], ?_, ?_, ?_, ?_⟩
    · exact fun x hx => hnum x (hcons.mem_iff.mp (List.mem_append_left _ hx))
    · simpa [Log.record] using (List.pairwise_append.mp hsort.emitted).1
    · simp [Log.record]
    · simp [Log.record]
  | quiet => exact ⟨hcons, hnum, hsort⟩

theorem Ordered.inSequenceOrder (h : l.Ordered) : l.InSequenceOrder := by
  intro i hi
  have hsplit : l.returned = l.returned.take i ++ l.returned[i] :: l.returned.drop (i + 1) := by
    rw [List.getElem_cons_drop hi, List.take_append_drop]
  generalize hy : l.returned[i] = y at *
  -- Everything that is not among the first `i` returned pictures is of this sequence or later.
  have hlater : ∀ x ∈ y :: l.returned.drop (i + 1) ++ l.waiting.contents,
      ¬ x.sequence < y.sequence := by
    have hem := h.sorted.emitted
    rw [hsplit, List.append_assoc, List.pairwise_append] at hem
    obtain ⟨-, hrest, -⟩ := hem
    rw [List.cons_append, List.pairwise_cons] at hrest
    intro x hx
    rw [Bumping.contents, List.cons_append, ← List.append_assoc] at hx
    rcases List.mem_cons.mp hx with rfl | hx
    · exact lt_irrefl _
    · rcases List.mem_append.mp hx with hx | hx
      · exact not_lt.mpr (hrest.1 x hx)
      · refine not_lt.mpr (h.sorted.below y ?_ x hx)
        rw [← hy]
        exact List.mem_append_left _ (List.getElem_mem hi)
  have hfilter : (l.submitted.filter fun x => x.sequence < y.sequence).Perm
      ((l.returned.take i).filter fun x => x.sequence < y.sequence) := by
    refine (h.conserved.symm.filter _).trans ?_
    have heq : l.returned ++ l.waiting.contents =
        l.returned.take i ++ (y :: l.returned.drop (i + 1) ++ l.waiting.contents) := by
      rw [← List.append_assoc, ← hsplit]
    rw [heq, List.filter_append]
    have hnone : (y :: l.returned.drop (i + 1) ++ l.waiting.contents).filter
        (fun x => decide (x.sequence < y.sequence)) = [] := by
      rw [List.filter_eq_nil_iff]
      intro x hx
      simpa using hlater x hx
    rw [hnone, List.append_nil]
  exact hfilter.subperm.trans List.filter_sublist.subperm

/-- While sequences start with a spill, all waiting pictures are of the newest one. -/
def Current (l : Log) : Prop := ∀ x ∈ l.waiting.window, x.sequence = l.sequence

/-- The event spills exactly when it brings an IDR picture. -/
def Spills : QueueEvent → Prop
  | .submitted _ _ isIdr spill => spill = isIdr
  | _ => True

theorem Current.orderly (h : l.Current) (hs : Spills ev) : l.Orderly ev := by
  cases ev with
  | submitted entry bound isIdr spill =>
    cases isIdr with
    | true => exact .inl hs
    | false =>
      refine .inr fun x hx hlt => ?_
      rw [h x hx] at hlt
      simp [ticket] at hlt
  | polled => trivial
  | drained => trivial
  | flushed => trivial
  | quiet => trivial

theorem mem_window_bumpWhile {s : Bumping Ticket} {bound fuel : Nat} {x : Ticket}
    (h : x ∈ (Bumping.bumpWhile Ticket.poc bound fuel s).window) : x ∈ s.window := by
  revert h
  refine Bumping.bumpWhile_rule (P := fun s' => x ∈ s'.window → x ∈ s.window) ?_ id
  intro s' ih _ hx
  apply ih
  obtain ⟨-, hb⟩ | ⟨pre, y, post, hw, hb, -⟩ := Bumping.bump_cases Ticket.poc s'
  · rwa [hb] at hx
  · rw [hb] at hx
    rw [hw]
    rcases List.mem_append.mp hx with hx | hx
    · exact List.mem_append_left _ hx
    · exact List.mem_append_right _ (List.mem_cons_of_mem _ hx)

theorem Current.record (h : l.Current) (hs : Spills ev) : (l.record ev).Current := by
  cases ev with
  | submitted entry bound isIdr spill =>
    obtain rfl : spill = isIdr := hs
    intro x hx
    rcases List.mem_append.mp (mem_window_bumpWhile hx) with hx | hx
    · cases spill with
      | true =>
        rw [if_pos rfl, Bumping.window_drain] at hx
        simp at hx
      | false => exact h x hx
    · rw [List.mem_singleton.mp hx]
      rfl
  | polled =>
    intro x hx
    exact h x (by simpa [Log.record, Bumping.pop_emitted.2] using hx)
  | drained =>
    intro x hx
    simp [Log.record, Bumping.window_drain] at hx
  | flushed =>
    intro x hx
    simp [Log.record] at hx
  | quiet => exact h

end Log

/-- A caller's view of an engine: its calls, what each does to the queues, and the frames a call
hands out. -/
structure Player (σ ω : Type) where
  step : σ → ω → Option σ
  event : σ → ω → QueueEvent
  polled : σ → ω → List Entry

namespace Player

variable {σ ω : Type} {p : Player σ ω}

/-- The session, its history, and the frames the caller was handed. -/
structure Played (σ : Type) where
  session : σ
  log : Log
  shown : List Entry

def play (p : Player σ ω) (st : Played σ) (op : ω) : Option (Played σ) :=
  (p.step st.session op).map fun s' =>
    ⟨s', st.log.record (p.event st.session op), st.shown ++ p.polled st.session op⟩

def run (p : Player σ ω) (s : σ) (ops : List ω) : Option (Played σ) :=
  ops.foldlM p.play ⟨s, .empty, []⟩

/-- Every call of the run is orderly in the state it is made in. -/
def Orderly (p : Player σ ω) : Played σ → List ω → Prop
  | _, [] => True
  | st, op :: ops => st.log.Orderly (p.event st.session op) ∧
      match p.play st op with
      | none => True
      | some st' => Orderly p st' ops

instance decidableOrderly (p : Player σ ω) : (st : Played σ) → (ops : List ω) →
    Decidable (p.Orderly st ops)
  | _, [] => inferInstanceAs (Decidable True)
  | st, op :: ops =>
    have _ : Decidable (match p.play st op with
        | none => True
        | some st' => Orderly p st' ops) :=
      match p.play st op with
      | none => inferInstanceAs (Decidable True)
      | some st' => decidableOrderly p st' ops
    inferInstanceAs (Decidable (_ ∧ _))

/-- The engine of `session` has queues that follow the events. -/
def Follows (p : Player σ ω) (view : σ → Bumping Entry) : Prop :=
  ∀ s op s', p.step s op = some s' →
    (p.polled s op, view s') = (p.event s op).apply (view s)

/-- History and engine agree. -/
def Agrees (view : σ → Bumping Entry) (st : Played σ) : Prop :=
  view st.session = st.log.waiting.map Ticket.entry ∧
    st.log.returned.map Ticket.entry = st.shown

variable {view : σ → Bumping Entry} {st st' : Played σ} {op : ω} {ops : List ω}

theorem agrees_play (hp : p.Follows view) (h : Agrees view st) (hplay : p.play st op = some st') :
    Agrees view st' := by
  obtain ⟨hview, hshown⟩ := h
  obtain ⟨s', hs', rfl⟩ := Option.map_eq_some_iff.mp hplay
  have hstep := hp _ _ _ hs'
  obtain ⟨hwait, hret⟩ := Log.map_record st.log (p.event st.session op)
  rw [← hview, ← hstep] at hwait hret
  exact ⟨hwait.symm, by rw [hret, hshown]⟩

/-- What an orderly call keeps, an orderly run keeps. -/
theorem ordered_run (hp : p.Follows view) (ha : Agrees view st) (ho : st.log.Ordered)
    (hops : p.Orderly st ops) (hrun : ops.foldlM p.play st = some st') :
    Agrees view st' ∧ st'.log.Ordered := by
  induction ops generalizing st with
  | nil =>
    obtain rfl := Option.some.inj hrun
    exact ⟨ha, ho⟩
  | cons op ops ih =>
    obtain ⟨st₁, h₁, hrest⟩ := foldlM_cons_some hrun
    obtain ⟨hop, hops⟩ := hops
    rw [h₁] at hops
    refine ih (agrees_play hp ha h₁) ?_ hops hrest
    obtain ⟨s', -, rfl⟩ := Option.map_eq_some_iff.mp h₁
    exact ho.record hop

/-- With a spill at every IDR picture, every run is orderly. -/
theorem orderly_of_spills (hs : ∀ s op, Log.Spills (p.event s op)) (hc : st.log.Current) :
    p.Orderly st ops := by
  induction ops generalizing st with
  | nil => trivial
  | cons op ops ih =>
    refine ⟨hc.orderly (hs _ _), ?_⟩
    cases hplay : p.play st op with
    | none => trivial
    | some st' =>
      obtain ⟨s', -, rfl⟩ := Option.map_eq_some_iff.mp hplay
      exact ih (hc.record (hs _ _))

end Player

namespace H264

/-- The picture a submission brings into the queues, if it brings one. -/
def picture (e : H264Engine) (au : AccessUnit) (ptsHns : Int) (epoch : BitVec 32) :
    Option (Entry × Parsed) :=
  if e.waitForIdr && !au.hasIrap then none
  else
    match decodeOne { e with waitForIdr := false } au, au.parsed with
    | some (true, e), some parsed =>
      some ({ poc := parsed.topFieldOrderCnt
              ptsHns := if ptsHns < 0 then (e.submitCount * 10000000 / 30 : Nat) else ptsHns
              durHns := frameDurHns
              slotIdx := e.lastDecodedSlot
              isRef := match e.lastDecodedSlot with
                | none => false
                | some i => (e.dpb.slots i).ref.isRef
              epoch := epoch }, parsed)
    | _, _ => none

def player : Player Session Op where
  step := Session.step
  event := fun s op => match op with
    | .submit au ptsHns =>
      match picture s.engine au ptsHns (BitVec.ofNat 32 s.flushes) with
      | none => .quiet
      | some (entry, parsed) =>
        .submitted entry (resolveMaxReorder (some parsed)) parsed.isIdr parsed.isIdr
    | .pollFrame => .polled
    | .releaseFrame _ => .quiet
    | .drain => .drained
    | .flush => .flushed
  polled := fun s op => match op with
    | .pollFrame => match s.engine.pollFrame with
      | some (frame, _) => frame.toList
      | none => []
    | _ => []

variable {e e' : H264Engine} {au : AccessUnit} {ptsHns : Int} {epoch : BitVec 32}

/-- Decoding leaves the queues alone. -/
theorem view_decodeOne {ok : Bool} (h : decodeOne e au = some (ok, e')) : e'.view = e.view := by
  unfold decodeOne at h
  split at h
  · obtain ⟨-, rfl⟩ := Prod.mk.inj (Option.some.inj h)
    rfl
  · simp only [Option.bind_eq_bind, Option.bind_eq_some_iff] at h
    obtain ⟨⟨status, slot, d⟩, -, h⟩ := h
    split at h
    · split_ifs at h <;> obtain ⟨-, rfl⟩ := Prod.mk.inj (Option.some.inj h) <;> rfl
    · obtain ⟨-, rfl⟩ := Prod.mk.inj (Option.some.inj h)
      rfl

/-- The hold taken on the new slot does not show in the entry. -/
theorem enqueue_some {parsed : Parsed} (h : enqueue e parsed ptsHns epoch = some e') :
    ∃ e₁ : H264Engine, e₁.view = e.view ∧ e₁.onDecodeComplete
      { poc := parsed.topFieldOrderCnt
        ptsHns := if ptsHns < 0 then (e.submitCount * 10000000 / 30 : Nat) else ptsHns
        durHns := frameDurHns
        slotIdx := e.lastDecodedSlot
        isRef := match e.lastDecodedSlot with
          | none => false
          | some i => (e.dpb.slots i).ref.isRef
        epoch := epoch } (resolveMaxReorder (some parsed)) parsed.isIdr = some e' := by
  cases hlast : e.lastDecodedSlot with
  | none =>
    simp only [enqueue, hlast, Option.bind_eq_bind, Option.bind_some] at h
    refine ⟨_, ?_, h⟩
    rfl
  | some i =>
    simp only [enqueue, hlast, Option.bind_eq_bind, Option.bind_eq_some_iff] at h
    obtain ⟨d, hd, h⟩ := h
    have href : (d.slots i).ref = (e.dpb.slots i).ref := by
      simp only [Dpb.addHold] at hd
      split_ifs at hd
      obtain rfl := Option.some.inj hd
      exact Dpb.ref_setFlag
    rw [href] at h
    refine ⟨_, ?_, h⟩
    rfl

theorem view_submit (h : submit e au ptsHns epoch = some e') :
    match picture e au ptsHns epoch with
    | none => e'.view = e.view
    | some (entry, parsed) => ∃ e₁ : H264Engine, e₁.view = e.view ∧
        e₁.onDecodeComplete entry (resolveMaxReorder (some parsed)) parsed.isIdr = some e' := by
  unfold submit at h
  unfold picture
  by_cases hgate : (e.waitForIdr && !au.hasIrap) = true
  · rw [if_pos hgate] at h ⊢
    obtain rfl := Option.some.inj h
    rfl
  · rw [if_neg hgate] at h ⊢
    simp only [Option.bind_eq_bind, Option.bind_eq_some_iff] at h
    obtain ⟨⟨ok, e₁⟩, h₁, h⟩ := h
    have hv₁ : e₁.view = e.view := view_decodeOne (e := { e with waitForIdr := false }) h₁
    rw [h₁]
    cases ok with
    | false =>
      obtain rfl := Option.some.inj h
      exact hv₁
    | true =>
      cases hp : au.parsed with
      | none =>
        rw [hp] at h
        obtain rfl := Option.some.inj h
        exact hv₁
      | some parsed =>
        rw [hp] at h
        obtain ⟨e₂, hv₂, h₂⟩ := enqueue_some h
        exact ⟨e₂, hv₂.trans hv₁, h₂⟩

theorem player_follows : player.Follows fun s => s.engine.view := by
  intro s op s' hstep
  cases op with
  | submit au ptsHns =>
    obtain ⟨e', he', rfl⟩ := bind_pure_some hstep
    have hv := view_submit he'
    cases hp : picture s.engine au ptsHns (BitVec.ofNat 32 s.flushes) with
    | none =>
      rw [hp] at hv
      simp only [player, hp, QueueEvent.apply]
      exact congrArg (Prod.mk []) hv
    | some pic =>
      obtain ⟨entry, parsed⟩ := pic
      rw [hp] at hv
      obtain ⟨e₁, hv₁, h₁⟩ := hv
      simp only [player, hp, QueueEvent.apply]
      rw [(DecodeEngine.view_onDecodeComplete h₁).1, hv₁]
  | pollFrame =>
    obtain ⟨⟨frame, e'⟩, he', rfl⟩ := bind_pure_some hstep
    simp only [player, he', QueueEvent.apply]
    exact (DecodeEngine.view_pollFrame he').1
  | releaseFrame k =>
    simp only [player, Session.step] at hstep
    split at hstep
    · obtain rfl := Option.some.inj hstep
      rfl
    · obtain ⟨e', hrelease, rfl⟩ := bind_pure_some hstep
      obtain ⟨d, -, rfl⟩ := bind_pure_some hrelease
      rfl
  | drain =>
    obtain ⟨e', he', rfl⟩ := bind_pure_some hstep
    simp only [player, QueueEvent.apply]
    rw [(DecodeEngine.view_drain he').1]
  | flush =>
    obtain ⟨e', he', rfl⟩ := bind_pure_some hstep
    simp only [player, QueueEvent.apply]
    rw [(DecodeEngine.view_flush he').1]

end H264

namespace H265

/-- The picture a submission brings into the queues, if it brings one. -/
def picture (e : H265Engine) (au : AccessUnit) (ptsHns : Int) (epoch : BitVec 32) :
    Option (Entry × Parsed) :=
  if e.waitForIdr && !au.hasIrap then none
  else
    match decodeOne { e with waitForIdr := false } au, au.parsed with
    | (true, e), some parsed => some (makeEntry e parsed ptsHns epoch, parsed)
    | _, _ => none

def player : Player Session Op where
  step := Session.step
  event := fun s op => match op with
    | .submit au ptsHns =>
      match picture s.engine au ptsHns (BitVec.ofNat 32 s.flushes) with
      | none => .quiet
      | some (entry, parsed) => .submitted entry (resolveMaxReorder parsed) parsed.isIdr false
    | .pollFrame => .polled
    | .releaseFrame _ => .quiet
    | .drain => .drained
    | .flush => .flushed
  polled := fun s op => match op with
    | .pollFrame => match s.engine.pollFrame with
      | some (frame, _) => frame.toList
      | none => []
    | _ => []

variable {e e' : H265Engine} {au : AccessUnit} {ptsHns : Int} {epoch : BitVec 32}

theorem view_decodeOne : (decodeOne e au).2.view = e.view := by
  obtain ⟨hre, hrd, -⟩ := decodeOne_spec e au
  simp only [DecodeEngine.view, hre, hrd]

/-- The hold taken on the new slot does not show in the entry. -/
theorem enqueue_some {parsed : Parsed} (h : enqueue e parsed ptsHns epoch = some e') :
    ∃ e₁ : H265Engine, e₁.view = e.view ∧ e₁.onDecodeComplete (makeEntry e parsed ptsHns epoch)
      (resolveMaxReorder parsed) false = some e' := by
  cases hlast : e.lastDecodedSlot with
  | none =>
    simp only [enqueue, hlast, Option.bind_eq_bind, Option.bind_some] at h
    refine ⟨_, ?_, by simpa only [makeEntry, hlast] using h⟩
    rfl
  | some i =>
    simp only [enqueue, hlast, Option.bind_eq_bind, Option.bind_eq_some_iff] at h
    obtain ⟨d, hd, h⟩ := h
    have href : (d.slots i).ref = (e.dpb.slots i).ref := by
      simp only [Dpb.addHold] at hd
      split_ifs at hd
      obtain rfl := Option.some.inj hd
      exact Dpb.ref_setFlag
    refine ⟨_, ?_, by simpa only [makeEntry, hlast, href] using h⟩
    rfl

theorem view_submit (h : submit e au ptsHns epoch = some e') :
    match picture e au ptsHns epoch with
    | none => e'.view = e.view
    | some (entry, parsed) => ∃ e₁ : H265Engine, e₁.view = e.view ∧
        e₁.onDecodeComplete entry (resolveMaxReorder parsed) false = some e' := by
  unfold submit at h
  unfold picture
  by_cases hgate : (e.waitForIdr && !au.hasIrap) = true
  · rw [if_pos hgate] at h ⊢
    obtain rfl := Option.some.inj h
    rfl
  · rw [if_neg hgate] at h ⊢
    have hv₁ : (decodeOne { e with waitForIdr := false } au).2.view = e.view := view_decodeOne
    rcases hres : decodeOne { e with waitForIdr := false } au with ⟨ok, e₁⟩
    rw [hres] at h hv₁
    cases ok with
    | false =>
      obtain rfl := Option.some.inj h
      exact hv₁
    | true =>
      cases hp : au.parsed with
      | none =>
        rw [hp] at h
        obtain rfl := Option.some.inj h
        exact hv₁
      | some parsed =>
        rw [hp] at h
        obtain ⟨e₂, hv₂, h₂⟩ := enqueue_some h
        exact ⟨e₂, hv₂.trans hv₁, h₂⟩

theorem player_follows : player.Follows fun s => s.engine.view := by
  intro s op s' hstep
  cases op with
  | submit au ptsHns =>
    obtain ⟨e', he', rfl⟩ := bind_pure_some hstep
    have hv := view_submit he'
    cases hp : picture s.engine au ptsHns (BitVec.ofNat 32 s.flushes) with
    | none =>
      rw [hp] at hv
      simp only [player, hp, QueueEvent.apply]
      exact congrArg (Prod.mk []) hv
    | some pic =>
      obtain ⟨entry, parsed⟩ := pic
      rw [hp] at hv
      obtain ⟨e₁, hv₁, h₁⟩ := hv
      simp only [player, hp, QueueEvent.apply]
      rw [(DecodeEngine.view_onDecodeComplete h₁).1, hv₁]
  | pollFrame =>
    obtain ⟨⟨frame, e'⟩, he', rfl⟩ := bind_pure_some hstep
    simp only [player, he', QueueEvent.apply]
    exact (DecodeEngine.view_pollFrame he').1
  | releaseFrame k =>
    simp only [player, Session.step] at hstep
    split at hstep
    · obtain rfl := Option.some.inj hstep
      rfl
    · obtain ⟨e', hrelease, rfl⟩ := bind_pure_some hstep
      obtain ⟨d, -, rfl⟩ := bind_pure_some hrelease
      rfl
  | drain =>
    obtain ⟨e', he', rfl⟩ := bind_pure_some hstep
    simp only [player, QueueEvent.apply]
    rw [(DecodeEngine.view_drain he').1]
  | flush =>
    obtain ⟨e', he', rfl⟩ := bind_pure_some hstep
    simp only [player, QueueEvent.apply]
    rw [(DecodeEngine.view_flush he').1]

end H265

/-- The history agrees with a run of `player` exactly when the session run goes through. -/
theorem Player.run_isSome {σ ω : Type} (p : Player σ ω) {s s' : σ} {ops : List ω} (l : Log)
    (shown : List Entry) (h : ops.foldlM p.step s = some s') :
    ∃ st, ops.foldlM p.play ⟨s, l, shown⟩ = some st ∧ st.session = s' := by
  induction ops generalizing s l shown with
  | nil => exact ⟨_, rfl, Option.some.inj h⟩
  | cons op ops ih =>
    obtain ⟨s₁, h₁, hrest⟩ := foldlM_cons_some h
    obtain ⟨st, hst, hs⟩ := ih (l.record (p.event s op)) (shown ++ p.polled s op) hrest
    refine ⟨st, ?_, hs⟩
    simp only [List.foldlM_cons, Player.play, h₁, Option.map_some, Option.bind_eq_bind,
      Option.bind_some]
    exact hst

/-- Output order across IDR pictures. Every run of the H.264 engine returns all pictures submitted
before an IDR picture before that picture and any later one. A run of the H.265 engine does so if
no picture is submitted whose POC is below that of a waiting picture of an earlier sequence. -/
theorem idr_output_order (ops : List H264.Op) :
    (∃ st, H264.player.run H264.Session.init ops = some st ∧
      st.log.returned.map Ticket.entry = st.shown ∧ st.log.InSequenceOrder) ∧
    (∀ buffers ops st, H265.player.run (H265.Session.init buffers) ops = some st →
      H265.player.Orderly ⟨H265.Session.init buffers, .empty, []⟩ ops →
      st.log.returned.map Ticket.entry = st.shown ∧ st.log.InSequenceOrder) := by
  constructor
  · obtain ⟨s, hs, -⟩ := H264.Session.inv_run ops
    obtain ⟨st, hst, -⟩ := H264.player.run_isSome .empty [] hs
    have hspill : ∀ s op, Log.Spills (H264.player.event s op) := by
      intro s op
      cases op with
      | submit au ptsHns =>
        simp only [H264.player]
        split <;> trivial
      | pollFrame => trivial
      | releaseFrame k => trivial
      | drain => trivial
      | flush => trivial
    obtain ⟨hagree, hord⟩ := Player.ordered_run H264.player_follows ⟨rfl, rfl⟩ Log.ordered_empty
      (Player.orderly_of_spills hspill (by simp [Log.Current, Log.empty])) hst
    exact ⟨st, hst, hagree.2, hord.inSequenceOrder⟩
  · intro buffers ops st hst hops
    obtain ⟨hagree, hord⟩ := Player.ordered_run H265.player_follows ⟨rfl, rfl⟩ Log.ordered_empty
      hops hst
    exact ⟨hagree.2, hord.inSequenceOrder⟩

namespace H265

/-- A decoded picture of a stream with one reordered picture, with the whole DPB as its
references. -/
def reorderUnit (isIdr : Bool) (poc : Int) : AccessUnit where
  hasIrap := isIdr
  parsed := some
    { hasSlice := true, isIdr := isIdr, nalRefFlag := true, poc := poc
      activeSps := some ⟨true, 0, fun _ => ⟨0, 0, fun _ => 0⟩, 0, fun _ => 1⟩
      shortTermRefPicSetSpsFlag := false, shortTermRefPicSetIdx := 0
      stRpsSlice := ⟨1, 0, fun _ => -poc⟩ }
  packOk := true
  regbuildOk := true
  decodeOk := true

/-- Intra-only streams, every picture an IDR, come out in order. -/
theorem idr_output_order_intra :
    let ops := [Op.submit (reorderUnit true 0) 0, .submit (reorderUnit true 0) 1, .pollFrame,
      .submit (reorderUnit true 0) 2, .pollFrame]
    ∃ st, player.run (Session.init fun _ => ⟨1, 1⟩) ops = some st ∧ st.shown.length = 2 ∧
      st.log.InSequenceOrder := by
  intro ops
  have hrun : ((player.run (Session.init fun _ => ⟨1, 1⟩) ops).any fun st =>
      st.shown.length == 2) = true := by decide +kernel
  obtain ⟨st, hst, hlen⟩ := Option.any_eq_true _ _ |>.mp hrun
  refine ⟨st, hst, by simpa using hlen, ?_⟩
  exact ((idr_output_order []).2 (fun _ => ⟨1, 1⟩) ops st hst (by decide +kernel)).2

/-- The second IDR picture is returned while a picture of the first sequence waits. -/
theorem idr_overtakes :
    let ops := [Op.submit (reorderUnit true 0) 0, .submit (reorderUnit false 8) 1,
      .submit (reorderUnit true 0) 2, .pollFrame, .pollFrame]
    ∃ st, player.run (Session.init fun _ => ⟨1, 1⟩) ops = some st ∧
      ¬ st.log.InSequenceOrder := by
  intro ops
  have hrun : ((player.run (Session.init fun _ => ⟨1, 1⟩) ops).any fun st =>
      (st.log.returned.map Ticket.sequence == [1, 2]) &&
        (st.log.submitted.map Ticket.sequence == [1, 1, 2])) = true := by decide +kernel
  obtain ⟨st, hst, hdata⟩ := Option.any_eq_true _ _ |>.mp hrun
  simp only [Bool.and_eq_true, beq_iff_eq] at hdata
  obtain ⟨hret, hsub⟩ := hdata
  refine ⟨st, hst, fun horder => ?_⟩
  have hlen : st.log.returned.length = 2 := by
    have := congrArg List.length hret
    simpa using this
  have hle := (horder 1 (by omega)).length_le
  have hseq : st.log.returned[1].sequence = 2 := by
    have h1 : (st.log.returned.map Ticket.sequence)[1]? = some 2 := by rw [hret]; rfl
    rw [List.getElem?_map, List.getElem?_eq_getElem (by omega)] at h1
    simpa using h1
  have hcount : (st.log.submitted.filter fun x => x.sequence < 2).length = 2 := by
    have hmap : (st.log.submitted.map Ticket.sequence).countP (fun n => decide (n < 2)) = 2 := by
      rw [hsub]; rfl
    rw [List.countP_map] at hmap
    rw [← List.countP_eq_length_filter]
    exact hmap
  rw [hseq, hcount, List.length_take] at hle
  omega

end H265

end Rkvdec.Engine
