import Rkvdec.Av1d.JobDrain

/-! The order in which the jobs of a file are started: the one in which the queue lock was taken for
them, unless a submission takes the codec while an older job of its file waits. -/
namespace Rkvdec.Av1d.JobQueue

open Lib Kernel
open Dispatch (File Ptr)

variable {k k' : Kernel} {F : Multiset Frame} {call : Frame} {calls : List Frame}
  {tr events : List Event} {r : Request} {good : Bool} {p q : Ptr} {f : File} {G : Guard} {s : Sys}

section Trace

namespace Event

def admission : Event → Option Ptr
  | .admitted p => some p
  | _ => none

def launch : Event → Option Ptr
  | .launched p => some p
  | _ => none

/-- The event puts a job on `Pending` or takes one off it. -/
def queues : Event → Bool
  | .admitted _ | .launched _ | .withdrawn _ => true
  | _ => false

end Event

/-- The jobs that entered the queue, in this order. -/
def admitted (tr : List Event) : List Ptr := tr.filterMap Event.admission

/-- The jobs that entered `InFlight`, in this order. -/
def launched (tr : List Event) : List Ptr := tr.filterMap Event.launch

theorem admitted_append : admitted (tr ++ events) = admitted tr ++ admitted events :=
  List.filterMap_append

theorem launched_append : launched (tr ++ events) = launched tr ++ launched events :=
  List.filterMap_append

theorem mem_launched : p ∈ launched tr ↔ .launched p ∈ tr := by
  refine List.mem_filterMap.trans ⟨?_, fun h => ⟨_, h, rfl⟩⟩
  rintro ⟨e, he, heq⟩
  cases e with
  | launched q =>
    obtain rfl := Option.some.inj heq
    exact he
  | _ => cases heq

/-- Events that put no job on `Pending` and take none off. -/
theorem unqueued (h : ∀ e ∈ events, e.queues = false) :
    admitted events = [] ∧ launched events = [] := by
  refine ⟨List.filterMap_eq_nil_iff.mpr fun e he => ?_,
    List.filterMap_eq_nil_iff.mpr fun e he => ?_⟩ <;>
  · have := h e he
    cases e with
    | admitted | launched => first | rfl | cases this
    | _ => rfl

end Trace

/-- The file whose submission the section is. -/
def Frame.submitter : Frame → Option File
  | .submitEnqueue f _ => some f
  | _ => none

/-- No submission takes the empty slot while a job of its file waits. -/
def queued : Guard where
  enter := fun _ _ _ => True
  exec := fun k call _ _ => ∀ f ∈ call.submitter, ¬ Capped k f → k.queue.StartNow →
    ∀ p ∈ k.queue.pending, (k.jobs p).owner ≠ f

instance (mem : Kernel) (F : Multiset Frame) (r : Request) : Decidable (queued.enter mem F r) :=
  inferInstanceAs (Decidable True)

instance (mem : Kernel) (call : Frame) (F : Multiset Frame) (good : Bool) :
    Decidable (queued.exec mem call F good) :=
  inferInstanceAs (Decidable (∀ f ∈ call.submitter, _))

section Pairs

variable {α : Type} {x y : α} {l : List α}

theorem pair_of_mem {l₁ l₂ : List α} (hx : x ∈ l₁) (hy : y ∈ l₂) : [x, y].Sublist (l₁ ++ l₂) :=
  (List.singleton_sublist.mpr hx).append (List.singleton_sublist.mpr hy)

/-- Of two elements of a list without repetitions one comes first. -/
theorem not_pair_swap (h : l.Nodup) (hxy : [x, y].Sublist l) : ¬ [y, x].Sublist l := by
  induction l with
  | nil => cases hxy
  | cons a l ih =>
    obtain ⟨ha, hl⟩ := List.nodup_cons.mp h
    intro hyx
    cases hxy with
    | cons _ hxy =>
      cases hyx with
      | cons _ hyx => exact ih hl hxy hyx
      | cons_cons _ hyx => exact ha (hxy.subset (by simp))
    | cons_cons _ hxy =>
      cases hyx with
      | cons _ hyx => exact ha (hyx.subset (by simp))
      | cons_cons _ hyx => exact ha (hxy.subset (by simp))

end Pairs

/-- What a section does to `Pending`. -/
inductive Queues (k k' : Kernel) (call : Frame) (events : List Event) : Prop
  | none (quiet : ∀ e ∈ events, e.queues = false) (pending : k'.queue.pending = k.queue.pending)
  | start (f : File) (p : Ptr) (is : call = .submitEnqueue f p) (room : ¬ Capped k f)
      (now : k.queue.StartNow) (eq : events = [.launched p, .admitted p])
      (pending : k'.queue.pending = k.queue.pending)
  | wait (f : File) (p : Ptr) (is : call = .submitEnqueue f p) (eq : events = [.admitted p])
      (pending : k'.queue.pending = k.queue.pending ++ [p])
  | promote (p : Ptr) (eq : events = [.launched p])
      (pending : k.queue.pending = p :: k'.queue.pending)
  | withdraw (p : Ptr) (eq : events = [.withdrawn p])
      (pending : k'.queue.pending = k.queue.pending.erase p)

theorem Runs.queues (h : Runs k call good k' calls events) : Queues k k' call events := by
  induction h with
  | submitStart room free open_ => exact .start _ _ rfl room ⟨free, open_⟩ rfl rfl
  | submitWait => exact .wait _ _ rfl rfl rfl
  | startFailed alive events_eq =>
    rcases events_eq with rfl | rfl <;> exact .none (by simp [Event.queues]) rfl
  | workerPromote rearm open_ free head | resumePromote free head => exact .promote _ rfl head
  | waitExpiredPending => exact .withdraw _ rfl rfl
  | _ => exact .none (by simp [Event.queues]) rfl

section Admissions

/-- A job is admitted once: it is allocated, and no thread has it to submit any more. -/
structure Admissions (k : Kernel) (F : Multiset Frame) (tr : List Event) : Prop where
  nodup : (admitted tr).Nodup
  known : ∀ p ∈ admitted tr, p < k.nextPtr ∧ p ∉ gather Frame.submits F

theorem Runs.admitted (h : Runs k call good k' calls events) :
    JobQueue.admitted events = [] ∨
      ∃ f p, call = .submitEnqueue f p ∧ JobQueue.admitted events = [p] := by
  rcases h.queues with ⟨hquiet⟩ | ⟨f, p, rfl, -, -, rfl⟩ | ⟨f, p, rfl, rfl⟩ | ⟨p, rfl⟩ | ⟨p, rfl⟩
  · exact .inl ((unqueued hquiet).1)
  · exact .inr ⟨f, p, rfl, rfl⟩
  · exact .inr ⟨f, p, rfl, rfl⟩
  · exact .inl rfl
  · exact .inl rfl

theorem Enters.admitted (h : Enters k r k' calls events) : JobQueue.admitted events = [] := by
  refine List.filterMap_eq_nil_iff.mpr fun e he => ?_
  rcases h.emits he with ⟨f, status, rfl⟩ | rfl | ⟨rfl, -⟩ | ⟨p, -, rfl⟩ <;> rfl

/-- No two threads submit one job. -/
theorem Ledger.submits_apart (h : Ledger k (.submitEnqueue f p ::ₘ F)) :
    p ∉ gather Frame.submits F := by
  intro hmem
  have hnodup := (Multiset.nodup_add.mp h.nodup).2.1
  rw [gather_cons] at hnodup
  refine Multiset.disjoint_left.mp (Multiset.nodup_add.mp hnodup).2.2 ?_ (owned_of_submits hmem)
  exact List.mem_singleton_self p

theorem Admissions.runs (h : Admissions k (call ::ₘ F) tr) (hledger : Ledger k (call ::ₘ F))
    (howners : Owners k (call ::ₘ F)) (hrun : Runs k call good k' calls events) :
    Admissions k' (↑calls + F) (tr ++ events) := by
  have hold : ∀ p ∈ admitted tr, p < k.nextPtr ∧ p ∉ gather Frame.submits F := fun p hp =>
    ⟨(h.known p hp).1, fun hmem => (h.known p hp).2 (mem_gather_cons.mpr (.inr hmem))⟩
  rcases hrun.admitted with hnone | ⟨f, p, rfl, hone⟩
  · refine ⟨?_, fun p hp => ?_⟩
    · rw [admitted_append, hnone, List.append_nil]
      exact h.nodup
    · rw [admitted_append, hnone, List.append_nil] at hp
      rw [hrun.nextPtr, gather_keep hrun.submits]
      exact hold p hp
  · have hsubmits : p ∈ gather Frame.submits (.submitEnqueue f p ::ₘ F) :=
      mem_gather_cons.mpr (.inl (List.mem_singleton_self p))
    refine ⟨?_, fun q hq => ?_⟩
    · rw [admitted_append, hone]
      refine h.nodup.append (List.nodup_singleton p) fun q hq hp => ?_
      obtain rfl := List.mem_singleton.mp hp
      exact (h.known q hq).2 hsubmits
    · rw [admitted_append, hone, List.mem_append, List.mem_singleton] at hq
      rw [hrun.nextPtr, gather_keep hrun.submits]
      rcases hq with hq | rfl
      · exact hold q hq
      · have hfile := howners (f, q) (mem_gather_cons.mpr (.inl (List.mem_singleton_self _)))
        exact ⟨hfile.1, hledger.submits_apart⟩

theorem Enters.submits (h : Enters k r k' calls events) (hp : p ∈ calls.flatMap Frame.submits) :
    p = k.nextPtr := by
  induction h with
  | submit => simpa [Frame.submits] using hp
  | _ => simp [Frame.submits] at hp

theorem Admissions.enters (h : Admissions k F tr) (hrun : Enters k r k' calls events) :
    Admissions k' (↑calls + F) (tr ++ events) := by
  have hadmitted : admitted (tr ++ events) = admitted tr := by
    rw [admitted_append, hrun.admitted, List.append_nil]
  refine ⟨hadmitted ▸ h.nodup, fun p hp => ?_⟩
  rw [hadmitted] at hp
  obtain ⟨hlt, hnot⟩ := h.known p hp
  refine ⟨(hrun.owner hlt).2, fun hmem => ?_⟩
  rcases mem_gather_coe_add.mp hmem with hmem | hmem
  · exact hlt.ne (hrun.submits hmem)
  · exact hnot hmem

theorem admissions_reachable (h : Reachable G s) : Admissions s.mem s.calls s.trace :=
  Reachable.invariant (I := fun k F _ => Ledger k F ∧ Owners k F) (J := Admissions)
    (fun _ hs => ⟨ledger_reachable hs, owners_reachable hs⟩)
    ⟨List.nodup_nil, by simp [admitted]⟩ (fun _ hj _ hrun => hj.enters hrun)
    (fun hi hj _ hrun => hj.runs hi.1 hi.2 hrun) h

end Admissions

section Order

variable {owner owner' : Ptr → File} {pending rest withdrawn : List Ptr}

/-- The jobs of a list that the file owns. -/
def owned (owner : Ptr → File) (f : File) (l : List Ptr) : List Ptr := l.filter fun p => owner p = f

theorem mem_owned {l : List Ptr} : p ∈ owned owner f l ↔ p ∈ l ∧ owner p = f := by
  simp [owned]

theorem owned_append {l₁ l₂ : List Ptr} :
    owned owner f (l₁ ++ l₂) = owned owner f l₁ ++ owned owner f l₂ :=
  List.filter_append ..

theorem owned_congr {l : List Ptr} (h : ∀ p ∈ l, owner' p = owner p) :
    owned owner' f l = owned owner f l :=
  List.filter_congr fun p hp => by rw [h p hp]

/-- The jobs of each file that have entered `InFlight`, and after them those that wait, are in the
order in which they were admitted, and what was admitted is among these or was withdrawn. -/
structure Order (owner : Ptr → File) (pending : List Ptr) (tr : List Event) : Prop where
  order : ∀ f, (owned owner f (launched tr ++ pending)).Sublist (owned owner f (admitted tr))
  fate : ∀ p ∈ admitted tr, p ∈ pending ∨ p ∈ launched tr ∨ .withdrawn p ∈ tr

namespace Order

theorem admitted_of_mem (h : Order owner pending tr) (hp : p ∈ launched tr ++ pending) :
    p ∈ admitted tr :=
  (mem_owned.mp ((h.order (owner p)).subset (mem_owned.mpr ⟨hp, rfl⟩))).1

theorem congr (h : Order owner pending tr) (howner : ∀ p ∈ admitted tr, owner' p = owner p) :
    Order owner' pending tr := by
  refine ⟨fun f => ?_, h.fate⟩
  rw [owned_congr fun p hp => howner p (h.admitted_of_mem hp), owned_congr howner]
  exact h.order f

/-- What enters `InFlight` comes from `Pending`, or is admitted with none of its file there. -/
theorem extend (h : Order owner pending tr)
    (horder : ∀ f, (owned owner f (launched events ++ rest)).Sublist
      (owned owner f (pending ++ admitted events)))
    (hfate : ∀ q ∈ pending ++ admitted events,
      q ∈ rest ∨ q ∈ launched events ∨ .withdrawn q ∈ events) :
    Order owner rest (tr ++ events) := by
  refine ⟨fun f => ?_, fun q hq => ?_⟩
  · have hold := (h.order f).append (.refl (owned owner f (admitted events)))
    rw [← owned_append, ← owned_append, List.append_assoc, owned_append] at hold
    rw [launched_append, admitted_append, List.append_assoc, owned_append]
    exact ((List.Sublist.refl _).append (horder f)).trans hold
  · rw [admitted_append, List.mem_append] at hq
    rw [launched_append, List.mem_append, List.mem_append]
    have hold := h.fate q
    have hnew := hfate q
    rw [List.mem_append] at hnew
    tauto

/-- Events that put no job on `Pending` and take none off. -/
theorem quiet (h : Order owner pending tr) (hquiet : ∀ e ∈ events, e.queues = false) :
    Order owner pending (tr ++ events) := by
  obtain ⟨hadmitted, hlaunched⟩ := unqueued hquiet
  refine h.extend (fun f => ?_) ?_
  · rw [hadmitted, hlaunched, List.append_nil]
    exact .refl _
  · rw [hadmitted, List.append_nil]
    exact fun q hq => .inl hq

/-- A submission that takes the slot when no job of its file waits. -/
theorem start (h : Order owner pending tr) (hnone : ∀ q ∈ pending, owner q ≠ owner p) :
    Order owner pending (tr ++ [.launched p, .admitted p]) := by
  refine h.extend (fun f => ?_) fun q hq => ?_
  · change (owned owner f ([p] ++ pending)).Sublist (owned owner f (pending ++ [p]))
    rw [owned_append, owned_append]
    by_cases hf : owner p = f
    · have hempty : owned owner f pending = [] :=
        List.filter_eq_nil_iff.mpr fun q hq => by simpa [hf] using hnone q hq
      rw [hempty, List.append_nil]
      exact .refl _
    · have hout : owned owner f [p] = [] := by simp [owned, hf]
      rw [hout, List.append_nil]
      exact .refl _
  · exact (List.mem_append.mp hq).imp_right .inl

/-- Jobs are taken off `Pending`. -/
theorem withdraw (h : Order owner pending tr) (hrest : rest.Sublist pending)
    (hgone : ∀ q ∈ pending, q ∈ rest ∨ q ∈ withdrawn) :
    Order owner rest (tr ++ withdrawn.map .withdrawn) := by
  have hadmitted : admitted (withdrawn.map .withdrawn) = [] :=
    List.filterMap_eq_nil_iff.mpr (List.forall_mem_map.mpr fun _ _ => rfl)
  have hlaunched : launched (withdrawn.map .withdrawn) = [] :=
    List.filterMap_eq_nil_iff.mpr (List.forall_mem_map.mpr fun _ _ => rfl)
  refine h.extend (fun f => ?_) fun q hq => ?_
  · rw [hadmitted, hlaunched, List.append_nil]
    exact hrest.filter _
  · rw [hadmitted, List.append_nil] at hq
    exact (hgone q hq).imp_right fun hmem => .inr (List.mem_map_of_mem hmem)

/-- A job that was launched has none of its file waiting that was admitted before it. -/
theorem overtakes (h : Order owner pending tr) (hnodup : (admitted tr).Nodup)
    (hpq : [p, q].Sublist (admitted tr)) (howner : owner p = owner q) (hq : q ∈ launched tr) :
    p ∈ launched tr ∨ .withdrawn p ∈ tr := by
  refine (h.fate p (hpq.subset (by simp))).resolve_left fun hp => ?_
  have hswap : [q, p].Sublist (owned owner (owner q) (admitted tr)) := by
    refine List.Sublist.trans ?_ (h.order _)
    rw [owned_append]
    exact pair_of_mem (mem_owned.mpr ⟨hq, rfl⟩) (mem_owned.mpr ⟨hp, howner⟩)
  exact not_pair_swap hnodup hpq (hswap.trans List.filter_sublist)

end Order

/-- The owners of the jobs. -/
abbrev ownerOf (k : Kernel) (p : Ptr) : File := (k.jobs p).owner

theorem Runs.order (h : Order (ownerOf k) k.queue.pending tr) (howners : Owners k (call ::ₘ F))
    (hguard : queued.exec k call F good) (hrun : Runs k call good k' calls events) :
    Order (ownerOf k') k'.queue.pending (tr ++ events) := by
  have howner : ownerOf k' = ownerOf k := funext fun p => hrun.owner
  rw [howner]
  rcases hrun.queues with ⟨hquiet, hpending⟩ | ⟨f, p, rfl, hroom, hnow, rfl, hpending⟩ |
    ⟨f, p, rfl, rfl, hpending⟩ | ⟨p, rfl, hpending⟩ | ⟨p, rfl, hpending⟩
  · rw [hpending]
    exact h.quiet hquiet
  · have hfile := howners (f, p) (mem_gather_cons.mpr (.inl (List.mem_singleton_self _)))
    rw [hpending]
    exact h.start fun q hq heq => hguard f rfl hroom hnow q hq (heq.trans hfile.2)
  · rw [hpending]
    exact h.extend (fun f => .refl _) fun q hq => .inl hq
  · rw [hpending] at h
    have hnil : JobQueue.admitted [.launched p] = [] := rfl
    refine h.extend (fun f => ?_) fun q hq => ?_
    · rw [hnil, List.append_nil]
      exact .refl _
    · rw [hnil, List.append_nil, List.mem_cons] at hq
      exact hq.symm.imp_right fun heq => .inl (List.mem_singleton.mpr heq)
  · rw [hpending]
    change Order _ _ (tr ++ [p].map .withdrawn)
    refine h.withdraw List.erase_sublist fun q hq => ?_
    by_cases hne : q = p
    · exact .inr (List.mem_singleton.mpr hne)
    · exact .inl ((List.mem_erase_of_ne hne).mpr hq)

theorem Enters.order (h : Order (ownerOf k) k.queue.pending tr) (hadmissions : Admissions k F tr)
    (hrun : Enters k r k' calls events) : Order (ownerOf k') k'.queue.pending (tr ++ events) := by
  have howner : ∀ p ∈ JobQueue.admitted (tr ++ events), ownerOf k' p = ownerOf k p := by
    intro p hp
    rw [admitted_append, hrun.admitted, List.append_nil] at hp
    exact (hrun.owner (hadmissions.known p hp).1).1
  refine Order.congr ?_ howner
  induction hrun with
  | @drain f | @drainPin f =>
    refine h.withdraw List.filter_sublist fun q hq => ?_
    by_cases hf : (k.jobs q).owner = f
    · exact .inr (List.mem_filter.mpr ⟨hq, decide_eq_true hf⟩)
    · exact .inl (List.mem_filter.mpr ⟨hq, decide_eq_true hf⟩)
  | interruptSpurious events_eq =>
    rcases events_eq with rfl | rfl <;> exact h.quiet (by simp [Event.queues])
  | _ => exact h.quiet (by simp [Event.queues])

theorem order_reachable (h : Reachable queued s) :
    Order (ownerOf s.mem) s.mem.queue.pending s.trace := by
  have hinit : Order (ownerOf kernelInit) kernelInit.queue.pending [] :=
    ⟨fun f => List.Sublist.refl _, by simp [admitted]⟩
  exact Reachable.invariant (I := fun k F tr => Owners k F ∧ Admissions k F tr)
    (J := fun k _ tr => Order (ownerOf k) k.queue.pending tr)
    (fun _ hs => ⟨owners_reachable hs, admissions_reachable hs⟩) hinit
    (fun hi hj _ hrun => hrun.order hj hi.2)
    (fun hi hj hguard hrun => hrun.order hj hi.1 hguard) h

end Order

section Started

/-- A job is started when every job of its file that was admitted before it was started or
withdrawn. -/
def InOrder (owner : Ptr → File) (pre : List Event) : Event → Prop
  | .started q => ∀ p, [p, q].Sublist (admitted pre) → owner p = owner q →
      .started p ∈ pre ∨ .withdrawn p ∈ pre
  | _ => True

/-- A job is started by the section for it, and first of all. -/
theorem Runs.starting {pre post : List Event} (h : Runs k call good k' calls events)
    (heq : events = pre ++ .started q :: post) : call = .jobStart q ∧ pre = [] := by
  have hmem : .started q ∈ events := by simp [heq]
  rcases h.moves (F := 0) with ⟨hquiet⟩ | ⟨p, post', hquiet, rfl⟩ | ⟨p, post', hquiet, rfl, rfl⟩ |
    ⟨p, rfl⟩
  · cases hquiet _ hmem
  · rcases List.mem_cons.mp hmem with hmem | hmem
    · cases hmem
    · cases hquiet _ hmem
  · cases pre with
    | nil =>
      obtain ⟨heq, -⟩ := List.cons.inj heq
      obtain rfl := Event.started.inj heq
      exact ⟨rfl, rfl⟩
    | cons e pre =>
      obtain ⟨-, rfl⟩ := List.cons.inj heq
      cases hquiet (.started q) (by simp)
  · simp at hmem

/-- A job that was completed was started before. -/
theorem Traced.begun (h : Traced k F tr) (hp : .completed p ∈ tr) : .started p ∈ tr := by
  obtain ⟨pre, post, rfl⟩ := List.append_of_mem hp
  exact List.mem_append_left _ (h.once pre _ post rfl).1

theorem Order.starting (h : Order (ownerOf k) k.queue.pending tr)
    (hadmissions : Admissions k (.jobStart q ::ₘ F) tr) (hdrive : Drive k (.jobStart q ::ₘ F))
    (htraced : Traced k (.jobStart q ::ₘ F) tr) : InOrder (ownerOf k) tr (.started q) := by
  intro p hpq howner
  have hslot := hdrive.starts q (mem_gather_cons.mpr (.inl (List.mem_singleton_self q)))
  have hlaunched := mem_launched.mpr (htraced.slot q hslot).1
  refine (h.overtakes hadmissions.nodup hpq howner hlaunched).imp_left fun hp => ?_
  -- another job is in flight, so this one is completed
  refine htraced.begun ((htraced.running p (mem_launched.mp hp)).resolve_right fun hrunning => ?_)
  obtain rfl := Option.some.inj (hslot.symm.trans hrunning)
  exact absurd (hadmissions.nodup.sublist hpq) (by simp)

theorem each_inOrder_congr {owner owner' : Ptr → File}
    (howner : ∀ p ∈ admitted tr, owner' p = owner p) (h : Each (InOrder owner) tr) :
    Each (InOrder owner') tr := by
  rintro pre e post rfl
  have hpre : ∀ p ∈ admitted pre, owner' p = owner p := fun p hp => howner p <| by
    rw [admitted_append]
    exact List.mem_append_left _ hp
  have hin := h pre e post rfl
  cases e with
  | started q =>
    intro p hpq heq
    rw [hpre p (hpq.subset (by simp)), hpre q (hpq.subset (by simp))] at heq
    exact hin p hpq heq
  | _ => trivial

theorem inOrder_reachable (h : Reachable queued s) : Each (InOrder (ownerOf s.mem)) s.trace := by
  refine Reachable.invariant
    (I := fun k F tr => Order (ownerOf k) k.queue.pending tr ∧ Admissions k F tr ∧ Drive k F ∧
      Traced k F tr)
    (J := fun k _ tr => Each (InOrder (ownerOf k)) tr)
    (fun _ hs => ⟨order_reachable hs, admissions_reachable hs, drive_reachable hs,
      traced_reachable hs⟩) each_nil ?_ ?_ h
  · intro k F tr r k' calls events hi hj _ hrun
    have hnone : ∀ e ∈ events, ∀ pre, InOrder (ownerOf k) (tr ++ pre) e := by
      intro e he pre
      rcases hrun.emits he with ⟨f, status, rfl⟩ | rfl | ⟨rfl, -⟩ | ⟨p, -, rfl⟩ <;> trivial
    refine each_inOrder_congr (fun p hp => ?_) (each_append.mpr ⟨hj, .of_forall hnone⟩)
    rw [admitted_append, hrun.admitted, List.append_nil] at hp
    exact (hrun.owner (hi.2.1.known p hp).1).1
  · intro k call F tr good k' calls events hi hj _ hrun
    have howner : ownerOf k' = ownerOf k := funext fun p => hrun.owner
    rw [howner]
    refine each_append.mpr ⟨hj, ?_⟩
    rintro pre e post heq
    cases e with
    | started q =>
      obtain ⟨rfl, rfl⟩ := hrun.starting heq
      rw [List.append_nil]
      exact hi.1.starting hi.2.1 hi.2.2.1 hi.2.2.2
    | _ => trivial

/-- What holds of the order in which jobs are started. -/
structure StartedInOrder (s : Sys) : Prop where
  order : Each (InOrder (ownerOf s.mem)) s.trace
  /-- A job enters `InFlight` when every job that did before is completed. -/
  once : OneAtATime s.trace
  codec : ∀ p, s.mem.hw = some p → s.mem.queue.inFlight = some p

/-- The AV1 core starts the jobs of a file in the order in which they were admitted, one at a time,
in every run in which no submission takes the empty slot while a job of its file waits. -/
theorem started_in_order (h : Reachable queued s) : StartedInOrder s where
  order := inOrder_reachable h
  once := (traced_reachable h).once
  codec := (drive_reachable h).hw

/-- A job runs and two more of its file wait. The wait for the first of these expires, and the
worker starts the second. -/
abbrev oneWithdrawn : List (Action Request) :=
  .enter (.mapMmio 4096) :: submitBare 1 0 ++ [.run 1 true] ++ submitBare 2 0 ++ submitBare 3 0 ++
    [.enter (.wait 0 2 10), .run 4 false, .run 4 true, .run 4 true, .enter (.interrupt 0x1100)] ++
    List.replicate 5 (.run 5 true) ++ [.enter .startWorker, .run 6 true, .run 6 true]

theorem oneWithdrawn_runs : (machine.run init oneWithdrawn).isSome = true := by
  decide +kernel

theorem started_in_order_withdrawn :
    admitted ((machine.run init oneWithdrawn).get oneWithdrawn_runs).trace = [0, 1, 2] ∧
      launched ((machine.run init oneWithdrawn).get oneWithdrawn_runs).trace = [0, 2] ∧
      StartedInOrder ((machine.run init oneWithdrawn).get oneWithdrawn_runs) :=
  ⟨by decide +kernel, by decide +kernel,
    started_in_order (.of_get oneWithdrawn_runs (by decide +kernel))⟩

/-- A job runs and the next one of its file waits. The first is completed, and before the worker
looks at the queue a third is submitted. -/
abbrev slotTaken : List (Action Request) :=
  .enter (.mapMmio 4096) :: submitBare 1 0 ++ [.run 1 true] ++ submitBare 2 0 ++
    [.enter (.interrupt 0x1100), .run 3 true, .run 3 true] ++ submitBare 4 0 ++ [.run 4 true]

theorem slotTaken_runs : (machine.run init slotTaken).isSome = true := by
  decide +kernel

/-- The third job is started before the second. -/
theorem started_out_of_order : ∃ s : Sys, Reachable .any s ∧ admitted s.trace = [0, 1, 2] ∧
    s.mem.queue.pending = [1] ∧ s.mem.hw = some 2 ∧ ¬ StartedInOrder s := by
  obtain ⟨pre, htrace, hadmitted, hnone⟩ : ∃ pre,
      ((machine.run init slotTaken).get slotTaken_runs).trace =
        pre ++ .started 2 :: [.programmed 2] ∧ admitted pre = [0, 1, 2] ∧
        .started 1 ∉ pre ∧ .withdrawn 1 ∉ pre :=
    ⟨((machine.run init slotTaken).get slotTaken_runs).trace.take 9, by decide +kernel,
      by decide +kernel, by decide +kernel⟩
  refine ⟨_, .of_get slotTaken_runs (by decide +kernel), by decide +kernel, by decide +kernel,
    by decide +kernel, fun h => ?_⟩
  have hin := h.order pre _ _ htrace 1 (by rw [hadmitted]; decide) (by decide +kernel)
  exact hin.elim hnone.1 hnone.2

end Started

end Rkvdec.Av1d.JobQueue
