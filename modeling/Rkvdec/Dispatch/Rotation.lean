import Mathlib.Data.Fintype.Card
import Rkvdec.Dispatch.Admission
import Rkvdec.Dispatch.Owners
import Rkvdec.Lib.LeastRecent

/-! Whose turn it is: the order in which the jobs of one file and the files are promoted. The score
of a file is the id of its last kicked job, and ids are given out at the submit. -/
namespace Rkvdec.Dispatch

open Lib Kernel

namespace Queue

variable {q : Queue} {jobs : Ptr → Job} {p : Ptr}

/-- The scan keeps what it has, or finds the first job of the least score. -/
theorem pickScan_spec (score : Ptr → Nat) (l : List Ptr) (chosen : Ptr) (best : Option Nat) :
    (pickScan score l chosen best = chosen ∧ ∃ b ∈ best, ∀ x ∈ l, b ≤ score x) ∨
    (l = [] ∧ pickScan score l chosen best = chosen) ∨
    ∃ l₁ l₂, l = l₁ ++ pickScan score l chosen best :: l₂ ∧
      (∀ b ∈ best, score (pickScan score l chosen best) < b) ∧
      (∀ x ∈ l₁, score (pickScan score l chosen best) < score x) ∧
      ∀ x ∈ l₂, score (pickScan score l chosen best) ≤ score x := by
  induction l generalizing chosen best with
  | nil => exact .inr (.inl ⟨rfl, rfl⟩)
  | cons p l ih =>
    simp only [pickScan]
    by_cases hbest : best.all (score p < ·) = true
    · have hless : ∀ b ∈ best, score p < b := by
        intro b hb
        obtain rfl := Option.mem_def.mp hb
        simpa using hbest
      rw [if_pos hbest]
      split
      · rename_i hzero
        exact .inr (.inr ⟨[], l, rfl, hless, by simp, by simp [hzero]⟩)
      · rcases ih p (some (score p)) with ⟨hr, b, hb, hall⟩ | ⟨rfl, hr⟩ | ⟨l₁, l₂, hl, hb, h₁, h₂⟩
        · obtain rfl := Option.mem_some.mp hb
          rw [hr]
          exact .inr (.inr ⟨[], l, rfl, hless, by simp, hall⟩)
        · rw [hr]
          exact .inr (.inr ⟨[], [], rfl, hless, by simp, by simp⟩)
        · have hlt := hb _ rfl
          have hbelow : ∀ b ∈ best, _ < b := fun b hb => hlt.trans (hless b hb)
          refine .inr (.inr ⟨p :: l₁, l₂, congrArg (p :: ·) hl, hbelow, ?_, h₂⟩)
          intro x hx
          rcases List.mem_cons.mp hx with rfl | hx
          · exact hlt
          · exact h₁ x hx
    · obtain ⟨b, rfl⟩ : ∃ b, best = some b := by
        cases best with
        | none => simp at hbest
        | some b => exact ⟨b, rfl⟩
      have hge : b ≤ score p := by simpa using hbest
      rw [if_neg hbest]
      rcases ih chosen (some b) with ⟨hr, c, hc, hall⟩ | ⟨rfl, hr⟩ | ⟨l₁, l₂, hl, hb, h₁, h₂⟩
      · obtain rfl := Option.mem_some.mp hc
        exact .inl ⟨hr, b, rfl, by simpa using ⟨hge, hall⟩⟩
      · exact .inl ⟨hr, b, rfl, by simpa using hge⟩
      · have hlt := hb b rfl
        refine .inr (.inr ⟨p :: l₁, l₂, congrArg (p :: ·) hl, hb, ?_, h₂⟩)
        intro x hx
        rcases List.mem_cons.mp hx with rfl | hx
        · omega
        · exact h₁ x hx

/-- The first waiting job of the least score is picked. -/
theorem pickPendingByOwnerLru_spec (h : q.pickPendingByOwnerLru jobs = some p) :
    ∃ l₁ l₂, q.pending = l₁ ++ p :: l₂ ∧
      (∀ x ∈ l₁, q.score (jobs p).owner < q.score (jobs x).owner) ∧
      ∀ x ∈ l₂, q.score (jobs p).owner ≤ q.score (jobs x).owner := by
  unfold pickPendingByOwnerLru at h
  split at h
  · cases h
  · rename_i head rest hpending
    obtain rfl := Option.some.inj h
    rcases pickScan_spec (fun p => q.score (jobs p).owner) q.pending head none with
      ⟨-, b, hb, -⟩ | ⟨hnil, -⟩ | ⟨l₁, l₂, hl, -, h₁, h₂⟩
    · cases hb
    · rw [hnil] at hpending
      cases hpending
    · exact ⟨l₁, l₂, hl, h₁, h₂⟩

/-- What is left is the list without it. -/
theorem erase_pick (h : q.pickPendingByOwnerLru jobs = some p) :
    ∃ l₁ l₂, q.pending = l₁ ++ p :: l₂ ∧ q.pending.erase p = l₁ ++ l₂ ∧
      (∀ x ∈ l₁, (jobs x).owner ≠ (jobs p).owner) ∧
      ∀ x ∈ q.pending, q.score (jobs p).owner ≤ q.score (jobs x).owner := by
  obtain ⟨l₁, l₂, hpending, h₁, h₂⟩ := pickPendingByOwnerLru_spec h
  have howner : ∀ x ∈ l₁, (jobs x).owner ≠ (jobs p).owner := by
    intro x hx heq
    have hlt := h₁ x hx
    rw [heq] at hlt
    exact absurd hlt (lt_irrefl _)
  have hfirst : p ∉ l₁ := fun hp => howner p hp rfl
  refine ⟨l₁, l₂, hpending, ?_, howner, ?_⟩
  · rw [hpending, List.erase_append_right _ hfirst, List.erase_cons_head]
  · intro x hx
    rw [hpending, List.mem_append, List.mem_cons] at hx
    rcases hx with hx | rfl | hx
    · exact (h₁ x hx).le
    · exact le_rfl
    · exact h₂ x hx

/-- The entry that is overwritten has the least id. -/
theorem evict_spec {lru : List LruEntry} (h : lru ≠ []) : ∃ hlt : evict lru < lru.length,
    ∀ e ∈ lru, lru[evict lru].lastKickId ≤ e.lastKickId := by
  have hpos : 0 < lru.length := List.length_pos_iff.mpr h
  obtain ⟨hmem, hle⟩ :=
    foldl_least (fun i => (lru.getD i ⟨none, 0⟩).lastKickId) (List.range lru.length) 0
  have hlt : evict lru < lru.length := by
    rcases List.mem_cons.mp hmem with hmem | hmem
    · exact lt_of_eq_of_lt hmem hpos
    · exact List.mem_range.mp hmem
  refine ⟨hlt, ?_⟩
  intro e he
  obtain ⟨i, hi, rfl⟩ := List.mem_iff_getElem.mp he
  have hle := hle i (List.mem_cons_of_mem _ (List.mem_range.mpr hi))
  change (lru.getD (evict lru) ⟨none, 0⟩).lastKickId ≤ (lru.getD i ⟨none, 0⟩).lastKickId at hle
  rwa [List.getD_eq_getElem?_getD, List.getD_eq_getElem?_getD, List.getElem?_eq_getElem hlt,
    List.getElem?_eq_getElem hi] at hle

end Queue

section Table

variable {S : Finset File} {lru : List LruEntry} {turns : List (Turn (Option File))}
  {f : File} {id : Nat}
  {t : Turn (Option File)}

/-- The entries of `OwnerLru` are the last turns of the files, one for each file that had one. -/
structure Table (S : Finset File) (lru : List LruEntry)
    (turns : List (Turn (Option File))) : Prop where
  length : lru.length = 4
  once : ∀ i j (hi : i < lru.length) (hj : j < lru.length), lru[i].file = lru[j].file →
    lru[i].file ≠ none → i = j
  mem : ∀ e ∈ lru, ∀ f, e.file = some f → f ∈ S
  blank : ∀ e ∈ lru, e.file = none → e.lastKickId = 0
  named : ∀ e ∈ lru, e.file ≠ none → 0 < e.lastKickId ∧ e.lastKickId = lastStamp turns e.file
  known : ∀ t ∈ turns, t.owner ≠ none ∧ ∃ e ∈ lru, e.file = t.owner

namespace Table

theorem score (h : Table S lru turns) {q : Queue} (hq : q.ownerLru = lru) (f : File) :
    q.score (some f) = lastStamp turns (some f) := by
  unfold Queue.score
  rw [hq]
  cases hfind : lru.find? fun e => e.file = some f with
  | some e =>
    have hfile : e.file = some f := by simpa using List.find?_some hfind
    have hnamed := (h.named e (List.mem_of_find?_eq_some hfind) (by simp [hfile])).2
    rw [hfile] at hnamed
    exact hnamed
  | none =>
    rcases lastStamp_mem turns (some f) with hzero | ⟨t, ht, howner, -⟩
    · exact hzero.symm
    · obtain ⟨e, he, hfile⟩ := (h.known t ht).2
      have hnone := List.find?_eq_none.mp hfind e he
      simp [hfile, howner] at hnone

/-- With a file that has no entry among at most four there is a blank entry. -/
theorem exists_blank (h : Table S lru turns) (hS : S.card ≤ 4) (hf : f ∈ S)
    (hnone : ∀ e ∈ lru, e.file ≠ some f) : ∃ e ∈ lru, e.file = none := by
  by_contra hall
  push Not at hall
  have hfile : ∀ i : Fin lru.length, ∃ g ∈ S.erase f, lru[i].file = some g := by
    intro i
    have hmem : lru[i] ∈ lru := List.getElem_mem _
    obtain ⟨g, hg⟩ := Option.ne_none_iff_exists'.mp (hall _ hmem)
    refine ⟨g, Finset.mem_erase.mpr ⟨?_, h.mem _ hmem g hg⟩, hg⟩
    rintro rfl
    exact hnone _ hmem hg
  choose file hfile hentry using hfile
  have hinj : Function.Injective fun i => (⟨file i, hfile i⟩ : S.erase f) := by
    intro i j hij
    have hij : file i = file j := congrArg Subtype.val hij
    refine Fin.ext (h.once i j i.isLt j.isLt ?_ ?_)
    · rw [← Fin.getElem_fin, ← Fin.getElem_fin, hentry i, hentry j, hij]
    · rw [← Fin.getElem_fin, hentry i]
      simp
  have hcard := Fintype.card_le_of_injective _ hinj
  rw [Fintype.card_fin, h.length, Fintype.card_coe, Finset.card_erase_of_mem hf] at hcard
  omega

/-- The entry of the file is overwritten, or a blank one. -/
theorem slot (h : Table S lru turns) (hS : S.card ≤ 4) (hf : f ∈ S) (id : Nat) :
    ∃ i, ∃ hi : i < lru.length, Queue.upsertLru lru (some f) id = lru.set i ⟨some f, id⟩ ∧
      (lru[i].file = some f ∨ lru[i].file = none ∧ ∀ e ∈ lru, e.file ≠ some f) := by
  cases hfind : lru.findIdx? fun e => e.file = some f with
  | some i =>
    obtain ⟨hi, hfile, -⟩ := List.findIdx?_eq_some_iff_getElem.mp hfind
    exact ⟨i, hi, by simp [Queue.upsertLru, hfind], .inl (by simpa using hfile)⟩
  | none =>
    have hnone : ∀ e ∈ lru, e.file ≠ some f := by
      intro e he
      simpa using List.findIdx?_eq_none_iff.mp hfind e he
    obtain ⟨e, he, hblank⟩ := h.exists_blank hS hf hnone
    obtain ⟨hi, hle⟩ := Queue.evict_spec (List.ne_nil_of_mem he)
    refine ⟨Queue.evict lru, hi, by simp [Queue.upsertLru, hfind], .inr ⟨?_, hnone⟩⟩
    by_contra hnamed
    have hpos := (h.named _ (List.getElem_mem hi) hnamed).1
    have hzero := hle e he
    rw [h.blank e he hblank] at hzero
    omega

theorem upsert (h : Table S lru turns) (hS : S.card ≤ 4) (hf : f ∈ S) (hid : 0 < id)
    (howner : t.owner = some f) (hstamp : t.stamp = id) :
    Table S (Queue.upsertLru lru (some f) id) (turns ++ [t]) := by
  obtain ⟨i, hi, hset, hslot⟩ := h.slot hS hf id
  rw [hset]
  -- No other entry is the file's.
  have hother : ∀ j (hj : j < lru.length), j ≠ i → lru[j].file ≠ some f := by
    intro j hj hne hfile
    rcases hslot with hslot | ⟨-, hnone⟩
    · exact hne (h.once j i hj hi (hfile.trans hslot.symm) (by simp [hfile]))
    · exact hnone _ (List.getElem_mem hj) hfile
  have hcases : ∀ e ∈ lru.set i ⟨some f, id⟩, e = ⟨some f, id⟩ ∨ e ∈ lru ∧ e.file ≠ some f := by
    intro e he
    obtain ⟨j, hj, rfl⟩ := List.mem_iff_getElem.mp he
    rw [List.length_set] at hj
    rw [List.getElem_set]
    split
    · exact .inl rfl
    · rename_i hne
      exact .inr ⟨List.getElem_mem hj, hother j hj (Ne.symm hne)⟩
  refine ⟨by rw [List.length_set, h.length], ?_, ?_, ?_, ?_, ?_⟩
  · intro a b ha hb hfile hsome
    rw [List.length_set] at ha hb
    rw [List.getElem_set] at hfile hsome
    rw [List.getElem_set] at hfile
    by_cases hai : i = a <;> by_cases hbi : i = b
    · exact hai.symm.trans hbi
    · rw [if_pos hai, if_neg hbi] at hfile
      exact absurd hfile.symm (hother b hb (Ne.symm hbi))
    · rw [if_neg hai, if_pos hbi] at hfile
      exact absurd hfile (hother a ha (Ne.symm hai))
    · rw [if_neg hai, if_neg hbi] at hfile
      rw [if_neg hai] at hsome
      exact h.once a b ha hb hfile hsome
  · intro e he g hg
    rcases hcases e he with rfl | ⟨he, -⟩
    · exact Option.some.inj hg ▸ hf
    · exact h.mem e he g hg
  · intro e he hblank
    rcases hcases e he with rfl | ⟨he, -⟩
    · cases hblank
    · exact h.blank e he hblank
  · intro e he hnamed
    rw [lastStamp_snoc, howner]
    rcases hcases e he with rfl | ⟨he, hne⟩
    · rw [if_pos rfl, hstamp]
      exact ⟨hid, rfl⟩
    · rw [if_neg (Ne.symm hne)]
      exact h.named e he hnamed
  · intro u hu
    have hnew : ∃ e ∈ lru.set i ⟨some f, id⟩, e.file = some f :=
      ⟨⟨some f, id⟩, List.mem_set hi _, rfl⟩
    rcases List.mem_append.mp hu with hu | hu
    · obtain ⟨hsome, e, he, hfile⟩ := h.known u hu
      refine ⟨hsome, ?_⟩
      obtain ⟨j, hj, rfl⟩ := List.mem_iff_getElem.mp he
      by_cases hji : i = j
      · subst hji
        rcases hslot with hslot | ⟨hblank, -⟩
        · rw [← hfile, hslot]
          exact hnew
        · exact absurd (hfile.symm.trans hblank) hsome
      · refine ⟨lru[j], List.mem_iff_getElem.mpr ⟨j, by simpa using hj, ?_⟩, hfile⟩
        rw [List.getElem_set, if_neg hji]
    · obtain rfl := List.mem_singleton.mp hu
      rw [howner]
      exact ⟨by simp, hnew⟩

theorem init (S : Finset File) : Table S jobQueueInit.ownerLru [] where
  length := rfl
  once := by
    intro i j hi hj _ hsome
    exact absurd (congrArg LruEntry.file (List.eq_of_mem_replicate (List.getElem_mem hi))) hsome
  mem := by
    intro e he f hf
    simp [List.eq_of_mem_replicate he] at hf
  blank := by
    intro e he _
    rw [List.eq_of_mem_replicate he]
  named := by
    intro e he hsome
    simp [List.eq_of_mem_replicate he] at hsome
  known := by
    intro t ht
    cases ht

end Table

end Table

/-- The job of the file that an event puts on `Pending`. -/
def Event.insertedBy (f : File) : Event → Option Ptr
  | .inserted g p => if g = f then some p else none
  | _ => none

def Event.promotedJob : Event → Option Ptr
  | .promoted p _ _ => some p
  | _ => none

/-- The jobs of a file in the order they were put on `Pending`. -/
def insertedBy (f : File) (tr : List Event) : List Ptr := tr.filterMap (Event.insertedBy f)

/-- All promotions in order. -/
def promotedJobs (tr : List Event) : List Ptr := tr.filterMap Event.promotedJob

/-- The jobs among some that are the file's. -/
def ofFile (jobs : Ptr → Job) (f : File) (l : List Ptr) : List Ptr :=
  l.filter fun p => (jobs p).owner = some f

def Event.turn (jobs : Ptr → Job) : Event → Option (Turn (Option File))
  | .promoted p _ waiting => some ⟨(jobs p).owner, (jobs p).id, waiting⟩
  | _ => none

/-- The promotions as turns of the files. -/
def turns (jobs : Ptr → Job) (tr : List Event) : List (Turn (Option File)) :=
  tr.filterMap (Event.turn jobs)

/-- What a promotion loop starts from, in the sections that have one. -/
def loopStart (k : Kernel) : Frame → Option (Dev × Promoting)
  | .submitEnqueue f p =>
    if maxPendingJobs ≤ (k.queue .rvd0).pending.length ∨ maxPendingJobsPerFile ≤ ownerCount k f then
      none
    else some
      (.rvd0, ⟨k.jobs, { k.queue .rvd0 with pending := (k.queue .rvd0).pending ++ [p] }, [], []⟩)
  | .kickWorker d =>
    if (k.queue d).kickRearm = false then none
    else some (d, ⟨k.jobs, { k.queue d with kickRearm := false }, [], []⟩)
  | _ => none

namespace Promoting

/-- The waiting jobs of the files of least score are younger than the last kicked job of every
file. -/
def Ordered (s : Promoting) : Prop :=
  ∀ p ∈ s.queue.pending,
    (∀ x ∈ s.queue.pending, s.queue.score (s.jobs p).owner ≤ s.queue.score (s.jobs x).owner) →
      ∀ e ∈ s.queue.ownerLru, e.lastKickId < (s.jobs p).id

instance (s : Promoting) : Decidable s.Ordered := inferInstanceAs (Decidable (∀ p ∈ _, _))

/-- Every promotion of the loop finds them so. -/
def AllOrdered : Nat → Promoting → Prop
  | 0, _ => True
  | n + 1, s =>
    match s.turn with
    | none => True
    | some s' => s.Ordered ∧ AllOrdered n s'

instance AllOrdered.decidable : ∀ n s, Decidable (AllOrdered n s)
  | 0, _ => inferInstanceAs (Decidable True)
  | n + 1, s =>
    match h : s.turn with
    | none => decidable_of_iff True (by simp [AllOrdered, h])
    | some s' =>
      have := AllOrdered.decidable n s'
      decidable_of_iff (s.Ordered ∧ AllOrdered n s') (by simp [AllOrdered, h])

theorem turns_ordered {P : Promoting → Prop}
    (hturn : ∀ s s', P s → s.Ordered → s.turn = some s' → P s') {n : Nat} {s : Promoting}
    (hall : s.AllOrdered n) (h : P s) : P (turns n s) := by
  induction n generalizing s with
  | zero => exact h
  | succ n ih =>
    simp only [turns]
    simp only [AllOrdered] at hall
    split
    · exact h
    · rename_i s' hs
      rw [hs] at hall
      exact ih hall.2 (hturn s s' h hall.1 hs)

end Promoting

/-- Runs of the files of `S` whose promotions follow the order of the submits. -/
def inSubmitOrder (S : Finset File) : Guard where
  enter := fun _ _ r =>
    match r with
    | .submit f _ _ => f ∈ S
    | _ => True
  exec := fun k call _ _ => ∀ x ∈ loopStart k call, x.2.AllOrdered x.2.queue.coreCount

instance (S : Finset File) (k : Kernel) (F : Multiset Frame) (r : Request) :
    Decidable ((inSubmitOrder S).enter k F r) :=
  match r with
  | .submit f _ _ => inferInstanceAs (Decidable (f ∈ S))
  | .bufAlloc .. | .bufFree .. | .wait .. | .drainOwner .. | .interrupt .. | .startWorker ..
  | .startPeerKick .. | .peerArrival | .detachPeer | .mapMmio .. => inferInstanceAs (Decidable True)

instance (S : Finset File) (k : Kernel) (call : Frame) (F : Multiset Frame) (good : Bool) :
    Decidable ((inSubmitOrder S).exec k call F good) :=
  match h : loopStart k call with
  | none => decidable_of_iff True (by simp [inSubmitOrder, h])
  | some x => decidable_of_iff (x.2.AllOrdered x.2.queue.coreCount) (by
      constructor
      · intro hall y hy
        rw [h] at hy
        obtain rfl := Option.some.inj hy
        exact hall
      · intro hall
        exact hall x h)

section Lists

variable {jobs jobs' : Ptr → Job} {f : File} {l l' : List Ptr} {tr tr' : List Event}
  {p : Ptr} {c : Core}

@[simp] theorem insertedBy_append :
    insertedBy f (tr ++ tr') = insertedBy f tr ++ insertedBy f tr' :=
  List.filterMap_append

@[simp] theorem promotedJobs_append :
    promotedJobs (tr ++ tr') = promotedJobs tr ++ promotedJobs tr' :=
  List.filterMap_append

@[simp] theorem turns_append : turns jobs (tr ++ tr') = turns jobs tr ++ turns jobs tr' :=
  List.filterMap_append

@[simp] theorem ofFile_append : ofFile jobs f (l ++ l') = ofFile jobs f l ++ ofFile jobs f l' :=
  List.filter_append ..

theorem ofFile_congr (h : ∀ p ∈ l, (jobs' p).fixed = (jobs p).fixed) :
    ofFile jobs' f l = ofFile jobs f l := by
  refine List.filter_congr ?_
  intro p hp
  rw [Owners.owner_fixed (h p hp)]

theorem turns_congr (h : ∀ p ∈ promotedJobs tr, (jobs' p).fixed = (jobs p).fixed) :
    turns jobs' tr = turns jobs tr := by
  refine List.filterMap_congr ?_
  intro e he
  cases e with
  | promoted p core waiting =>
    have hp : p ∈ promotedJobs tr := List.mem_filterMap.mpr ⟨_, he, rfl⟩
    simp only [Event.turn, Owners.owner_fixed (h p hp), Owners.id_fixed (h p hp)]
  | _ => rfl

end Lists

namespace Promoting

variable {s s' : Promoting} {f : File} {p : Ptr} {c : Core}

/-- Every promotion has its list of waiting files. -/
def Paired (s : Promoting) : Prop := s.out.length = s.waiting.length

theorem promote_events (h : s.Paired) : (s.promote p c).events =
    s.events ++ [.promoted p c (s.queue.pending.map fun p => (s.jobs p).owner)] := by
  simp only [events, promote]
  rw [List.zipWith_append h]
  rfl

theorem promote_paired (h : s.Paired) : (s.promote p c).Paired := by
  simpa [Paired, promote] using h

theorem promote_fixed (x : Ptr) : ((s.promote p c).jobs x).fixed = (s.jobs x).fixed := by
  by_cases hx : x = p
  · subst hx
    simp [promote, Job.fixed]
  · simp [promote, hx]

end Promoting

/-- The jobs of a file that were promoted and those that wait are in the order they were put on
`Pending`. -/
def InOrder (jobs : Ptr → Job) (q : Queue) (tr : List Event) : Prop :=
  ∀ f, (ofFile jobs f (promotedJobs tr) ++ ofFile jobs f q.pending).Sublist (insertedBy f tr)

/-- The turns so far, by the ids of the jobs. -/
structure Rotation (S : Finset File) (jobs : Ptr → Job) (q : Queue)
    (turns : List (Turn (Option File))) :
    Prop where
  table : Table S q.ownerLru turns
  sorted : turns.Pairwise fun a b => a.stamp < b.stamp
  pos : ∀ t ∈ turns, 0 < t.stamp
  fair : Fair turns

/-- What is known of the waiting jobs. -/
def Waiting (S : Finset File) (jobs : Ptr → Job) (q : Queue) : Prop :=
  ∀ p ∈ q.pending, (∃ f ∈ S, (jobs p).owner = some f) ∧ 0 < (jobs p).id

section Turn

variable {S : Finset File} {s s' : Promoting} {tr : List Event}

/-- The oldest waiting job of a file is its next promotion. -/
theorem InOrder.turn (h : InOrder s.jobs s.queue (tr ++ s.events)) (hpaired : s.Paired)
    (hturn : s.turn = some s') : InOrder s'.jobs s'.queue (tr ++ s'.events) := by
  obtain ⟨p, c, -, hpick, rfl⟩ := Promoting.turn_eq hturn
  obtain ⟨l₁, l₂, hpending, herase, hfirst, -⟩ := Queue.erase_pick hpick
  intro f
  have h := h f
  rw [Promoting.promote_events hpaired, ← List.append_assoc, promotedJobs_append, insertedBy_append]
  rw [ofFile_congr fun x _ => Promoting.promote_fixed x,
    ofFile_congr fun x _ => Promoting.promote_fixed x]
  have hqueue : (s.promote p c).queue.pending = l₁ ++ l₂ := herase
  rw [hqueue]
  rw [hpending] at h
  have hnone : insertedBy f [Event.promoted p c (s.queue.pending.map fun p => (s.jobs p).owner)] =
      [] := rfl
  have hone : promotedJobs [Event.promoted p c (s.queue.pending.map fun p => (s.jobs p).owner)] =
      [p] := rfl
  rw [hnone, hone, List.append_nil]
  by_cases howner : (s.jobs p).owner = some f
  · have hl₁ : ofFile s.jobs f l₁ = [] := by
      refine List.filter_eq_nil_iff.mpr ?_
      intro x hx hxf
      exact hfirst x hx (by simpa [howner] using hxf)
    have hp : ofFile s.jobs f [p] = [p] := by simp [ofFile, howner]
    have hcons : ofFile s.jobs f (p :: l₂) = p :: ofFile s.jobs f l₂ := by simp [ofFile, howner]
    simpa [hl₁, hp, hcons] using h
  · have hp : ofFile s.jobs f [p] = [] := by simp [ofFile, howner]
    have hcons : ofFile s.jobs f (p :: l₂) = ofFile s.jobs f l₂ := by simp [ofFile, howner]
    simpa [hp, hcons] using h

/-- The file whose turn it is was served last longest ago. -/
theorem Rotation.turn (h : Rotation S s.jobs s.queue (turns s.jobs (tr ++ s.events)))
    (hS : S.card ≤ 4) (hwaits : Waiting S s.jobs s.queue) (hord : s.Ordered) (hpaired : s.Paired)
    (hturn : s.turn = some s') :
    Rotation S s'.jobs s'.queue (turns s'.jobs (tr ++ s'.events)) := by
  obtain ⟨p, c, -, hpick, rfl⟩ := Promoting.turn_eq hturn
  obtain ⟨l₁, l₂, hpending, -, -, hleast⟩ := Queue.erase_pick hpick
  have hp := Queue.pickPendingByOwnerLru_mem hpick
  obtain ⟨⟨f, hf, howner⟩, hid⟩ := hwaits p hp
  rw [Promoting.promote_events hpaired, ← List.append_assoc, turns_append,
    turns_congr fun x _ => Promoting.promote_fixed x,
    turns_congr fun x _ => Promoting.promote_fixed x]
  generalize hT : turns s.jobs (tr ++ s.events) = T at h
  have hone : turns s.jobs [Event.promoted p c (s.queue.pending.map fun p => (s.jobs p).owner)] =
      [⟨(s.jobs p).owner, (s.jobs p).id, s.queue.pending.map fun p => (s.jobs p).owner⟩] := rfl
  rw [hone]
  have hyounger : ∀ t ∈ T, t.stamp < (s.jobs p).id := by
    intro t ht
    obtain ⟨hsome, e, he, hfile⟩ := h.table.known t ht
    have hlast := (h.table.named e he (hfile ▸ hsome)).2
    have hle := le_lastStamp h.sorted ht
    rw [← hfile, ← hlast] at hle
    exact hle.trans_lt (hord p hp hleast e he)
  refine ⟨?_, ?_, ?_, ?_⟩
  · have htable := h.table.upsert hS hf hid (t := ⟨(s.jobs p).owner, (s.jobs p).id,
      s.queue.pending.map fun p => (s.jobs p).owner⟩) howner rfl
    rw [← howner] at htable
    exact htable
  · refine List.pairwise_append.mpr ⟨h.sorted, by simp, ?_⟩
    intro t ht u hu
    obtain rfl := List.mem_singleton.mp hu
    exact hyounger t ht
  · intro t ht
    rcases List.mem_append.mp ht with ht | ht
    · exact h.pos t ht
    · obtain rfl := List.mem_singleton.mp ht
      exact hid
  · refine h.fair.snoc h.sorted h.pos ?_
    intro x hx
    obtain ⟨y, hy, rfl⟩ := List.mem_map.mp hx
    obtain ⟨⟨g, -, hg⟩, -⟩ := hwaits y hy
    have hle := hleast y hy
    rw [howner, hg, h.table.score rfl, h.table.score rfl] at hle
    simpa only [howner, hg] using hle

end Turn

/-- A section without a promotion: jobs may leave `Pending`, and nothing is put on it. -/
structure Still (k k' : Kernel) (events : List Event) : Prop where
  lru : (k'.queue .rvd0).ownerLru = (k.queue .rvd0).ownerLru
  pending : (k'.queue .rvd0).pending.Sublist (k.queue .rvd0).pending
  promoted : promotedJobs events = []
  inserted : ∀ f, insertedBy f events = []

/-- What a section puts on `Pending` before its promotion loop. -/
def Frame.inserts : Frame → List Event
  | .submitEnqueue f p => [.inserted f p]
  | _ => []

/-- A section with a promotion loop on RVD0. -/
structure Loops (k : Kernel) (call : Frame) (k' : Kernel) (events : List Event)
    (s : Promoting) : Prop where
  start : loopStart k call = some (.rvd0, s)
  jobs : k'.jobs = (s.turns s.queue.coreCount).jobs
  queue : k'.queue .rvd0 = (s.turns s.queue.coreCount).queue
  events : events = call.inserts ++ (s.turns s.queue.coreCount).events
  fresh : s.jobs = k.jobs ∧ s.out = [] ∧ s.waiting = [] ∧
    s.queue.ownerLru = (k.queue .rvd0).ownerLru
  pending : s.queue.pending = (k.queue .rvd0).pending ++ call.submits
  nextPtr : k'.nextPtr = k.nextPtr

section Steps

variable {k k' : Kernel} {F : Multiset Frame} {call : Frame} {calls : List Frame}
  {tr events : List Event} {r : Request} {good : Bool} {p : Ptr} {d : Dev} {f : File}
    {S : Finset File}

/-- RVD1 has nothing to promote. -/
theorem promoting_rvd1 (h : (k.queue .rvd1).pending = []) :
    (k.promoting .rvd1).queue = k.queue .rvd1 ∧
    (k.promoting .rvd1).events = [] := by
  have hturn : (⟨k.jobs, k.queue .rvd1, [], []⟩ : Promoting).turn = none := by
    simp only [Promoting.turn, Queue.pickPendingByOwnerLru, h]
    split
    · rename_i heq
      cases heq
    · rfl
  have hturns : ∀ n, Promoting.turns n ⟨k.jobs, k.queue .rvd1, [], []⟩ =
      ⟨k.jobs, k.queue .rvd1, [], []⟩ := by
    intro n
    cases n with
    | zero => rfl
    | succ n => simp only [Promoting.turns, hturn]
  simp only [Kernel.promoting, promoteUntilFull, hturns, true_and]
  rfl

theorem promoting_setQueue (d : Dev) (g : Queue → Queue) : (k.setQueue d g).promoting d =
    Promoting.turns (g (k.queue d)).coreCount ⟨k.jobs, g (k.queue d), [], []⟩ := by
  simp only [Kernel.promoting, promoteUntilFull, setQueue_queue, Function.update_self]
  rfl

theorem promoted_queue_self (d : Dev) : (k.promoted d).queue d = (k.promoting d).queue := by
  simp

theorem Runs.still_or_loops (h : Runs k call good k' calls events)
    (hpending : (k.queue .rvd1).pending = []) :
    Still k k' events ∨ ∃ s, Loops k call k' events s := by
  cases h with
  | @submitEnqueue f p _ room =>
    have hloop := promoting_setQueue (k := k) .rvd0 fun q => { q with pending := q.pending ++ [p] }
    refine .inr ⟨_, by simp only [loopStart, if_neg room]; rfl, ?_, ?_, ?_, ?_, ?_, rfl⟩
    · exact congrArg Promoting.jobs hloop
    · exact (promoted_queue_self .rvd0).trans (congrArg Promoting.queue hloop)
    · exact congrArg (Event.inserted f p :: Promoting.events ·) hloop
    · exact ⟨rfl, rfl, rfl, rfl⟩
    · rfl
  | @kickWorker d _ rearm =>
    cases d with
    | rvd0 =>
      have hloop := promoting_setQueue (k := k) .rvd0 fun q => { q with kickRearm := false }
      refine .inr ⟨_, by simp only [loopStart, rearm]; rfl, ?_, ?_, ?_, ?_, ?_, rfl⟩
      · exact congrArg Promoting.jobs hloop
      · exact (promoted_queue_self .rvd0).trans (congrArg Promoting.queue hloop)
      · exact congrArg Promoting.events hloop
      · exact ⟨rfl, rfl, rfl, rfl⟩
      · simp [Frame.submits]
    | rvd1 =>
      have hevents := (promoting_rvd1 (k := k.disarm .rvd1) (by simpa using hpending)).2
      refine .inl ⟨by simp, by simp, ?_, ?_⟩
      · rw [hevents]
        rfl
      · intro f
        rw [hevents]
        rfl
  | @rollback d | @rollbackLost d | @enqueueKickWorker d | @workerExit d | @completeOrphan d
      | @complete d =>
    exact .inl ⟨by cases d <;> simp, by cases d <;> simp, rfl, fun _ => rfl⟩
  | waitExpiredPending =>
    exact .inl ⟨by simp, by simpa using List.erase_sublist, rfl, fun _ => rfl⟩
  | _ => exact .inl ⟨by simp, by simp, rfl, fun _ => rfl⟩

theorem Enters.still (h : Enters k r k' calls events) : Still k k' events := by
  cases h with
  | _ => exact ⟨by simp, by simp, rfl, fun _ => rfl⟩

theorem Runs.not_submits (h : Runs k call good k' calls events) : .submitEnqueue f p ∉ calls := by
  cases h with
  | _ => simp

theorem insertedBy_events (s : Promoting) : insertedBy f s.events = [] := s.filterMap_events

/-- What a promotion loop does to the order, and that it promotes what was waiting. -/
theorem loop_inOrder {s : Promoting} (hout : s.out = [] ∧ s.waiting = [])
    (h : InOrder s.jobs s.queue tr) (n : Nat) :
    InOrder (s.turns n).jobs (s.turns n).queue (tr ++ (s.turns n).events) ∧
      ∀ p ∈ promotedJobs (s.turns n).events, p ∈ s.queue.pending := by
  obtain ⟨hout, hwaiting⟩ := hout
  have hloop := Promoting.turns_inv (s := s) (P := fun s' => s'.Paired ∧
      InOrder s'.jobs s'.queue (tr ++ s'.events) ∧ (∀ p ∈ s'.queue.pending, p ∈ s.queue.pending) ∧
      ∀ p ∈ promotedJobs s'.events, p ∈ s.queue.pending) ?_ n ?_
  · exact ⟨hloop.2.1, hloop.2.2.2⟩
  · rintro s₁ s₂ ⟨hpaired, horder, hpending, hpromoted⟩ hturn
    have hnext := horder.turn hpaired hturn
    obtain ⟨p, c, -, hpick, rfl⟩ := Promoting.turn_eq hturn
    refine ⟨Promoting.promote_paired hpaired, hnext, ?_, ?_⟩
    · exact fun x hx => hpending x (List.mem_of_mem_erase hx)
    · intro x hx
      rw [Promoting.promote_events hpaired, promotedJobs_append] at hx
      rcases List.mem_append.mp hx with hx | hx
      · exact hpromoted x hx
      · obtain rfl := List.mem_singleton.mp hx
        exact hpending _ (Queue.pickPendingByOwnerLru_mem hpick)
  · have hevents : s.events = [] := by simp [Promoting.events, hout]
    refine ⟨by simp [Promoting.Paired, hout, hwaiting], ?_, fun _ hp => hp, ?_⟩
    · simpa [hevents] using h
    · simp [hevents, promotedJobs]

/-- The job that is put on `Pending` is the last one. -/
theorem inserts_eq (howner : ∀ f p, call = .submitEnqueue f p → (k.jobs p).owner = some f) :
    insertedBy f call.inserts = ofFile k.jobs f call.submits ∧ promotedJobs call.inserts = [] := by
  cases call with
  | submitEnqueue g p =>
    refine ⟨?_, rfl⟩
    simp only [Frame.inserts, insertedBy, Event.insertedBy, List.filterMap_cons, List.filterMap_nil,
      Frame.submits, ofFile, List.filter_cons, List.filter_nil, howner g p rfl]
    by_cases hg : g = f <;> simp [hg]
  | _ => exact ⟨rfl, rfl⟩

end Steps

/-- The order of the waiting and the promoted jobs, in a run. -/
structure Queued (k : Kernel) (F : Multiset Frame) (tr : List Event) : Prop where
  order : InOrder k.jobs (k.queue .rvd0) tr
  past : ∀ p ∈ promotedJobs tr, p < k.nextPtr
  inserted : ∀ f, ∀ p ∈ insertedBy f tr, p < k.nextPtr ∧ ∀ g, .submitEnqueue g p ∉ F
  once : ∀ f, (insertedBy f tr).Nodup
  owner : ∀ f p, .submitEnqueue f p ∈ F → (k.jobs p).owner = some f

namespace Queued

variable {k k' : Kernel} {F F' : Multiset Frame} {call : Frame} {calls : List Frame}
  {tr events : List Event} {r : Request} {good : Bool} {p : Ptr} {f : File}

theorem submit_bound (hshape : Shape k F tr) (h : .submitEnqueue f p ∈ F) : p < k.nextPtr := by
  have hheld : p ∈ Place.held.jobs k F := mem_gather.mpr ⟨_, h, by simp [Frame.owns]⟩
  exact hshape.ledger.bound p (place_alive hshape hheld)

theorem pending_bound (hshape : Shape k F tr) (h : p ∈ (k.queue .rvd0).pending) : p < k.nextPtr :=
  hshape.ledger.bound p (place_alive (a := .pending) hshape h)

/-- A step without a promotion. -/
theorem still (h : Queued k F tr) (hshape : Shape k F tr) (hstill : Still k k' events)
    (hfixed : ∀ p < k.nextPtr, (k'.jobs p).fixed = (k.jobs p).fixed)
    (hnext : k.nextPtr ≤ k'.nextPtr) (hcalls : ∀ f p, .submitEnqueue f p ∈ F' →
      .submitEnqueue f p ∈ F ∨ p = k.nextPtr ∧ (k'.jobs p).owner = some f) :
    Queued k' F' (tr ++ events) := by
  have hold : ∀ f, insertedBy f (tr ++ events) = insertedBy f tr := by
    intro f
    rw [insertedBy_append, hstill.inserted, List.append_nil]
  have hpast : promotedJobs (tr ++ events) = promotedJobs tr := by
    rw [promotedJobs_append, hstill.promoted, List.append_nil]
  refine ⟨?_, ?_, ?_, ?_, ?_⟩
  · intro f
    rw [hold, hpast, ofFile_congr fun p hp => hfixed p (h.past p hp)]
    refine List.Sublist.trans ?_ (h.order f)
    refine List.Sublist.append_left ?_ _
    rw [ofFile_congr fun p hp => hfixed p (pending_bound hshape (hstill.pending.subset hp))]
    exact hstill.pending.filter _
  · intro p hp
    rw [hpast] at hp
    exact (h.past p hp).trans_le hnext
  · intro f p hp
    rw [hold] at hp
    obtain ⟨hlt, hnone⟩ := h.inserted f p hp
    refine ⟨hlt.trans_le hnext, ?_⟩
    intro g hg
    rcases hcalls g p hg with hg | ⟨rfl, -⟩
    · exact hnone g hg
    · exact absurd hlt (lt_irrefl _)
  · intro f
    rw [hold]
    exact h.once f
  · intro f p hp
    rcases hcalls f p hp with hp | ⟨-, hp⟩
    · rw [Owners.owner_fixed (hfixed p (submit_bound hshape hp))]
      exact h.owner f p hp
    · exact hp

theorem loops {s : Promoting} (h : Queued k (call ::ₘ F) tr) (hshape : Shape k (call ::ₘ F) tr)
    (hloop : Loops k call k' events s)
    (hfixed : ∀ p < k.nextPtr, (k'.jobs p).fixed = (k.jobs p).fixed)
    (hcalls : ∀ f p, .submitEnqueue f p ∈ F' → .submitEnqueue f p ∈ F) :
    Queued k' F' (tr ++ events) := by
  obtain ⟨hjobs, hout, hwaiting, -⟩ := hloop.fresh
  obtain ⟨hinserts, hpromotes⟩ : (∀ f, insertedBy f call.inserts = ofFile k.jobs f call.submits) ∧
      promotedJobs call.inserts = [] := by
    have howner : ∀ f p, call = .submitEnqueue f p → (k.jobs p).owner = some f := by
      rintro f p rfl
      exact h.owner f p (Multiset.mem_cons_self _ _)
    exact ⟨fun f => (inserts_eq howner).1, (inserts_eq (f := 0) howner).2⟩
  have hstart : InOrder s.jobs s.queue (tr ++ call.inserts) := by
    intro f
    rw [hjobs, hloop.pending, promotedJobs_append, hpromotes, List.append_nil, insertedBy_append,
      hinserts, ofFile_append, ← List.append_assoc]
    exact (h.order f).append (List.Sublist.refl _)
  obtain ⟨horder, hpromoted⟩ := loop_inOrder ⟨hout, hwaiting⟩ hstart s.queue.coreCount
  -- A submitted job is the thread's until it is put on `Pending`.
  have hsubmit : ∀ p ∈ call.submits, p < k.nextPtr ∧ (∀ g, .submitEnqueue g p ∉ F) ∧
      ∃ g, call = .submitEnqueue g p := by
    intro p hp
    cases call with
    | submitEnqueue g q =>
      obtain rfl := List.mem_singleton.mp hp
      refine ⟨submit_bound hshape (Multiset.mem_cons_self _ _), ?_, g, rfl⟩
      intro g' hg'
      have hnodup := Multiset.nodup_of_le (Multiset.le_add_right _ _) hshape.ledger.slot
      have howned := (Multiset.nodup_add.mp hnodup).2.1
      rw [owned, gather_cons] at howned
      have hmem : p ∈ gather Frame.owns F := mem_gather.mpr ⟨_, hg', by simp [Frame.owns]⟩
      exact Multiset.disjoint_left.mp (Multiset.nodup_add.mp howned).2.2 (by simp [Frame.owns]) hmem
    | _ => cases hp
  have hwaits : ∀ p ∈ s.queue.pending, p < k.nextPtr := by
    intro p hp
    rw [hloop.pending] at hp
    rcases List.mem_append.mp hp with hp | hp
    · exact pending_bound hshape hp
    · exact (hsubmit p hp).1
  have hins : ∀ f, insertedBy f (tr ++ events) =
      insertedBy f tr ++ ofFile k.jobs f call.submits := by
    intro f
    rw [hloop.events, insertedBy_append, insertedBy_append, insertedBy_events, hinserts,
      List.append_nil]
  refine ⟨?_, ?_, ?_, ?_, ?_⟩
  · rw [hloop.jobs, hloop.queue, hloop.events, ← List.append_assoc]
    exact horder
  · intro p hp
    rw [hloop.events, promotedJobs_append, promotedJobs_append, hpromotes, List.nil_append] at hp
    rw [hloop.nextPtr]
    rcases List.mem_append.mp hp with hp | hp
    · exact h.past p hp
    · exact hwaits p (hpromoted p hp)
  · intro f p hp
    rw [hins] at hp
    rw [hloop.nextPtr]
    rcases List.mem_append.mp hp with hp | hp
    · obtain ⟨hlt, hnone⟩ := h.inserted f p hp
      exact ⟨hlt, fun g hg => hnone g (Multiset.mem_cons_of_mem (hcalls g p hg))⟩
    · obtain ⟨hlt, hnone, -⟩ := hsubmit p (List.mem_of_mem_filter hp)
      exact ⟨hlt, fun g hg => hnone g (hcalls g p hg)⟩
  · intro f
    rw [hins]
    refine List.nodup_append.mpr ⟨h.once f, ?_, ?_⟩
    · refine List.Nodup.filter _ ?_
      cases call <;> simp [Frame.submits]
    · rintro p hp x hx rfl
      obtain ⟨-, -, g, rfl⟩ := hsubmit p (List.mem_of_mem_filter hx)
      exact (h.inserted f p hp).2 g (Multiset.mem_cons_self _ _)
  · intro f p hp
    have hF := Multiset.mem_cons_of_mem (hcalls f p hp) (b := call)
    rw [Owners.owner_fixed (hfixed p (submit_bound hshape hF))]
    exact h.owner f p hF

theorem runs (h : Queued k (call ::ₘ F) tr) (hshape : Shape k (call ::ₘ F) tr)
    (hrun : Runs k call good k' calls events) : Queued k' (↑calls + F) (tr ++ events) := by
  have hfixed : ∀ p < k.nextPtr, (k'.jobs p).fixed = (k.jobs p).fixed :=
    fun p hp => hrun.fixed hp.ne
  have hcalls : ∀ f p, .submitEnqueue f p ∈ ↑calls + F → .submitEnqueue f p ∈ F := by
    intro f p hp
    rcases Multiset.mem_add.mp hp with hp | hp
    · exact absurd (by simpa using hp) hrun.not_submits
    · exact hp
  rcases hrun.still_or_loops hshape.slots.peerPending with hstill | ⟨s, hloop⟩
  · refine h.still hshape hstill hfixed ?_ fun f p hp =>
      .inl (Multiset.mem_cons_of_mem (hcalls f p hp))
    rcases hrun.fresh with hnext | ⟨hnext, -⟩
    · exact hnext.ge
    · exact hnext ▸ Nat.le_succ _
  · exact h.loops hshape hloop hfixed hcalls

theorem enters (h : Queued k F tr) (hshape : Shape k F tr) (hrun : Enters k r k' calls events) :
    Queued k' (↑calls + F) (tr ++ events) := by
  refine h.still hshape hrun.still (fun p hp => hrun.fixed hp.ne) ?_ ?_
  · cases hrun with
    | submit => exact Nat.le_succ _
    | _ => exact le_rfl
  · intro f p hp
    refine (Multiset.mem_add.mp hp).symm.imp_right fun hp => ?_
    cases hrun with
    | submit =>
      simp only [Multiset.mem_coe, List.mem_singleton, Frame.submitEnqueue.injEq] at hp
      obtain ⟨rfl, rfl⟩ := hp
      exact ⟨rfl, by simp [submitJob]⟩
    | detachPeer waits => obtain rfl | ⟨q, -, rfl⟩ := waits <;> simp at hp
    | _ => simp at hp

end Queued

theorem queued_reachable {G : Guard} {s : Sys} (h : Reachable G s) :
    Queued s.mem s.calls s.trace := by
  refine Reachable.invariant (J := Queued) (fun _ => shape_reachable) ?_
    (fun hshape hqueued _ hrun => hqueued.enters hshape hrun)
    (fun hshape hqueued _ hrun => hqueued.runs hshape hrun) h
  refine ⟨?_, ?_, ?_, ?_, ?_⟩
  · intro f
    exact List.Sublist.refl _
  all_goals simp [promotedJobs, insertedBy]

/-- The turns of the files, in a run whose promotions follow the order of the submits. -/
structure Rotates (S : Finset File) (k : Kernel) (F : Multiset Frame) (tr : List Event) : Prop where
  rotation : Rotation S k.jobs (k.queue .rvd0) (turns k.jobs tr)
  home : ∀ p, Home k F p → (∃ f ∈ S, (k.jobs p).owner = some f) ∧ 0 < (k.jobs p).id

namespace Rotates

variable {S : Finset File} {k k' : Kernel} {F F' : Multiset Frame} {call : Frame}
  {calls : List Frame}
  {tr events : List Event} {r : Request} {good : Bool} {p : Ptr} {f : File}

/-- What is known of the jobs at home does not change. -/
theorem home_fixed (h : (∃ f ∈ S, (k.jobs p).owner = some f) ∧ 0 < (k.jobs p).id)
    (hfixed : (k'.jobs p).fixed = (k.jobs p).fixed) :
    (∃ f ∈ S, (k'.jobs p).owner = some f) ∧ 0 < (k'.jobs p).id := by
  rw [Owners.owner_fixed hfixed, Owners.id_fixed hfixed]
  exact h

theorem still (h : Rotates S k F tr) (hqueued : Queued k F tr) (hstill : Still k k' events)
    (hfixed : ∀ p < k.nextPtr, (k'.jobs p).fixed = (k.jobs p).fixed)
    (hhome : ∀ p, Home k' F' p → (∃ f ∈ S, (k'.jobs p).owner = some f) ∧ 0 < (k'.jobs p).id) :
    Rotates S k' F' (tr ++ events) := by
  refine ⟨?_, hhome⟩
  have hturns : turns k'.jobs (tr ++ events) = turns k.jobs tr := by
    have hnone : turns k'.jobs events = [] := by
      refine List.filterMap_eq_nil_iff.mpr ?_
      intro e he
      have hpromoted := List.filterMap_eq_nil_iff.mp hstill.promoted e he
      cases e <;> simp_all [Event.turn, Event.promotedJob]
    rw [turns_append, hnone, List.append_nil]
    exact turns_congr fun p hp => hfixed p (hqueued.past p hp)
  obtain ⟨htable, hsorted, hpos, hfair⟩ := h.rotation
  rw [hturns]
  exact ⟨hstill.lru ▸ htable, hsorted, hpos, hfair⟩

/-- A promotion loop, each of whose turns finds the waiting jobs in order. -/
theorem loop {s : Promoting} (hS : S.card ≤ 4) (hout : s.out = [] ∧ s.waiting = [])
    (hrotation : Rotation S s.jobs s.queue (turns s.jobs tr))
    (hwaiting : Waiting S s.jobs s.queue) {n : Nat} (hall : s.AllOrdered n) :
    Rotation S (s.turns n).jobs (s.turns n).queue
      (turns (s.turns n).jobs (tr ++ (s.turns n).events)) := by
  obtain ⟨hout, hnone⟩ := hout
  have hloop := Promoting.turns_ordered (P := fun s' => s'.Paired ∧ Waiting S s'.jobs s'.queue ∧
      Rotation S s'.jobs s'.queue (turns s'.jobs (tr ++ s'.events))) ?_ hall ?_
  · exact hloop.2.2
  · rintro s₁ s₂ ⟨hpaired, hwaiting, hrotation⟩ hord hturn
    have hnext := hrotation.turn hS hwaiting hord hpaired hturn
    obtain ⟨p, c, -, -, rfl⟩ := Promoting.turn_eq hturn
    refine ⟨Promoting.promote_paired hpaired, ?_, hnext⟩
    intro x hx
    have hfixed := Promoting.promote_fixed (s := s₁) (p := p) (c := c) x
    rw [Owners.owner_fixed hfixed, Owners.id_fixed hfixed]
    exact hwaiting x (List.mem_of_mem_erase hx)
  · have hevents : s.events = [] := by simp [Promoting.events, hout]
    refine ⟨by simp [Promoting.Paired, hout, hnone], hwaiting, ?_⟩
    simpa [hevents] using hrotation

theorem loops {s : Promoting} (hS : S.card ≤ 4) (h : Rotates S k (call ::ₘ F) tr)
    (hloop : Loops k call k' events s) (hall : s.AllOrdered s.queue.coreCount)
    (hhome : ∀ p, Home k' F' p → (∃ f ∈ S, (k'.jobs p).owner = some f) ∧ 0 < (k'.jobs p).id) :
    Rotates S k' F' (tr ++ events) := by
  obtain ⟨hjobs, hout, hnone, hlru⟩ := hloop.fresh
  refine ⟨?_, hhome⟩
  have hinserts : turns s.jobs (tr ++ call.inserts) = turns k.jobs tr := by
    rw [hjobs, turns_append]
    cases call <;> exact List.append_nil _
  have hrotation : Rotation S s.jobs s.queue (turns s.jobs (tr ++ call.inserts)) := by
    obtain ⟨htable, hsorted, hpos, hfair⟩ := h.rotation
    rw [hinserts]
    exact ⟨hlru ▸ htable, hsorted, hpos, hfair⟩
  have hwaiting : Waiting S s.jobs s.queue := by
    intro p hp
    rw [hloop.pending] at hp
    rw [hjobs]
    refine h.home p ?_
    rcases List.mem_append.mp hp with hp | hp
    · exact .inl (.inl hp)
    · refine Home.of_carries ?_
      cases call <;> simp_all [Frame.submits, Frame.carries]
  rw [hloop.jobs, hloop.queue, hloop.events, ← List.append_assoc]
  exact loop hS ⟨hout, hnone⟩ hrotation hwaiting hall

theorem runs (hS : S.card ≤ 4) (h : Rotates S k (call ::ₘ F) tr) (hshape : Shape k (call ::ₘ F) tr)
    (howners : Owners k (call ::ₘ F)) (hqueued : Queued k (call ::ₘ F) tr)
    (hguard : (inSubmitOrder S).exec k call F good) (hrun : Runs k call good k' calls events) :
    Rotates S k' (↑calls + F) (tr ++ events) := by
  have hhome : ∀ p, Home k' (↑calls + F) p →
      (∃ f ∈ S, (k'.jobs p).owner = some f) ∧ 0 < (k'.jobs p).id := by
    intro p hp
    have hp := hp.runs hshape hrun
    exact home_fixed (h.home p hp) (hrun.fixed (howners.home p hp).1.ne)
  rcases hrun.still_or_loops hshape.slots.peerPending with hstill | ⟨s, hloop⟩
  · exact h.still hqueued hstill (fun p hp => hrun.fixed hp.ne) hhome
  · exact h.loops hS hloop (hguard _ hloop.start) hhome

theorem enters (h : Rotates S k F tr) (howners : Owners k F) (hqueued : Queued k F tr)
    (hguard : (inSubmitOrder S).enter k F r) (hrun : Enters k r k' calls events) :
    Rotates S k' (↑calls + F) (tr ++ events) := by
  refine h.still hqueued hrun.still (fun p hp => hrun.fixed hp.ne) ?_
  intro p hp
  rcases hp.enters_cases hrun with hp | ⟨rfl, f, input, allocOk, prog, rfl, hjob, -⟩
  · exact home_fixed (h.home p hp) (hrun.fixed (howners.home p hp).1.ne)
  · rw [hjob]
    exact ⟨⟨f, hguard, rfl⟩, Nat.succ_pos _⟩

end Rotates

theorem rotates_reachable {S : Finset File} (hS : S.card ≤ 4) {s : Sys}
    (h : Reachable (inSubmitOrder S) s) :
    Rotates S s.mem s.calls s.trace := by
  refine Reachable.invariant (J := Rotates S)
    (I := fun k F tr => Shape k F tr ∧ Owners k F ∧ Queued k F tr)
    (fun _ hs => ⟨shape_reachable hs, owners_reachable hs, queued_reachable hs⟩) ?_ ?_ ?_ h
  · refine ⟨⟨Table.init S, List.Pairwise.nil, by simp [turns], ?_⟩, ?_⟩
    · intro pre a mid b post hsplit
      simp [turns] at hsplit
    · intro p hp
      simp [Home, Queue.Holds, kernelInit, jobQueueInit] at hp
  · intro k F tr r k' calls events hI hJ hguard hrun
    exact hJ.enters hI.2.1 hI.2.2 hguard hrun
  · intro k call F tr good k' calls events hI hJ hguard hrun
    exact hJ.runs hS hI.1 hI.2.1 hI.2.2 hguard hrun

/-- In every run the jobs of a file are promoted in the order they were put on `Pending`, each of
them once. With at most four files they take turns, as long as the promotions follow the order of
the submits. -/
theorem files_take_turns {s : Sys} (h : Reachable .any s) :
    (∀ f, (insertedBy f s.trace).Nodup ∧
      (ofFile s.mem.jobs f (promotedJobs s.trace)).Sublist (insertedBy f s.trace)) ∧
    ∀ S : Finset File, S.card ≤ 4 → Reachable (inSubmitOrder S) s →
    Fair (turns s.mem.jobs s.trace) := by
  refine ⟨?_, ?_⟩
  · intro f
    have hqueued := queued_reachable h
    exact ⟨hqueued.once f, (List.sublist_append_left _ _).trans (hqueued.order f)⟩
  · intro S hS hs
    exact (rotates_reachable hS hs).rotation.fair

/-- The codec reports its job, and the kick worker, running as thread `t`, promotes and kicks the
next. -/
abbrev nextJob (t : Nat) : List (Action Request) :=
  [.enter (.interrupt .rvd0 1), .run t true, .run t true, .run t true, .run t true,
    .enter (.startWorker .rvd0), .run (t + 1) true, .run (t + 1) true, .run (t + 1) true,
    .run (t + 1) true, .run (t + 1) true, .run (t + 1) true]

/-- The first file has three jobs before the second one has two. -/
abbrev unevenSubmits : List (Action Request) :=
  .enter (.mapMmio .rvd0 4096) :: submitBare 1 0 ++ [.run 1 true, .run 1 true, .run 1 true] ++
    submitBare 2 0 ++ submitBare 3 0 ++ submitBare 4 1 ++ submitBare 5 1 ++ nextJob 6 ++
    nextJob 8 ++ nextJob 10

theorem unevenSubmits_runs : (machine.run init unevenSubmits).isSome = true := by
  decide +kernel

/-- The second file's last job waits while the first file is served twice. -/
theorem waiting_file_passed_over : ∃ s : Sys, Reachable .any s ∧ (s.mem.queue .rvd0).pending = [4] ∧
    ¬ Fair (turns s.mem.jobs s.trace) := by
  refine ⟨_, .of_get unevenSubmits_runs (by decide +kernel), by decide +kernel, ?_⟩
  intro hfair
  have hturns : turns ((machine.run init unevenSubmits).get unevenSubmits_runs).mem.jobs
      ((machine.run init unevenSubmits).get unevenSubmits_runs).trace =
      [⟨some 0, 1, [some 0]⟩, ⟨some 1, 4, [some 0, some 0, some 1, some 1]⟩] ++
        ⟨some 0, 2, [some 0, some 0, some 1]⟩ :: ([] ++ ⟨some 0, 3, [some 0, some 1]⟩ :: []) := by
    decide +kernel
  obtain ⟨t, ht, -⟩ := hfair _ _ _ _ _ hturns rfl (some 1) (by decide) (by decide)
  cases ht

/-- Two files that submit in turn. -/
abbrev evenSubmits : List (Action Request) :=
  .enter (.mapMmio .rvd0 4096) :: submitBare 1 0 ++ [.run 1 true, .run 1 true, .run 1 true] ++
    submitBare 2 1 ++ submitBare 3 0 ++ nextJob 4 ++ nextJob 6

theorem evenSubmits_runs : (machine.run init evenSubmits).isSome = true := by
  decide +kernel

/-- The state it ends in. -/
abbrev servedInTurn : Sys := (machine.run init evenSubmits).get evenSubmits_runs

theorem files_take_turns_even : promotedJobs servedInTurn.trace = [0, 1, 2] ∧
    Fair (turns servedInTurn.mem.jobs servedInTurn.trace) :=
  ⟨by decide +kernel, (files_take_turns (.of_get evenSubmits_runs (by decide +kernel))).2
    {0, 1} (by decide)
    (.of_get evenSubmits_runs (by decide +kernel))⟩

end Rkvdec.Dispatch
