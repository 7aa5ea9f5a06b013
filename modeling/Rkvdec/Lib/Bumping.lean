import Mathlib.Data.List.Sort
import Mathlib.Tactic

/-! A bounded reordering window: elements come in any order, and as long as more than a bound of
them wait, the one of least key is moved to an output queue. -/

/-- The elements that wait, and those to be handed out next, in order. -/
structure Bumping (α : Type) where
  window : List α
  ready : List α

namespace Bumping

variable {α β κ : Type} [LinearOrder κ] {key : α → κ} {s s' : Bumping α} {x : α} {bound fuel : Nat}

/-- The index of the first element of least key, scanning with a candidate in hand. -/
def lowestFrom (key : α → κ) (best : α) (bestIdx : Nat) : Nat → List α → Nat
  | _, [] => bestIdx
  | i, x :: xs =>
    if key x < key best then lowestFrom key x i (i + 1) xs
    else lowestFrom key best bestIdx (i + 1) xs

def lowest (key : α → κ) : List α → Nat
  | [] => 0
  | x :: xs => lowestFrom key x 0 1 xs

/-- Move the first element of least key to the output. -/
def bump (key : α → κ) (s : Bumping α) : Bumping α :=
  match s.window[lowest key s.window]? with
  | none => s
  | some x => ⟨s.window.eraseIdx (lowest key s.window), s.ready ++ [x]⟩

/-- Bump while more than `bound` elements wait. -/
def bumpWhile (key : α → κ) (bound : Nat) : Nat → Bumping α → Bumping α
  | 0, s => s
  | fuel + 1, s =>
    if s.window.length ≤ bound then s else bumpWhile key bound fuel (bump key s)

def drain (key : α → κ) (s : Bumping α) : Bumping α :=
  bumpWhile key 0 s.window.length s

/-- Take in one element, after spilling the whole window if asked to. -/
def push (key : α → κ) (bound : Nat) (spill : Bool) (x : α) (s : Bumping α) : Bumping α :=
  let s := if spill then drain key s else s
  let s : Bumping α := ⟨s.window ++ [x], s.ready⟩
  bumpWhile key bound s.window.length s

/-- Hand out the next element, if there is one. -/
def pop (s : Bumping α) : List α × Bumping α :=
  match s.ready with
  | [] => ([], s)
  | x :: rest => ([x], ⟨s.window, rest⟩)

theorem lowestFrom_spec (key : α → κ) (best : α) (pre mid xs : List α) (i : Nat)
    (hi : i = pre.length + 1 + mid.length) (hpre : ∀ y ∈ pre, key best < key y)
    (hmid : ∀ y ∈ mid, key best ≤ key y) :
    ∃ pre' x post, pre ++ best :: (mid ++ xs) = pre' ++ x :: post ∧
      lowestFrom key best pre.length i xs = pre'.length ∧
      (∀ y ∈ pre', key x < key y) ∧ ∀ y ∈ post, key x ≤ key y := by
  induction xs generalizing best pre mid i with
  | nil => exact ⟨pre, best, mid, by simp, rfl, hpre, hmid⟩
  | cons x xs ih =>
    by_cases hlt : key x < key best
    · -- The candidate and everything before it move into the part that is strictly above.
      have hpre' : ∀ y ∈ pre ++ best :: mid, key x < key y := by
        intro y hy
        rcases List.mem_append.mp hy with hy | hy
        · exact hlt.trans (hpre y hy)
        · rcases List.mem_cons.mp hy with rfl | hy
          · exact hlt
          · exact hlt.trans_le (hmid y hy)
      have hlen : i = (pre ++ best :: mid).length := by
        simp only [List.length_append, List.length_cons]
        omega
      obtain ⟨pre', z, post, heq, hidx, h1, h2⟩ :=
        ih x (pre ++ best :: mid) [] (i + 1) (by simp [hlen]) hpre' (by simp)
      refine ⟨pre', z, post, by simpa using heq, ?_, h1, h2⟩
      rw [lowestFrom, if_pos hlt, ← hidx, ← hlen]
    · have hmid' : ∀ y ∈ mid ++ [x], key best ≤ key y := by
        intro y hy
        rcases List.mem_append.mp hy with hy | hy
        · exact hmid y hy
        · rw [List.mem_singleton.mp hy]
          exact not_lt.mp hlt
      obtain ⟨pre', z, post, heq, hidx, h1, h2⟩ :=
        ih best pre (mid ++ [x]) (i + 1) (by simp; omega) hpre hmid'
      refine ⟨pre', z, post, by simpa using heq, ?_, h1, h2⟩
      rw [lowestFrom, if_neg hlt, hidx]

/-- One bump takes the first element of least key out of a window that is not empty. -/
theorem bump_cases (key : α → κ) (s : Bumping α) :
    (s.window = [] ∧ bump key s = s) ∨
      ∃ pre x post, s.window = pre ++ x :: post ∧ bump key s = ⟨pre ++ post, s.ready ++ [x]⟩ ∧
        (∀ y ∈ pre, key x < key y) ∧ ∀ y ∈ post, key x ≤ key y := by
  cases hw : s.window with
  | nil => exact .inl ⟨rfl, by simp [bump, hw, lowest]⟩
  | cons y ys =>
    obtain ⟨pre, x, post, heq, hidx, h1, h2⟩ :=
      lowestFrom_spec key y [] [] ys 1 (by simp) (by simp) (by simp)
    refine .inr ⟨pre, x, post, by simpa using heq, ?_, h1, h2⟩
    have hlow : lowest key s.window = pre.length := by rw [hw]; exact hidx
    have hwin : s.window = pre ++ x :: post := by rw [hw]; simpa using heq
    rw [bump, hlow, hwin]
    simp [List.eraseIdx_append_of_length_le]

theorem length_bump : (bump key s).window.length = s.window.length - 1 := by
  obtain ⟨hw, hb⟩ | ⟨pre, x, post, hw, hb, -⟩ := bump_cases key s
  · simp [hb, hw]
  · simp [hb, hw]

/-- What every bump made in the loop keeps, the loop keeps. -/
theorem bumpWhile_rule {P : Bumping α → Prop}
    (hstep : ∀ s, P s → bound < s.window.length → P (bump key s)) (h : P s) :
    P (bumpWhile key bound fuel s) := by
  induction fuel generalizing s with
  | zero => exact h
  | succ fuel ih =>
    unfold bumpWhile
    split
    · exact h
    · exact ih (hstep s h (by omega))

/-- With a turn for every element above the bound, the loop ends at the bound. -/
theorem length_bumpWhile (h : s.window.length ≤ bound + fuel) :
    (bumpWhile key bound fuel s).window.length ≤ bound := by
  induction fuel generalizing s with
  | zero => exact h
  | succ fuel ih =>
    unfold bumpWhile
    split
    · assumption
    · apply ih
      rw [length_bump]
      omega

theorem window_drain : (drain key s).window = [] :=
  List.eq_nil_of_length_eq_zero (Nat.le_zero.mp (length_bumpWhile (by omega)))

theorem length_push {spill : Bool} : (push key bound spill x s).window.length ≤ bound :=
  length_bumpWhile (by omega)

/-- Everything in the buffer. -/
def contents (s : Bumping α) : List α := s.ready ++ s.window

theorem perm_bump : (bump key s).contents.Perm s.contents := by
  obtain ⟨-, hb⟩ | ⟨pre, x, post, hw, hb, -⟩ := bump_cases key s
  · rw [hb]
  · rw [hb, contents, contents, hw, List.append_assoc]
    apply List.Perm.append_left
    change (x :: (pre ++ post)).Perm (pre ++ x :: post)
    exact List.perm_middle.symm

theorem perm_bumpWhile : (bumpWhile key bound fuel s).contents.Perm s.contents :=
  bumpWhile_rule (P := fun s' => s'.contents.Perm s.contents)
    (fun _ h _ => perm_bump.trans h) (.refl _)

theorem perm_drain : (drain key s).contents.Perm s.contents := perm_bumpWhile

theorem perm_push {spill : Bool} :
    (push key bound spill x s).contents.Perm (s.contents ++ [x]) := by
  have hspill : (if spill then drain key s else s).contents.Perm s.contents := by
    split
    · exact perm_drain
    · exact .refl _
  refine perm_bumpWhile.trans ?_
  rw [contents, ← List.append_assoc]
  exact hspill.append_right [x]

section Map

variable {f : α → β} {k : β → κ}

def map (f : α → β) (s : Bumping α) : Bumping β := ⟨s.window.map f, s.ready.map f⟩

@[simp] theorem window_map : (s.map f).window = s.window.map f := rfl

@[simp] theorem ready_map : (s.map f).ready = s.ready.map f := rfl

theorem lowestFrom_map {best : α} {bestIdx i : Nat} {xs : List α} :
    lowestFrom k (f best) bestIdx i (xs.map f) = lowestFrom (k ∘ f) best bestIdx i xs := by
  induction xs generalizing best bestIdx i with
  | nil => rfl
  | cons x xs ih => simp only [List.map_cons, lowestFrom, ih, Function.comp_apply]

/-- Bumping does not look at anything but the keys. -/
theorem map_bump : (bump (k ∘ f) s).map f = bump k (s.map f) := by
  have hlow : lowest k (s.window.map f) = lowest (k ∘ f) s.window := by
    cases s.window with
    | nil => rfl
    | cons x xs => exact lowestFrom_map
  simp only [bump, window_map, hlow, List.getElem?_map]
  cases s.window[lowest (k ∘ f) s.window]? with
  | none => rfl
  | some x => simp [map, List.eraseIdx_map]

theorem map_bumpWhile :
    (bumpWhile (k ∘ f) bound fuel s).map f = bumpWhile k bound fuel (s.map f) := by
  induction fuel generalizing s with
  | zero => rfl
  | succ fuel ih =>
    simp only [bumpWhile, window_map, List.length_map]
    split
    · rfl
    · rw [ih, map_bump]

theorem map_drain : (drain (k ∘ f) s).map f = drain k (s.map f) := by
  unfold drain
  rw [map_bumpWhile]
  simp [map]

theorem map_push {spill : Bool} :
    (push (k ∘ f) bound spill x s).map f = push k bound spill (f x) (s.map f) := by
  have hspill : (if spill then drain (k ∘ f) s else s).map f =
      if spill then drain k (s.map f) else s.map f := by
    split
    · exact map_drain
    · rfl
  simp only [push]
  rw [map_bumpWhile, ← hspill]
  simp [map]

end Map

section Sorted

variable {n : Nat} {l closed pre future out part : List α}

def sorted (key : α → κ) (l : List α) : List α := l.mergeSort fun a b => key a ≤ key b

/-- Keys are distinct, and no element has more than `n` elements before it that should come
after it. -/
structure Admissible (key : α → κ) (n : Nat) (l : List α) : Prop where
  distinct : (l.map key).Nodup
  late : ∀ pre x post, l = pre ++ x :: post → (pre.filter fun y => key x < key y).length ≤ n

/-- The bound on late elements, position by position. -/
theorem Admissible.of_take (hd : (l.map key).Nodup)
    (h : ∀ i : Fin l.length, ((l.take i).filter fun y => key (l.get i) < key y).length ≤ n) :
    Admissible key n l := by
  refine ⟨hd, ?_⟩
  rintro pre x post rfl
  have hlt : pre.length < (pre ++ x :: post).length := by simp
  simpa using h ⟨pre.length, hlt⟩

theorem eq_sorted (hp : part.Perm l) (hs : part.Pairwise fun a b => key a < key b) :
    part = sorted key l := by
  have hperm : part.Perm (sorted key l) := hp.trans (List.mergeSort_perm l _).symm
  have hsort : (sorted key l).Pairwise fun a b => key a ≤ key b := by
    have hle : (sorted key l).Pairwise fun a b => decide (key a ≤ key b) = true := by
      apply List.pairwise_mergeSort
      · intro a b c h1 h2
        simp only [decide_eq_true_eq] at *
        exact h1.trans h2
      · intro a b
        simpa using le_total (key a) (key b)
    simpa using hle
  have hinj : ∀ a ∈ part, ∀ b ∈ part, key a = key b → a = b := by
    have hnodup : (part.map key).Nodup :=
      List.pairwise_map.mpr (hs.imp fun h => h.ne)
    exact fun a ha b hb hab => List.inj_on_of_nodup_map hnodup ha hb hab
  refine List.Perm.eq_of_pairwise ?_ (hs.imp fun h => h.le) hsort hperm
  intro a b ha hb hab hba
  exact hinj a ha b (hperm.mem_iff.mpr hb) (le_antisymm hab hba)

/-- In the middle of a sequence `pre ++ future` of which `pre` has come in: what was emitted after
`closed` is sorted and below everything that waits or is still to come. -/
structure Emitting (key : α → κ) (closed pre future out : List α) (s : Bumping α)
    (part : List α) : Prop where
  emitted : out ++ s.ready = closed ++ part
  seen : (part ++ s.window).Perm pre
  sorted : part.Pairwise fun a b => key a < key b
  below : ∀ x ∈ part, ∀ y ∈ s.window ++ future, key x < key y

/-- The element bumped is below everything still to come: else that later element would have the
whole window, more than `n` elements, before it and above it. -/
theorem Emitting.bump (h : Emitting key closed pre future out s part)
    (hadm : Admissible key n (pre ++ future)) (hlen : n < s.window.length ∨ future = []) :
    ∃ part', Emitting key closed pre future out (bump key s) part' := by
  obtain ⟨-, hb⟩ | ⟨lo, x, hi, hw, hb, hlo, hhi⟩ := bump_cases key s
  · exact ⟨part, by rw [hb]; exact h⟩
  have hsub : ∀ y ∈ s.window, y ∈ pre := fun y hy =>
    h.seen.mem_iff.mp (List.mem_append_right _ hy)
  have hwnodup : (s.window.map key).Nodup := by
    have hpre : (pre.map key).Nodup := by
      have := hadm.distinct
      rw [List.map_append] at this
      exact (List.nodup_append.mp this).1
    have hall := (h.seen.map key).nodup_iff.mpr hpre
    rw [List.map_append] at hall
    exact (List.nodup_append.mp hall).2.1
  have hxw : x ∈ s.window := by rw [hw]; simp
  have hleast : ∀ y ∈ s.window, key x ≤ key y := by
    intro y hy
    rw [hw] at hy
    rcases List.mem_append.mp hy with hy | hy
    · exact (hlo y hy).le
    · rcases List.mem_cons.mp hy with rfl | hy
      · exact le_rfl
      · exact hhi y hy
  have hrest : ∀ y ∈ lo ++ hi, key x < key y := by
    intro y hy
    rcases List.mem_append.mp hy with hy | hy
    · exact hlo y hy
    · refine lt_of_le_of_ne (hhi y hy) ?_
      rw [hw, List.map_append, List.map_cons] at hwnodup
      have hx := (List.nodup_cons.mp (List.nodup_append.mp hwnodup).2.1).1
      intro heq
      exact hx (heq ▸ List.mem_map_of_mem hy)
  have hfuture : ∀ y ∈ future, key x < key y := by
    intro y hy
    rcases hlen with hlen | hnil
    · by_contra hle
      have hne : key y ≠ key x := by
        have hdist := hadm.distinct
        rw [List.map_append] at hdist
        exact ((List.nodup_append.mp hdist).2.2 _ (List.mem_map_of_mem (hsub x hxw)) _
          (List.mem_map_of_mem hy)).symm
      have hyx : key y < key x := lt_of_le_of_ne (not_lt.mp hle) hne
      obtain ⟨f₁, f₂, rfl⟩ := List.append_of_mem hy
      have hcount := hadm.late (pre ++ f₁) y f₂ (by simp)
      have hwin : s.window.length ≤ (pre.filter fun z => key y < key z).length := by
        have hperm := (h.seen.filter fun z => decide (key y < key z)).length_eq
        have hall : s.window.filter (fun z => decide (key y < key z)) = s.window := by
          rw [List.filter_eq_self]
          intro z hz
          simpa using hyx.trans_le (hleast z hz)
        rw [List.filter_append, List.length_append, hall] at hperm
        omega
      rw [List.filter_append, List.length_append] at hcount
      omega
    · simp [hnil] at hy
  refine ⟨part ++ [x], ?_, ?_, ?_, ?_⟩
  · rw [hb, ← List.append_assoc, h.emitted, List.append_assoc]
  · refine List.Perm.trans ?_ h.seen
    rw [hb, hw, List.append_assoc]
    apply List.Perm.append_left part
    change (x :: (lo ++ hi)).Perm (lo ++ x :: hi)
    exact List.perm_middle.symm
  · rw [List.pairwise_append]
    refine ⟨h.sorted, by simp, ?_⟩
    intro a ha b hb'
    rw [List.mem_singleton.mp hb']
    exact h.below a ha x (List.mem_append_left _ hxw)
  · intro a ha y hy
    rw [hb] at hy
    rcases List.mem_append.mp ha with ha | ha
    · refine h.below a ha y ?_
      rcases List.mem_append.mp hy with hy | hy
      · refine List.mem_append_left _ ?_
        rw [hw]
        rcases List.mem_append.mp hy with hy | hy
        · exact List.mem_append_left _ hy
        · exact List.mem_append_right _ (List.mem_cons_of_mem _ hy)
      · exact List.mem_append_right _ hy
    · rw [List.mem_singleton.mp ha]
      rcases List.mem_append.mp hy with hy | hy
      · exact hrest y hy
      · exact hfuture y hy

theorem Emitting.bumpWhile (bound fuel : Nat) (h : Emitting key closed pre future out s part)
    (hadm : Admissible key n (pre ++ future)) (hbound : n ≤ bound ∨ future = []) :
    ∃ part', Emitting key closed pre future out (bumpWhile key bound fuel s) part' := by
  refine bumpWhile_rule (P := fun s => ∃ part', Emitting key closed pre future out s part') ?_
    ⟨part, h⟩
  rintro s ⟨part, hs⟩ hlen
  exact hs.bump hadm (hbound.imp_left fun hn => by omega)

/-- Taking in the next element of the sequence. -/
theorem Emitting.push (h : Emitting key closed pre (x :: future) out s part)
    (hadm : Admissible key n (pre ++ x :: future)) :
    ∃ part', Emitting key closed (pre ++ [x]) future out (push key n false x s) part' := by
  have htaken : Emitting key closed (pre ++ [x]) future out ⟨s.window ++ [x], s.ready⟩ part := by
    refine ⟨h.emitted, ?_, h.sorted, ?_⟩
    · rw [← List.append_assoc]
      exact h.seen.append_right [x]
    · intro a ha y hy
      exact h.below a ha y (by simpa using hy)
  exact htaken.bumpWhile n _ (by simpa using hadm) (.inl le_rfl)

/-- At the end of a sequence the window spills in order. -/
theorem Emitting.drain (h : Emitting key closed pre [] out s part) (hadm : Admissible key n pre) :
    out ++ (drain key s).ready = closed ++ Bumping.sorted key pre := by
  obtain ⟨part', h'⟩ := h.bumpWhile 0 s.window.length (by simpa using hadm) (.inr rfl)
  have hwin : (Bumping.bumpWhile key 0 s.window.length s).window = [] := window_drain
  have hseen := h'.seen
  rw [hwin, List.append_nil] at hseen
  rw [← eq_sorted hseen h'.sorted]
  exact h'.emitted

/-- Starting the next sequence spills the one before. -/
theorem Emitting.next (h : Emitting key closed pre [] out s part) (hadm : Admissible key n pre)
    (hnext : Admissible key n (x :: future)) :
    ∃ part', Emitting key (closed ++ Bumping.sorted key pre) [x] future out
      (Bumping.push key n true x s) part' := by
  have hspilt := h.drain hadm
  have hwin : (Bumping.drain key s).window = [] := window_drain
  have hstart : Emitting key (closed ++ Bumping.sorted key pre) [x] future out
      ⟨(Bumping.drain key s).window ++ [x], (Bumping.drain key s).ready⟩ [] :=
    ⟨by simpa using hspilt, by simp [hwin], .nil, by simp⟩
  exact hstart.bumpWhile n _ hnext (.inl le_rfl)

/-- A call of the user of the buffer. -/
inductive Call (α : Type) where
  | push (x : α) (spill : Bool)
  | pop

/-- The elements handed out so far, and the buffer. -/
def serve (key : α → κ) (bound : Nat) (st : List α × Bumping α) : Call α → List α × Bumping α
  | .push x spill => (st.1, push key bound spill x st.2)
  | .pop => (st.1 ++ (pop st.2).1, (pop st.2).2)

/-- What is pushed, in order. -/
def pushed : List (Call α) → List (α × Bool) :=
  List.filterMap fun
    | .push x spill => some (x, spill)
    | .pop => none

/-- A list of sequences, spilling at the first element of each. -/
def feed : List (List α) → List (α × Bool) :=
  List.flatMap fun
    | [] => []
    | x :: xs => (x, true) :: xs.map fun y => (y, false)

theorem pop_emitted : (pop s).1 ++ (pop s).2.ready = s.ready ∧ (pop s).2.window = s.window := by
  unfold pop
  split
  · rename_i h
    simp [h]
  · rename_i h
    simp [h]

theorem Emitting.pop (h : Emitting key closed pre future out s part) :
    Emitting key closed pre future (out ++ (Bumping.pop s).1) (Bumping.pop s).2 part := by
  obtain ⟨hready, hwin⟩ := pop_emitted (s := s)
  refine ⟨?_, by rw [hwin]; exact h.seen, h.sorted, by rw [hwin]; exact h.below⟩
  rw [List.append_assoc, hready]
  exact h.emitted

/-- The next thing fed after the end of a sequence is the head of a later one. -/
theorem feed_cons (key : α → κ) {seqs : List (List α)} {spill : Bool} {rest : List (α × Bool)}
    (h : feed seqs = (x, spill) :: rest) :
    ∃ xs seqs', spill = true ∧ rest = xs.map (fun y => (y, false)) ++ feed seqs' ∧
      (x :: xs) ∈ seqs ∧ seqs' ⊆ seqs ∧
      (seqs.map (sorted key)).flatten =
      sorted key (x :: xs) ++ (seqs'.map (sorted key)).flatten := by
  induction seqs with
  | nil => simp [feed] at h
  | cons l seqs ih =>
    cases l with
    | nil =>
      obtain ⟨xs, seqs', hs, hr, hmem, hsub, heq⟩ := ih (by simpa [feed] using h)
      exact ⟨xs, seqs', hs, hr, List.mem_cons_of_mem _ hmem,
        fun a ha => List.mem_cons_of_mem _ (hsub ha), by simpa [sorted] using heq⟩
    | cons y ys =>
      simp only [feed, List.flatMap_cons, List.cons_append, List.cons.injEq, Prod.mk.injEq] at h
      obtain ⟨⟨rfl, rfl⟩, rfl⟩ := h
      exact ⟨ys, seqs, rfl, rfl, List.mem_cons_self, List.subset_cons_self _ _, by simp⟩

/-- Serving calls that feed the rest of a sequence and further sequences, wherever the pops
stand. -/
theorem Emitting.serve {calls : List (Call α)} {seqs : List (List α)}
    (h : Emitting key closed pre future out s part) (hadm : Admissible key n (pre ++ future))
    (hseqs : ∀ l ∈ seqs, Admissible key n l)
    (hcalls : pushed calls = future.map (fun y => (y, false)) ++ feed seqs) :
    ∃ closed' pre' part', Emitting key closed' pre' []
        (calls.foldl (serve key n) (out, s)).1 (calls.foldl (serve key n) (out, s)).2 part' ∧
      Admissible key n pre' ∧ closed' ++ Bumping.sorted key pre' =
        closed ++ Bumping.sorted key (pre ++ future) ++
        (seqs.map (Bumping.sorted key)).flatten := by
  induction calls generalizing closed pre future out s part seqs with
  | nil =>
    obtain ⟨hfut, hfeed⟩ := List.append_eq_nil_iff.mp hcalls.symm
    obtain rfl := List.map_eq_nil_iff.mp hfut
    have hnil : (seqs.map (Bumping.sorted key)).flatten = [] := by
      rw [List.flatten_eq_nil_iff]
      rintro l hl
      obtain ⟨m, hm, rfl⟩ := List.mem_map.mp hl
      have hempty := List.flatMap_eq_nil_iff.mp hfeed m hm
      cases m with
      | nil => simp [Bumping.sorted]
      | cons y ys => simp at hempty
    exact ⟨closed, pre, part, h, by simpa using hadm, by simp [hnil]⟩
  | cons call calls ih =>
    cases call with
    | pop => exact ih h.pop hadm hseqs hcalls
    | push x spill =>
      have hpush : (x, spill) :: pushed calls =
          future.map (fun y => (y, false)) ++ feed seqs := hcalls
      cases future with
      | cons y future =>
        simp only [List.map_cons, List.cons_append, List.cons.injEq, Prod.mk.injEq] at hpush
        obtain ⟨⟨rfl, rfl⟩, hrest⟩ := hpush
        obtain ⟨part', h'⟩ := h.push hadm
        obtain ⟨closed', pre', part'', h'', hadm', hout⟩ :=
          ih h' (by simpa using hadm) hseqs hrest
        exact ⟨closed', pre', part'', h'', hadm', by simpa using hout⟩
      | nil =>
        obtain ⟨xs, seqs', rfl, hrest, hmem, hsub, heq⟩ := feed_cons key hpush.symm
        rw [List.append_nil] at hadm
        obtain ⟨part', h'⟩ := h.next hadm (hseqs _ hmem)
        obtain ⟨closed', pre', part'', h'', hadm', hout⟩ :=
          ih h' (hseqs _ hmem) (fun l hl => hseqs l (hsub hl)) hrest
        refine ⟨closed', pre', part'', h'', hadm', ?_⟩
        rw [hout, heq]
        simp

/-- Popping often enough hands out everything that is ready. -/
theorem foldl_pop {k : Nat} (hk : s.ready.length ≤ k) :
    (List.replicate k Call.pop).foldl (serve key n) (out, s) =
      (out ++ s.ready, ⟨s.window, []⟩) := by
  induction k generalizing out s with
  | zero =>
    have : s.ready = [] := List.eq_nil_of_length_eq_zero (by omega)
    simp [← this]
  | succ k ih =>
    rw [List.replicate_succ, List.foldl_cons]
    cases hr : s.ready with
    | nil =>
      have hpop : serve key n (out, s) .pop = (out, s) := by simp [Bumping.serve, Bumping.pop, hr]
      rw [hpop, ih (by simp [hr]), hr]
    | cons y ys =>
      have hpop : serve key n (out, s) .pop = (out ++ [y], ⟨s.window, ys⟩) := by
        simp [Bumping.serve, Bumping.pop, hr]
      rw [hpop, ih (by simp [hr] at hk ⊢; omega)]
      simp

/-- Feeding admissible sequences to an empty buffer, draining it and popping it empty hands out
every element once, sequence by sequence and sorted within each. -/
theorem serve_sorted {calls : List (Call α)} {seqs : List (List α)} {k : Nat}
    (hseqs : ∀ l ∈ seqs, Admissible key n l) (hcalls : pushed calls = feed seqs)
    (hk : (seqs.map List.length).sum ≤ k) :
    let st := calls.foldl (serve key n) ([], ⟨[], []⟩)
    (List.replicate k Call.pop).foldl (serve key n) (st.1, drain key st.2) =
      ((seqs.map (sorted key)).flatten, ⟨[], []⟩) := by
  intro st
  have hstart : Emitting key [] [] [] [] (⟨[], []⟩ : Bumping α) [] :=
    ⟨rfl, .nil, .nil, by simp⟩
  have hempty : Admissible key n ([] : List α) := ⟨by simp, by simp⟩
  obtain ⟨closed, pre, part, h, hadm, hout⟩ :=
    hstart.serve hempty hseqs (by simpa using hcalls)
  have hdrain := h.drain hadm
  rw [hout] at hdrain
  have hall : st.1 ++ (Bumping.drain key st.2).ready = (seqs.map (sorted key)).flatten := by
    simpa [sorted] using hdrain
  have hlen : (Bumping.drain key st.2).ready.length ≤ k := by
    have hsum := congrArg List.length hall
    rw [List.length_append, List.length_flatten, List.map_map] at hsum
    have hsame : (List.length ∘ sorted key : List α → Nat) = List.length := by
      funext l
      simp [sorted]
    rw [hsame] at hsum
    omega
  rw [foldl_pop hlen, hall]
  simp [window_drain]

end Sorted

end Bumping
