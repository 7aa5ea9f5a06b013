import Mathlib.Data.Fintype.Basic
import Mathlib.Tactic

/-! The index of a finite set whose key is greatest, and the loops that search for it with a
sentinel in place of the first candidate. -/
namespace Rkvdec.Lib

variable {n : Nat} {K : Fin n → Int} {S T : Finset (Fin n)} {i j : Fin n} {l : List (Fin n)}
  {o : Option (Fin n)}

/-- The later of two indices replaces the earlier one when its key is greater. -/
def better (K : Fin n → Int) (o : Option (Fin n)) (i : Fin n) : Option (Fin n) :=
  if o.all fun r => K r < K i then some i else o

/-- The index of `S` with the greatest key. -/
def best (K : Fin n → Int) (S : Finset (Fin n)) : Option (Fin n) :=
  ((List.finRange n).filter (· ∈ S)).foldl (better K) none

theorem better_some : ∃ r, better K o i = some r ∧ (o = some r ∨ r = i) ∧
    (∀ a, o = some a → K a ≤ K r) ∧ K i ≤ K r := by
  unfold better
  cases o with
  | none => exact ⟨i, rfl, .inr rfl, by simp, le_refl _⟩
  | some a =>
    by_cases hlt : K a < K i
    · refine ⟨i, by simp [hlt], .inr rfl, ?_, le_refl _⟩
      intro b hb
      obtain rfl := Option.some.inj hb
      exact hlt.le
    · refine ⟨a, by simp [hlt], .inl rfl, ?_, not_lt.mp hlt⟩
      intro b hb
      rw [Option.some.inj hb]

theorem foldl_better (h : l.foldl (better K) o = some i) :
    (o = some i ∨ i ∈ l) ∧ (∀ a, o = some a → K a ≤ K i) ∧ ∀ j ∈ l, K j ≤ K i := by
  induction l generalizing o with
  | nil =>
    refine ⟨.inl h, ?_, by simp⟩
    intro a ha
    have heq : some a = some i := ha.symm.trans h
    rw [Option.some.inj heq]
  | cons a l ih =>
    obtain ⟨r, hr, hfrom, hold, hle⟩ := better_some (K := K) (o := o) (i := a)
    obtain ⟨hi, hstart, hrest⟩ := ih h
    have hri := hstart r hr
    refine ⟨?_, fun b hb => (hold b hb).trans hri, ?_⟩
    · rcases hi with hi | hi
      · rcases hfrom with ho | rfl
        · exact .inl (ho.trans (hr.symm.trans hi))
        · exact .inr (Option.some.inj (hr.symm.trans hi) ▸ List.mem_cons_self)
      · exact .inr (List.mem_cons_of_mem a hi)
    · intro j hj
      rcases List.mem_cons.mp hj with rfl | hj
      · exact hle.trans hri
      · exact hrest j hj

theorem foldl_better_isSome (h : o.isSome = true ∨ l ≠ []) :
    (l.foldl (better K) o).isSome = true := by
  induction l generalizing o with
  | nil => simpa using h
  | cons a l ih =>
    obtain ⟨r, hr, -⟩ := better_some (K := K) (o := o) (i := a)
    exact ih (.inl (by rw [hr]; rfl))

theorem best_eq_none_iff : best K S = none ↔ S = ∅ := by
  constructor
  · intro hnone
    refine Finset.eq_empty_of_forall_notMem ?_
    intro i hi
    have hmem : i ∈ (List.finRange n).filter (· ∈ S) := by simp [hi]
    have hsome := foldl_better_isSome (K := K) (o := none) (.inr (List.ne_nil_of_mem hmem))
    rw [best] at hnone
    rw [hnone] at hsome
    contradiction
  · rintro rfl
    simp [best]

theorem best_eq_some_iff (hK : Function.Injective K) :
    best K S = some i ↔ i ∈ S ∧ ∀ j ∈ S, K j ≤ K i := by
  have hof : ∀ {i}, best K S = some i → i ∈ S ∧ ∀ j ∈ S, K j ≤ K i := by
    intro i h
    obtain ⟨hi, -, hmax⟩ := foldl_better h
    simp only [reduceCtorEq, List.mem_filter, List.mem_finRange, decide_eq_true_eq, true_and,
      false_or] at hi hmax
    exact ⟨hi, hmax⟩
  refine ⟨hof, ?_⟩
  rintro ⟨hi, hmax⟩
  cases h : best K S with
  | none =>
    rw [best_eq_none_iff.mp h] at hi
    exact absurd hi (Finset.notMem_empty i)
  | some r =>
    obtain ⟨hr, hle⟩ := hof h
    rw [hK (le_antisymm (hmax r hr) (hle i hi))]

/-- A loop over all indices for the best hint: `takes` says when a hint replaces the one before,
which starts as the sentinel `start`. -/
def scanBest (guard : Fin n → Bool) (hint : Fin n → Int) (takes : Int → Int → Bool) (start : Int) :
    Option (Fin n) :=
  ((List.finRange n).foldl (fun best i =>
    if guard i && takes (hint i) best.1 then (hint i, some i) else best) (start, none)).2

/-- The loop finds the greatest key among the candidates that beat the sentinel, when `takes` is the
order of the keys for an index and an earlier one. -/
theorem scanBest_eq {guard : Fin n → Bool} {hint : Fin n → Int} {takes : Int → Int → Bool}
    {start : Int} (hS : ∀ i, i ∈ S ↔ guard i = true ∧ takes (hint i) start = true)
    (hstart : ∀ i, ∀ j ∈ S, takes (hint i) (hint j) = true → takes (hint i) start = true)
    (hK : ∀ j ∈ S, ∀ i ∈ S, j < i → (takes (hint i) (hint j) = true ↔ K j < K i)) :
    scanBest guard hint takes start = best K S := by
  have hloop : ∀ (l : List (Fin n)) (acc : Int × Option (Fin n)), l.Pairwise (· < ·) →
      (acc = (start, none) ∨ ∃ r ∈ S, acc = (hint r, some r) ∧ ∀ i ∈ l, r < i) →
      (l.foldl (fun best i =>
        if guard i && takes (hint i) best.1 then (hint i, some i) else best) acc).2 =
        (l.filter (· ∈ S)).foldl (better K) acc.2 := by
    intro l
    induction l with
    | nil => simp
    | cons i l ih =>
      intro acc hl hacc
      obtain ⟨hi, hl⟩ := List.pairwise_cons.mp hl
      have hrest : ∀ acc' : Int × Option (Fin n), acc' = acc → (acc' = (start, none) ∨
          ∃ r ∈ S, acc' = (hint r, some r) ∧ ∀ i ∈ l, r < i) := by
        rintro acc' rfl
        rcases hacc with hacc | ⟨r, hr, hacc, hlt⟩
        · exact .inl hacc
        · exact .inr ⟨r, hr, hacc, fun j hj => hlt j (List.mem_cons_of_mem i hj)⟩
      rw [List.foldl_cons]
      by_cases hiS : i ∈ S
      · have hguard := ((hS i).mp hiS).1
        have htake : takes (hint i) acc.1 = (acc.2.all fun r => decide (K r < K i)) := by
          rcases hacc with rfl | ⟨r, hr, rfl, hlt⟩
          · exact ((hS i).mp hiS).2
          · rw [Bool.eq_iff_iff]
            simpa using hK r hr i hiS (hlt i List.mem_cons_self)
        rw [List.filter_cons_of_pos (by simpa using hiS), List.foldl_cons, hguard, Bool.true_and,
          htake]
        unfold better
        split
        · exact ih _ hl (.inr ⟨i, hiS, rfl, hi⟩)
        · exact ih _ hl (hrest _ rfl)
      · have hskip : (guard i && takes (hint i) acc.1) = false := by
          by_contra htake
          simp only [Bool.not_eq_false, Bool.and_eq_true] at htake
          refine hiS ((hS i).mpr ⟨htake.1, ?_⟩)
          rcases hacc with rfl | ⟨r, hr, rfl, -⟩
          · exact htake.2
          · exact hstart i r hr htake.2
        rw [List.filter_cons_of_neg (by simpa using hiS), hskip]
        exact ih _ hl (hrest _ rfl)
  exact hloop _ _ (List.sortedLT_finRange n).pairwise (.inl rfl)

end Rkvdec.Lib
