import Mathlib.Data.List.Pairwise
import Mathlib.Data.List.Sort

/-! Insertion sort in place, which keeps the order of equal keys, and the agreement of a sorted list
with another order. -/
namespace Rkvdec.Lib

variable {α κ ι : Type*} {l : List α} {a b : α}

/-- Insertion sort by exchanges: an entry moves to the front while the one before it is `out` of
order with it. What is sorted is kept back to front. -/
def exchangeSort (out : α → α → Prop) [DecidableRel out] (l : List α) : List α :=
  (l.foldl (fun sorted a => sorted.orderedInsert (fun a b => ¬ out b a) a) []).reverse

section Order

/-- The order by `key`, where keys are equal by `pos`. -/
def Ahead [LT κ] [LT ι] (key : α → κ) (pos : α → ι) (a b : α) : Prop :=
  key a < key b ∨ key a = key b ∧ pos a < pos b

variable [LinearOrder κ] [LinearOrder ι] {key : α → κ} {pos : α → ι}

theorem Ahead.asymm (h : Ahead key pos a b) : ¬ Ahead key pos b a := by
  rintro (hback | ⟨heq, hback⟩)
  · rcases h with hlt | ⟨heq, -⟩
    · exact lt_asymm hlt hback
    · exact hback.ne heq.symm
  · rcases h with hlt | ⟨-, hlt⟩
    · exact hlt.ne heq.symm
    · exact lt_asymm hlt hback

theorem Ahead.trans {c : α} (hab : Ahead key pos a b) (hbc : Ahead key pos b c) :
    Ahead key pos a c := by
  rcases hab with hab | ⟨hab, hpos⟩
  · rcases hbc with hbc | ⟨hbc, -⟩
    · exact .inl (hab.trans hbc)
    · exact .inl (hbc ▸ hab)
  · rcases hbc with hbc | ⟨hbc, hpos'⟩
    · exact .inl (hab ▸ hbc)
    · exact .inr ⟨hab.trans hbc, hpos.trans hpos'⟩

end Order

section Exchanges

variable {out : α → α → Prop} [DecidableRel out]

theorem exchangeSort_perm : (exchangeSort out l).Perm l := by
  have hfold : ∀ l sorted : List α,
      (l.foldl (fun sorted a => sorted.orderedInsert (fun a b => ¬ out b a) a) sorted).Perm
        (sorted ++ l) := by
    intro l
    induction l with
    | nil => simp
    | cons a l ih =>
      intro sorted
      refine (ih _).trans ?_
      refine ((List.perm_orderedInsert _ a sorted).append_right l).trans ?_
      exact List.perm_middle.symm
  exact (List.reverse_perm _).trans (by simpa using hfold l [])

variable [LinearOrder κ] [LinearOrder ι] {key : α → κ} {pos : α → ι}

/-- An entry behind all others in position goes down past the greater keys only. -/
theorem pairwise_orderedInsert_last (hout : ∀ a b, out a b ↔ key b < key a)
    (hsorted : l.Pairwise fun a b => Ahead key pos b a) (hlast : ∀ b ∈ l, pos b < pos a) :
    (l.orderedInsert (fun a b => ¬ out b a) a).Pairwise fun a b => Ahead key pos b a := by
  induction l with
  | nil => simp
  | cons b l ih =>
    have hrest := List.pairwise_cons.mp hsorted
    have hb := hlast b List.mem_cons_self
    by_cases hstop : out b a
    · rw [List.orderedInsert_of_not_le _ _ (not_not.mpr hstop)]
      refine .cons ?_ (ih hrest.2 fun c hc => hlast c (List.mem_cons_of_mem b hc))
      intro c hc
      rcases List.mem_cons.mp ((List.perm_orderedInsert _ a l).mem_iff.mp hc) with rfl | hc
      · exact .inl ((hout b c).mp hstop)
      · exact hrest.1 c hc
    · rw [List.orderedInsert_cons_of_le _ _ hstop]
      have hba : Ahead key pos b a := by
        rcases (not_lt.mp (mt (hout b a).mpr hstop)).lt_or_eq with hlt | heq
        · exact .inl hlt
        · exact .inr ⟨heq, hb⟩
      refine .cons ?_ hsorted
      intro c hc
      rcases List.mem_cons.mp hc with rfl | hc
      · exact hba
      · exact (hrest.1 c hc).trans hba

/-- Sorted by the key, and where keys are equal in the order the entries came in. -/
theorem exchangeSort_pairwise (hout : ∀ a b, out a b ↔ key b < key a)
    (hpos : l.Pairwise fun a b => pos a < pos b) :
    (exchangeSort out l).Pairwise (Ahead key pos) := by
  have hfold : ∀ l sorted : List α, (sorted.Pairwise fun a b => Ahead key pos b a) →
      (∀ a ∈ sorted, ∀ b ∈ l, pos a < pos b) → (l.Pairwise fun a b => pos a < pos b) →
      (l.foldl (fun sorted a => sorted.orderedInsert (fun a b => ¬ out b a) a) sorted).Pairwise
        fun a b => Ahead key pos b a := by
    intro l
    induction l with
    | nil => exact fun sorted hsorted _ _ => hsorted
    | cons a l ih =>
      intro sorted hsorted hbefore hpos
      have hrest := List.pairwise_cons.mp hpos
      refine ih _ (pairwise_orderedInsert_last hout hsorted fun b hb =>
        hbefore b hb a List.mem_cons_self) ?_
        hrest.2
      intro b hb c hc
      rcases List.mem_cons.mp ((List.perm_orderedInsert _ a sorted).mem_iff.mp hb) with rfl | hb
      · exact hrest.1 c hc
      · exact hbefore b hb c (List.mem_cons_of_mem a hc)
  unfold exchangeSort
  rw [List.pairwise_reverse]
  exact hfold l [] .nil (by simp) hpos

end Exchanges

section Agreement

variable {R S : α → α → Prop}

/-- A list in the order `R` is in the order `S` exactly where `S` goes along with `R` on its
entries. -/
theorem pairwise_iff_agree (hR : l.Pairwise R) (hasymm : ∀ a b, R a b → ¬ R b a)
    (hSasymm : ∀ a b, S a b → ¬ S b a) (htotal : ∀ a ∈ l, ∀ b ∈ l, a ≠ b → S a b ∨ S b a) :
    l.Pairwise S ↔ ∀ a ∈ l, ∀ b ∈ l, S a b → R a b := by
  have hirrefl : ∀ a, ¬ R a a := fun a h => hasymm a a h h
  constructor
  · intro hS a ha b hb hab
    have hne : a ≠ b := by
      rintro rfl
      exact hSasymm a a hab hab
    have hboth : l.Pairwise fun a b => R a b ∧ S a b := hR.and hS
    have hsym : l.Pairwise fun a b => (R a b ∧ S a b) ∨ (R b a ∧ S b a) := hboth.imp .inl
    have : Std.Symm fun a b => (R a b ∧ S a b) ∨ (R b a ∧ S b a) := ⟨fun _ _ h => h.symm⟩
    have hpair := hsym.forall ha hb hne
    rcases hpair with ⟨h, -⟩ | ⟨-, h⟩
    · exact h
    · exact absurd h (hSasymm a b hab)
  · intro hagree
    refine hR.imp_of_mem ?_
    intro a b ha hb hab
    have hne : a ≠ b := by
      rintro rfl
      exact hirrefl a hab
    rcases htotal a ha b hb hne with h | h
    · exact h
    · exact absurd (hagree b hb a ha h) (hasymm a b hab)

end Agreement

end Rkvdec.Lib
