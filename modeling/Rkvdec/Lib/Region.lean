import Mathlib.Data.List.Pairwise
import Mathlib.Tactic

/-! Families of disjoint nonempty intervals, told apart by their end points only. -/

/-- The `len` numbers from `base` on. -/
structure Region where
  base : Nat
  len : Nat
deriving DecidableEq, Repr

namespace Region

/-- One past the last number of the region. -/
def stop (r : Region) : Nat := r.base + r.len

def Covers (r : Region) (p : Nat) : Prop := r.base ≤ p ∧ p < r.stop

instance (r : Region) (p : Nat) : Decidable (r.Covers p) :=
  inferInstanceAs (Decidable (_ ∧ _))

def Apart (r s : Region) : Prop := r.stop ≤ s.base ∨ s.stop ≤ r.base

instance : Std.Symm Apart := ⟨fun _ _ h => Or.symm h⟩

theorem Apart.not_covers {r s : Region} {p : Nat} (h : Apart r s) (hr : r.Covers p) :
    ¬ s.Covers p := by
  intro hs
  unfold Apart Covers at *
  omega

/-- A family whose members are nonempty, end by `bound` and pairwise do not meet. -/
structure Separated (bound : Nat) (rs : List Region) : Prop where
  nonempty : ∀ r ∈ rs, 0 < r.len
  bounded : ∀ r ∈ rs, r.stop ≤ bound
  apart : rs.Pairwise Apart

variable {bound : Nat} {rs rs' : List Region} {r s : Region} {p : Nat}

theorem Separated.nil : Separated bound [] :=
  ⟨by simp, by simp, List.Pairwise.nil⟩

theorem Separated.eq_or_apart (h : Separated bound rs) (hr : r ∈ rs) (hs : s ∈ rs) :
    r = s ∨ Apart r s := by
  by_cases heq : r = s
  · exact .inl heq
  · exact .inr (h.apart.forall hr hs heq)

/-- At most one member covers a number. -/
theorem Separated.eq_of_covers (h : Separated bound rs) (hr : r ∈ rs) (hs : s ∈ rs)
    (hrp : r.Covers p) (hsp : s.Covers p) : r = s := by
  rcases h.eq_or_apart hr hs with heq | hap
  · exact heq
  · exact absurd hsp (hap.not_covers hrp)

theorem Separated.covers_base (h : Separated bound rs) (hr : r ∈ rs) : r.Covers r.base := by
  have := h.nonempty r hr
  exact ⟨le_rfl, by unfold stop; omega⟩

theorem Separated.eq_of_base_eq (h : Separated bound rs) (hr : r ∈ rs) (hs : s ∈ rs)
    (hb : r.base = s.base) : r = s :=
  h.eq_of_covers hr hs (h.covers_base hr) (hb ▸ h.covers_base hs)

/-- The first end marker above a member's base is that member's own, whatever its neighbours are. -/
theorem Separated.stop_le_stop (h : Separated bound rs) (hr : r ∈ rs) (hs : s ∈ rs)
    (hlt : r.base < s.stop) : r.stop ≤ s.stop := by
  rcases h.eq_or_apart hr hs with heq | hap
  · rw [heq]
  · have := h.nonempty s hs
    unfold Apart stop at *
    omega

theorem Separated.eq_of_stop_eq (h : Separated bound rs) (hr : r ∈ rs) (hs : s ∈ rs)
    (he : r.stop = s.stop) : r = s := by
  have hr0 := h.nonempty r hr
  have hs0 := h.nonempty s hs
  rcases h.eq_or_apart hr hs with heq | hap
  · exact heq
  · unfold Apart stop at *
    omega

theorem Separated.sublist (h : Separated bound rs) (hsub : rs'.Sublist rs) :
    Separated bound rs' :=
  ⟨fun r hr => h.nonempty r (hsub.subset hr), fun r hr => h.bounded r (hsub.subset hr),
    h.apart.sublist hsub⟩

/-- A nonempty region none of whose numbers is covered yet may join the family. -/
theorem Separated.cons (h : Separated bound rs) (hlen : 0 < r.len) (hb : r.stop ≤ bound)
    (hfree : ∀ p, r.Covers p → ∀ s ∈ rs, ¬ s.Covers p) : Separated bound (r :: rs) := by
  refine ⟨?_, ?_, List.pairwise_cons.mpr ⟨?_, h.apart⟩⟩
  · simpa using ⟨hlen, h.nonempty⟩
  · simpa using ⟨hb, h.bounded⟩
  · intro s hs
    have hs0 := h.nonempty s hs
    have h1 := hfree r.base ⟨le_rfl, by unfold stop; omega⟩ s hs
    by_cases hle : r.base ≤ s.base
    · by_cases hlt : s.base < r.stop
      · exact absurd ⟨le_rfl, by unfold stop; omega⟩ (hfree s.base ⟨hle, hlt⟩ s hs)
      · exact .inl (by omega)
    · refine .inr ?_
      unfold Covers at h1
      omega

end Region
