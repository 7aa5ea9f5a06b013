import Mathlib.Tactic.Common
import Mathlib.Logic.Basic

/-! What holds of every event of a trace, by the events before it. -/
namespace Rkvdec.Lib

variable {ε : Type} {P Q : List ε → ε → Prop} {e : ε} {tr events : List ε}

/-- Every event has the property, with what went before. -/
def Each (P : List ε → ε → Prop) (tr : List ε) : Prop :=
  ∀ pre e post, tr = pre ++ e :: post → P pre e

theorem each_nil : Each P [] := by
  intro pre e post h
  cases pre <;> cases h

theorem each_cons : Each P (e :: tr) ↔ P [] e ∧ Each (fun pre => P (e :: pre)) tr := by
  constructor
  · intro h
    refine ⟨h [] e tr rfl, ?_⟩
    rintro pre e' post rfl
    exact h (e :: pre) e' post rfl
  · rintro ⟨hhead, htail⟩ pre e' post h
    cases pre with
    | nil =>
      obtain ⟨rfl, -⟩ := List.cons.inj h
      exact hhead
    | cons a pre =>
      obtain ⟨rfl, htr⟩ := List.cons.inj h
      exact htail pre e' post htr

theorem each_append : Each P (tr ++ events) ↔ Each P tr ∧
    Each (fun pre => P (tr ++ pre)) events := by
  induction tr generalizing P with
  | nil => exact ⟨fun h => ⟨each_nil, h⟩, fun h => h.2⟩
  | cons a tr ih => rw [List.cons_append, each_cons, each_cons, ih, and_assoc]; rfl

/-- A property that only says something of events that do not occur. -/
theorem Each.of_forall (h : ∀ e ∈ tr, ∀ pre, P pre e) : Each P tr := by
  rintro pre e post rfl
  exact h e (by simp) pre

end Rkvdec.Lib
