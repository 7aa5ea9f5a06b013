import Mathlib.Tactic.Common
import Mathlib.Logic.Basic

/-! Runs of a machine and what holds at every step of one. What a statement has to remember about
the steps before is a component of the state. -/
namespace Rkvdec.Lib

variable {σ ε : Type} {step : σ → ε → σ} {P Q : σ → ε → Prop} {Inv : σ → Prop} {s : σ} {es : List ε}

/-- Every step of the run has the property, in the state it is taken in. -/
def Along (step : σ → ε → σ) (P : σ → ε → Prop) : σ → List ε → Prop
  | _, [] => True
  | s, e :: es => P s e ∧ Along step P (step s e) es

instance Along.decidable [∀ s e, Decidable (P s e)] : ∀ s es, Decidable (Along step P s es)
  | _, [] => inferInstanceAs (Decidable True)
  | s, e :: es =>
    have := Along.decidable (step s e) es
    inferInstanceAs (Decidable (P s e ∧ Along step P (step s e) es))

/-- An invariant that a good step keeps and that gives the property at each of them. -/
theorem Along.of_inv (hstep : ∀ s e, Inv s → Q s e → P s e ∧ Inv (step s e)) (hinv : Inv s)
    (h : Along step Q s es) : Along step P s es := by
  induction es generalizing s with
  | nil => trivial
  | cons e es ih =>
    obtain ⟨hP, hnext⟩ := hstep s e hinv h.1
    exact ⟨hP, ih hnext h.2⟩

/-- An invariant that a good step keeps holds at the end of a good run. -/
theorem Along.foldl_inv (hstep : ∀ s e, Inv s → Q s e → Inv (step s e)) (hinv : Inv s)
    (h : Along step Q s es) : Inv (es.foldl step s) := by
  induction es generalizing s with
  | nil => exact hinv
  | cons e es ih => exact ih (hstep s e hinv h.1) h.2

/-- Two properties that agree where the invariant holds, when either keeps it. -/
theorem along_congr (hiff : ∀ s e, Inv s → (P s e ↔ Q s e))
    (hstep : ∀ s e, Inv s → P s e → Inv (step s e)) (hinv : Inv s) :
    Along step P s es ↔ Along step Q s es := by
  constructor
  · exact Along.of_inv (fun s e hs hP => ⟨(hiff s e hs).mp hP, hstep s e hs hP⟩) hinv
  · refine Along.of_inv (fun s e hs hQ => ?_) hinv
    have hP := (hiff s e hs).mpr hQ
    exact ⟨hP, hstep s e hs hP⟩

/-- The same of the runs whose steps are all allowed. -/
theorem along_congr_within {G : σ → ε → Prop} (hiff : ∀ s e, Inv s → G s e → (P s e ↔ Q s e))
    (hstep : ∀ s e, Inv s → G s e → P s e → Inv (step s e)) (hinv : Inv s)
    (hwithin : Along step G s es) :
    Along step P s es ↔ Along step Q s es := by
  induction es generalizing s with
  | nil => exact Iff.rfl
  | cons e es ih =>
    have hhead := hiff s e hinv hwithin.1
    constructor
    · rintro ⟨hP, htail⟩
      exact ⟨hhead.mp hP, (ih (hstep s e hinv hwithin.1 hP) hwithin.2).mp htail⟩
    · rintro ⟨hQ, htail⟩
      have hP := hhead.mpr hQ
      exact ⟨hP, (ih (hstep s e hinv hwithin.1 hP) hwithin.2).mpr htail⟩

end Rkvdec.Lib
