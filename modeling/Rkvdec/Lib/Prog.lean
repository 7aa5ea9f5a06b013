import Mathlib.Tactic.Common
import Mathlib.Logic.Basic

/-! Programs that work through an interface. A program is a tree of requests; a handler answers each
request from a state of its own and may change it. -/
namespace Rkvdec.Lib

/-- A computation of an `α` that asks requests `op : Op` and goes on with their answers. -/
inductive Prog (Op : Type) (Ans : Op → Type) (α : Type) where
  | done (a : α)
  | ask (op : Op) (next : Ans op → Prog Op Ans α)

namespace Prog

variable {Op : Type} {Ans : Op → Type} {α β σ : Type}

def bind : Prog Op Ans α → (α → Prog Op Ans β) → Prog Op Ans β
  | done a, f => f a
  | ask op next, f => ask op fun x => (next x).bind f

instance : Monad (Prog Op Ans) where
  pure := done
  bind := bind

def request (op : Op) : Prog Op Ans (Ans op) := ask op done

/-- A handler: the answer to a request and the state after it. -/
abbrev Handler (Op : Type) (Ans : Op → Type) (σ : Type) := (op : Op) → σ → Ans op × σ

variable {H : Handler Op Ans σ} {P Q : Op → σ → Prop} {s : σ}

def run (H : Handler Op Ans σ) : Prog Op Ans α → σ → α × σ
  | done a, s => (a, s)
  | ask op next, s => (next (H op s).1).run H (H op s).2

/-- Every request the run makes has the property, in the state it is made in. -/
def All (H : Handler Op Ans σ) (P : Op → σ → Prop) : Prog Op Ans α → σ → Prop
  | done _, _ => True
  | ask op next, s => P op s ∧ (next (H op s).1).All H P (H op s).2

instance All.decidable [∀ op s, Decidable (P op s)] :
    ∀ (p : Prog Op Ans α) (s : σ), Decidable (p.All H P s)
  | done _, _ => inferInstanceAs (Decidable True)
  | ask op next, s =>
    have := All.decidable (next (H op s).1) (H op s).2
    inferInstanceAs (Decidable (P op s ∧ (next (H op s).1).All H P (H op s).2))

@[simp] theorem run_pure (a : α) : (pure a : Prog Op Ans α).run H s = (a, s) := rfl

@[simp] theorem run_bind (p : Prog Op Ans α) (f : α → Prog Op Ans β) :
    (p >>= f).run H s = (f (p.run H s).1).run H (p.run H s).2 := by
  change (p.bind f).run H s = _
  induction p generalizing s with
  | done a => rfl
  | ask op next ih => exact ih _

@[simp] theorem run_map (f : α → β) (p : Prog Op Ans α) :
    (f <$> p).run H s = (f (p.run H s).1, (p.run H s).2) :=
  run_bind p fun a => pure (f a)

@[simp] theorem all_pure (a : α) : (pure a : Prog Op Ans α).All H P s := trivial

@[simp] theorem all_request (op : Op) : (request op : Prog Op Ans _).All H P s ↔ P op s :=
  and_iff_left trivial

@[simp] theorem all_bind (p : Prog Op Ans α) (f : α → Prog Op Ans β) :
    (p >>= f).All H P s ↔ p.All H P s ∧ (f (p.run H s).1).All H P (p.run H s).2 := by
  change (p.bind f).All H P s ↔ _
  induction p generalizing s with
  | done a => exact (and_iff_right trivial).symm
  | ask op next ih =>
    change P op s ∧ _ ↔ (P op s ∧ _) ∧ _
    rw [ih]
    exact and_assoc.symm

theorem All.mono {p : Prog Op Ans α} (hPQ : ∀ op s, P op s → Q op s) (h : p.All H P s) :
    p.All H Q s := by
  induction p generalizing s with
  | done a => trivial
  | ask op next ih => exact ⟨hPQ op s h.1, ih _ h.2⟩

theorem All.and {p : Prog Op Ans α} (hP : p.All H P s) (hQ : p.All H Q s) :
    p.All H (fun op s => P op s ∧ Q op s) s := by
  induction p generalizing s with
  | done a => trivial
  | ask op next ih => exact ⟨⟨hP.1, hQ.1⟩, ih _ hP.2 hQ.2⟩

/-- The rule for a sticky flag: it is down at the end iff it was down at the start and no request
raised it. -/
theorem sticky {flag : σ → Bool} {p : Prog Op Ans α}
    (hflag : ∀ op s, flag (H op s).2 = false ↔ flag s = false ∧ P op s) :
    flag (p.run H s).2 = false ↔ flag s = false ∧ p.All H P s := by
  induction p generalizing s with
  | done a => simp [run, All]
  | ask op next ih =>
    simp only [run, All, ih, hflag]
    exact and_assoc

variable {τ : Type} {K : Handler Op Ans τ} {R : σ → τ → Prop} {t : τ}

/-- Two handlers that answer alike from related states, and keep them related, run a program
alike. -/
theorem run_simulates {p : Prog Op Ans α} {Q : Op → τ → Prop}
    (hstep : ∀ op s t, R s t → Q op t → (H op s).1 = (K op t).1 ∧ R (H op s).2 (K op t).2)
    (hall : p.All K Q t) (h : R s t) : (p.run H s).1 = (p.run K t).1 ∧
    R (p.run H s).2 (p.run K t).2 := by
  induction p generalizing s t with
  | done a => exact ⟨rfl, h⟩
  | ask op next ih =>
    obtain ⟨hanswer, hrelated⟩ := hstep op s t h hall.1
    rw [run, run, hanswer]
    exact ih _ hall.2 hrelated

end Prog

end Rkvdec.Lib
