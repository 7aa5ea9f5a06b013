import Rkvdec.Dispatch.Ledger

/-! What a promotion picks, and the rule for the promotion loop: what one promotion keeps, the
whole loop keeps. -/
namespace Rkvdec.Dispatch

open Kernel

namespace Queue

variable {q : Queue} {jobs : Ptr → Job} {c : Core} {p : Ptr}

theorem mem_cores : c ∈ q.cores ↔ c.val < q.coreCount := by
  have := core_cases c
  simp only [cores, List.mem_filter, decide_eq_true_eq, List.mem_cons, List.not_mem_nil, or_false]
  exact and_iff_right this

theorem betterCore_cases {best : Option Core} {i : Core} (h : q.betterCore best i = some c) :
    (c = i ∧ q.coreIdle i = true) ∨ best = some c := by
  simp only [betterCore] at h
  grind

theorem foldl_betterCore {l : List Core} {best : Option Core}
    (h : l.foldl q.betterCore best = some c) :
    (c ∈ l ∧ q.coreIdle c = true) ∨ best = some c := by
  induction l generalizing best with
  | nil => exact .inr h
  | cons i l ih =>
    rcases ih h with ⟨hmem, hidle⟩ | hbest
    · exact .inl ⟨List.mem_cons_of_mem _ hmem, hidle⟩
    · rcases betterCore_cases hbest with ⟨rfl, hidle⟩ | hbest
      · exact .inl ⟨List.mem_cons_self, hidle⟩
      · exact .inr hbest

/-- The core a job is promoted to is attached and idle. -/
theorem pickTargetCore_spec (h : q.pickTargetCore = some c) :
    c.val < q.coreCount ∧ q.coreIdle c = true := by
  rcases foldl_betterCore h with ⟨hmem, hidle⟩ | hbest
  · exact ⟨mem_cores.mp hmem, hidle⟩
  · simp at hbest

theorem pickScan_mem (score : Ptr → Nat) (l : List Ptr) (chosen : Ptr) (best : Option Nat) :
    pickScan score l chosen best ∈ l ∨ pickScan score l chosen best = chosen := by
  induction l generalizing chosen best with
  | nil => exact .inr rfl
  | cons p l ih =>
    simp only [pickScan]
    split
    · split
      · exact .inl List.mem_cons_self
      · rcases ih p (some (score p)) with h | h
        · exact .inl (List.mem_cons_of_mem _ h)
        · rw [h]
          exact .inl List.mem_cons_self
    · rcases ih chosen best with h | h
      · exact .inl (List.mem_cons_of_mem _ h)
      · exact .inr h

theorem pickPendingByOwnerLru_mem (h : q.pickPendingByOwnerLru jobs = some p) : p ∈ q.pending := by
  simp only [pickPendingByOwnerLru] at h
  split at h
  · simp at h
  · rename_i head rest hpending
    obtain rfl := Option.some.inj h
    rcases pickScan_mem (fun p => q.score (jobs p).owner) q.pending head none with h | h
    · exact h
    · rw [h, hpending]
      exact List.mem_cons_self

end Queue

namespace Promoting

variable {s s' : Promoting}

/-- A promotion loop reports promotions only. -/
theorem mem_events {e : Event} (s : Promoting) (h : e ∈ s.events) :
    ∃ p c waiting, e = .promoted p c waiting := by
  obtain ⟨i, hi, rfl⟩ := List.mem_iff_getElem.mp h
  exact ⟨_, _, _, List.getElem_zipWith ..⟩

theorem filterMap_events {α : Type} {g : Event → Option α} (s : Promoting)
    (h : ∀ p c waiting, g (.promoted p c waiting) = none := by intros; rfl) :
    s.events.filterMap g = [] := by
  refine List.filterMap_eq_nil_iff.mpr fun e he => ?_
  obtain ⟨p, c, waiting, rfl⟩ := s.mem_events he
  exact h p c waiting

theorem turn_eq (h : s.turn = some s') :
    ∃ p c, s.queue.pickTargetCore = some c ∧ s.queue.pickPendingByOwnerLru s.jobs = some p ∧
      s' = s.promote p c := by
  simp only [turn] at h
  split at h
  · rename_i c p hc hp
    exact ⟨p, c, hc, hp, (Option.some.inj h).symm⟩
  · simp at h

theorem turns_inv {P : Promoting → Prop} (hturn : ∀ s s', P s → s.turn = some s' → P s') (n : Nat)
    (h : P s) : P (turns n s) := by
  induction n generalizing s with
  | zero => exact h
  | succ n ih =>
    simp only [turns]
    split
    · exact h
    · rename_i s' hs
      exact ih (hturn s s' h hs)

end Promoting

namespace Kernel

variable {k : Kernel} {d : Dev}

/-- The memory after one promotion. -/
@[simps]
def promote (k : Kernel) (d : Dev) (p : Ptr) (core : Core) : Kernel :=
  { k with
    jobs := (Promoting.promote ⟨k.jobs, k.queue d, [], []⟩ p core).jobs
    queue := Function.update k.queue d
      (Promoting.promote ⟨k.jobs, k.queue d, [], []⟩ p core).queue }

/-- The rule for `PromoteUntilFull`. -/
theorem promoted_inv {I : Kernel → List Promotion → Prop} (h : I k [])
    (hturn : ∀ k out p c, (k.queue d).pickTargetCore = some c →
      (k.queue d).pickPendingByOwnerLru k.jobs = some p → I k out →
      I (k.promote d p c) (out ++ [⟨p, c⟩])) :
    I (k.promoted d) (k.promoting d).out := by
  have hloop : ∀ n, ∀ s : Promoting,
      I { k with jobs := s.jobs, queue := Function.update k.queue d s.queue } s.out →
      I { k with
          jobs := (s.turns n).jobs, queue := Function.update k.queue d (s.turns n).queue }
        (s.turns n).out := by
    intro n s hs
    refine Promoting.turns_inv (P := fun s =>
      I { k with jobs := s.jobs, queue := Function.update k.queue d s.queue } s.out) ?_ n hs
    intro s s' hs hturn'
    obtain ⟨p, c, hc, hp, rfl⟩ := Promoting.turn_eq hturn'
    have := hturn _ s.out p c (by simpa using hc) (by simpa using hp) hs
    simpa [promote, Promoting.promote] using this
  have := hloop (k.queue d).coreCount ⟨k.jobs, k.queue d, [], []⟩ (by simpa using h)
  exact this

end Kernel

end Rkvdec.Dispatch
