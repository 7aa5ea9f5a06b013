import Mathlib.Tactic
import Mathlib.Data.List.Basic

/-! Serving the waiting client whose last turn has the least stamp, and how fair that is: as fair as
the stamps follow the turns. -/
namespace Rkvdec.Lib

variable {α : Type}

/-- A scan that takes over what is strictly less ends at a least element. -/
theorem foldl_least (f : α → Nat) (l : List α) (e : α) :
    (l.foldl (fun e i => if f i < f e then i else e) e) ∈ e :: l ∧
      ∀ i ∈ e :: l, f (l.foldl (fun e i => if f i < f e then i else e) e) ≤ f i := by
  induction l generalizing e with
  | nil => simp
  | cons i l ih =>
    simp only [List.foldl_cons]
    split
    · rename_i hlt
      obtain ⟨hmem, hle⟩ := ih i
      refine ⟨List.mem_cons_of_mem _ hmem, ?_⟩
      intro j hj
      rcases List.mem_cons.mp hj with rfl | hj
      · exact (hle i List.mem_cons_self).trans hlt.le
      · exact hle j hj
    · rename_i hge
      obtain ⟨hmem, hle⟩ := ih e
      refine ⟨?_, ?_⟩
      · rcases List.mem_cons.mp hmem with hmem | hmem
        · rw [hmem]
          exact List.mem_cons_self
        · exact List.mem_cons_of_mem _ (List.mem_cons_of_mem _ hmem)
      · intro j hj
        rcases List.mem_cons.mp hj with rfl | hj
        · exact hle j List.mem_cons_self
        rcases List.mem_cons.mp hj with rfl | hj
        · exact (hle e List.mem_cons_self).trans (Nat.le_of_not_lt hge)
        · exact hle j (List.mem_cons_of_mem _ hj)

/-- A turn: who was served, the stamp of the job, and who was waiting. -/
structure Turn (α : Type) where
  owner : α
  stamp : Nat
  waiting : List α
deriving DecidableEq

/-- Nobody is served twice without anybody else who waits all the time. -/
def Fair (turns : List (Turn α)) : Prop :=
  ∀ pre a mid b post, turns = pre ++ a :: (mid ++ b :: post) → a.owner = b.owner →
    ∀ x, x ≠ a.owner → (∀ t ∈ a :: (mid ++ [b]), x ∈ t.waiting) → ∃ t ∈ mid, t.owner = x

variable [DecidableEq α] {turns : List (Turn α)} {t : Turn α} {x : α}

/-- The stamp of the last turn of a client, or 0. -/
def lastStamp (turns : List (Turn α)) (x : α) : Nat :=
  turns.foldl (fun n t => if t.owner = x then t.stamp else n) 0

theorem lastStamp_snoc :
    lastStamp (turns ++ [t]) x = if t.owner = x then t.stamp else lastStamp turns x := by
  simp only [lastStamp, List.foldl_append, List.foldl_cons, List.foldl_nil]

/-- It is the stamp of one of its turns. -/
theorem lastStamp_mem (turns : List (Turn α)) (x : α) :
    lastStamp turns x = 0 ∨ ∃ t ∈ turns, t.owner = x ∧ t.stamp = lastStamp turns x := by
  induction turns using List.reverseRecOn with
  | nil => exact .inl rfl
  | append_singleton turns t ih =>
    rw [lastStamp_snoc]
    split
    · rename_i howner
      exact .inr ⟨t, by simp, howner, rfl⟩
    · rcases ih with h | ⟨u, hu, howner, hstamp⟩
      · exact .inl h
      · exact .inr ⟨u, by simp [hu], howner, hstamp⟩

/-- Where the stamps follow the turns, it is the greatest one. -/
theorem le_lastStamp (hsorted : turns.Pairwise fun a b => a.stamp < b.stamp) (ht : t ∈ turns) :
    t.stamp ≤ lastStamp turns t.owner := by
  induction turns using List.reverseRecOn with
  | nil => cases ht
  | append_singleton turns u ih =>
    obtain ⟨hsorted, -, hlast⟩ := List.pairwise_append.mp hsorted
    rw [lastStamp_snoc]
    rcases List.mem_append.mp ht with ht | ht
    · split
      · exact (hlast t ht u (by simp)).le
      · exact ih hsorted ht
    · obtain rfl := List.mem_singleton.mp ht
      simp

/-- The last turn of a client before another one was served has a stamp below that one's. -/
theorem lastStamp_lt {pre mid : List (Turn α)}
    (hsorted : (pre ++ t :: mid).Pairwise fun a b => a.stamp < b.stamp) (hpos : 0 < t.stamp)
    (howner : t.owner ≠ x) (hmid : ∀ u ∈ mid, u.owner ≠ x) :
    lastStamp (pre ++ t :: mid) x < t.stamp := by
  rcases lastStamp_mem (pre ++ t :: mid) x with h | ⟨u, hu, hux, hstamp⟩
  · omega
  · rw [← hstamp]
    rcases List.mem_append.mp hu with hu | hu
    · exact (List.pairwise_append.mp hsorted).2.2 u hu t List.mem_cons_self
    · rcases List.mem_cons.mp hu with rfl | hu
      · exact absurd hux howner
      · exact absurd hux (hmid u hu)

/-- A turn of the client of least last stamp keeps the turns fair. -/
theorem Fair.snoc (h : Fair turns) (hsorted : turns.Pairwise fun a b => a.stamp < b.stamp)
    (hpos : ∀ u ∈ turns, 0 < u.stamp)
    (hleast : ∀ x ∈ t.waiting, lastStamp turns t.owner ≤ lastStamp turns x) :
    Fair (turns ++ [t]) := by
  intro pre a mid b post hsplit howner x hx hwait
  rcases List.eq_nil_or_concat post with rfl | ⟨post, u, rfl⟩
  · have hsplit : turns ++ [t] = (pre ++ a :: mid) ++ [b] := by simpa using hsplit
    obtain ⟨rfl, hb⟩ := List.append_inj' hsplit rfl
    obtain rfl := (List.cons.inj hb).1
    by_contra hnone
    push Not at hnone
    have hlast := lastStamp_lt hsorted (hpos a (by simp)) (Ne.symm hx) hnone
    have hown : a.stamp ≤ lastStamp (pre ++ a :: mid) t.owner :=
      howner ▸ le_lastStamp hsorted (by simp)
    have hle := hleast x (hwait t (by simp))
    omega
  · have hsplit : turns ++ [t] = (pre ++ a :: (mid ++ b :: post)) ++ [u] := by simpa using hsplit
    obtain ⟨rfl, -⟩ := List.append_inj' hsplit rfl
    exact h pre a mid b post rfl howner x hx hwait

end Rkvdec.Lib
