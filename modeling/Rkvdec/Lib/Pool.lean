import Mathlib.Tactic
import Mathlib.Data.Multiset.Bind
import Mathlib.Data.Multiset.Filter

/-! Threads over a shared memory. A thread is a stack of calls; one step runs the top call up to
the end of its atomic section, which may change the memory, leave further calls and emit events.
An invariant is about the memory and the bag of all pending calls, whatever thread holds them. -/
namespace Rkvdec.Lib

variable {σ φ ε ρ : Type}

/-- What a section does when it runs: it goes wrong, or it leaves a memory, the calls the thread
has to make next and the events an observer sees. -/
inductive Effect (σ φ ε : Type) where
  | crash
  | next (mem : σ) (calls : List φ) (events : List ε)

/-- A section that uses something finds it there, or crashes. -/
theorem touched {there : Bool} {e : Effect σ φ ε} {mem : σ} {calls : List φ} {events : List ε}
    (h : some (if there = false then .crash else e) = some (.next mem calls events)) :
    there = true ∧ e = .next mem calls events := by
  cases there with
  | false => cases h
  | true => exact ⟨rfl, Option.some.inj h⟩

/-- How a request enters, and what one section of a call does for an outcome of the environment.
`none` is a request or a section that cannot run now. -/
structure Machine (σ φ ε ρ : Type) where
  enter : σ → ρ → Option (σ × List φ × List ε)
  exec : σ → φ → Bool → Option (Effect σ φ ε)

/-- A crashed pool keeps the memory of the moment and runs no further. -/
structure Pool (σ φ ε : Type) where
  mem : σ
  threads : List (List φ)
  crashed : Bool
  trace : List ε

inductive Action (ρ : Type) where
  | enter (r : ρ)
  | run (t : Nat) (good : Bool)

namespace Pool

/-- Every pending call. -/
def calls (s : Pool σ φ ε) : Multiset φ := s.threads.flatten

/-- The pending calls besides the top call of thread `t`, whose remaining stack is `rest`. -/
def others (s : Pool σ φ ε) (t : Nat) (rest : List φ) : Multiset φ :=
  (rest : Multiset φ) + (s.threads.eraseIdx t).flatten

end Pool

/-- What `g` reads off each pending call, all together. -/
def gather {α : Type} (g : φ → List α) (F : Multiset φ) : Multiset α := F.bind fun call => g call

section Gather

variable {α : Type} {g : φ → List α} {F : Multiset φ} {a : α}

@[simp] theorem gather_zero : gather g (0 : Multiset φ) = 0 := by
  simp [gather]

@[simp] theorem gather_cons (call : φ) : gather g (call ::ₘ F) = g call + gather g F := by
  simp [gather]

@[simp] theorem gather_singleton_add (call : φ) :
    gather g ({call} + F) = g call + gather g F := by
  rw [Multiset.singleton_add, gather_cons]

theorem coe_cons_add (call : φ) (calls : List φ) :
    (↑(call :: calls) : Multiset φ) + F = call ::ₘ (↑calls + F) := by
  rw [← Multiset.cons_coe, Multiset.cons_add]

theorem coe_nil_add : (([] : List φ) : Multiset φ) + F = F := by
  rw [Multiset.coe_nil, zero_add]

theorem gather_coe_add (calls : List φ) :
    gather g (↑calls + F) = ↑(calls.flatMap g) + gather g F := by
  induction calls with
  | nil => simp
  | cons call calls ih =>
    rw [← Multiset.cons_coe, Multiset.cons_add, gather_cons, ih, List.flatMap_cons,
      ← Multiset.coe_add, add_assoc]

/-- Calls with nothing to read off. -/
theorem gather_keep {calls : List φ} (h : calls.flatMap g = []) :
    gather g (↑calls + F) = gather g F := by
  rw [gather_coe_add, h, Multiset.coe_nil, zero_add]

theorem mem_gather : a ∈ gather g F ↔ ∃ call ∈ F, a ∈ g call := by
  simp [gather]

theorem mem_gather_cons {call : φ} :
    a ∈ gather g (call ::ₘ F) ↔ a ∈ g call ∨ a ∈ gather g F := by
  simp only [gather_cons, Multiset.mem_add, Multiset.mem_coe]

theorem mem_gather_coe_add {calls : List φ} :
    a ∈ gather g (↑calls + F) ↔ a ∈ calls.flatMap g ∨ a ∈ gather g F := by
  simp only [gather_coe_add, Multiset.mem_add, Multiset.mem_coe]

theorem coe_erase_add [DecidableEq α] {l : List α} (h : a ∈ l) :
    (↑(l.erase a) : Multiset α) + {a} = l := by
  rw [← Multiset.coe_erase, add_comm, Multiset.singleton_add,
    Multiset.cons_erase (by simpa using h)]

theorem coe_filter_add (l : List α) (P : α → Prop) [DecidablePred P] :
    (↑(l.filter fun a => ¬ P a) : Multiset α) + ↑(l.filter fun a => P a) = l := by
  have := Multiset.filter_add_not P (l : Multiset α)
  rw [Multiset.filter_coe, Multiset.filter_coe, add_comm] at this
  simpa using this

@[simp] theorem flatMap_ite {c : Prop} [Decidable c] {calls calls' : List φ} :
    (if c then calls else calls').flatMap g = if c then calls.flatMap g else calls'.flatMap g :=
  apply_ite (List.flatMap g) c calls calls'

end Gather

namespace Machine

def step (M : Machine σ φ ε ρ) (s : Pool σ φ ε) : Action ρ → Option (Pool σ φ ε)
  | .enter r =>
    if s.crashed then none
    else
      match M.enter s.mem r with
      | none => none
      | some (mem, calls, events) =>
        some { s with mem := mem, threads := s.threads ++ [calls], trace := s.trace ++ events }
  | .run t good =>
    if s.crashed then none
    else
      match s.threads[t]? with
      | some (call :: rest) =>
        match M.exec s.mem call good with
        | none => none
        | some .crash => some { s with crashed := true }
        | some (.next mem calls events) =>
          some { s with
            mem := mem
            threads := s.threads.set t (calls ++ rest)
            trace := s.trace ++ events }
      | _ => none

def run (M : Machine σ φ ε ρ) (s : Pool σ φ ε) : List (Action ρ) → Option (Pool σ φ ε)
  | [] => some s
  | a :: acts =>
    match M.step s a with
    | none => none
    | some s' => M.run s' acts

end Machine

/-- A restriction on the steps of a run, by the memory and the other pending calls. -/
structure Guard (σ φ ρ : Type) where
  enter : σ → Multiset φ → ρ → Prop
  exec : σ → φ → Multiset φ → Bool → Prop

namespace Guard

def any : Guard σ φ ρ := ⟨fun _ _ _ => True, fun _ _ _ _ => True⟩

instance (mem : σ) (F : Multiset φ) (r : ρ) : Decidable ((any : Guard σ φ ρ).enter mem F r) :=
  inferInstanceAs (Decidable True)

instance (mem : σ) (call : φ) (F : Multiset φ) (good : Bool) :
    Decidable ((any : Guard σ φ ρ).exec mem call F good) :=
  inferInstanceAs (Decidable True)

def Admits (G : Guard σ φ ρ) (s : Pool σ φ ε) : Action ρ → Prop
  | .enter r => G.enter s.mem s.calls r
  | .run t good =>
    match s.threads[t]? with
    | some (call :: rest) => G.exec s.mem call (s.others t rest) good
    | _ => True

instance {G : Guard σ φ ρ} [∀ mem F r, Decidable (G.enter mem F r)]
    [∀ mem call F good, Decidable (G.exec mem call F good)] (s : Pool σ φ ε) (a : Action ρ) :
    Decidable (G.Admits s a) :=
  match a with
  | .enter r => inferInstanceAs (Decidable (G.enter s.mem s.calls r))
  | .run t good =>
    match h : s.threads[t]? with
    | some (call :: rest) =>
      decidable_of_iff (G.exec s.mem call (s.others t rest) good) (by simp [Admits, h])
    | some [] => decidable_of_iff True (by simp [Admits, h])
    | none => decidable_of_iff True (by simp [Admits, h])

end Guard

/-- The pools a machine reaches by steps a guard admits. -/
inductive Reaches (M : Machine σ φ ε ρ) (G : Guard σ φ ρ) (s₀ : Pool σ φ ε) : Pool σ φ ε → Prop
  | init : Reaches M G s₀ s₀
  | step {s s' : Pool σ φ ε} {a : Action ρ} : Reaches M G s₀ s → G.Admits s a →
      M.step s a = some s' → Reaches M G s₀ s'

namespace Machine

variable {M : Machine σ φ ε ρ} {G : Guard σ φ ρ} {s₀ s s' : Pool σ φ ε} {a : Action ρ}

/-- Every step of the run is one the guard admits. -/
def Admitted (M : Machine σ φ ε ρ) (G : Guard σ φ ρ) : Pool σ φ ε → List (Action ρ) → Prop
  | _, [] => True
  | s, a :: acts =>
    G.Admits s a ∧
      match M.step s a with
      | none => False
      | some s' => M.Admitted G s' acts

instance Admitted.decidable (M : Machine σ φ ε ρ) (G : Guard σ φ ρ)
    [∀ (s : Pool σ φ ε) (a : Action ρ), Decidable (G.Admits s a)] :
    ∀ (s : Pool σ φ ε) (acts : List (Action ρ)), Decidable (M.Admitted G s acts)
  | _, [] => inferInstanceAs (Decidable True)
  | s, a :: acts =>
    match h : M.step s a with
    | none => decidable_of_iff False (by simp [Admitted, h])
    | some s' =>
      have := Admitted.decidable M G s' acts
      decidable_of_iff (G.Admits s a ∧ M.Admitted G s' acts) (by simp [Admitted, h])

theorem flatten_set {ts : List (List φ)} {t : Nat} (h : t < ts.length) (stack : List φ) :
    ((ts.set t stack).flatten : Multiset φ) = stack + (ts.eraseIdx t).flatten := by
  induction ts generalizing t with
  | nil => simp at h
  | cons top ts ih =>
    cases t with
    | zero => simp
    | succ t =>
      have := ih (Nat.lt_of_succ_lt_succ h)
      simp only [List.set_cons_succ, List.flatten_cons, List.eraseIdx_cons_succ,
        ← Multiset.coe_add, this]
      exact add_left_comm _ _ _

theorem calls_eq {t : Nat} {call : φ} {rest : List φ}
    (h : s.threads[t]? = some (call :: rest)) : s.calls = call ::ₘ s.others t rest := by
  obtain ⟨hlt, hget⟩ := List.getElem?_eq_some_iff.mp h
  have hset : s.threads.set t (call :: rest) = s.threads := by
    rw [← hget, List.set_getElem_self]
  have := flatten_set hlt (call :: rest)
  rw [hset] at this
  simpa [Pool.calls, Pool.others, ← Multiset.cons_coe, Multiset.cons_add] using this

/-- Everything one step can do. -/
theorem step_cases (h : M.step s a = some s') : s.crashed = false ∧
    ((∃ r mem calls events, a = .enter r ∧ M.enter s.mem r = some (mem, calls, events) ∧
        s'.mem = mem ∧ s'.calls = ↑calls + s.calls ∧ s'.trace = s.trace ++ events ∧
        s'.crashed = false) ∨
     (∃ t good call rest, a = .run t good ∧ s.threads[t]? = some (call :: rest) ∧
        ((M.exec s.mem call good = some .crash ∧ s' = { s with crashed := true }) ∨
         ∃ mem calls events, M.exec s.mem call good = some (.next mem calls events) ∧
          s'.mem = mem ∧ s'.calls = ↑calls + s.others t rest ∧ s'.trace = s.trace ++ events ∧
          s'.crashed = false))) := by
  cases a with
  | enter r =>
    simp only [step] at h
    split at h
    · simp at h
    · rename_i hcrash
      refine ⟨by simpa using hcrash, .inl ?_⟩
      split at h
      · simp at h
      · rename_i mem calls events henter
        obtain rfl := Option.some.inj h
        refine ⟨r, mem, calls, events, rfl, henter, rfl, ?_, rfl, by simpa using hcrash⟩
        simp [Pool.calls, add_comm, ← Multiset.coe_add]
  | run t good =>
    simp only [step] at h
    split at h
    · simp at h
    · rename_i hcrash
      refine ⟨by simpa using hcrash, .inr ?_⟩
      split at h
      · rename_i call rest hget
        obtain ⟨hlt, -⟩ := List.getElem?_eq_some_iff.mp hget
        refine ⟨t, good, call, rest, rfl, hget, ?_⟩
        split at h
        · simp at h
        · rename_i hexec
          exact .inl ⟨hexec, (Option.some.inj h).symm⟩
        · rename_i mem calls events hexec
          obtain rfl := Option.some.inj h
          refine .inr ⟨mem, calls, events, hexec, rfl, ?_, rfl, by simpa using hcrash⟩
          simp [Pool.calls, Pool.others, flatten_set hlt, ← Multiset.coe_add, add_assoc]
      · simp at h

end Machine

namespace Reaches

variable {M : Machine σ φ ε ρ} {G : Guard σ φ ρ} {s₀ s : Pool σ φ ε}
  {I J : σ → Multiset φ → List ε → Prop}

/-- A guarded run is a run. -/
theorem any (h : Reaches M G s₀ s) : Reaches M Guard.any s₀ s := by
  induction h with
  | init => exact .init
  | @step s s' a _ _ hstep ih =>
    refine .step ih ?_ hstep
    cases a with
    | enter r => trivial
    | run t good =>
      simp only [Guard.Admits]
      split <;> trivial

/-- The invariant rule: what holds at the start and is kept by every admitted request and section
holds in every reachable pool. The step may use what is already known of reachable pools. -/
theorem invariant (hI : ∀ s, Reaches M G s₀ s → I s.mem s.calls s.trace)
    (h₀ : J s₀.mem s₀.calls s₀.trace)
    (henter : ∀ mem F tr r mem' calls events, I mem F tr → J mem F tr → G.enter mem F r →
      M.enter mem r = some (mem', calls, events) → J mem' (↑calls + F) (tr ++ events))
    (hexec : ∀ mem call F tr good mem' calls events, I mem (call ::ₘ F) tr →
      J mem (call ::ₘ F) tr → G.exec mem call F good →
      M.exec mem call good = some (.next mem' calls events) → J mem' (↑calls + F) (tr ++ events))
    (h : Reaches M G s₀ s) : J s.mem s.calls s.trace := by
  induction h with
  | init => exact h₀
  | @step s s' a hs hguard hstep ih =>
    have hi := hI s hs
    obtain ⟨-, ⟨r, mem, calls, events, rfl, henter', rfl, hcalls, htrace, -⟩ |
      ⟨t, good, call, rest, rfl, hget, hout⟩⟩ := Machine.step_cases hstep
    · rw [hcalls, htrace]
      exact henter _ _ _ _ _ _ _ hi ih hguard henter'
    · have hcall := Machine.calls_eq hget
      simp only [Guard.Admits, hget] at hguard
      rcases hout with ⟨-, rfl⟩ | ⟨mem, calls, events, hexec', rfl, hcalls, htrace, -⟩
      · exact ih
      · rw [hcall] at hi ih
        rw [hcalls, htrace]
        exact hexec _ _ _ _ _ _ _ _ hi ih hguard hexec'

/-- The rule for a property of each thread's stack. -/
theorem each_stack {T : List φ → Prop} (hI : ∀ s, Reaches M G s₀ s → I s.mem s.calls s.trace)
    (h₀ : ∀ stack ∈ s₀.threads, T stack)
    (henter : ∀ mem r mem' calls events, M.enter mem r = some (mem', calls, events) → T calls)
    (hexec : ∀ mem call rest F tr good mem' calls events, I mem (call ::ₘ F) tr →
      T (call :: rest) → M.exec mem call good = some (.next mem' calls events) → T (calls ++ rest))
    (h : Reaches M G s₀ s) : ∀ stack ∈ s.threads, T stack := by
  induction h with
  | init => exact h₀
  | @step s s' a hs _ hstep ih =>
    have hi := hI s hs
    cases a with
    | enter r =>
      simp only [Machine.step] at hstep
      split at hstep
      · simp at hstep
      · split at hstep
        · simp at hstep
        · rename_i mem calls events henter'
          obtain rfl := Option.some.inj hstep
          intro stack hstack
          rcases List.mem_append.mp hstack with hstack | hstack
          · exact ih stack hstack
          · obtain rfl := List.mem_singleton.mp hstack
            exact henter _ _ _ _ _ henter'
    | run t good =>
      simp only [Machine.step] at hstep
      split at hstep
      · simp at hstep
      · split at hstep
        · rename_i call rest hget
          rw [Machine.calls_eq hget] at hi
          split at hstep
          · simp at hstep
          · obtain rfl := Option.some.inj hstep
            exact ih
          · rename_i mem calls events hexec'
            obtain rfl := Option.some.inj hstep
            intro stack hstack
            rcases List.mem_or_eq_of_mem_set hstack with hstack | rfl
            · exact ih stack hstack
            · exact hexec _ _ _ _ _ _ _ _ _ hi (ih _ (List.mem_of_getElem? hget)) hexec'
        · simp at hstep

/-- The other pending calls are stacks with the property, and so is the rest of the top call's. -/
def Stacked (T : List φ → Prop) (call : φ) (F : Multiset φ) : Prop :=
  ∃ rest others, T (call :: rest) ∧ (∀ stack ∈ others, T stack) ∧
    F = ↑rest + ((List.flatten others : List φ) : Multiset φ)

/-- A property of the stacks may be assumed of every step. -/
theorem stacked {T : List φ → Prop} (hT : ∀ s, Reaches M G s₀ s → ∀ stack ∈ s.threads, T stack)
    (h : Reaches M G s₀ s) :
    Reaches M ⟨G.enter, fun mem call F good => G.exec mem call F good ∧ Stacked T call F⟩ s₀ s := by
  induction h with
  | init => exact .init
  | @step s s' a hs hguard hstep ih =>
    refine .step ih ?_ hstep
    cases a with
    | enter r => exact hguard
    | run t good =>
      simp only [Guard.Admits] at hguard ⊢
      split
      · rename_i call rest hget
        simp only [hget] at hguard
        refine ⟨hguard, rest, s.threads.eraseIdx t, hT s hs _ (List.mem_of_getElem? hget), ?_, rfl⟩
        exact fun stack hstack => hT s hs stack (List.mem_of_mem_eraseIdx hstack)
      · trivial

/-- No section goes wrong in a state with the invariant, so no run crashes. -/
theorem not_crashed (hI : ∀ s, Reaches M G s₀ s → I s.mem s.calls s.trace)
    (h₀ : s₀.crashed = false)
    (hexec : ∀ mem call F tr good, I mem (call ::ₘ F) tr → G.exec mem call F good →
      M.exec mem call good ≠ some .crash)
    (h : Reaches M G s₀ s) : s.crashed = false := by
  induction h with
  | init => exact h₀
  | @step s s' a hs hguard hstep ih =>
    obtain ⟨-, ⟨r, mem, calls, events, rfl, -, -, -, -, hcrash⟩ |
      ⟨t, good, call, rest, rfl, hget, hout⟩⟩ := Machine.step_cases hstep
    · exact hcrash
    · rcases hout with ⟨hbad, -⟩ | ⟨-, -, -, -, -, -, -, hcrash⟩
      · have hi := hI s hs
        rw [Machine.calls_eq hget] at hi
        simp only [Guard.Admits, hget] at hguard
        exact absurd hbad (hexec _ _ _ _ _ hi hguard)
      · exact hcrash

theorem trans {s₁ : Pool σ φ ε} (h : Reaches M G s₀ s₁) (h' : Reaches M G s₁ s) :
    Reaches M G s₀ s := by
  induction h' with
  | init => exact h
  | step _ hguard hstep ih => exact .step ih hguard hstep

theorem of_run {acts : List (Action ρ)} (hrun : M.run s₀ acts = some s)
    (hok : M.Admitted G s₀ acts) : Reaches M G s₀ s := by
  induction acts generalizing s₀ with
  | nil =>
    obtain rfl := Option.some.inj hrun
    exact .init
  | cons a acts ih =>
    cases hstep : M.step s₀ a with
    | none => simp [Machine.run, hstep] at hrun
    | some s₁ =>
      simp only [Machine.run, hstep] at hrun
      simp only [Machine.Admitted, hstep] at hok
      exact (Reaches.step .init hok.1 hstep).trans (ih hrun hok.2)

theorem of_get {acts : List (Action ρ)} (hrun : (M.run s₀ acts).isSome = true)
    (hok : M.Admitted G s₀ acts) : Reaches M G s₀ ((M.run s₀ acts).get hrun) :=
  of_run (Option.some_get hrun).symm hok

end Reaches

end Rkvdec.Lib
