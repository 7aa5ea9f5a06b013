import Rkvdec.Dispatch.Cores

/-! The order of the calls of one thread: a peer kick is worked off above the end of its work item,
and the transient job is kicked above the wait for it. -/
namespace Rkvdec.Dispatch

open Lib Kernel

variable {k k' : Kernel} {F : Multiset Frame} {call : Frame} {calls rest : List Frame}
  {tr events : List Event} {r : Request} {good : Bool} {p : Ptr}

namespace Frame

/-- The work item the call ends. -/
def ends : Frame → List Nat
  | .endWork w => [w.cookie]
  | _ => []

/-- The transient job the call is about to kick. -/
def foreignKicks : Frame → List Ptr
  | .jobKickLocalInner .rvd1 p => [p]
  | _ => []

/-- The transient job the call is about to wait for. -/
def awaits : Frame → List Ptr
  | .foreignWait p _ => [p]
  | _ => []

end Frame

def Nested : List Frame → Prop
  | [] => True
  | call :: rest =>
    (∀ c ∈ call.cookies, c ∈ rest.flatMap Frame.ends) ∧
    (∀ p ∈ call.foreignKicks, p ∈ rest.flatMap Frame.awaits) ∧ Nested rest

namespace Nested

/-- Calls that kick no transient job and work on the same peer kick take the place of the top. -/
theorem replace (h : Nested (call :: rest))
    (hcalls : ∀ x ∈ calls, (∀ c ∈ x.cookies, c ∈ call.cookies) ∧ x.foreignKicks = []) :
    Nested (calls ++ rest) := by
  obtain ⟨hcookies, -, hrest⟩ := h
  induction calls with
  | nil => exact hrest
  | cons x calls ih =>
    obtain ⟨hx, hkicks⟩ := hcalls x List.mem_cons_self
    have htail := ih fun y hy => hcalls y (List.mem_cons_of_mem _ hy)
    refine ⟨fun c hc => ?_, by simp [hkicks], htail⟩
    change c ∈ (calls ++ rest).flatMap Frame.ends
    rw [List.flatMap_append]
    exact List.mem_append_right _ (hcookies c (hx c hc))

attribute [local simp] Frame.cookies Frame.foreignKicks Frame.fits Frame.awaits Frame.ends

theorem runs (h : Nested (call :: rest)) (hshape : Shape k (call ::ₘ F) tr)
    (hrun : Runs k call good k' calls events) : Nested (calls ++ rest) := by
  cases hrun with
  | @kickOwn d _ _ _ =>
    cases d with
    | rvd0 => exact h.replace (by simp)
    | rvd1 => simpa using (fits_cons.mp hshape.fits).1
  | foreignRun => exact ⟨by simp, by simp, h.1, by simp, h.2.2⟩
  | _ => exact h.replace (by simp)

theorem enters (hrun : Enters k r k' calls events) : Nested calls := by
  cases hrun with
  | detachPeer waits =>
    obtain rfl | ⟨p, -, rfl⟩ := waits <;> simp [Nested]
  | _ => simp [Nested]

theorem cookies_ended {stack : List Frame} (h : Nested stack) {c : Nat}
    (hc : c ∈ stack.flatMap Frame.cookies) : c ∈ stack.flatMap Frame.ends := by
  induction stack with
  | nil => simp at hc
  | cons call rest ih =>
    rw [List.flatMap_cons, List.mem_append] at hc ⊢
    exact .inr (hc.elim (h.1 c) (ih h.2.2))

end Nested

theorem nested_reachable {G : Guard} {s : Sys} (h : Reachable G s) :
    ∀ stack ∈ s.threads, Nested stack := by
  refine Reaches.each_stack (fun _ => shape_reachable) (by simp [init]) ?_ ?_ h
  · intro k r k' calls events hrun
    exact Nested.enters (enter_enters hrun)
  · intro k call rest F tr good k' calls events hshape hnested hrun
    exact hnested.runs hshape (exec_runs hrun)

/-- What holds of each stack of the other calls holds of them together. -/
theorem Stacked.gather_of {α : Type} {g g' : Frame → List α} {a : α}
    (h : Reaches.Stacked Nested call F)
    (hstack : ∀ stack, Nested stack → a ∈ stack.flatMap g → a ∈ stack.flatMap g')
    (ha : a ∈ gather g F) : a ∈ gather g' F := by
  obtain ⟨rest, others, hrest, hothers, rfl⟩ := h
  obtain ⟨x, hx, hax⟩ := mem_gather.mp ha
  have hmem : ∀ stack : List Frame, Nested stack → x ∈ stack → (∀ y ∈ stack, y ∈ (↑rest +
      ((List.flatten others : List Frame) : Multiset Frame))) →
      a ∈ gather g' (↑rest + ((List.flatten others : List Frame) : Multiset Frame)) := by
    intro stack hnested hxs hsub
    obtain ⟨y, hy, hay⟩ := List.mem_flatMap.mp
      (hstack stack hnested (List.mem_flatMap.mpr ⟨x, hxs, hax⟩))
    exact mem_gather.mpr ⟨y, hsub y hy, hay⟩
  rcases Multiset.mem_add.mp hx with hx | hx
  · exact hmem rest hrest.2.2 hx fun y hy => Multiset.mem_add.mpr (.inl hy)
  · obtain ⟨stack, hstack', hxs⟩ := List.mem_flatten.mp hx
    exact hmem stack (hothers stack hstack') hxs fun y hy =>
      Multiset.mem_add.mpr (.inr (List.mem_flatten.mpr ⟨stack, hstack', hy⟩))

end Rkvdec.Dispatch
