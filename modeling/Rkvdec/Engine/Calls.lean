import Rkvdec.Engine.SlidingWindow
import Rkvdec.Engine.Exclusive

/-! The calls on the H.264 DPB in any order, and what `Dpb_Select` and an eviction do to the
slots. -/
namespace Rkvdec.Engine.H264

/-- A call on the DPB. `holds` is what the consumers do to the lifecycle flags between two of
them. -/
inductive Call where
  | select (parsed : Parsed)
  | decodeComplete
  | decodeFailed
  | flush
  | holds (h : HoldPattern)

/-- The DPB after a call; `none` once an assertion has failed. -/
def call : Option DpbCtx → Call → Option DpbCtx
  | none, _ => none
  | some d, .select parsed => (select d parsed).map fun r => r.2.2
  | some d, .decodeComplete => some (onDecodeComplete d)
  | some d, .decodeFailed => some (onDecodeFailed d)
  | some d, .flush => flush d
  | some d, .holds h => some (setHolds d h)

section Select

variable {d : DpbCtx} {i slot : SlotIdx} {parsed : Parsed}

theorem oldestShortTerm_some (h : oldestShortTerm d = some i) :
    (d.slots i).ref.isShortTerm = true := by
  have hscan : ∀ l o, (∀ i, o = some i → (d.slots i).ref.isShortTerm = true) →
      ∀ i, List.foldl (olderShortTerm d) o l = some i → (d.slots i).ref.isShortTerm = true := by
    intro l
    induction l with
    | nil => exact fun o ho => ho
    | cons j l ih =>
      intro o ho
      apply ih
      intro i hi
      obtain ⟨hsame, -⟩ | ⟨htake, hshort, -⟩ := olderShortTerm_cases (d := d) (o := o) (i := j)
      · exact ho i (hsame.symm.trans hi)
      · obtain rfl := Option.some.inj (htake.symm.trans hi)
        exact hshort
  exact hscan allSlots none nofun i h

/-- An eviction clears a short-term reference, or there is none. -/
theorem evict_cases (d : DpbCtx) :
    (shortTermCount d = 0 ∧ evictOldestShortTerm d = d) ∨
    ∃ i, (d.slots i).ref.isShortTerm = true ∧
      ∀ j, ((evictOldestShortTerm d).slots j).ref = ((slotClear d i).slots j).ref := by
  unfold evictOldestShortTerm
  cases hold : oldestShortTerm d with
  | none =>
    left
    refine ⟨?_, rfl⟩
    by_contra hcount
    obtain ⟨i, hi, -⟩ := oldestShortTerm_isSome (Nat.pos_of_ne_zero hcount)
    rw [hold] at hi
    cases hi
  | some i => exact .inr ⟨i, oldestShortTerm_some hold, fun _ => rfl⟩

/-- The DPB with the picture in its slot. -/
def put (d : DpbCtx) (slot : SlotIdx) (parsed : Parsed) : DpbCtx :=
  { d with
    slots := Function.update d.slots slot
      { d.slots slot with ref := parsed.refState, epoch := d.currentEpoch }
    currentIdx := some slot
    codec := { d.codec with
      pendingAdaptive := !parsed.isIdr && parsed.adaptiveRefPicMarkingModeFlag
      pendingMmco := if parsed.isIdr then [] else parsed.mmco
      pendingCurrPicNum := parsed.frameNum
      maxNumRefFrames := if parsed.maxNumRefFrames = 0 then 1 else parsed.maxNumRefFrames
      maxFrameNum := 2 ^ (parsed.log2MaxFrameNumMinus4 + 4) % 2 ^ 32
      currPicNum := parsed.frameNum } }

@[simp] theorem put_ref {j : SlotIdx} :
    ((put d slot parsed).slots j).ref = if j = slot then parsed.refState else (d.slots j).ref := by
  by_cases hj : j = slot
  · subst hj
    simp [put]
  · simp [put, hj]

@[simp] theorem put_flag {r : Hold} : (put d slot parsed).flag r i = d.flag r i := by
  by_cases hi : i = slot
  · subst hi
    cases r <;> simp [put, Dpb.flag, Slot.flag]
  · simp [put, Dpb.flag, hi]

/-- `Dpb_Select` of a picture with a slice. -/
theorem select_eq (hslice : parsed.hasSlice = true) : select d parsed =
    match pickSlot (clearForIdr d parsed) with
    | (none, d) => some (.full, none, d)
    | (some slot, d) =>
      if (d.slots slot).ref.inUse || (d.slots slot).held || (d.slots slot).ref.isRef ||
          d.currentIdx == some slot then none
      else some (.ok, some slot, put d slot parsed) := by
  unfold select
  rw [if_neg (by simp [hslice])]
  rfl

/-- Everything `Dpb_Select` can do. -/
theorem select_next {status : DpbStatus} {o : Option SlotIdx} {d' : DpbCtx}
    (h : select d parsed = some (status, o, d')) :
    (status = .invalidInput ∧ parsed.hasSlice = false ∧ d' = d) ∨
    (status = .full ∧ parsed.hasSlice = true ∧ pickSlot (clearForIdr d parsed) = (none, d')) ∨
    ∃ slot c, status = .ok ∧ parsed.hasSlice = true ∧
    pickSlot (clearForIdr d parsed) = (some slot, c) ∧
      (c.slots slot).ref.inUse = false ∧ (c.slots slot).held = false ∧ d' = put c slot parsed := by
  by_cases hslice : parsed.hasSlice = true
  · rw [select_eq hslice] at h
    split at h
    · rename_i c hpick
      cases h
      exact .inr (.inl ⟨rfl, hslice, hpick⟩)
    · rename_i slot c hpick
      split at h
      · cases h
      · rename_i hassert
        cases h
        simp only [Bool.or_eq_true, not_or, Bool.not_eq_true] at hassert
        exact .inr (.inr ⟨slot, c, rfl, hslice, hpick, hassert.1.1.1, hassert.1.1.2, rfl⟩)
  · have hnone : parsed.hasSlice = false := by simpa using hslice
    unfold select at h
    rw [if_pos hnone] at h
    cases h
    exact .inl ⟨rfl, hnone, rfl⟩

end Select

section Runs

variable {d d' : DpbCtx} {c : Call} {parsed : Parsed} {slot : SlotIdx}

theorem marks_clearForIdr : Marks d (clearForIdr d parsed) := marks_idrFlush

theorem RefsInUse.put (hrefs : RefsInUse d) : RefsInUse (put d slot parsed) := by
  intro j hj
  rw [put_ref] at hj ⊢
  split
  · rfl
  · rename_i hne
    rw [if_neg hne] at hj
    exact hrefs j hj

theorem RefsInUse.call (hrefs : RefsInUse d) (hcall : call (some d) c = some d') :
    RefsInUse d' := by
  cases c with
  | select parsed =>
    obtain ⟨⟨status, o, d''⟩, hselect, rfl⟩ := Option.map_eq_some_iff.mp hcall
    have hpick : RefsInUse (pickSlot (clearForIdr d parsed)).2 :=
      pickSlot_spec.1.refs (marks_clearForIdr.refs hrefs)
    obtain ⟨-, -, rfl⟩ | ⟨-, -, hfull⟩ | ⟨slot, c, -, -, hsome, -, -, rfl⟩ := select_next hselect
    · exact hrefs
    · rw [hfull] at hpick
      exact hpick
    · rw [hsome] at hpick
      exact hpick.put
  | decodeComplete =>
    obtain rfl := Option.some.inj hcall
    exact marks_onDecodeComplete.refs hrefs
  | decodeFailed =>
    obtain rfl := Option.some.inj hcall
    exact marks_onDecodeFailed.refs hrefs
  | flush =>
    have hflush : flush d = some d' := hcall
    have hpend : ∀ i, (d.slots i).pendingReorder = false ∧ (d.slots i).pendingReady = false := by
      intro i
      by_contra hheld
      have hany : allSlots.any (fun i => (d.slots i).pendingReorder || (d.slots i).pendingReady) =
          true :=
        List.any_eq_true.mpr ⟨i, by simp [allSlots], by simpa [imp_iff_not_or] using hheld⟩
      unfold flush at hflush
      rw [if_pos hany] at hflush
      cases hflush
    obtain ⟨d'', hsome, -, -, -, hkeeps⟩ := marks_flushSlots hpend
    obtain rfl := Option.some.inj (hsome.symm.trans hflush)
    exact hkeeps hrefs
  | holds h =>
    obtain rfl := Option.some.inj hcall
    exact hrefs

/-- What a call keeps holds after every run of calls. -/
theorem call_invariant {I : DpbCtx → Prop} (hinit : I init)
    (hstep : ∀ d c d', I d → call (some d) c = some d' → I d') {calls : List Call}
    (hrun : calls.foldl call (some init) = some d) : I d := by
  induction calls using List.reverseRecOn generalizing d with
  | nil =>
    obtain rfl := Option.some.inj hrun
    exact hinit
  | append_singleton calls c ih =>
    rw [List.foldl_append, List.foldl_cons, List.foldl_nil] at hrun
    cases hprev : calls.foldl call (some init) with
    | none =>
      rw [hprev] at hrun
      cases hrun
    | some d₀ =>
      rw [hprev] at hrun
      exact hstep d₀ c d (ih hprev) hrun

theorem refsInUse_run {calls : List Call} (hrun : calls.foldl call (some init) = some d) :
    RefsInUse d :=
  call_invariant (by simp [RefsInUse, init, RefState.cleared])
    (fun _ _ _ hrefs hcall => hrefs.call hcall) hrun

end Runs

end Rkvdec.Engine.H264
