import Rkvdec.Engine.ReferenceBound

/-! What a picture that is not decoded leaves of the references of the H.264 DPB. -/
namespace Rkvdec.Engine.H264

/-- The slot as a reference, if it is one. Its buffers are those of the pool at its index. -/
def RefState.reference (s : RefState) : Option RefState :=
  if s.inUse && s.isRef then some s else none

/-- The references, `max_long_term_frame_idx` and the lifecycle flags are the same. -/
structure SameReferences (d d' : DpbCtx) : Prop where
  refs : ∀ i, (d'.slots i).ref.reference = (d.slots i).ref.reference
  maxIdx : d'.codec.maxLongTermFrameIdx = d.codec.maxLongTermFrameIdx
  flags : ∀ r i, d'.flag r i = d.flag r i

/-- A picture that `Dpb_Select` has no slot for, or whose decode fails, leaves the references as
they were. -/
def FailureKeeps (d : DpbCtx) (parsed : Parsed) : Prop :=
  ∀ status slot d', select d parsed = some (status, slot, d') →
    SameReferences d (if status = .ok then onDecodeFailed d' else d')

section Failure

variable {d d' : DpbCtx} {parsed : Parsed} {i slot : SlotIdx}

theorem SameReferences.refl : SameReferences d d := ⟨fun _ => rfl, rfl, fun _ _ => rfl⟩

/-- Giving the picture up clears its slot and nothing else. -/
theorem onDecodeFailed_put (d : DpbCtx) (slot : SlotIdx) (parsed : Parsed) :
    (∀ j, ((onDecodeFailed (put d slot parsed)).slots j).ref =
      if j = slot then .cleared else (d.slots j).ref) ∧
    (onDecodeFailed (put d slot parsed)).codec.maxLongTermFrameIdx = d.codec.maxLongTermFrameIdx ∧
    ∀ r j, (onDecodeFailed (put d slot parsed)).flag r j = d.flag r j := by
  refine ⟨?_, rfl, ?_⟩
  · intro j
    have hclear : ((onDecodeFailed (put d slot parsed)).slots j).ref =
        if j = slot then .cleared else ((put d slot parsed).slots j).ref := slots_slotClear
    rw [hclear, put_ref]
    split <;> rfl
  · intro r j
    have hflag : (onDecodeFailed (put d slot parsed)).flag r j = (put d slot parsed).flag r j :=
      Dpb.flag_of_holds (congrFun marks_onDecodeFailed.holds j)
    rw [hflag, put_flag]

theorem reference_of_free (hfree : (d.slots i).ref.inUse = false) :
    (d.slots i).ref.reference = none := by
  simp [RefState.reference, hfree]

theorem clearForIdr_nonIdr (hidr : parsed.isIdr = false) : clearForIdr d parsed = d := by
  simp [clearForIdr, hidr]

/-- A slot that was free before is lost with the picture, and no other. -/
theorem same_of_free (hfree : (d.slots slot).ref.inUse = false) :
    SameReferences d (onDecodeFailed (put d slot parsed)) := by
  obtain ⟨hrefs, hmax, hflags⟩ := onDecodeFailed_put d slot parsed
  refine ⟨?_, hmax, hflags⟩
  intro j
  rw [hrefs]
  split
  · rename_i hj
    rw [hj, reference_of_free hfree]
    rfl
  · rfl

/-- The reference that was evicted does not come back. -/
theorem not_same_of_evicted (hshort : (d.slots i).ref.isShortTerm = true)
    (hgone : (d'.slots i).ref = .cleared) : ¬ SameReferences d d' := by
  intro hsame
  have hi := hsame.refs i
  simp only [RefState.isShortTerm, Bool.and_eq_true] at hshort
  simp [hgone, RefState.reference, RefState.cleared, hshort.1.1, hshort.1.2] at hi

theorem pickSlot_free (hfree : (findFree d).isSome = true) : pickSlot d = (findFree d, d) := by
  obtain ⟨i, hi⟩ := Option.isSome_iff_exists.mp hfree
  unfold pickSlot
  rw [hi]

theorem pickSlot_full (hfull : findFree d = none) :
    pickSlot d = (findFree (evictOldestShortTerm d), evictOldestShortTerm d) := by
  unfold pickSlot
  rw [hfull]

/-- A slot is there without an eviction. -/
theorem keeps_of_free (hidr : parsed.isIdr = false) (hfree : (findFree d).isSome = true) :
    FailureKeeps d parsed := by
  intro status o d' hselect
  have hpick := pickSlot_free hfree
  obtain ⟨rfl, -, rfl⟩ | ⟨rfl, -, hfull⟩ | ⟨slot, c, rfl, -, hsome, huse, -, rfl⟩ :=
    select_next hselect
  · exact .refl
  · rw [clearForIdr_nonIdr hidr, hpick] at hfull
    obtain ⟨hnone, -⟩ := Prod.mk.inj hfull
    rw [hnone] at hfree
    cases hfree
  · rw [clearForIdr_nonIdr hidr, hpick] at hsome
    obtain ⟨-, rfl⟩ := Prod.mk.inj hsome
    exact same_of_free huse

/-- There is nothing to evict. -/
theorem keeps_of_none (hidr : parsed.isIdr = false) (hfull : findFree d = none)
    (hcount : shortTermCount d = 0) :
    FailureKeeps d parsed := by
  intro status o d' hselect
  have hevict : evictOldestShortTerm d = d := by
    obtain ⟨-, heq⟩ | ⟨i, hshort, -⟩ := evict_cases d
    · exact heq
    · have := shortTermCount_slotClear hshort
      omega
  have hpick := pickSlot_full hfull
  rw [hevict, hfull] at hpick
  obtain ⟨rfl, -, rfl⟩ | ⟨rfl, -, hnone⟩ | ⟨slot, c, rfl, -, hsome, -, -, rfl⟩ :=
    select_next hselect
  · exact .refl
  · rw [clearForIdr_nonIdr hidr, hpick] at hnone
    obtain ⟨-, rfl⟩ := Prod.mk.inj hnone
    exact .refl
  · rw [clearForIdr_nonIdr hidr, hpick] at hsome
    cases (Prod.mk.inj hsome).1

/-- The eviction that was to make room is not taken back. -/
theorem not_keeps_of_evicted (hslice : parsed.hasSlice = true) (hidr : parsed.isIdr = false)
    (hrefs : RefsInUse d) (hidle : d.currentIdx = none) (hfull : findFree d = none)
    (hcount : shortTermCount d ≠ 0) : ¬ FailureKeeps d parsed := by
  intro hkeeps
  obtain ⟨status, o, d', hselect, -⟩ := select_spec parsed hrefs hidle
  have hsame := hkeeps _ _ _ hselect
  have hpick := pickSlot_full hfull
  obtain ⟨hzero, -⟩ | ⟨i, hshort, hevict⟩ := evict_cases d
  · exact hcount hzero
  · have hgone : ((evictOldestShortTerm d).slots i).ref = .cleared := by
      rw [hevict, slots_slotClear, if_pos rfl]
    obtain ⟨rfl, hnone, -⟩ | ⟨rfl, -, hnone⟩ | ⟨slot, c, rfl, -, hsome, -, -, rfl⟩ :=
      select_next hselect
    · rw [hslice] at hnone
      cases hnone
    · rw [clearForIdr_nonIdr hidr, hpick] at hnone
      obtain ⟨-, rfl⟩ := Prod.mk.inj hnone
      exact not_same_of_evicted hshort hgone hsame
    · rw [clearForIdr_nonIdr hidr, hpick] at hsome
      obtain ⟨-, rfl⟩ := Prod.mk.inj hsome
      refine not_same_of_evicted hshort ?_ hsame
      have hrest := (onDecodeFailed_put (evictOldestShortTerm d) slot parsed).1 i
      rw [if_pos rfl, hrest, hgone]
      split <;> rfl

end Failure

/-- After every run of calls that leaves no picture in flight, a failure keeps the references if and
only if there is a slot for the picture as it is, or no short-term reference that could make
room. -/
theorem failed_decode_keeps_references_iff {calls : List Call} {d : DpbCtx} {parsed : Parsed}
    (hrun : calls.foldl call (some init) = some d) (hidle : d.currentIdx = none)
    (hidr : parsed.isIdr = false) : FailureKeeps d parsed ↔
      parsed.hasSlice = false ∨ (findFree d).isSome = true ∨ shortTermCount d = 0 := by
  constructor
  · intro hkeeps
    by_contra hcond
    simp only [not_or, Bool.not_eq_false, Bool.not_eq_true, Option.isSome_eq_false_iff,
      Option.isNone_iff_eq_none] at hcond
    obtain ⟨hslice, hfull, hcount⟩ := hcond
    exact not_keeps_of_evicted hslice hidr (refsInUse_run hrun) hidle hfull hcount hkeeps
  · rintro (hslice | hfree | hcount)
    · intro status o d' hselect
      unfold select at hselect
      rw [if_pos hslice] at hselect
      cases hselect
      exact .refl
    · exact keeps_of_free hidr hfree
    · cases hfree : findFree d with
      | none => exact keeps_of_none hidr hfree hcount
      | some i => exact keeps_of_free hidr (by rw [hfree]; rfl)

/-- An IDR picture, with all but `n` slots of the pool held by consumers. -/
def firstPicture (n : Nat) : List Call :=
  [.holds fun i => (false, false, n ≤ i.val),
    .select { windowPicture true 0 0 with idrLongTermReferenceFlag := false }, .decodeComplete]

theorem firstPicture_two_runs : ((firstPicture 2).foldl call (some init)).isSome = true := by
  decide +kernel

theorem firstPicture_one_runs : ((firstPicture 1).foldl call (some init)).isSome = true := by
  decide +kernel

/-- There is a slot besides that of the IDR picture. -/
theorem failed_decode_keeps_references_second :
    ∃ d, (firstPicture 2).foldl call (some init) = some d ∧
    FailureKeeps d (windowPicture false 1 2) := by
  refine ⟨_, (Option.some_get firstPicture_two_runs).symm, ?_⟩
  refine (failed_decode_keeps_references_iff (Option.some_get firstPicture_two_runs).symm
    (by decide +kernel) rfl).mpr (.inr (.inl ?_))
  decide +kernel

/-- With one slot for all pictures the IDR picture makes room for the next one, and is lost when
that fails. -/
theorem full_dpb_loses_reference : ∃ d, (firstPicture 1).foldl call (some init) = some d ∧
    d.currentIdx = none ∧ ¬ FailureKeeps d (windowPicture false 1 2) := by
  have hrun := (Option.some_get firstPicture_one_runs).symm
  refine ⟨_, hrun, by decide +kernel, ?_⟩
  refine not_keeps_of_evicted rfl rfl (refsInUse_run hrun) ?_ ?_ ?_
  · decide +kernel
  · decide +kernel
  · decide +kernel

end Rkvdec.Engine.H264
