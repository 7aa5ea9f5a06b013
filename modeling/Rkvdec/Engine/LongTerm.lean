import Rkvdec.Engine.PicNum

/-! The long-term references of the H.264 DPB over every sequence of calls: one slot for an index,
and none above `max_long_term_frame_idx`. -/
namespace Rkvdec.Engine.H264

open Lib (Along)

/-- The slot is a long-term reference with this index. -/
def HasIndex (d : DpbCtx) (i : SlotIdx) (idx : BitVec 16) : Prop :=
  (d.slots i).ref.isLongTerm = true ∧ (d.slots i).ref.longTermFrameIdx = idx

instance (d : DpbCtx) (i : SlotIdx) (idx : BitVec 16) : Decidable (HasIndex d i idx) :=
  inferInstanceAs (Decidable (_ ∧ _))

structure LongTermOk (d : DpbCtx) : Prop where
  unique : ∀ i j idx, HasIndex d i idx → HasIndex d j idx → i = j
  bounded : ∀ i idx, HasIndex d i idx → (idx.toNat : Int) ≤ d.codec.maxLongTermFrameIdx

/-- What an operation may be for the invariant to stay: an index that is used fits 16 bits, and once
the current picture is a long-term reference its index is not given away, put out of range or left
behind by operation 5. -/
def OpAllowed (cur : SlotIdx) (d : DpbCtx) (m : Mmco) : Prop :=
  (m.op = 3 ∨ m.op = 6 → longTermIdxRejected d m.longTermFrameIdx = false →
    m.longTermFrameIdx.toNat < 2 ^ 16) ∧
  (m.op = 3 → longTermIdxRejected d m.longTermFrameIdx = false →
    ¬ HasIndex d cur (m.longTermFrameIdx.setWidth 16)) ∧
  (m.op = 4 → (d.slots cur).ref.isLongTerm = true →
    ((d.slots cur).ref.longTermFrameIdx.toNat : Int) ≤ m.maxLongTermFrameIdxPlus1.toInt - 1) ∧
  (m.op = 5 → (d.slots cur).ref.isLongTerm = false)

instance (cur : SlotIdx) (d : DpbCtx) (m : Mmco) : Decidable (OpAllowed cur d m) :=
  inferInstanceAs (Decidable (_ ∧ _ ∧ _ ∧ _))

/-- The operations that a completion applies are all allowed, each in the state it meets. -/
def Allowed : Option DpbCtx → Call → Prop
  | some d, .decodeComplete =>
    ∀ cur, d.currentIdx = some cur → d.codec.pendingAdaptive = true →
      Along (applyMmco d.codec.pendingCurrPicNum cur) (OpAllowed cur) (finished d)
        d.codec.pendingMmco
  | _, _ => True

instance : ∀ (d : Option DpbCtx) (c : Call), Decidable (Allowed d c)
  | some d, .decodeComplete => inferInstanceAs (Decidable (∀ cur, d.currentIdx = some cur →
      d.codec.pendingAdaptive = true →
      Along (applyMmco d.codec.pendingCurrPicNum cur) (OpAllowed cur) (finished d)
        d.codec.pendingMmco))
  | none, _ | some _, .select _ | some _, .decodeFailed | some _, .flush | some _, .holds _ =>
    .isTrue trivial

section Operations

variable {d d' : DpbCtx} {cur i j : SlotIdx} {m : Mmco} {pn : BitVec 16} {idx : BitVec 32}

/-- With the maximum at -1 there is no long-term reference. -/
theorem LongTermOk.empty (h : LongTermOk d) (hmax : d.codec.maxLongTermFrameIdx = -1) :
    (d.slots i).ref.isLongTerm = false := by
  by_contra hlong
  have := h.bounded i _ ⟨by simpa using hlong, rfl⟩
  omega

/-- The long-term references of `d'` are some of those of `d`. -/
structure Fewer (d d' : DpbCtx) : Prop where
  long : ∀ i, (d'.slots i).ref.isLongTerm = true → (d'.slots i).ref = (d.slots i).ref
  maxIdx : d'.codec.maxLongTermFrameIdx = d.codec.maxLongTermFrameIdx

theorem Fewer.refl : Fewer d d := ⟨fun _ _ => rfl, rfl⟩

theorem Fewer.trans {d'' : DpbCtx} (h : Fewer d d') (h' : Fewer d' d'') : Fewer d d'' := by
  refine ⟨?_, h'.maxIdx.trans h.maxIdx⟩
  intro i hlong
  have hsame := h'.long i hlong
  rw [hsame] at hlong ⊢
  exact h.long i hlong

theorem Fewer.hasIndex (h : Fewer d d') {idx : BitVec 16} (hi : HasIndex d' i idx) :
    HasIndex d i idx := by
  have hsame := h.long i hi.1
  unfold HasIndex at hi
  rw [hsame] at hi
  exact hi

theorem LongTermOk.fewer (h : LongTermOk d) (hfewer : Fewer d d') : LongTermOk d' := by
  refine ⟨?_, ?_⟩
  · intro i j idx hi hj
    exact h.unique i j idx (hfewer.hasIndex hi) (hfewer.hasIndex hj)
  · intro i idx hi
    rw [hfewer.maxIdx]
    exact h.bounded i idx (hfewer.hasIndex hi)

theorem fewer_slotClear : Fewer d (slotClear d i) := by
  refine ⟨?_, rfl⟩
  intro j hlong
  rw [slots_slotClear] at hlong ⊢
  split at hlong
  · simp [RefState.isLongTerm, RefState.cleared] at hlong
  · rename_i hj
    rw [if_neg hj]

theorem fewer_clearUnlessCur (o : Option SlotIdx) : Fewer d (clearUnlessCur cur d o) := by
  refine ⟨?_, by rw [clearUnlessCur_codec]⟩
  intro j hlong
  rw [clearUnlessCur_ref] at hlong ⊢
  split at hlong
  · simp [RefState.isLongTerm, RefState.cleared] at hlong
  · rename_i hj
    rw [if_neg hj]

theorem Fewer.foldl {α : Type} {f : DpbCtx → α → DpbCtx} (l : List α)
    (hf : ∀ d a, Fewer d (f d a)) :
    Fewer d (l.foldl f d) :=
  List.foldlRecOn l f .refl fun d' h a _ => h.trans (hf d' a)

theorem fewer_evict : Fewer d (evictOldestShortTerm d) := by
  unfold evictOldestShortTerm
  split
  · exact .refl
  · exact ⟨fewer_slotClear.long, rfl⟩

theorem fewer_slideWindow {n fuel : Nat} : Fewer d (slideWindow n fuel d) := by
  induction fuel generalizing d with
  | zero => exact .refl
  | succ fuel ih =>
    unfold slideWindow
    split
    · exact .refl
    · exact fewer_evict.trans ih

/-- A slot takes an index that nobody else has. -/
theorem LongTermOk.setLongTerm (h : LongTermOk d) (hfits : idx.toNat < 2 ^ 16)
    (hle : (idx.toNat : Int) ≤ d.codec.maxLongTermFrameIdx)
    (hfree : ∀ j, HasIndex d j (idx.setWidth 16) → j = i) : LongTermOk (setLongTerm d i idx) := by
  have hidx : (idx.setWidth 16).toNat = idx.toNat := by
    rw [BitVec.toNat_setWidth, Nat.mod_eq_of_lt hfits]
  have hcases : ∀ j k, HasIndex (H264.setLongTerm d i idx) j k →
      (j = i ∧ k = idx.setWidth 16) ∨ (j ≠ i ∧ HasIndex d j k) := by
    rintro j k ⟨hlong, hk⟩
    by_cases hj : j = i
    · subst hj
      simp only [H264.setLongTerm, Dpb.modifyRef, Function.update_self] at hk
      exact .inl ⟨rfl, hk.symm⟩
    · simp only [H264.setLongTerm, Dpb.modifyRef, Function.update_of_ne hj] at hlong hk
      exact .inr ⟨hj, hlong, hk⟩
  refine ⟨?_, ?_⟩
  · intro j k n hj hk
    obtain ⟨rfl, rfl⟩ | ⟨-, hwasj⟩ := hcases j n hj
    · obtain ⟨rfl, -⟩ | ⟨-, hwask⟩ := hcases k _ hk
      · rfl
      · exact (hfree k hwask).symm
    · obtain ⟨rfl, rfl⟩ | ⟨-, hwask⟩ := hcases k n hk
      · exact hfree j hwasj
      · exact h.unique j k n hwasj hwask
  · intro j k hj
    obtain ⟨-, rfl⟩ | ⟨-, hj⟩ := hcases j k hj
    · rw [hidx]
      exact hle
    · exact h.bounded j k hj

/-- Whoever had the index is dropped, but for the current picture. -/
theorem LongTermOk.dropped (h : LongTermOk d) (hfits : idx.toNat < 2 ^ 16)
    (hj : HasIndex (clearUnlessCur cur d (findLongTerm d idx)) j (idx.setWidth 16)) :
    j = cur ∧ HasIndex d cur (idx.setWidth 16) := by
  have hwas := (fewer_clearUnlessCur _).hasIndex hj
  have hwide : (d.slots j).ref.longTermFrameIdx.setWidth 32 = idx := by
    rw [hwas.2]
    apply BitVec.eq_of_toNat_eq
    rw [BitVec.toNat_setWidth, BitVec.toNat_setWidth]
    omega
  obtain ⟨k, hk⟩ : ∃ k, findLongTerm d idx = some k := by
    apply Option.isSome_iff_exists.mp
    refine List.find?_isSome.mpr ⟨j, by simp [allSlots], ?_⟩
    simp [hwas.1, hwide]
  obtain ⟨hlong, hkidx⟩ := findLongTerm_some hk
  have hkj : k = j := by
    refine h.unique k j (idx.setWidth 16) ⟨hlong, ?_⟩ hwas
    apply BitVec.eq_of_toNat_eq
    have := congrArg BitVec.toNat hkidx
    rw [BitVec.toNat_setWidth] at this ⊢
    omega
  obtain ⟨hlong', -⟩ := hj
  rw [hk, clearUnlessCur_ref, hkj] at hlong'
  by_cases hcur : j = cur
  · exact ⟨hcur, hcur ▸ hwas⟩
  · rw [if_pos ⟨rfl, hcur⟩] at hlong'
    simp [RefState.isLongTerm, RefState.cleared] at hlong'

/-- The slots of a loop over them that clears those with `P`, but for the current picture. -/
theorem foldl_clear_ref (cur : SlotIdx) (P : RefState → Bool) (l : List SlotIdx) (d : DpbCtx)
    (j : SlotIdx) :
    ((l.foldl (fun d i => if P (d.slots i).ref then clearUnlessCur cur d (some i) else d) d).slots
      j).ref =
      if j ∈ l ∧ P (d.slots j).ref = true ∧ j ≠ cur then .cleared else (d.slots j).ref := by
  induction l generalizing d with
  | nil => simp
  | cons i l ih =>
    rw [List.foldl_cons, ih]
    have hturn : ((if P (d.slots i).ref then clearUnlessCur cur d (some i) else d).slots j).ref =
        if j = i ∧ P (d.slots j).ref = true ∧ j ≠ cur then .cleared else (d.slots j).ref := by
      by_cases hP : P (d.slots i).ref = true
      · rw [if_pos hP, clearUnlessCur_ref]
        by_cases hj : j = i
        · subst hj
          simp [hP]
        · simp [hj, Ne.symm hj]
      · rw [if_neg hP]
        by_cases hj : j = i
        · subst hj
          simp [hP]
        · simp [hj]
    rw [hturn]
    by_cases hj : j = i
    · subst hj
      by_cases hclear : P (d.slots j).ref = true ∧ j ≠ cur <;> simp [hclear]
    · simp [hj]

theorem foldl_clear_codec (cur : SlotIdx) (P : RefState → Bool) (l : List SlotIdx) (d : DpbCtx) :
    (l.foldl (fun d i => if P (d.slots i).ref then clearUnlessCur cur d (some i) else d) d).codec =
      d.codec := by
  induction l generalizing d with
  | nil => rfl
  | cons i l ih =>
    rw [List.foldl_cons, ih]
    split
    · exact clearUnlessCur_codec _
    · rfl

theorem longTermIdxRejected_eq_false (h : longTermIdxRejected d idx = false) :
    0 ≤ d.codec.maxLongTermFrameIdx ∧ idx.toInt ≤ d.codec.maxLongTermFrameIdx := by
  simpa [longTermIdxRejected] using h

theorem toInt_of_fits (hfits : idx.toNat < 2 ^ 16) : idx.toInt = idx.toNat := by
  rw [BitVec.toInt_eq_toNat_cond, if_pos (by omega)]

/-- An index that got past the range check is given to a slot. -/
theorem LongTermOk.assign (h : LongTermOk d) (hpass : longTermIdxRejected d idx = false)
    (hfits : idx.toNat < 2 ^ 16) (hfree : i = cur ∨ ¬ HasIndex d cur (idx.setWidth 16)) :
    LongTermOk (H264.setLongTerm (clearUnlessCur cur d (findLongTerm d idx)) i idx) := by
  have hfewer : Fewer d (clearUnlessCur cur d (findLongTerm d idx)) := fewer_clearUnlessCur _
  refine (h.fewer hfewer).setLongTerm hfits ?_ ?_
  · rw [hfewer.maxIdx, ← toInt_of_fits hfits]
    exact (longTermIdxRejected_eq_false hpass).2
  · intro j hj
    obtain ⟨rfl, hcur⟩ := h.dropped hfits hj
    obtain rfl | hnot := hfree
    · rfl
    · exact absurd hcur hnot

/-- Operation 4: what exceeds the new maximum goes. -/
theorem LongTermOk.lower (h : LongTermOk d) (newMax : Int)
    (hcur : ∀ idx, HasIndex d cur idx → (idx.toNat : Int) ≤ newMax) :
    LongTermOk (allSlots.foldl (fun d i =>
      if (d.slots i).ref.isLongTerm &&
          (newMax < 0 || newMax < ((d.slots i).ref.longTermFrameIdx.toNat : Int)) then
        clearUnlessCur cur d (some i)
      else d) { d with codec := { d.codec with maxLongTermFrameIdx := newMax } }) := by
  let P : RefState → Bool := fun s =>
    s.isLongTerm && (decide (newMax < 0) || decide (newMax < (s.longTermFrameIdx.toNat : Int)))
  have hwas : ∀ i idx, HasIndex (allSlots.foldl (fun d i => if P (d.slots i).ref then
      clearUnlessCur cur d (some i) else d) { d with
        codec := { d.codec with maxLongTermFrameIdx := newMax } })
      i idx → HasIndex d i idx ∧ (i = cur ∨ (idx.toNat : Int) ≤ newMax) := by
    intro i idx hi
    unfold HasIndex at hi
    rw [foldl_clear_ref] at hi
    split at hi
    · simp [RefState.isLongTerm, RefState.cleared] at hi
    · rename_i hkept
      refine ⟨hi, ?_⟩
      by_contra hno
      obtain ⟨hne, hover⟩ := not_or.mp hno
      refine hkept ⟨by simp [allSlots], ?_, hne⟩
      obtain ⟨hlong, hidx⟩ := hi
      simp only [P, hlong, Bool.true_and, Bool.or_eq_true, decide_eq_true_eq]
      right
      rw [hidx]
      omega
  refine ⟨?_, ?_⟩
  · intro i j idx hi hj
    exact h.unique i j idx (hwas i idx hi).1 (hwas j idx hj).1
  · intro i idx hi
    have hmax := congrArg Marking.maxLongTermFrameIdx (foldl_clear_codec cur P allSlots
      { d with codec := { d.codec with maxLongTermFrameIdx := newMax } })
    obtain ⟨hidx, rfl | hle⟩ := hwas i idx hi
    · exact (hcur idx hidx).trans hmax.ge
    · exact hle.trans hmax.ge

/-- Operation 5: only the current picture is left. -/
theorem LongTermOk.clearAll (hcur : (d.slots cur).ref.isLongTerm = false) (newMax : Int) :
    LongTermOk (({ allSlots.foldl (fun d i => clearUnlessCur cur d (some i)) d with
      codec := { (allSlots.foldl (fun d i => clearUnlessCur cur d (some i)) d).codec with
        maxLongTermFrameIdx := newMax } } : DpbCtx).modifyRef cur fun s => { s with
          frameNum := 0 }) := by
  have hnone :
      ∀ i idx, ¬ HasIndex (({ allSlots.foldl (fun d i => clearUnlessCur cur d (some i)) d with
      codec := { (allSlots.foldl (fun d i => clearUnlessCur cur d (some i)) d).codec with
        maxLongTermFrameIdx := newMax } } : DpbCtx).modifyRef cur fun s => { s with
          frameNum := 0 }) i idx := by
    rintro i idx ⟨hlong, -⟩
    have hall := foldl_clear_ref cur (fun _ => true) allSlots d i
    simp only [if_true] at hall
    by_cases hi : i = cur
    · subst hi
      simp only [Dpb.modifyRef, Function.update_self, hall] at hlong
      simp_all [RefState.isLongTerm]
    · simp only [Dpb.modifyRef, Function.update_of_ne hi, hall] at hlong
      simp [allSlots, hi, RefState.isLongTerm, RefState.cleared] at hlong
  exact ⟨fun i j idx hi => absurd hi (hnone i idx), fun i idx hi => absurd hi (hnone i idx)⟩

/-- An allowed operation keeps the invariant. -/
theorem LongTermOk.applyMmco (h : LongTermOk d) (hok : OpAllowed cur d m) :
    LongTermOk (applyMmco pn cur d m) := by
  obtain ⟨hfits, hfree, hlower, hall⟩ := hok
  unfold H264.applyMmco
  split
  · exact h.fewer (fewer_clearUnlessCur _)
  · exact h.fewer (fewer_clearUnlessCur _)
  · rename_i hop
    split
    · exact h
    · rename_i hpass
      have hpass : longTermIdxRejected d m.longTermFrameIdx = false := by simpa using hpass
      dsimp only
      split
      · exact h.fewer (fewer_clearUnlessCur _)
      · exact h.assign hpass (hfits (.inl hop) hpass) (.inr (hfree hop hpass))
  · rename_i hop
    refine h.lower _ ?_
    rintro idx ⟨hlong, rfl⟩
    exact hlower hop hlong
  · rename_i hop
    exact .clearAll (hall hop) (-1)
  · rename_i hop
    split
    · exact h
    · rename_i hpass
      have hpass : longTermIdxRejected d m.longTermFrameIdx = false := by simpa using hpass
      exact h.assign hpass (hfits (.inr hop) hpass) (.inl rfl)
  · exact h

end Operations

section Runs

variable {d d' : DpbCtx} {c : Call} {parsed : Parsed} {slot : SlotIdx}

theorem LongTermOk.congr (h : LongTermOk d) (hrefs : ∀ i, (d'.slots i).ref = (d.slots i).ref)
    (hmax : d'.codec.maxLongTermFrameIdx = d.codec.maxLongTermFrameIdx) : LongTermOk d' :=
  h.fewer ⟨fun i _ => hrefs i, hmax⟩

/-- An IDR picture starts without references. -/
theorem clearForIdr_idr (hidr : parsed.isIdr = true) :
    (∀ i, ((clearForIdr d parsed).slots i).ref = .cleared) ∧
      (clearForIdr d parsed).codec.maxLongTermFrameIdx =
        if parsed.idrLongTermReferenceFlag then 0 else -1 := by
  unfold clearForIdr
  rw [if_pos hidr]
  refine ⟨?_, rfl⟩
  intro i
  have hclear : ((allSlots.foldl slotClear d).slots i).ref = .cleared := by
    rw [ref_foldl_slotClear, if_pos (by simp [allSlots])]
  exact hclear

theorem LongTermOk.clearForIdr (h : LongTermOk d) : LongTermOk (clearForIdr d parsed) := by
  cases hidr : parsed.isIdr with
  | false => rwa [clearForIdr_nonIdr hidr]
  | true =>
    have hclear := (clearForIdr_idr (d := d) hidr).1
    have hnone : ∀ i idx, ¬ HasIndex (H264.clearForIdr d parsed) i idx := by
      rintro i idx ⟨hlong, -⟩
      rw [hclear] at hlong
      simp [RefState.isLongTerm, RefState.cleared] at hlong
    exact ⟨fun i j idx hi => absurd hi (hnone i idx), fun i idx hi => absurd hi (hnone i idx)⟩

theorem fewer_pickSlot : Fewer d (pickSlot d).2 := by
  unfold pickSlot
  split
  · exact .refl
  · exact fewer_evict

/-- The picture is not a long-term reference, or it is the only one. -/
theorem LongTermOk.put (h : LongTermOk d) (hidr : parsed.isIdr = true →
      (∀ i, (d.slots i).ref.isLongTerm = false) ∧
      d.codec.maxLongTermFrameIdx = if parsed.idrLongTermReferenceFlag then 0 else -1) :
    LongTermOk (put d slot parsed) := by
  by_cases hlong : parsed.refState.isLongTerm = true
  · obtain ⟨hflag, hlt⟩ : parsed.isIdr = true ∧ parsed.idrLongTermReferenceFlag = true := by
      simp only [RefState.isLongTerm, Parsed.refState, Bool.and_eq_true] at hlong
      exact hlong.2
    obtain ⟨hnone, hmax⟩ := hidr hflag
    have honly : ∀ i idx, HasIndex (H264.put d slot parsed) i idx → i = slot ∧ idx = 0 := by
      rintro i idx ⟨hi, hidx⟩
      rw [put_ref] at hi hidx
      split at hi
      · rename_i hslot
        rw [if_pos hslot] at hidx
        exact ⟨hslot, hidx.symm⟩
      · rw [hnone] at hi
        cases hi
    refine ⟨?_, ?_⟩
    · intro i j idx hi hj
      exact (honly i idx hi).1.trans (honly j idx hj).1.symm
    · intro i idx hi
      obtain ⟨-, rfl⟩ := honly i idx hi
      have hzero : (H264.put d slot parsed).codec.maxLongTermFrameIdx = 0 := by
        rw [hlt] at hmax
        exact hmax
      rw [hzero]
      rfl
  · refine h.fewer ⟨?_, rfl⟩
    intro i hi
    rw [put_ref] at hi ⊢
    split at hi
    · exact absurd hi hlong
    · rename_i hne
      rw [if_neg hne]

theorem LongTermOk.mmcoOps {cur : SlotIdx} {pn : BitVec 16} {ms : List Mmco} (h : LongTermOk d)
    (hok : Along (H264.applyMmco pn cur) (OpAllowed cur) d ms) :
    LongTermOk (ms.foldl (H264.applyMmco pn cur) d) :=
  hok.foldl_inv (fun _ _ hd hm => hd.applyMmco hm) h

theorem LongTermOk.onDecodeComplete (h : LongTermOk d) (hok : Allowed (some d) .decodeComplete) :
    LongTermOk (onDecodeComplete d) := by
  unfold H264.onDecodeComplete
  cases hcur : d.currentIdx with
  | none => exact h.congr (fun _ => rfl) rfl
  | some cur =>
    have hstart : LongTermOk (finished d) := h.congr (fun _ => rfl) rfl
    dsimp only
    split
    · exact (hstart.fewer fewer_slotClear).congr (fun _ => rfl) rfl
    · split
      · rename_i hadaptive
        exact (hstart.mmcoOps (hok cur hcur hadaptive)).congr (fun _ => rfl) rfl
      · exact (hstart.fewer fewer_slideWindow).congr (fun _ => rfl) rfl

theorem LongTermOk.onDecodeFailed (h : LongTermOk d) : LongTermOk (onDecodeFailed d) := by
  unfold H264.onDecodeFailed
  cases hcur : d.currentIdx with
  | none => exact h.congr (fun _ => rfl) rfl
  | some cur =>
    have hstart : LongTermOk (finished d) := h.congr (fun _ => rfl) rfl
    exact (hstart.fewer fewer_slotClear).congr (fun _ => rfl) rfl

/-- A flush leaves no reference. -/
theorem LongTermOk.flush (h : LongTermOk d) (hflush : flush d = some d') : LongTermOk d' := by
  unfold H264.flush at hflush
  split at hflush
  · cases hflush
  · obtain rfl := Option.some.inj hflush
    have hfewer : Fewer d (allSlots.foldl (fun d i =>
        if (d.slots i).heldByConsumer = false then slotClear d i
        else d.modifyRef i fun s => { s with
          inUse := false, isRef := false, longTerm := false }) d) := by
      refine .foldl _ fun d i => ?_
      split
      · exact fewer_slotClear
      · refine ⟨?_, rfl⟩
        intro j hlong
        by_cases hj : j = i
        · subst hj
          simp [Dpb.modifyRef, RefState.isLongTerm] at hlong
        · simp [Dpb.modifyRef, Function.update_of_ne hj]
    exact (h.fewer hfewer).congr (fun _ => rfl) rfl

theorem LongTermOk.call (h : LongTermOk d) (hok : Allowed (some d) c)
    (hcall : call (some d) c = some d') :
    LongTermOk d' := by
  cases c with
  | select parsed =>
    obtain ⟨⟨status, o, d''⟩, hselect, rfl⟩ := Option.map_eq_some_iff.mp hcall
    have hpick : Fewer (H264.clearForIdr d parsed) (pickSlot (H264.clearForIdr d parsed)).2 :=
      fewer_pickSlot
    have hpicked := h.clearForIdr.fewer hpick
    obtain ⟨-, -, rfl⟩ | ⟨-, -, hfull⟩ | ⟨slot, c, -, -, hsome, -, -, rfl⟩ := select_next hselect
    · exact h
    · rw [hfull] at hpicked
      exact hpicked
    · rw [hsome] at hpick hpicked
      refine hpicked.put ?_
      intro hidr
      obtain ⟨hclear, hmax⟩ := clearForIdr_idr (d := d) hidr
      refine ⟨?_, hpick.maxIdx.trans hmax⟩
      intro i
      by_contra hlong
      have hlong : (c.slots i).ref.isLongTerm = true := by simpa using hlong
      rw [hpick.long i hlong, hclear] at hlong
      cases hlong
  | decodeComplete =>
    obtain rfl := Option.some.inj hcall
    exact h.onDecodeComplete hok
  | decodeFailed =>
    obtain rfl := Option.some.inj hcall
    exact h.onDecodeFailed
  | flush => exact h.flush hcall
  | holds pattern =>
    obtain rfl := Option.some.inj hcall
    exact h.congr (fun _ => rfl) rfl

end Runs

/-- In every run of calls whose operations are all allowed, one slot at most has an index, no index
is above the maximum, and a maximum of -1 leaves no long-term reference. -/
theorem long_term_references_unique {calls : List Call} {d : DpbCtx}
    (hallowed : Along call Allowed (some init) calls)
    (hrun : calls.foldl call (some init) = some d) :
    (∀ i j idx, HasIndex d i idx → HasIndex d j idx → i = j) ∧
    (∀ i idx, HasIndex d i idx → (idx.toNat : Int) ≤ d.codec.maxLongTermFrameIdx) ∧
    (d.codec.maxLongTermFrameIdx = -1 → ∀ i, (d.slots i).ref.isLongTerm = false) := by
  have hinit : LongTermOk init := by
    refine ⟨?_, ?_⟩
    · rintro i j idx ⟨hlong, -⟩
      cases hlong
    · rintro i idx ⟨hlong, -⟩
      cases hlong
  have hstep : ∀ (o : Option DpbCtx) (c : Call), (∀ d, o = some d → LongTermOk d) → Allowed o c →
      ∀ d', call o c = some d' → LongTermOk d' := by
    intro o c ho hok d' hcall
    cases o with
    | none => cases hcall
    | some d => exact (ho d rfl).call hok hcall
  have hok : LongTermOk d := by
    refine hallowed.foldl_inv hstep ?_ d hrun
    intro d hd
    obtain rfl := Option.some.inj hd
    exact hinit
  exact ⟨hok.unique, hok.bounded, fun hmax i => hok.empty hmax⟩

/-- An IDR picture and one behind it that applies the operations. -/
def markedRun (ms : List Mmco) : List Call :=
  [.select (windowPicture false 0 0), .decodeComplete,
    .select { windowPicture false 1 2 with adaptiveRefPicMarkingModeFlag := true, mmco := ms },
    .decodeComplete]

theorem long_term_references_unique_marked : ∃ d,
    (markedRun [⟨4, 0, 0, 0, 1⟩, ⟨3, 0, 0, 0, 0⟩]).foldl call (some init) = some d ∧
    (∀ i j idx, HasIndex d i idx → HasIndex d j idx → i = j) ∧
    (∀ i idx, HasIndex d i idx → (idx.toNat : Int) ≤ d.codec.maxLongTermFrameIdx) ∧
    (d.codec.maxLongTermFrameIdx = -1 → ∀ i, (d.slots i).ref.isLongTerm = false) := by
  have hrun : ((markedRun [⟨4, 0, 0, 0, 1⟩, ⟨3, 0, 0, 0, 0⟩]).foldl call (some init)).isSome =
      true := by
    decide +kernel
  refine ⟨_, (Option.some_get hrun).symm, ?_⟩
  exact long_term_references_unique (by decide +kernel) (Option.some_get hrun).symm

theorem marked_twice_runs :
    ((markedRun [⟨4, 0, 0, 0, 1⟩, ⟨6, 0, 0, 0, 0⟩, ⟨3, 0, 0, 0, 0⟩]).foldl call
      (some init)).isSome = true := by
  decide +kernel

/-- The current picture takes index 0 and keeps it when the IDR picture is given the same index. -/
theorem index_given_twice : ∃ d,
    (markedRun [⟨4, 0, 0, 0, 1⟩, ⟨6, 0, 0, 0, 0⟩, ⟨3, 0, 0, 0, 0⟩]).foldl call
    (some init) = some d ∧
      HasIndex d ⟨0, by decide⟩ 0 ∧ HasIndex d ⟨1, by decide⟩ 0 := by
  refine ⟨_, (Option.some_get marked_twice_runs).symm, ?_, ?_⟩
  · decide +kernel
  · decide +kernel

end Rkvdec.Engine.H264
