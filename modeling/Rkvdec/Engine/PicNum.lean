import Rkvdec.Engine.FailedDecode

/-! Which picture the memory management control operations 1 and 3 of H.264 act on, across the wraps
of `frame_num`. -/
namespace Rkvdec.Engine.H264

/-- picNumX of 8.2.5.4.1 and 8.2.5.4.3, as the signed number it is. -/
def signedPicNumX (d : DpbCtx) (m : Mmco) : Int :=
  d.codec.currPicNum.toNat - (m.differenceOfPicNumsMinus1.toNat + 1)

/-- The short-term reference whose PicNum is picNumX. -/
def Names (d : DpbCtx) (m : Mmco) (i : SlotIdx) : Prop :=
  (d.slots i).ref.isShortTerm = true ∧ frameNumWrap d i = signedPicNumX d m

instance (d : DpbCtx) (m : Mmco) (i : SlotIdx) : Decidable (Names d m i) :=
  inferInstanceAs (Decidable (_ ∧ _))

/-- What the operation makes of the picture it names. -/
def Mmco.mark (m : Mmco) (s : RefState) : RefState :=
  if m.op = 1 then .cleared
  else { s with longTerm := true, longTermFrameIdx := m.longTermFrameIdx.setWidth 16 }

/-- Operation 3 takes its index from the picture that had it. -/
def Displaced (d : DpbCtx) (m : Mmco) (i : SlotIdx) : Prop :=
  m.op = 3 ∧ (d.slots i).ref.isLongTerm = true ∧
    (d.slots i).ref.longTermFrameIdx.setWidth 32 = m.longTermFrameIdx

/-- Operation 3 gets past its range check. -/
def Authorised (d : DpbCtx) (m : Mmco) : Prop := m.op = 3 →
    longTermIdxRejected d m.longTermFrameIdx = false

/-- The operation marks the picture it names, and no other, but for the one displaced. -/
def ActsOnNamed (d : DpbCtx) (cur : SlotIdx) (m : Mmco) : Prop :=
  let d' := applyMmco d.codec.currPicNum cur d m
  Authorised d m → ∀ i,
    (Names d m i → (d'.slots i).ref = m.mark (d.slots i).ref) ∧
    (¬ Names d m i → (d'.slots i).ref = (d.slots i).ref ∨ Displaced d m i ∧
    (d'.slots i).ref = .cleared)

/-- No short-term reference from before the last wrap of `frame_num` is named, and the unsigned
difference does not come out at another short-term slot. -/
def NamedWithoutWrap (d : DpbCtx) (cur : SlotIdx) (m : Mmco) : Prop :=
  Authorised d m → ∀ i, (d.slots i).ref.isShortTerm = true →
    ¬ (d.codec.currPicNum.toNat < (d.slots i).ref.frameNum.toNat ∧
    frameNumWrap d i = signedPicNumX d m) ∧
    ((i = cur → m.op = 3) → ((d.slots i).ref.frameNum.toNat : Int) ≠ signedPicNumX d m + 2 ^ 32)

/-- A DPB of frames: their numbers tell them apart, and the current picture has the current one. -/
structure Frames (d : DpbCtx) (cur : SlotIdx) : Prop where
  distinct : ∀ i j, (d.slots i).ref.isShortTerm = true → (d.slots j).ref.isShortTerm = true →
    frameNumWrap d i = frameNumWrap d j → i = j
  current : (d.slots cur).ref.frameNum = d.codec.currPicNum
  range : d.codec.maxFrameNum < 2 ^ 32

section Scan

variable {d d' : DpbCtx} {cur i j : SlotIdx} {m : Mmco}

/-- What `find_short_term_by_pic_num` compares. -/
theorem setWidth_eq_picNumX (d : DpbCtx) (m : Mmco) (fn : BitVec 16) :
    fn.setWidth 32 = picNumX d.codec.currPicNum m ↔
      (fn.toNat : Int) = signedPicNumX d m ∨ (fn.toNat : Int) = signedPicNumX d m + 2 ^ 32 := by
  have hfn := fn.isLt
  have hcur := d.codec.currPicNum.isLt
  have hdiff := m.differenceOfPicNumsMinus1.isLt
  have hone : (1 : BitVec 32).toNat = 1 := rfl
  unfold picNumX signedPicNumX
  rw [← BitVec.toNat_inj]
  simp only [BitVec.toNat_setWidth, BitVec.toNat_sub, BitVec.toNat_add, hone]
  omega

/-- The short-term slot has the number the scan looks for. -/
def Matches (d : DpbCtx) (m : Mmco) (i : SlotIdx) : Prop :=
  (d.slots i).ref.isShortTerm = true ∧
    (d.slots i).ref.frameNum.setWidth 32 = picNumX d.codec.currPicNum m

theorem frameNumWrap_congr (hcodec : d'.codec = d.codec)
    (hfn : (d.slots i).ref.frameNum = (d'.slots j).ref.frameNum) :
    frameNumWrap d i = frameNumWrap d' j := by
  unfold frameNumWrap
  rw [hcodec, hfn]

/-- The scan finds the one slot that has the number. -/
theorem findShortTermByPicNum_eq (hframes : Frames d cur) :
    findShortTermByPicNum d (picNumX d.codec.currPicNum m) = some i ↔ Matches d m i := by
  constructor
  · intro hfind
    have := List.find?_some hfind
    simpa [Matches] using this
  · intro hmatch
    cases hfind : findShortTermByPicNum d (picNumX d.codec.currPicNum m) with
    | none =>
      have := List.find?_eq_none.mp hfind i (by simp [allSlots])
      simp [hmatch.1, hmatch.2] at this
    | some j =>
      have hj : Matches d m j := by
        have := List.find?_some hfind
        simpa [Matches] using this
      have hfn : (d.slots j).ref.frameNum = (d.slots i).ref.frameNum := by
        have heq := congrArg BitVec.toNat (hj.2.trans hmatch.2.symm)
        have hi := (d.slots i).ref.frameNum.isLt
        have hj := (d.slots j).ref.frameNum.isLt
        rw [BitVec.toNat_setWidth, BitVec.toNat_setWidth] at heq
        apply BitVec.eq_of_toNat_eq
        omega
      rw [hframes.distinct j i hj.1 hmatch.1 (frameNumWrap_congr rfl hfn)]

/-- The operation may touch the slot it finds; operation 1 leaves the current picture. -/
def Touches (d : DpbCtx) (cur : SlotIdx) (m : Mmco) (i : SlotIdx) : Prop := Matches d m i ∧
    (i = cur → m.op = 3)

theorem frameNumWrap_cases (hrange : d.codec.maxFrameNum < 2 ^ 32) :
    ((d.slots i).ref.frameNum.toNat ≤ d.codec.currPicNum.toNat ∧
      frameNumWrap d i = (d.slots i).ref.frameNum.toNat) ∨
    (d.codec.currPicNum.toNat < (d.slots i).ref.frameNum.toNat ∧ ∃ maxFn : Nat, 0 < maxFn ∧
    maxFn < 2 ^ 32 ∧
      frameNumWrap d i = (d.slots i).ref.frameNum.toNat - maxFn) := by
  unfold frameNumWrap
  by_cases hafter : d.codec.currPicNum.toNat < (d.slots i).ref.frameNum.toNat
  · right
    refine ⟨hafter, if d.codec.maxFrameNum ≠ 0 then d.codec.maxFrameNum else 16, ?_, ?_, ?_⟩
    · split <;> omega
    · split <;> omega
    · simp only [Nat.cast_lt, hafter, if_true]
      split <;> rfl
  · left
    refine ⟨by omega, ?_⟩
    simp only [Nat.cast_lt, hafter, if_false]

/-- The picture that is named is the one that is touched, exactly where no wrap lies between. -/
theorem names_iff_touches (hframes : Frames d cur) (hshort : (d.slots i).ref.isShortTerm = true) :
    (Names d m i ↔ Touches d cur m i) ↔
      ¬ (d.codec.currPicNum.toNat < (d.slots i).ref.frameNum.toNat ∧
      frameNumWrap d i = signedPicNumX d m) ∧
      ((i = cur → m.op = 3) →
      ((d.slots i).ref.frameNum.toNat : Int) ≠ signedPicNumX d m + 2 ^ 32) := by
  have hless : signedPicNumX d m < d.codec.currPicNum.toNat := by
    unfold signedPicNumX
    omega
  unfold Names Touches Matches
  rw [setWidth_eq_picNumX]
  simp only [hshort, true_and]
  have hcur : i = cur → (d.slots i).ref.frameNum.toNat = d.codec.currPicNum.toNat := by
    rintro rfl
    rw [hframes.current]
  obtain ⟨hbefore, hwrap⟩ | ⟨hafter, maxFn, hpos, hlt, hwrap⟩ :=
    frameNumWrap_cases (d := d) (i := i) hframes.range
  · grind
  · grind

end Scan

section Effect

variable {d : DpbCtx} {cur i : SlotIdx} {m : Mmco}

theorem clearUnlessCur_ref (o : Option SlotIdx) : ((clearUnlessCur cur d o).slots i).ref =
    if o = some i ∧ i ≠ cur then .cleared else (d.slots i).ref := by
  cases o with
  | none => simp [clearUnlessCur]
  | some k =>
    by_cases hk : k = cur
    · subst hk
      by_cases hi : i = k
      · simp [clearUnlessCur, hi]
      · simp [clearUnlessCur, Ne.symm hi]
    · simp only [clearUnlessCur, hk, if_false, slots_slotClear]
      by_cases hi : i = k
      · subst hi
        simp [hk]
      · simp [hi, Ne.symm hi]

theorem clearUnlessCur_codec (o : Option SlotIdx) : (clearUnlessCur cur d o).codec = d.codec := by
  cases o with
  | none => rfl
  | some k =>
    by_cases hk : k = cur
    · simp [clearUnlessCur, hk]
    · simp [clearUnlessCur, hk, slotClear, Dpb.modifyRef]

theorem findLongTerm_some {idx : BitVec 32} (h : findLongTerm d idx = some i) :
    (d.slots i).ref.isLongTerm = true ∧ (d.slots i).ref.longTermFrameIdx.setWidth 32 = idx := by
  have := List.find?_some h
  simpa using this

/-- Dropping a long-term reference leaves the short-term ones. -/
theorem findShortTerm_clearLongTerm {idx picNumX : BitVec 32} :
    findShortTermByPicNum (clearUnlessCur cur d (findLongTerm d idx)) picNumX =
      findShortTermByPicNum d picNumX := by
  have hsame : ∀ i, ((((clearUnlessCur cur d (findLongTerm d idx)).slots i).ref.isShortTerm &&
      ((clearUnlessCur cur d (findLongTerm d idx)).slots i).ref.frameNum.setWidth 32 == picNumX)) =
      ((d.slots i).ref.isShortTerm && (d.slots i).ref.frameNum.setWidth 32 == picNumX) := by
    intro i
    rw [clearUnlessCur_ref]
    split
    · rename_i hcleared
      have hlong := (findLongTerm_some hcleared.1).1
      simp_all [RefState.isLongTerm, RefState.isShortTerm, RefState.cleared]
    · rfl
  unfold findShortTermByPicNum
  simp only [hsame]

theorem mark_ne (hshort : (d.slots i).ref.isShortTerm = true) :
    m.mark (d.slots i).ref ≠ (d.slots i).ref := by
  intro heq
  have hkeep := congrArg RefState.isShortTerm heq
  rw [hshort] at hkeep
  unfold Mmco.mark at hkeep
  split at hkeep <;> simp [RefState.isShortTerm, RefState.cleared] at hkeep

/-- The operation marks the slot it touches, and no other, but for the one displaced. -/
theorem applyMmco_touches (hframes : Frames d cur) (hop : m.op = 1 ∨ m.op = 3)
    (hauth : Authorised d m) :
    (Touches d cur m i →
      ((applyMmco d.codec.currPicNum cur d m).slots i).ref = m.mark (d.slots i).ref) ∧
    (¬ Touches d cur m i →
      ((applyMmco d.codec.currPicNum cur d m).slots i).ref = (d.slots i).ref ∨
        Displaced d m i ∧ ((applyMmco d.codec.currPicNum cur d m).slots i).ref = .cleared) := by
  have hfind := findShortTermByPicNum_eq (m := m) (i := i) hframes
  obtain hop | hop := hop
  · have happly : applyMmco d.codec.currPicNum cur d m =
        clearUnlessCur cur d (findShortTermByPicNum d (picNumX d.codec.currPicNum m)) := by
      simp [applyMmco, hop]
    have htouch : Touches d cur m i ↔
        findShortTermByPicNum d (picNumX d.codec.currPicNum m) = some i ∧ i ≠ cur := by
      rw [hfind]
      simp [Touches, hop]
    rw [happly, clearUnlessCur_ref, htouch]
    refine ⟨fun hyes => ?_, fun hno => .inl (if_neg hno)⟩
    rw [if_pos hyes, Mmco.mark, if_pos hop]
  · have hpass : longTermIdxRejected d m.longTermFrameIdx = false := hauth hop
    have hone : m.op ≠ 1 := by omega
    have htouch : Touches d cur m i ↔
        findShortTermByPicNum d (picNumX d.codec.currPicNum m) = some i := by
      rw [hfind]
      simp [Touches, hop]
    have hkept : (d.slots i).ref.isShortTerm = true →
        ((clearUnlessCur cur d (findLongTerm d m.longTermFrameIdx)).slots i).ref =
        (d.slots i).ref := by
      intro hshort
      rw [clearUnlessCur_ref, if_neg]
      rintro ⟨hcleared, -⟩
      have hlong := (findLongTerm_some hcleared).1
      simp_all [RefState.isLongTerm, RefState.isShortTerm]
    have hdrop : ((clearUnlessCur cur d (findLongTerm d m.longTermFrameIdx)).slots i).ref =
        (d.slots i).ref ∨
        Displaced d m i ∧
          ((clearUnlessCur cur d (findLongTerm d m.longTermFrameIdx)).slots i).ref = .cleared := by
      rw [clearUnlessCur_ref]
      split
      · rename_i hcleared
        exact .inr ⟨⟨hop, findLongTerm_some hcleared.1⟩, rfl⟩
      · exact .inl rfl
    rw [htouch]
    cases hnum : findShortTermByPicNum d (picNumX d.codec.currPicNum m) with
    | none =>
      have happly : applyMmco d.codec.currPicNum cur d m =
          clearUnlessCur cur d (findLongTerm d m.longTermFrameIdx) := by
        simp [applyMmco, hop, hpass, findShortTerm_clearLongTerm, hnum]
      rw [happly]
      refine ⟨?_, fun _ => hdrop⟩
      intro hsome
      cases hsome
    | some k =>
      have happly : applyMmco d.codec.currPicNum cur d m =
          setLongTerm (clearUnlessCur cur d (findLongTerm d m.longTermFrameIdx)) k
            m.longTermFrameIdx := by
        simp [applyMmco, hop, hpass, findShortTerm_clearLongTerm, hnum]
      rw [happly]
      refine ⟨?_, ?_⟩
      · intro hk
        obtain rfl := Option.some.inj hk
        have hshort := (hfind.mp hnum).1
        simp [setLongTerm, Dpb.modifyRef, hkept hshort, Mmco.mark, hone]
      · intro hk
        have hne : i ≠ k := fun h => hk (h ▸ rfl)
        simpa [setLongTerm, Dpb.modifyRef, hne] using hdrop

end Effect

/-- On a DPB of frames the operations 1 and 3 act on the picture they name if and only if that is
not one from before a wrap of `frame_num`, and the unsigned difference does not hit another one. -/
theorem mmco_acts_on_named_iff {d : DpbCtx} {cur : SlotIdx} {m : Mmco} (hframes : Frames d cur)
    (hop : m.op = 1 ∨ m.op = 3) : ActsOnNamed d cur m ↔ NamedWithoutWrap d cur m := by
  unfold ActsOnNamed NamedWithoutWrap
  refine forall_congr' fun hauth => forall_congr' fun i => ?_
  obtain ⟨hyes, hno⟩ := applyMmco_touches (i := i) hframes hop hauth
  by_cases hshort : (d.slots i).ref.isShortTerm = true
  · have hnotDisplaced : ¬ Displaced d m i := by
      rintro ⟨-, hlong, -⟩
      simp_all [RefState.isLongTerm, RefState.isShortTerm]
    have hne := mark_ne (m := m) hshort
    refine Iff.trans ?_ ((names_iff_touches hframes hshort).trans ⟨fun h _ => h, fun h => h hshort⟩)
    by_cases htouch : Touches d cur m i
    · have hmark := hyes htouch
      simp only [htouch, iff_true, hmark, hnotDisplaced, false_and, or_false, implies_true,
        true_and]
      exact ⟨fun h => by_contra fun hnames => hne (h hnames), fun hnames hnot => absurd hnames hnot⟩
    · have hsame : _ = _ := (hno htouch).resolve_right fun h => hnotDisplaced h.1
      simp only [htouch, iff_false, hsame, true_or, implies_true, and_true]
      exact ⟨fun h hnames => hne (h hnames).symm, fun hnot hnames => absurd hnames hnot⟩
  · have hnotNames : ¬ Names d m i := fun h => hshort h.1
    have hnotTouch : ¬ Touches d cur m i := fun h => hshort h.1.1
    simp [hnotNames, hshort, hno hnotTouch]

/-- A reference picture and the one behind it, which is in flight. -/
def twoPictures (first second : BitVec 16) : DpbCtx :=
  put (onDecodeComplete (put init ⟨0, by decide⟩ (windowPicture false first 0))) ⟨1, by decide⟩
    (windowPicture false second 2)

/-- The operation that ends the use of the picture before the current one. -/
def unmarkPrevious : Mmco := ⟨1, 0, 0, 0, 0⟩

theorem mmco_acts_on_named_without_wrap :
    ActsOnNamed (twoPictures 3 4) ⟨1, by decide⟩ unmarkPrevious := by
  refine (mmco_acts_on_named_iff ⟨?_, ?_, ?_⟩ (by decide)).mpr ?_
  · decide +kernel
  · decide +kernel
  · decide +kernel
  · intro _
    decide +kernel

/-- Behind a wrap from 15 to 0 the picture is not found. -/
theorem mmco_misses_wrapped_picture : Frames (twoPictures 15 0) ⟨1, by decide⟩ ∧
    ¬ ActsOnNamed (twoPictures 15 0) ⟨1, by decide⟩ unmarkPrevious := by
  refine ⟨⟨?_, ?_, ?_⟩, ?_⟩
  · decide +kernel
  · decide +kernel
  · decide +kernel
  · intro hacts
    have hmark := (hacts nofun ⟨0, by decide⟩).1 (by decide +kernel)
    have hlost := congrArg RefState.inUse hmark
    revert hlost
    decide +kernel

end Rkvdec.Engine.H264
