import Rkvdec.Engine.H265

/-! Which decoded pictures `H265Dpb_Select` still offers as references. -/
namespace Rkvdec.Engine.H265

open H264 (DpbStatus)

/-- The lifecycle flags of every slot, in the order reorder, ready, consumer. -/
abbrev HoldPattern := SlotIdx → Bool × Bool × Bool

/-- Whatever the consumers did to the lifecycle flags since the last call. -/
def setHolds (d : DpbCtx) (h : HoldPattern) : DpbCtx :=
  { d with slots := fun i => { d.slots i with
      pendingReorder := (h i).1
      pendingReady := (h i).2.1
      heldByConsumer := (h i).2.2 } }

/-- `H265Dpb_Select` and `H265Dpb_OnDecodeComplete` for one picture; `none` when no slot is
free. -/
def decodePicture (d : DpbCtx) (pic : HoldPattern × Parsed) : Option DpbCtx :=
  match select (setHolds d pic.1) pic.2 with
  | (.ok, _, d) => some (onDecodeComplete d)
  | _ => none

def decodePictures (d : DpbCtx) (pics : List (HoldPattern × Parsed)) : Option DpbCtx :=
  pics.foldlM decodePicture d

/-- The selection `sel` offers POC `q` in exactly one slot, with the buffers `q` was decoded
into by the selection `selq`. -/
def Exposes (sel selq : Selection) (q : Int) : Prop :=
  ∃ i : SlotIdx, (sel.refValidMask.getLsbD i = true ∧ sel.refPocs i = q ∧
      sel.refs i = selq.currentOutput ∧ sel.refColmv i = selq.currentColmv) ∧
    ∀ j : SlotIdx, sel.refValidMask.getLsbD j = true → sel.refPocs j = q → j = i

variable {d d' : DpbCtx} {i j slot : SlotIdx} {parsed : Parsed} {q : Int} {h : HoldPattern}
  {pic : HoldPattern × Parsed} {pics : List (HoldPattern × Parsed)}

@[simp] theorem setHolds_codec : (setHolds d h).codec = d.codec := rfl

/-- Rewriting the reference states of a list of slots, each once. -/
theorem ref_foldl_modifyRef {l : List SlotIdx} (hl : l.Nodup) (g : RefState → RefState) :
    ((l.foldl (fun d i => d.modifyRef i g) d).slots j).ref =
      if j ∈ l then g (d.slots j).ref else (d.slots j).ref := by
  induction l generalizing d with
  | nil => simp
  | cons i l ih =>
    obtain ⟨hi, hl⟩ := List.nodup_cons.mp hl
    rw [List.foldl_cons, ih hl]
    by_cases hj : j = i
    · subst hj
      simp [hi, Dpb.modifyRef]
    · simp [hj, Dpb.modifyRef]

theorem mem_poolSlots : i ∈ poolSlots d ↔ i.val < d.codec.size := by
  simp [poolSlots]

theorem nodup_poolSlots : (poolSlots d).Nodup :=
  (List.nodup_finRange poolSize).filter _

/-- The marking loop, slot by slot: a slot in use is a reference when its POC is needed. -/
theorem remark_ref {needed : List Int} : ((remark needed d).slots j).ref =
    if j.val < d.codec.size ∧ (d.slots j).ref.inUse = true then
      { (d.slots j).ref with isRef := needed.contains (d.slots j).ref.poc }
    else (d.slots j).ref := by
  have hstep : (fun (d : DpbCtx) (i : SlotIdx) =>
      if (d.slots i).ref.inUse = false then d
      else d.modifyRef i fun s => { s with isRef := needed.contains s.poc }) =
      fun d i => d.modifyRef i fun s =>
        if s.inUse = true then { s with isRef := needed.contains s.poc } else s := by
    funext d i
    cases huse : (d.slots i).ref.inUse with
    | false => simp [Dpb.modifyRef, huse]
    | true => simp [Dpb.modifyRef, huse]
  unfold remark
  rw [hstep, ref_foldl_modifyRef nodup_poolSlots]
  simp only [mem_poolSlots, ite_and]

theorem markForPicture_idr (hidr : parsed.isIdr = true) (hj : j.val < d.codec.size) :
    ((markForPicture d parsed).slots j).ref = .cleared := by
  unfold markForPicture
  rw [if_pos hidr]
  exact (ref_foldl_modifyRef nodup_poolSlots fun _ => .cleared).trans
    (if_pos (mem_poolSlots.mpr hj))

/-- Ending the picture in `slot` touches that slot only. -/
theorem onDecodeComplete_ref (hcur : d.currentIdx = some slot) :
    ((onDecodeComplete d).slots j).ref =
      if j = slot ∧ (d.slots slot).ref.isRef = false then .cleared else (d.slots j).ref := by
  unfold onDecodeComplete
  rw [hcur]
  dsimp only
  by_cases href : (d.slots slot).ref.isRef = false
  · rw [if_pos href]
    by_cases hj : j = slot
    · subst hj
      simp [slotClear, Dpb.modifyRef, href]
    · simp [slotClear, Dpb.modifyRef, hj]
  · simp [href]

theorem onDecodeComplete_codec : (onDecodeComplete d).codec = d.codec := by
  unfold onDecodeComplete
  split
  · rfl
  · dsimp only
    split <;> rfl

/-- No slot in use holds a picture of POC `q`. -/
def Absent (d : DpbCtx) (q : Int) : Prop :=
  ∀ j : SlotIdx, j.val < d.codec.size → (d.slots j).ref.inUse = true → (d.slots j).ref.poc ≠ q

/-- Slot `i` holds a reference picture of POC `q`, and no other slot in use has that POC. -/
def Retained (d : DpbCtx) (q : Int) (i : SlotIdx) : Prop :=
  i.val < d.codec.size ∧ (d.slots i).ref = ⟨true, true, q⟩ ∧
    ∀ j : SlotIdx, j ≠ i → j.val < d.codec.size → (d.slots j).ref.inUse = true →
      (d.slots j).ref.poc ≠ q

/-- Marking keeps the POC of every slot that stays in use. -/
theorem markForPicture_poc (hj : j.val < d.codec.size)
    (huse : ((markForPicture d parsed).slots j).ref.inUse = true) :
    (d.slots j).ref.inUse = true ∧
      ((markForPicture d parsed).slots j).ref.poc = (d.slots j).ref.poc := by
  by_cases hidr : parsed.isIdr = true
  · rw [markForPicture_idr hidr hj] at huse
    simp [RefState.cleared] at huse
  · unfold markForPicture at *
    rw [if_neg hidr, remark_ref] at *
    split at huse
    · rename_i hc
      exact ⟨hc.2, by rw [if_pos hc]⟩
    · rename_i hc
      exact absurd ⟨hj, huse⟩ hc

theorem Absent.mark (hq : Absent d q) : Absent (markForPicture d parsed) q := by
  intro j hj huse
  rw [marks_markForPicture.codec] at hj
  obtain ⟨huse', hpoc⟩ := markForPicture_poc hj huse
  rw [hpoc]
  exact hq j hj huse'

/-- An IDR leaves no earlier picture in use. -/
theorem absent_idr (hidr : parsed.isIdr = true) : Absent (markForPicture d parsed) q := by
  intro j hj huse
  rw [marks_markForPicture.codec] at hj
  rw [markForPicture_idr hidr hj] at huse
  simp [RefState.cleared] at huse

/-- A picture that needs `q` keeps the slot of `q` marked. -/
theorem Retained.mark (hq : Retained d q i) (hidr : parsed.isIdr = false)
    (hneed : q ∈ neededPocs parsed) : Retained (markForPicture d parsed) q i := by
  obtain ⟨hi, href, hother⟩ := hq
  refine ⟨by rwa [marks_markForPicture.codec], ?_, ?_⟩
  · unfold markForPicture
    rw [if_neg (by simp [hidr]), remark_ref, href]
    simp [hi, hneed]
  · intro j hji hj huse
    rw [marks_markForPicture.codec] at hj
    obtain ⟨huse', hpoc⟩ := markForPicture_poc hj huse
    rw [hpoc]
    exact hother j hji hj huse'

/-- What a successful `H265Dpb_Select` leaves in the slots, after marking. -/
structure Selected (d : DpbCtx) (parsed : Parsed) (sel : Selection) (d' : DpbCtx) : Prop where
  free : findFree (markForPicture d parsed) = some sel.currentSlot
  packed : sel = packSelection d' sel.currentSlot parsed
  current : d'.currentIdx = some sel.currentSlot
  codec : d'.codec = d.codec
  own : (d'.slots sel.currentSlot).ref = ⟨true, parsed.nalRefFlag, parsed.poc⟩
  other : ∀ j, j ≠ sel.currentSlot → (d'.slots j).ref = ((markForPicture d parsed).slots j).ref

theorem selected_of_select {sel : Selection} (hsel : select d parsed = (.ok, some sel, d')) :
    Selected d parsed sel d' := by
  have hslice : parsed.hasSlice = true := by
    by_contra hno
    have hno : parsed.hasSlice = false := by simpa using hno
    simp [select, hno] at hsel
  obtain ⟨-, hfull⟩ | ⟨slot, d₁, hfree, hok, hcur, -, -, hcodec, hown, hother⟩ :=
    select_cases (d := d) hslice
  · simp [hfull] at hsel
  · rw [hok] at hsel
    obtain ⟨rfl, rfl⟩ : packSelection d₁ slot parsed = sel ∧ d₁ = d' := by simpa using hsel
    exact ⟨hfree, rfl, hcur, hcodec, hown, hother⟩

theorem decodePicture_some (hd : decodePicture d pic = some d') :
    ∃ sel d₁, Selected (setHolds d pic.1) pic.2 sel d₁ ∧ d' = onDecodeComplete d₁ := by
  unfold decodePicture at hd
  split at hd
  · rename_i sel? d₁ hsel
    cases hs : sel? with
    | none =>
      exfalso
      rw [hs] at hsel
      unfold select at hsel
      split at hsel
      · simp at hsel
      · dsimp only at hsel
        split at hsel <;> simp at hsel
    | some sel =>
      rw [hs] at hsel
      exact ⟨sel, d₁, selected_of_select hsel, (Option.some.inj hd).symm⟩
  · simp at hd

/-- A picture of another POC does not bring `q` back. -/
theorem Absent.decodePicture (hq : Absent (markForPicture (setHolds d pic.1) pic.2) q)
    (hne : pic.2.poc ≠ q) (hd : decodePicture d pic = some d') : Absent d' q := by
  obtain ⟨sel, d₁, hs, rfl⟩ := decodePicture_some hd
  intro j hj huse
  rw [onDecodeComplete_codec, hs.codec] at hj
  rw [onDecodeComplete_ref hs.current] at huse ⊢
  split at huse
  · simp [RefState.cleared] at huse
  · rename_i hkeep
    rw [if_neg hkeep]
    by_cases hjs : j = sel.currentSlot
    · rw [hjs, hs.own]
      exact hne
    · rw [hs.other j hjs] at huse ⊢
      exact hq j (by rwa [marks_markForPicture.codec]) huse

/-- The slot of a retained reference is not given to another picture. -/
theorem Retained.slot_ne {sel : Selection} {d₀ : DpbCtx}
    (hq : Retained (markForPicture d₀ parsed) q i) (hs : Selected d₀ parsed sel d') :
    i ≠ sel.currentSlot := by
  rintro rfl
  obtain ⟨-, -, huse | href⟩ := findFree_some hs.free
  · rw [hq.2.1] at huse
    simp at huse
  · rw [hq.2.1] at href
    simp at href

/-- A picture that needs `q` and has another POC keeps `q` where it is. -/
theorem Retained.decodePicture (hq : Retained d q i) (hidr : pic.2.isIdr = false)
    (hneed : q ∈ neededPocs pic.2) (hne : pic.2.poc ≠ q) (hd : decodePicture d pic = some d') :
    Retained d' q i := by
  obtain ⟨sel, d₁, hs, rfl⟩ := decodePicture_some hd
  have hm : Retained (markForPicture (setHolds d pic.1) pic.2) q i :=
    Retained.mark (d := setHolds d pic.1) hq hidr hneed
  have hi := hm.slot_ne hs
  obtain ⟨hlt, href, hother⟩ := hm
  rw [marks_markForPicture.codec] at hlt
  refine ⟨by rwa [onDecodeComplete_codec, hs.codec], ?_, ?_⟩
  · rw [onDecodeComplete_ref hs.current, if_neg (fun hc => hi hc.1), hs.other i hi, href]
  · intro j hji hj huse
    rw [onDecodeComplete_codec, hs.codec] at hj
    rw [onDecodeComplete_ref hs.current] at huse ⊢
    split at huse
    · simp [RefState.cleared] at huse
    · rename_i hkeep
      rw [if_neg hkeep]
      by_cases hjs : j = sel.currentSlot
      · rw [hjs, hs.own]
        exact hne
      · rw [hs.other j hjs] at huse ⊢
        exact hother j hji (by rwa [marks_markForPicture.codec]) huse

theorem decodePictures_cons (hd : decodePictures d (pic :: pics) = some d') :
    ∃ d₁, decodePicture d pic = some d₁ ∧ decodePictures d₁ pics = some d' := by
  simpa [decodePictures, Option.bind_eq_some_iff] using hd

/-- From a state without `q`, pictures of other POCs lead to a state without `q`. -/
theorem Absent.decodePictures (hq : Absent d q) (hne : ∀ p ∈ pics, p.2.poc ≠ q)
    (hd : decodePictures d pics = some d') : Absent d' q := by
  induction pics generalizing d with
  | nil =>
    obtain rfl := Option.some.inj hd
    exact hq
  | cons pic pics ih =>
    obtain ⟨d₁, h₁, hrest⟩ := decodePictures_cons hd
    refine ih ?_ (fun p hp => hne p (List.mem_cons_of_mem _ hp)) hrest
    exact Absent.decodePicture (Absent.mark (d := setHolds d pic.1) hq)
      (hne pic List.mem_cons_self) h₁

/-- As long as every picture needs `q`, the slot of `q` is kept. -/
theorem Retained.decodePictures (hq : Retained d q i)
    (hrps : ∀ p ∈ pics, p.2.isIdr = false ∧ q ∈ neededPocs p.2) (hne : ∀ p ∈ pics, p.2.poc ≠ q)
    (hd : decodePictures d pics = some d') : Retained d' q i := by
  induction pics generalizing d with
  | nil =>
    obtain rfl := Option.some.inj hd
    exact hq
  | cons pic pics ih =>
    obtain ⟨d₁, h₁, hrest⟩ := decodePictures_cons hd
    obtain ⟨hidr, hneed⟩ := hrps pic List.mem_cons_self
    refine ih ?_ (fun p hp => hrps p (List.mem_cons_of_mem _ hp))
      (fun p hp => hne p (List.mem_cons_of_mem _ hp)) hrest
    exact hq.decodePicture hidr hneed (hne pic List.mem_cons_self) h₁

theorem codec_decodePictures (hd : decodePictures d pics = some d') : d'.codec = d.codec := by
  induction pics generalizing d with
  | nil =>
    obtain rfl := Option.some.inj hd
    rfl
  | cons pic pics ih =>
    obtain ⟨d₁, h₁, hrest⟩ := decodePictures_cons hd
    obtain ⟨sel, d₂, hs, rfl⟩ := decodePicture_some h₁
    rw [ih hrest, onDecodeComplete_codec, hs.codec, setHolds_codec]

/-- Bit `i` of the mask is set for the active references. -/
theorem getLsbD_mask {l : List SlotIdx} {p : SlotIdx → Bool} {m : BitVec 16} :
    (l.foldl (fun mask j => if p j then mask ||| (1#16 <<< j.val) else mask) m).getLsbD i =
      (m.getLsbD i || (decide (i ∈ l) && p i)) := by
  have hbit : ∀ j : SlotIdx, (1#16 <<< j.val).getLsbD i.val = decide (i = j) := by
    intro j
    revert i j
    decide
  induction l generalizing m with
  | nil => simp
  | cons j l ih =>
    rw [List.foldl_cons, ih]
    by_cases hp : p j = true
    · rw [if_pos hp, BitVec.getLsbD_or, hbit]
      by_cases hij : i = j
      · subst hij
        simp [hp]
      · simp [hij]
    · rw [if_neg hp]
      by_cases hij : i = j
      · subst hij
        simp [hp]
      · simp [hij]

theorem refValidMask_packSelection :
    (packSelection d slot parsed).refValidMask.getLsbD i = isActiveRef d slot i := by
  unfold packSelection
  dsimp only
  rw [getLsbD_mask]
  simp

theorem isActiveRef_iff : isActiveRef d slot i = true ↔ i.val < d.codec.size ∧ i ≠ slot ∧
    (d.slots i).ref.inUse = true ∧ (d.slots i).ref.isRef = true := by
  simp [isActiveRef, and_assoc]

/-- A retained reference that the current picture needs is exposed, in its own slot only. -/
theorem Retained.exposes {sel selq : Selection} (hq : Retained (markForPicture d parsed) q i)
    (hs : Selected d parsed sel d')
    (hout : selq.currentOutput = (d.codec.entry i).outputFrame)
    (hcol : selq.currentColmv = (d.codec.entry i).colmv) : Exposes sel selq q := by
  have hi := hq.slot_ne hs
  obtain ⟨hlt, href, hother⟩ := hq
  rw [marks_markForPicture.codec] at hlt
  have hact : isActiveRef d' sel.currentSlot i = true := by
    rw [isActiveRef_iff, hs.other i hi, href, hs.codec]
    exact ⟨hlt, hi, rfl, rfl⟩
  refine ⟨i, ?_, ?_⟩
  · rw [hs.packed, refValidMask_packSelection]
    simp only [packSelection, hact, if_true, hs.codec, hout, hcol, hs.other i hi, href]
    exact ⟨trivial, trivial, trivial, trivial⟩
  · intro j hj hpoc
    rw [hs.packed, refValidMask_packSelection] at hj
    have hpoc' : (d'.slots j).ref.poc = q := by
      rw [hs.packed] at hpoc
      simpa only [packSelection, hj, if_true] using hpoc
    obtain ⟨hjlt, hjs, huse, -⟩ := isActiveRef_iff.mp hj
    by_contra hji
    rw [hs.codec] at hjlt
    rw [hs.other j hjs] at huse hpoc'
    exact hother j hji (by rwa [marks_markForPicture.codec]) huse hpoc'

/-- A POC that no slot in use has is not exposed. -/
theorem Absent.not_exposes {sel selq : Selection} (hq : Absent (markForPicture d parsed) q)
    (hs : Selected d parsed sel d') : ¬ Exposes sel selq q := by
  rintro ⟨i, ⟨hbit, hpoc, -⟩, -⟩
  rw [hs.packed, refValidMask_packSelection] at hbit
  have hpoc' : (d'.slots i).ref.poc = q := by
    rw [hs.packed] at hpoc
    simpa only [packSelection, hbit, if_true] using hpoc
  obtain ⟨hlt, his, huse, -⟩ := isActiveRef_iff.mp hbit
  rw [hs.codec] at hlt
  rw [hs.other i his] at huse hpoc'
  exact hq i (by rwa [marks_markForPicture.codec]) huse hpoc'

/-- Right after its own decode `q` is retained if its NAL is a reference, and gone if not. -/
theorem after_own_decode {selq : Selection}
    (hq : Absent (markForPicture d parsed) parsed.poc) (hs : Selected d parsed selq d') :
    (parsed.nalRefFlag = true →
        Retained (onDecodeComplete d') parsed.poc selq.currentSlot) ∧
      (parsed.nalRefFlag = false → Absent (onDecodeComplete d') parsed.poc) := by
  have hother : ∀ j : SlotIdx, j ≠ selq.currentSlot → j.val < d.codec.size →
      (d'.slots j).ref.inUse = true → (d'.slots j).ref.poc ≠ parsed.poc := by
    intro j hj hlt huse
    rw [hs.other j hj] at huse ⊢
    exact hq j (by rwa [marks_markForPicture.codec]) huse
  constructor
  · intro href
    have hkeep : ∀ j, ((onDecodeComplete d').slots j).ref = (d'.slots j).ref := by
      intro j
      rw [onDecodeComplete_ref hs.current, hs.own, if_neg (by simp [href])]
    refine ⟨?_, by rw [hkeep, hs.own, href], ?_⟩
    · have hlt := (findFree_some hs.free).1
      rwa [onDecodeComplete_codec, hs.codec, ← marks_markForPicture.codec]
    · intro j hj hlt huse
      rw [onDecodeComplete_codec, hs.codec] at hlt
      rw [hkeep] at huse ⊢
      exact hother j hj hlt huse
  · intro href j hlt huse
    rw [onDecodeComplete_codec, hs.codec] at hlt
    rw [onDecodeComplete_ref hs.current, hs.own] at huse ⊢
    by_cases hj : j = selq.currentSlot
    · simp [hj, href, RefState.cleared] at huse
    · rw [if_neg (fun hc => hj hc.1)] at huse ⊢
      exact hother j hj hlt huse

/-- After an IDR at or before it, no slot holds the POC of a picture about to be decoded. -/
theorem absent_before {pre : List (HoldPattern × Parsed)} {d₀ : DpbCtx}
    (hidr : ((pre ++ [pic]).head?.any fun p => p.2.isIdr) = true)
    (hne : ∀ p ∈ pre, p.2.poc ≠ pic.2.poc) (hpre : decodePictures d₀ pre = some d) :
    Absent (markForPicture (setHolds d pic.1) pic.2) pic.2.poc := by
  cases pre with
  | nil => exact absent_idr (by simpa using hidr)
  | cons first pre =>
    obtain ⟨d₁, h₁, hrest⟩ := decodePictures_cons hpre
    have hfirst : Absent d₁ pic.2.poc :=
      Absent.decodePicture (absent_idr (by simpa using hidr)) (hne first List.mem_cons_self) h₁
    have hd := hfirst.decodePictures (fun p hp => hne p (List.mem_cons_of_mem _ hp)) hrest
    exact Absent.mark (d := setHolds d pic.1) hd

/-- A picture decoded since an IDR, whose POC no other picture since then has and which every
later picture keeps in its short-term RPS, is exposed to the current picture exactly when its NAL
is not of a sub-layer non-reference type. -/
theorem reference_retained_iff (d₀ : DpbCtx) (pre post : List (HoldPattern × Parsed))
    (pic cur : HoldPattern × Parsed) {d₁ d₂ d₃ d₄ : DpbCtx} {selq sel : Selection}
    (hidr : ((pre ++ [pic]).head?.any fun p => p.2.isIdr) = true)
    (hpre : decodePictures d₀ pre = some d₁)
    (hpic : select (setHolds d₁ pic.1) pic.2 = (.ok, some selq, d₂))
    (hpost : decodePictures (onDecodeComplete d₂) post = some d₃)
    (hcur : select (setHolds d₃ cur.1) cur.2 = (.ok, some sel, d₄))
    (hrps : ∀ p ∈ post ++ [cur], p.2.isIdr = false ∧ pic.2.poc ∈ neededPocs p.2)
    (hpoc : ∀ p ∈ pre ++ post, p.2.poc ≠ pic.2.poc) :
    Exposes sel selq pic.2.poc ↔ pic.2.nalRefFlag = true := by
  have hs := selected_of_select hpic
  have hsel := selected_of_select hcur
  have habsent := absent_before hidr (fun p hp => hpoc p (by simp [hp])) hpre
  obtain ⟨hkept, hgone⟩ := after_own_decode habsent hs
  obtain ⟨hidrc, hneedc⟩ := hrps cur (by simp)
  have hpostRps : ∀ p ∈ post, p.2.isIdr = false ∧ pic.2.poc ∈ neededPocs p.2 :=
    fun p hp => hrps p (by simp [hp])
  have hpostPoc : ∀ p ∈ post, p.2.poc ≠ pic.2.poc := fun p hp => hpoc p (by simp [hp])
  have hcodec : d₃.codec = d₁.codec := by
    rw [codec_decodePictures hpost, onDecodeComplete_codec, hs.codec, setHolds_codec]
  cases href : pic.2.nalRefFlag with
  | true =>
    have hd₃ := (hkept href).decodePictures hpostRps hpostPoc hpost
    refine ⟨fun _ => rfl, fun _ => ?_⟩
    have hpacked := hs.packed
    refine Retained.exposes (Retained.mark (d := setHolds d₃ cur.1) hd₃ hidrc hneedc) hsel ?_ ?_
    · rw [setHolds_codec, hcodec, hpacked]
      simp [packSelection, hs.codec]
    · rw [setHolds_codec, hcodec, hpacked]
      simp [packSelection, hs.codec]
  | false =>
    have hd₃ := (hgone href).decodePictures hpostPoc hpost
    have hno : ¬ Exposes sel selq pic.2.poc :=
      Absent.not_exposes (Absent.mark (d := setHolds d₃ cur.1) hd₃) hsel
    simp [hno]

/-- A picture with its reference picture set in the slice header and nobody holding a slot. -/
def slicePicture (isIdr nalRefFlag : Bool) (poc : Int) (deltas : List Int) :
    HoldPattern × Parsed where
  fst := fun _ => (false, false, false)
  snd :=
    { hasSlice := true, isIdr := isIdr, nalRefFlag := nalRefFlag, poc := poc, activeSps := none
      shortTermRefPicSetSpsFlag := false, shortTermRefPicSetIdx := 0
      stRpsSlice := ⟨deltas.length, 0, fun i => deltas.getD i 0⟩ }

def testPool : DpbCtx := init ⟨fun i => ⟨BitVec.ofNat 64 (i + 1), BitVec.ofNat 64 (i + 33)⟩, 16⟩

/-- The selection made for the last of a list of pictures. -/
def lastSelection (pics : List (HoldPattern × Parsed)) (cur : HoldPattern × Parsed) :
    Option Selection :=
  match decodePictures testPool pics with
  | none => none
  | some d => (select (setHolds d cur.1) cur.2).2.1

theorem select_ok (d : DpbCtx) (parsed : Parsed) (hok : (select d parsed).1 = .ok) :
    ∃ sel, select d parsed = (.ok, some sel, (select d parsed).2.2) := by
  have hslice : parsed.hasSlice = true := by
    by_contra hno
    have hno : parsed.hasSlice = false := by simpa using hno
    simp [select, hno] at hok
  obtain ⟨-, hfull⟩ | ⟨slot, d₁, -, hsel, -⟩ := select_cases (d := d) hslice
  · simp [hfull] at hok
  · exact ⟨_, by rw [hsel]⟩

/-- A picture fed while a consumer holds the first slot. -/
def whileHeld (pic : HoldPattern × Parsed) : HoldPattern × Parsed :=
  (fun i => (false, false, i.val = 0), pic.2)

/-- The pictures of a mini group of pictures after an IDR, from the second picture on. -/
abbrev groupAfter : List (HoldPattern × Parsed) :=
  [slicePicture false true 2 [-2, 2], whileHeld (slicePicture false false 3 [-3, 1, -1])]

theorem groupBefore_decoded :
    (decodePictures testPool [slicePicture true true 0 []]).isSome = true := by
  decide +kernel

/-- The pool after the IDR. -/
abbrev poolBefore : DpbCtx :=
  (decodePictures testPool [slicePicture true true 0 []]).get groupBefore_decoded

abbrev groupPicture : HoldPattern × Parsed := slicePicture false true 4 [-4]

/-- The pool after the picture of POC 4. -/
abbrev poolAfter : DpbCtx :=
  onDecodeComplete (select (setHolds poolBefore groupPicture.1) groupPicture.2).2.2

theorem groupAfter_decoded : (decodePictures poolAfter groupAfter).isSome = true := by
  decide +kernel

/-- After an IDR the picture of POC 4 is decoded, then those of POC 2 and 3 that keep it, one of
them not a reference and fed while a consumer holds a slot. The picture of POC 4 is exposed to that
of POC 8. -/
theorem reference_retained_iff_group :
    ∃ selq d₂ d₃ sel d₄,
      select (setHolds poolBefore groupPicture.1) groupPicture.2 = (.ok, some selq, d₂) ∧
      decodePictures (onDecodeComplete d₂) groupAfter = some d₃ ∧
      select (setHolds d₃ (slicePicture false true 8 [-8, -4]).1)
        (slicePicture false true 8 [-8, -4]).2 = (.ok, some sel, d₄) ∧ Exposes sel selq 4 := by
  obtain ⟨selq, hq⟩ := select_ok (setHolds poolBefore groupPicture.1) groupPicture.2
    (by decide +kernel)
  have hpost := (Option.some_get groupAfter_decoded).symm
  obtain ⟨sel, hs⟩ := select_ok
    (setHolds ((decodePictures poolAfter groupAfter).get groupAfter_decoded)
      (slicePicture false true 8 [-8, -4]).1) (slicePicture false true 8 [-8, -4]).2
    (by decide +kernel)
  refine ⟨selq, _, _, sel, _, hq, hpost, hs, ?_⟩
  have hrps : ∀ p ∈ groupAfter ++ [slicePicture false true 8 [-8, -4]],
      p.2.isIdr = false ∧ groupPicture.2.poc ∈ neededPocs p.2 := by
    decide +kernel
  exact (reference_retained_iff testPool [slicePicture true true 0 []] groupAfter groupPicture
    (slicePicture false true 8 [-8, -4]) rfl (Option.some_get groupBefore_decoded).symm hq hpost hs
    hrps (by decide +kernel)).mpr rfl

/-- A TSA_N picture of POC 1 that the next picture lists in its RPS is not exposed to it. -/
theorem sublayer_nonreference_dropped :
    ((lastSelection [slicePicture true true 0 [], slicePicture false false 1 [-1]]
      (slicePicture false true 2 [-2, -1])).any fun sel =>
        decide (∀ i : SlotIdx, ¬ (sel.refValidMask.getLsbD i = true ∧ sel.refPocs i = 1))) = true ∧
      1 ∈ neededPocs (slicePicture false true 2 [-2, -1]).2 := by
  decide +kernel

end Rkvdec.Engine.H265
