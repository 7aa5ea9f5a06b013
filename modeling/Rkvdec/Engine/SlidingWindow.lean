import Mathlib.Data.List.DropRight
import Mathlib.Data.List.Sort
import Rkvdec.Engine.H264

/-! The H.264 sliding window across the wraps of `frame_num`, and the compact view of it that
`Dpb_Select` gives the register builder. -/
namespace Rkvdec.Engine.H264

section CompactView

/-- `CompactRef`. -/
structure CompactRef where
  poolIdx : SlotIdx
  frameNum : BitVec 16
  topPoc : Int
  bottomPoc : Int
  fields : Nat
  longTerm : Bool
  longTermFrameIdx : BitVec 16
deriving DecidableEq

/-- `v4l2_h264_dpb_entry`, the flags one by one. -/
structure DpbEntry where
  valid : Bool := false
  active : Bool := false
  longTerm : Bool := false
  fields : Nat := 0
  frameNum : BitVec 16 := 0
  picNum : BitVec 16 := 0
  topFieldOrderCnt : Int := 0
  bottomFieldOrderCnt : Int := 0
deriving DecidableEq

/-- `DpbSelection` without the reference lists. `refs` are the pool slots whose buffers `refs` and
`ref_colmv` name. -/
structure Selection where
  currentSlot : SlotIdx
  dpbEntries : List DpbEntry
  refs : List SlotIdx
deriving DecidableEq

def compactRef (i : SlotIdx) (s : RefState) : CompactRef :=
  ⟨i, s.frameNum, s.topPoc, s.bottomPoc, s.fields, s.longTerm, s.longTermFrameIdx⟩

/-- The references of the pool but for the current picture. -/
def collectRefs (d : DpbCtx) (slot : SlotIdx) : List CompactRef :=
  (allSlots.filter fun i => i != slot && (d.slots i).ref.inUse &&
    (d.slots i).ref.isRef).map fun i =>
    compactRef i (d.slots i).ref

/-- FrameNumWrap relative to `curFn`. -/
def wrapped (maxFn : Int) (curFn fn : BitVec 16) : Int :=
  if (curFn.toNat : Int) < fn.toNat then fn.toNat - maxFn else fn.toNat

/-- The insertion sort. What is sorted is kept back to front: an entry goes down it past the greater
ones. -/
def sortByWrap (maxFn : Int) (curFn : BitVec 16) (refs : List CompactRef) : List CompactRef :=
  (refs.foldl (fun sorted c => sorted.orderedInsert
    (fun a b => wrapped maxFn curFn b.frameNum ≤ wrapped maxFn curFn a.frameNum) c) []).reverse

def CompactRef.entry (c : CompactRef) : DpbEntry where
  valid := true
  active := true
  longTerm := c.longTerm
  fields := c.fields
  frameNum := if c.longTerm then c.longTermFrameIdx else c.frameNum
  picNum := if c.longTerm then c.longTermFrameIdx else c.frameNum
  topFieldOrderCnt := c.topPoc
  bottomFieldOrderCnt := c.bottomPoc

/-- What `Dpb_Select` fills in for the picture it has put into `slot`. -/
def selection (d : DpbCtx) (slot : SlotIdx) (parsed : Parsed) : Selection :=
  let maxFn : Int := (2 ^ (parsed.log2MaxFrameNumMinus4 + 4) % 2 ^ 32 : Nat)
  let compact := sortByWrap maxFn parsed.frameNum (collectRefs d slot)
  let rest := poolSize - compact.length
  { currentSlot := slot
    dpbEntries := compact.map CompactRef.entry ++ List.replicate rest {}
    refs := compact.map CompactRef.poolIdx ++
      List.replicate rest ((compact.getLast?.map CompactRef.poolIdx).getD slot) }

end CompactView

section Pictures

/-- The lifecycle flags of every slot, in the order reorder, ready, consumer. -/
abbrev HoldPattern := SlotIdx → Bool × Bool × Bool

/-- Whatever the consumers did to the lifecycle flags since the last call. A pool of fewer slots is
one where the others are held. -/
def setHolds (d : DpbCtx) (h : HoldPattern) : DpbCtx :=
  { d with slots := fun i => { d.slots i with
      pendingReorder := (h i).1
      pendingReady := (h i).2.1
      heldByConsumer := (h i).2.2 } }

/-- A picture with the holds at its `Dpb_Select` and at its `Dpb_OnDecodeComplete`. -/
structure Picture where
  parsed : Parsed
  holds : HoldPattern := fun _ => (false, false, false)
  holdsAfter : HoldPattern := fun _ => (false, false, false)

/-- The pool in which `Dpb_Select` looks for a free slot. -/
def clearForIdr (d : DpbCtx) (parsed : Parsed) : DpbCtx :=
  if parsed.isIdr then
    let d := allSlots.foldl slotClear d
    { d with codec := { d.codec with
        maxLongTermFrameIdx := if parsed.idrLongTermReferenceFlag then 0 else -1 } }
  else d

/-- `Dpb_Select` and `Dpb_OnDecodeComplete` for one picture. -/
def decodePicture (d : DpbCtx) (pic : Picture) : Option (Selection × DpbCtx) :=
  match select (setHolds d pic.holds) pic.parsed with
  | some (.ok, some slot, d) =>
    some (selection d slot pic.parsed, onDecodeComplete (setHolds d pic.holdsAfter))
  | _ => none

/-- A stream by what of its SPS matters here: `max_num_ref_frames` and
`log2_max_frame_num_minus4`. -/
structure Stream where
  maxNumRefFrames : Nat
  log2MaxFrameNumMinus4 : Nat

/-- MaxFrameNum as the DPB computes it. -/
def Stream.maxFrameNum (st : Stream) : Nat := 2 ^ (st.log2MaxFrameNumMinus4 + 4) % 2 ^ 32

def Stream.window (st : Stream) : Nat := max st.maxNumRefFrames 1

/-- A decoded reference picture and where it is. -/
structure Decoded where
  slot : SlotIdx
  parsed : Parsed

/-- What a slot holds of a picture. -/
def Parsed.refState (parsed : Parsed) : RefState where
  inUse := true
  isRef := parsed.nalRefIdc != 0
  longTerm := parsed.isIdr && parsed.idrLongTermReferenceFlag
  fields := frameRef
  frameNum := parsed.frameNum
  topPoc := parsed.topFieldOrderCnt
  bottomPoc := parsed.bottomFieldOrderCnt
  longTermFrameIdx := 0

def Decoded.compact (p : Decoded) : CompactRef := compactRef p.slot p.parsed.refState

/-- A decoder in a stream: the reference pictures since the IDR, oldest first, and the last
selection with those that were there before it. -/
structure Track where
  dpb : DpbCtx
  refs : List Decoded := []
  shown : Option (Selection × List Decoded) := none

/-- The picture after `refs` is one of the stream, without long-term references and adaptive
marking. -/
def Stream.Follows (st : Stream) (refs : List Decoded) (first : Bool) (p : Parsed) : Prop :=
  (p.hasSlice = true ∧ p.isIdr = first ∧ p.maxNumRefFrames = st.maxNumRefFrames ∧
    p.log2MaxFrameNumMinus4 = st.log2MaxFrameNumMinus4) ∧
  (p.idrLongTermReferenceFlag = false ∧ p.adaptiveRefPicMarkingModeFlag = false) ∧
  p.frameNum.toNat < st.maxFrameNum ∧
  refs.getLast?.all fun q => p.frameNum.toNat = (q.parsed.frameNum.toNat + 1) % st.maxFrameNum

instance (st : Stream) (refs : List Decoded) (first : Bool) (p : Parsed) :
    Decidable (st.Follows refs first p) := inferInstanceAs (Decidable (_ ∧ _))

/-- The next picture; `none` where it is not one of the stream or `find_free` finds no slot for
it. -/
def Stream.step (st : Stream) (s : Track) (pic : Picture) : Option Track :=
  if st.Follows s.refs s.shown.isNone pic.parsed ∧
      (findFree (clearForIdr (setHolds s.dpb pic.holds) pic.parsed)).isSome = true then
    (decodePicture s.dpb pic).map fun r =>
      { dpb := r.2
        refs :=
          if pic.parsed.nalRefIdc ≠ 0 then s.refs ++ [⟨r.1.currentSlot, pic.parsed⟩] else s.refs
        shown := some (r.1, s.refs) }
  else none

/-- A sequence of pictures, from whatever the DPB had before its IDR. -/
def Stream.play (st : Stream) (d : DpbCtx) (pics : List Picture) : Option Track :=
  pics.foldlM st.step { dpb := d }

/-- The last reference pictures, as many as the window takes. -/
def Stream.last (st : Stream) (refs : List Decoded) : List Decoded := refs.rtake st.window

/-- The reference slots are those of the pictures `w`, each in a slot of its own. -/
structure Keeps (d : DpbCtx) (w : List Decoded) : Prop where
  nodup : (w.map Decoded.slot).Nodup
  stored : ∀ p ∈ w, (d.slots p.slot).ref = p.parsed.refState
  refs : ∀ i, ((d.slots i).ref.inUse && (d.slots i).ref.isRef) = true ↔ i ∈ w.map Decoded.slot

/-- The entries and buffers in use are those of the pictures `w`, in decode order. -/
structure Selection.Exposes (sel : Selection) (w : List Decoded) : Prop where
  entries : sel.dpbEntries =
    (w.map fun p => p.compact.entry) ++ List.replicate (poolSize - w.length) ({} : DpbEntry)
  refs : sel.refs.take w.length = w.map Decoded.slot

end Pictures

section Numbers

/-- The pictures have the numbers from `t` on, as far as a counter modulo `M` shows them. -/
def Numbered (M t : Nat) (w : List Decoded) : Prop :=
  w.map (fun p => p.parsed.frameNum.toNat) = (List.range' t w.length).map (· % M)

variable {M t n : Nat} {w : List Decoded} {p : Decoded}

theorem numbered_nil : Numbered M t [] := rfl

theorem numbered_cons : Numbered M t (p :: w) ↔
    p.parsed.frameNum.toNat = t % M ∧ Numbered M (t + 1) w := by
  simp [Numbered, List.range'_succ]

theorem numbered_snoc : Numbered M t (w ++ [p]) ↔
    Numbered M t w ∧ p.parsed.frameNum.toNat = (t + w.length) % M := by
  induction w generalizing t with
  | nil => simp [numbered_cons, numbered_nil]
  | cons q w ih =>
    simp only [List.cons_append, numbered_cons, ih, List.length_cons, and_assoc]
    rw [Nat.add_right_comm t 1, Nat.add_assoc t]

theorem Numbered.drop (h : Numbered M t w) (n : Nat) : Numbered M (t + n) (w.drop n) := by
  induction n generalizing t w with
  | zero => exact h
  | succ n ih =>
    cases w with
    | nil => exact numbered_nil
    | cons q w =>
      have hrest := ih (numbered_cons.mp h).2
      rwa [Nat.add_right_comm, Nat.add_assoc t] at hrest

/-- A number at most `M` behind the counter is recovered. -/
theorem wrapped_eq {curFn fn : BitVec 16} {x y : Nat} (hcur : curFn.toNat = y % M)
    (hfn : fn.toNat = x % M) (hle : x ≤ y) (hlt : y < x + M) :
    wrapped M curFn fn = (y % M : Nat) - ((y : Int) - x) := by
  obtain ⟨k, rfl⟩ := Nat.exists_eq_add_of_le hle
  have hM : 0 < M := by omega
  have hk : k % M = k := Nat.mod_eq_of_lt (by omega)
  have hx := Nat.mod_lt x hM
  unfold wrapped
  rw [hcur, hfn, Nat.add_mod_eq_ite, hk]
  split <;> split <;> push_cast <;> omega

/-- FrameNumWrap grows along the pictures. -/
def InOrder (maxFn : Int) (curFn : BitVec 16) (w : List Decoded) : Prop :=
  w.Pairwise fun p q => wrapped maxFn curFn p.parsed.frameNum < wrapped maxFn curFn
    q.parsed.frameNum

/-- So in a window of at most `M` pictures, the older one has the lesser FrameNumWrap. -/
theorem Numbered.inOrder (h : Numbered M t w) {curFn : BitVec 16} {y : Nat}
    (hcur : curFn.toNat = y % M) (hle : t + w.length ≤ y + 1) (hlt : y < t + M) :
    InOrder M curFn w := by
  have hwrap : ∀ t w, Numbered M t w → t + w.length ≤ y + 1 → y < t + M → ∀ q ∈ w, ∃ x,
      t ≤ x ∧ x ≤ y ∧ wrapped M curFn q.parsed.frameNum = (y % M : Nat) - ((y : Int) - x) := by
    intro t w h
    induction w generalizing t with
    | nil => simp
    | cons p w ih =>
      intro hle hlt q hq
      simp only [List.length_cons] at hle
      rcases List.mem_cons.mp hq with rfl | hq
      · exact ⟨t, le_refl t, by omega,
          wrapped_eq hcur (numbered_cons.mp h).1 (by omega) hlt⟩
      · obtain ⟨x, hx, hxy, heq⟩ := ih (t + 1) (numbered_cons.mp h).2 (by omega) (by omega) q hq
        exact ⟨x, by omega, hxy, heq⟩
  induction w generalizing t with
  | nil => exact .nil
  | cons p w ih =>
    simp only [List.length_cons] at hle
    have hrest := (numbered_cons.mp h).2
    refine .cons ?_ (ih hrest (by omega) (by omega))
    intro q hq
    obtain ⟨x, hx, -, heq⟩ := hwrap (t + 1) w hrest (by omega) (by omega) q hq
    rw [heq, wrapped_eq hcur (numbered_cons.mp h).1 (by omega) hlt]
    omega

end Numbers

section Sorting

variable {maxFn : Int} {curFn : BitVec 16} {refs sorted : List CompactRef}

theorem sortByWrap_eq : sortByWrap maxFn curFn refs = (refs.reverse.insertionSort
    fun a b => wrapped maxFn curFn b.frameNum ≤ wrapped maxFn curFn a.frameNum).reverse := by
  unfold sortByWrap
  rw [List.foldl_eq_foldr_reverse]
  rfl

/-- Entries of different FrameNumWrap have one order only. -/
theorem sortByWrap_of_perm (hperm : sorted.Perm refs)
    (hsorted : sorted.Pairwise fun a b =>
      wrapped maxFn curFn a.frameNum < wrapped maxFn curFn b.frameNum) :
    sortByWrap maxFn curFn refs = sorted := by
  let r : CompactRef → CompactRef → Prop := fun a b =>
    wrapped maxFn curFn b.frameNum ≤ wrapped maxFn curFn a.frameNum
  have : Std.Total r := ⟨fun a b => le_total _ _⟩
  have : IsTrans CompactRef r := ⟨fun a b c hab hbc => le_trans hbc hab⟩
  have hback : sorted.reverse.Pairwise r := by
    rw [List.pairwise_reverse]
    exact hsorted.imp fun h => le_of_lt h
  have hsort : (refs.reverse.insertionSort r).Pairwise r := List.pairwise_insertionSort r _
  have hsame : (refs.reverse.insertionSort r).Perm sorted.reverse :=
    (List.perm_insertionSort r _).trans
      (refs.reverse_perm.trans (hperm.symm.trans sorted.reverse_perm.symm))
  have heq : refs.reverse.insertionSort r = sorted.reverse := by
    refine hsame.eq_of_pairwise ?_ hsort hback
    intro a b ha hb hab hba
    rw [hsame.mem_iff, List.mem_reverse] at ha
    rw [List.mem_reverse] at hb
    have hnodup : (sorted.map fun c => wrapped maxFn curFn c.frameNum).Nodup :=
      List.pairwise_map.mpr (hsorted.imp ne_of_lt)
    exact List.inj_on_of_nodup_map hnodup ha hb (le_antisymm hba hab)
  rw [sortByWrap_eq, heq, List.reverse_reverse]

end Sorting

section Eviction

variable {d : DpbCtx} {w : List Decoded} {p : Decoded} {i j : SlotIdx}
  {o : Option SlotIdx} {n : Nat}

theorem olderShortTerm_cases : olderShortTerm d o i = o ∧
      ((d.slots i).ref.isShortTerm = true → ∃ k, o = some k ∧ frameNumWrap d k ≤ frameNumWrap d i) ∨
    olderShortTerm d o i = some i ∧ (d.slots i).ref.isShortTerm = true ∧
      ∀ k, o = some k → frameNumWrap d i < frameNumWrap d k := by
  unfold olderShortTerm
  by_cases hi : (d.slots i).ref.isShortTerm = true
  · rw [if_pos hi]
    cases o with
    | none => exact .inr ⟨rfl, hi, by simp⟩
    | some k =>
      by_cases hlt : frameNumWrap d i < frameNumWrap d k
      · refine .inr ⟨if_pos hlt, hi, ?_⟩
        intro k' hk'
        obtain rfl := Option.some.inj hk'
        exact hlt
      · exact .inl ⟨if_neg hlt, fun _ => ⟨k, rfl, not_lt.mp hlt⟩⟩
  · exact .inl ⟨if_neg hi, fun h => absurd h hi⟩

/-- The scan ends at a short-term slot of least FrameNumWrap. -/
theorem foldl_olderShortTerm_le {l : List SlotIdx}
    (h : l.foldl (olderShortTerm d) o = some i) :
    (∀ k, o = some k → frameNumWrap d i ≤ frameNumWrap d k) ∧
      ∀ j ∈ l, (d.slots j).ref.isShortTerm = true → frameNumWrap d i ≤ frameNumWrap d j := by
  induction l generalizing o with
  | nil =>
    refine ⟨?_, by simp⟩
    rintro k rfl
    rw [Option.some.inj h]
  | cons a l ih =>
    obtain ⟨hstart, hrest⟩ := ih h
    rcases olderShortTerm_cases (d := d) (o := o) (i := a) with ⟨hsame, hle⟩ | ⟨htake, -, hlt⟩
    · rw [hsame] at hstart
      refine ⟨hstart, ?_⟩
      intro j hj hshort
      rcases List.mem_cons.mp hj with rfl | hj
      · obtain ⟨k, hk, hkj⟩ := hle hshort
        exact (hstart k hk).trans hkj
      · exact hrest j hj hshort
    · have ha := hstart a htake
      refine ⟨fun k hk => ha.trans (hlt k hk).le, ?_⟩
      intro j hj hshort
      rcases List.mem_cons.mp hj with rfl | hj
      · exact ha
      · exact hrest j hj hshort

/-- A short-term slot of a FrameNumWrap below all others is the oldest. -/
theorem oldestShortTerm_eq (hi : (d.slots i).ref.isShortTerm = true)
    (hlt : ∀ j, j ≠ i → (d.slots j).ref.isShortTerm = true → frameNumWrap d i < frameNumWrap d j) :
    oldestShortTerm d = some i := by
  obtain ⟨k, hk, hshort⟩ :=
    foldl_olderShortTerm (d := d) (l := allSlots) (o := none) (by simp)
      (.inr ⟨i, by simp [allSlots], hi⟩)
  have hle := (foldl_olderShortTerm_le hk).2 i (by simp [allSlots]) hi
  by_cases heq : k = i
  · rw [← heq]
    exact hk
  · have := hlt k heq hshort
    omega

/-- One reference too many is one eviction. -/
theorem slideWindow_one (h : shortTermCount d = n + 1) :
    slideWindow n poolSize d = evictOldestShortTerm d := by
  have hcount : shortTermCount (evictOldestShortTerm d) ≤ n := by
    have hle : shortTermCount (slideWindow n 1 d) ≤ n := shortTermCount_slideWindow h.le
    simpa [slideWindow, h] using hle
  have hturn : slideWindow n (poolSize - 1 + 1) d =
      slideWindow n (poolSize - 1) (evictOldestShortTerm d) := by
    rw [slideWindow, if_neg (by omega)]
  have hstop : slideWindow n (poolSize - 2 + 1) (evictOldestShortTerm d) =
      evictOldestShortTerm d := by
    rw [slideWindow, if_pos hcount]
  exact hturn.trans hstop

theorem slideWindow_zero (h : shortTermCount d ≤ n) : slideWindow n poolSize d = d := by
  have hturn : slideWindow n (poolSize - 1 + 1) d = d := by
    rw [slideWindow, if_pos h]
  exact hturn

end Eviction

section Marking

variable {d d' : DpbCtx} {w : List Decoded} {p : Decoded} {parsed : Parsed} {i j slot : SlotIdx}
  {h : HoldPattern} {n : Nat}

@[simp] theorem setHolds_ref : ((setHolds d h).slots i).ref = (d.slots i).ref := rfl

@[simp] theorem setHolds_codec : (setHolds d h).codec = d.codec := rfl

/-- The pictures are references, and none of them is a long-term one. -/
def ShortTerm (w : List Decoded) : Prop :=
  ∀ p ∈ w, p.parsed.nalRefIdc ≠ 0 ∧ p.parsed.idrLongTermReferenceFlag = false

theorem Keeps.congr (hkeeps : Keeps d w) (href : ∀ i, (d'.slots i).ref = (d.slots i).ref) :
    Keeps d' w where
  nodup := hkeeps.nodup
  stored := fun p hp => (href p.slot).trans (hkeeps.stored p hp)
  refs := fun i => by
    rw [href]
    exact hkeeps.refs i

/-- A picture is put into a slot that has no reference. -/
theorem Keeps.put (hkeeps : Keeps d w) (hfree : (d.slots slot).ref.inUse = false)
    (hslot : (d'.slots slot).ref = parsed.refState)
    (hother : ∀ j, j ≠ slot → (d'.slots j).ref = (d.slots j).ref) :
    slot ∉ w.map Decoded.slot ∧
      Keeps d' (w ++ if parsed.nalRefIdc ≠ 0 then [⟨slot, parsed⟩] else []) := by
  have hfresh : slot ∉ w.map Decoded.slot := by
    rw [← hkeeps.refs slot, hfree]
    simp
  have hkept : ∀ p ∈ w, (d'.slots p.slot).ref = p.parsed.refState := by
    intro p hp
    have hne : p.slot ≠ slot := fun h => hfresh (h ▸ List.mem_map_of_mem hp)
    rw [hother p.slot hne]
    exact hkeeps.stored p hp
  refine ⟨hfresh, ?_⟩
  split
  · rename_i href
    refine ⟨?_, ?_, ?_⟩
    · rw [List.map_append, List.nodup_append]
      refine ⟨hkeeps.nodup, List.nodup_singleton _, ?_⟩
      intro a ha b hb heq
      obtain rfl := List.mem_singleton.mp hb
      exact hfresh (heq ▸ ha)
    · intro p hp
      rcases List.mem_append.mp hp with hp | hp
      · exact hkept p hp
      · obtain rfl := List.mem_singleton.mp hp
        exact hslot
    · intro i
      by_cases hi : i = slot
      · subst hi
        simp [hslot, Parsed.refState, href]
      · rw [hother i hi, hkeeps.refs i]
        simp [hi]
  · rename_i href
    rw [List.append_nil]
    refine ⟨hkeeps.nodup, hkept, ?_⟩
    intro i
    by_cases hi : i = slot
    · subst hi
      have hnot : ((d'.slots i).ref.inUse && (d'.slots i).ref.isRef) = false := by
        simp only [ne_eq, not_not] at href
        simp [hslot, Parsed.refState, href]
      rw [hnot]
      simp [hfresh]
    · rw [hother i hi]
      exact hkeeps.refs i

/-- The oldest picture leaves. -/
theorem Keeps.clear (hkeeps : Keeps d (p :: w)) : Keeps (slotClear d p.slot) w := by
  have hnodup := List.nodup_cons.mp hkeeps.nodup
  refine ⟨hnodup.2, ?_, ?_⟩
  · intro q hq
    have hne : q.slot ≠ p.slot := fun h => hnodup.1 (h ▸ List.mem_map_of_mem hq)
    rw [slots_slotClear, if_neg hne]
    exact hkeeps.stored q (List.mem_cons_of_mem p hq)
  · intro i
    rw [slots_slotClear]
    by_cases hi : i = p.slot
    · rw [if_pos hi, hi]
      simp only [RefState.cleared, Bool.false_and, Bool.false_eq_true, false_iff]
      exact hnodup.1
    · rw [if_neg hi, hkeeps.refs i]
      simp [hi]

/-- Clearing a slot without a reference. -/
theorem Keeps.release (hkeeps : Keeps d w) (hslot : slot ∉ w.map Decoded.slot) :
    Keeps (slotClear d slot) w := by
  refine ⟨hkeeps.nodup, ?_, ?_⟩
  · intro q hq
    have hne : q.slot ≠ slot := fun h => hslot (h ▸ List.mem_map_of_mem hq)
    rw [slots_slotClear, if_neg hne]
    exact hkeeps.stored q hq
  · intro i
    rw [slots_slotClear]
    by_cases hi : i = slot
    · subst hi
      simp [RefState.cleared, hslot]
    · rw [if_neg hi]
      exact hkeeps.refs i

theorem Keeps.isShortTerm (hkeeps : Keeps d w) (hw : ShortTerm w) :
    (d.slots i).ref.isShortTerm = true ↔ i ∈ w.map Decoded.slot := by
  rw [← hkeeps.refs i]
  constructor
  · intro hshort
    simp only [RefState.isShortTerm, Bool.and_eq_true] at hshort
    simp [hshort.1]
  · intro href
    obtain ⟨p, hp, rfl⟩ := List.mem_map.mp ((hkeeps.refs i).mp href)
    rw [RefState.isShortTerm, href, hkeeps.stored p hp]
    simp [Parsed.refState, (hw p hp).2]

theorem Keeps.count (hkeeps : Keeps d w) (hw : ShortTerm w) : shortTermCount d = w.length := by
  have hperm : (allSlots.filter fun i => (d.slots i).ref.isShortTerm).Perm
      (w.map Decoded.slot) := by
    refine (List.perm_ext_iff_of_nodup ((List.nodup_finRange poolSize).filter _) hkeeps.nodup).mpr
      ?_
    intro i
    simp [hkeeps.isShortTerm hw]
  rw [shortTermCount, List.countP_eq_length_filter, hperm.length_eq, List.length_map]

/-- The oldest picture by its number is the one that is evicted. -/
theorem Keeps.evict (hkeeps : Keeps d (p :: w)) (hw : ShortTerm (p :: w))
    (hmax : d.codec.maxFrameNum ≠ 0)
    (hsorted : InOrder d.codec.maxFrameNum d.codec.currPicNum (p :: w)) :
    Keeps (evictOldestShortTerm d) w := by
  have hwrap : ∀ q ∈ p :: w, frameNumWrap d q.slot =
      wrapped d.codec.maxFrameNum d.codec.currPicNum q.parsed.frameNum := by
    intro q hq
    have hfn : (d.slots q.slot).ref.frameNum = q.parsed.frameNum :=
      congrArg RefState.frameNum (hkeeps.stored q hq)
    simp [frameNumWrap, wrapped, hfn, hmax]
  have hold : oldestShortTerm d = some p.slot := by
    refine oldestShortTerm_eq ((hkeeps.isShortTerm hw).mpr (by simp)) ?_
    intro j hne hshort
    obtain ⟨q, hq, rfl⟩ := List.mem_map.mp ((hkeeps.isShortTerm hw).mp hshort)
    rw [hwrap p List.mem_cons_self, hwrap q hq]
    rcases List.mem_cons.mp hq with rfl | hq
    · exact absurd rfl hne
    · exact List.rel_of_pairwise_cons hsorted hq
  have hevict : Keeps (slotClear d p.slot) w := hkeeps.clear
  unfold evictOldestShortTerm
  rw [hold]
  exact hevict.congr fun i => by simp [slots_slotClear]

theorem ref_foldl_slotClear {l : List SlotIdx} :
    ((l.foldl slotClear d).slots j).ref = if j ∈ l then .cleared else (d.slots j).ref := by
  induction l generalizing d with
  | nil => simp
  | cons i l ih =>
    rw [List.foldl_cons, ih, slots_slotClear]
    by_cases hj : j = i <;> simp [hj]

/-- An IDR picture starts from an empty pool. -/
theorem keeps_clearForIdr (hidr : parsed.isIdr = true) : Keeps (clearForIdr d parsed) [] := by
  refine ⟨List.nodup_nil, by simp, ?_⟩
  intro i
  have hclear : ((clearForIdr d parsed).slots i).ref = .cleared := by
    unfold clearForIdr
    rw [if_pos hidr]
    exact ref_foldl_slotClear.trans (if_pos (List.mem_finRange i))
  simp [hclear, RefState.cleared]

theorem clearForIdr_of_not (hidr : parsed.isIdr = false) : clearForIdr d parsed = d := by
  simp [clearForIdr, hidr]

/-- What `Dpb_Select` leaves in the pool when `find_free` has a slot. -/
structure Selects (d : DpbCtx) (parsed : Parsed) (slot : SlotIdx) (d' : DpbCtx) : Prop where
  free : ((clearForIdr d parsed).slots slot).ref.inUse = false
  put : (d'.slots slot).ref = parsed.refState
  other : ∀ j, j ≠ slot → (d'.slots j).ref = ((clearForIdr d parsed).slots j).ref
  current : d'.currentIdx = some slot
  adaptive : d'.codec.pendingAdaptive = (!parsed.isIdr && parsed.adaptiveRefPicMarkingModeFlag)
  maxRefs : d'.codec.maxNumRefFrames = max parsed.maxNumRefFrames 1
  maxFrameNum : d'.codec.maxFrameNum = 2 ^ (parsed.log2MaxFrameNumMinus4 + 4) % 2 ^ 32
  currPicNum : d'.codec.currPicNum = parsed.frameNum

theorem selects_of_select (hselect : select d parsed = some (.ok, some slot, d'))
    (hslice : parsed.hasSlice = true) (hfree : (findFree (clearForIdr d parsed)).isSome = true) :
    Selects d parsed slot d' := by
  obtain ⟨i, hi⟩ := Option.isSome_iff_exists.mp hfree
  unfold select at hselect
  rw [if_neg (by simp [hslice])] at hselect
  dsimp only at hselect
  generalize hclear : (if parsed.isIdr then
    ({ allSlots.foldl slotClear d with codec := { (allSlots.foldl slotClear d).codec with
      maxLongTermFrameIdx := if parsed.idrLongTermReferenceFlag then 0 else -1 } } : DpbCtx)
    else d) = c at hselect
  have heq : clearForIdr d parsed = c := hclear
  rw [heq] at hi
  have hpick : pickSlot c = (some i, c) := by
    simp [pickSlot, hi]
  rw [hpick] at hselect
  dsimp only at hselect
  split at hselect
  · contradiction
  · rename_i hassert
    simp only [Option.some.injEq, Prod.mk.injEq, true_and] at hselect
    obtain ⟨rfl, rfl⟩ := hselect
    simp only [Bool.or_eq_true, not_or, Bool.not_eq_true] at hassert
    refine ⟨heq ▸ hassert.1.1.1, ?_, ?_, rfl, rfl, ?_, rfl, rfl⟩
    · simp [Parsed.refState]
    · intro j hj
      simp [hj, heq]
    · dsimp only
      split <;> omega

end Marking

section Completion

variable {d : DpbCtx} {w : List Decoded} {p : Decoded} {slot : SlotIdx} {n : Nat}

/-- The picture in flight is done. -/
def finished (d : DpbCtx) : DpbCtx :=
  { d with currentIdx := none, codec := { d.codec with lastBumpedPoc := int32Min } }

theorem onDecodeComplete_nonref (hcur : d.currentIdx = some slot)
    (href : (d.slots slot).ref.isRef = false) :
    onDecodeComplete d = dropPending (slotClear (finished d) slot) := by
  simp [onDecodeComplete, finished, hcur, href]

theorem onDecodeComplete_window (hcur : d.currentIdx = some slot)
    (href : (d.slots slot).ref.isRef = true) (hadaptive : d.codec.pendingAdaptive = false)
    (hmax : d.codec.maxNumRefFrames = n) (hn : n ≠ 0) :
    onDecodeComplete d = dropPending (slideWindow n poolSize (finished d)) := by
  simp [onDecodeComplete, finished, hcur, href, hadaptive, hmax, hn]

/-- What leaves the window when a reference picture enters it. -/
theorem Keeps.complete (hkeeps : Keeps d (w ++ [p])) (hw : ShortTerm (w ++ [p]))
    (hcur : d.currentIdx = some p.slot) (hadaptive : d.codec.pendingAdaptive = false)
    (hmax : d.codec.maxNumRefFrames = n) (hn : n ≠ 0) (hlen : w.length ≤ n)
    (hfn : d.codec.maxFrameNum ≠ 0)
    (hsorted : InOrder d.codec.maxFrameNum d.codec.currPicNum (w ++ [p])) :
    Keeps (onDecodeComplete d) ((w ++ [p]).rtake n) := by
  have href : (d.slots p.slot).ref.isRef = true := by
    have hin := (hkeeps.refs p.slot).mpr (by simp)
    simp only [Bool.and_eq_true] at hin
    exact hin.2
  rw [onDecodeComplete_window hcur href hadaptive hmax hn]
  have hdone : Keeps (finished d) (w ++ [p]) := hkeeps.congr fun _ => rfl
  have hcount := hdone.count hw
  rw [List.length_append, List.length_singleton] at hcount
  by_cases hfull : w.length = n
  · have hdrop : (w ++ [p]).rtake n = (w ++ [p]).drop 1 := by
      simp [List.rtake, hfull]
    rw [hdrop, slideWindow_one (by omega)]
    obtain ⟨q, rest, hcons⟩ := List.exists_cons_of_ne_nil (show w ++ [p] ≠ [] by simp)
    rw [hcons] at hdone hw hsorted ⊢
    exact (hdone.evict hw hfn hsorted).congr fun _ => rfl
  · have hall : (w ++ [p]).rtake n = w ++ [p] := by
      have : w.length + 1 - n = 0 := by omega
      simp [List.rtake, this]
    rw [hall, slideWindow_zero (by omega)]
    exact hdone.congr fun _ => rfl

end Completion

section Selections

variable {d d' : DpbCtx} {w : List Decoded} {parsed : Parsed} {slot : SlotIdx}

/-- The compact view is the window in decode order. -/
theorem Keeps.exposes (hkeeps : Keeps (clearForIdr d parsed) w) (hsel : Selects d parsed slot d')
    (hsorted : InOrder (2 ^ (parsed.log2MaxFrameNumMinus4 + 4) % 2 ^ 32 : Nat) parsed.frameNum w) :
    (selection d' slot parsed).Exposes w := by
  have hfresh : slot ∉ w.map Decoded.slot := by
    rw [← hkeeps.refs slot, hsel.free]
    simp
  have hview : w.map Decoded.compact =
      (w.map Decoded.slot).map fun i => compactRef i (d'.slots i).ref := by
    rw [List.map_map]
    refine List.map_congr_left ?_
    intro p hp
    have hne : p.slot ≠ slot := fun h => hfresh (h ▸ List.mem_map_of_mem hp)
    simp [Decoded.compact, hsel.other p.slot hne, hkeeps.stored p hp]
  have hperm : (w.map Decoded.compact).Perm (collectRefs d' slot) := by
    rw [hview, collectRefs]
    refine List.Perm.map _ ((List.perm_ext_iff_of_nodup hkeeps.nodup
      ((List.nodup_finRange poolSize).filter _)).mpr ?_)
    intro i
    rw [List.mem_filter, ← hkeeps.refs i]
    by_cases hi : i = slot
    · subst hi
      simp [hsel.free]
    · simp [hi, hsel.other i hi]
  have hcompact : sortByWrap (2 ^ (parsed.log2MaxFrameNumMinus4 + 4) % 2 ^ 32 : Nat) parsed.frameNum
      (collectRefs d' slot) = w.map Decoded.compact :=
    sortByWrap_of_perm hperm (List.pairwise_map.mpr hsorted)
  unfold selection
  simp only [hcompact, List.length_map, List.map_map]
  refine ⟨rfl, ?_⟩
  have hslots : w.map (CompactRef.poolIdx ∘ Decoded.compact) = w.map Decoded.slot := rfl
  rw [hslots]
  exact List.take_left' (List.length_map _)

theorem Selects.complete (hsel : Selects d parsed slot d') (hkeeps : Keeps (clearForIdr d parsed) w)
    (hw : ShortTerm w) (hlong : parsed.idrLongTermReferenceFlag = false)
    (hadaptive : parsed.adaptiveRefPicMarkingModeFlag = false) {n : Nat}
    (hn : max parsed.maxNumRefFrames 1 = n) (hlen : w.length ≤ n)
    (hM : 2 ^ (parsed.log2MaxFrameNumMinus4 + 4) % 2 ^ 32 ≠ 0)
    (horder : InOrder (2 ^ (parsed.log2MaxFrameNumMinus4 + 4) % 2 ^ 32 : Nat) parsed.frameNum
      (w ++ [(⟨slot, parsed⟩ : Decoded)])) (holds : HoldPattern) :
    Keeps (onDecodeComplete (setHolds d' holds))
      (if parsed.nalRefIdc ≠ 0 then List.rtake (w ++ [⟨slot, parsed⟩]) n else w) := by
  obtain ⟨hfresh, hput⟩ := hkeeps.put hsel.free hsel.put hsel.other
  have hheld : Keeps (setHolds d' holds) _ := hput.congr fun _ => setHolds_ref
  have hcur : (setHolds d' holds).currentIdx = some slot := hsel.current
  split
  · rename_i href
    rw [if_pos href] at hheld
    refine hheld.complete ?_ hcur ?_ (hsel.maxRefs.trans hn) (by omega) hlen ?_ ?_
    · intro p hp
      rcases List.mem_append.mp hp with hp | hp
      · exact hw p hp
      · obtain rfl := List.mem_singleton.mp hp
        exact ⟨href, hlong⟩
    · simp [hsel.adaptive, hadaptive]
    · rw [setHolds_codec, hsel.maxFrameNum]
      exact hM
    · rw [setHolds_codec, hsel.maxFrameNum, hsel.currPicNum]
      exact horder
  · rename_i href
    rw [if_neg href, List.append_nil] at hheld
    have hnonref : ((setHolds d' holds).slots slot).ref.isRef = false := by
      rw [setHolds_ref, hsel.put]
      simpa [Parsed.refState] using href
    rw [onDecodeComplete_nonref hcur hnonref]
    exact (hheld.release hfresh).congr fun i => by simp [dropPending, finished, slots_slotClear]

end Selections

section Runs

variable {st : Stream} {s s' : Track} {pic : Picture} {refs : List Decoded} {p : Decoded}

theorem length_last : (st.last refs).length = min st.window refs.length := by
  simp only [Stream.last, List.rtake, List.length_drop]
  omega

theorem last_snoc : st.last (refs ++ [p]) = (st.last refs ++ [p]).rtake st.window := by
  have hpos : 0 < st.window := by
    unfold Stream.window
    omega
  unfold Stream.last List.rtake
  by_cases hfull : st.window ≤ refs.length
  · have hdrop : refs.length + 1 - st.window = refs.length - st.window + 1 := by omega
    have hone : refs.length - (refs.length - st.window) + 1 - st.window = 1 := by omega
    simp only [List.length_append, List.length_singleton, List.length_drop, hdrop, hone]
    rw [← List.drop_drop, List.drop_append_of_le_length (by omega)]
  · have hdrop : refs.length - st.window = 0 := by omega
    simp [hdrop]

/-- The number of the next picture. -/
theorem next_number {first : Bool} {parsed : Parsed} (hnum : ∃ t, Numbered st.maxFrameNum t refs)
    (h : st.Follows refs first parsed) : ∃ t, Numbered st.maxFrameNum t refs ∧
      parsed.frameNum.toNat = (t + refs.length) % st.maxFrameNum := by
  obtain ⟨-, -, hlt, hnext⟩ := h
  rcases List.eq_nil_or_concat' refs with rfl | ⟨front, q, rfl⟩
  · exact ⟨parsed.frameNum.toNat, numbered_nil, (Nat.mod_eq_of_lt hlt).symm⟩
  · obtain ⟨t, hnum⟩ := hnum
    refine ⟨t, hnum, ?_⟩
    have hlast := (numbered_snoc.mp hnum).2
    rw [List.getLast?_concat] at hnext
    have hsucc : parsed.frameNum.toNat = (q.parsed.frameNum.toNat + 1) % st.maxFrameNum := by
      simpa using hnext
    rw [hsucc, hlast, Nat.mod_add_mod, List.length_append, List.length_singleton, Nat.add_assoc]

/-- What a sequence keeps from picture to picture. -/
structure Tracks (st : Stream) (s : Track) : Prop where
  numbered : ∃ t, Numbered st.maxFrameNum t s.refs
  short : ShortTerm s.refs
  start : s.shown = none → s.refs = []
  keeps : s.shown ≠ none → Keeps s.dpb (st.last s.refs)
  exposes : ∀ sel before, s.shown = some (sel, before) → sel.Exposes (st.last before)

theorem Tracks.select (h : Tracks st s) (hidr : pic.parsed.isIdr = s.shown.isNone) :
    Keeps (clearForIdr (setHolds s.dpb pic.holds) pic.parsed) (st.last s.refs) := by
  cases hshown : s.shown with
  | none =>
    have hnil : st.last s.refs = [] := by simp [h.start hshown, Stream.last]
    rw [hnil]
    exact keeps_clearForIdr (by simp [hidr, hshown])
  | some r =>
    rw [clearForIdr_of_not (by simp [hidr, hshown])]
    exact (h.keeps (by simp [hshown])).congr fun _ => setHolds_ref

/-- A picture of the stream moves the window on by itself, or not at all. -/
theorem Tracks.step (hwindow : st.window < 16) (hmax : 16 ≤ st.maxFrameNum) (h : Tracks st s)
    (hstep : st.step s pic = some s') : Tracks st s' := by
  unfold Stream.step at hstep
  split at hstep
  · rename_i hguard
    obtain ⟨hfollows, hfree⟩ := hguard
    obtain ⟨r, hdecode, rfl⟩ := Option.map_eq_some_iff.mp hstep
    unfold decodePicture at hdecode
    split at hdecode
    · rename_i slot d hselect
      obtain rfl := Option.some.inj hdecode
      obtain ⟨⟨hslice, hidr, hrefs, hlog⟩, ⟨hlong, hadaptive⟩, -⟩ := id hfollows
      have hselects := selects_of_select hselect hslice hfree
      have hkeeps := h.select hidr
      obtain ⟨hfresh, hput⟩ := hkeeps.put hselects.free hselects.put hselects.other
      obtain ⟨t, hnum, hfn⟩ := next_number h.numbered hfollows
      have hlen : (st.last s.refs).length = min st.window s.refs.length := length_last
      have hwin : Numbered st.maxFrameNum (t + (s.refs.length - st.window)) (st.last s.refs) :=
        hnum.drop _
      have hshort : ShortTerm (st.last s.refs) := fun p hp => h.short p (List.mem_of_mem_drop hp)
      have hM : 2 ^ (pic.parsed.log2MaxFrameNumMinus4 + 4) % 2 ^ 32 = st.maxFrameNum := by
        rw [hlog]
        rfl
      refine ⟨?_, ?_, by simp, ?_, ?_⟩
      · refine ⟨t, ?_⟩
        dsimp only
        split
        · exact numbered_snoc.mpr ⟨hnum, hfn⟩
        · exact hnum
      · intro p hp
        dsimp only at hp
        split at hp
        · rename_i href
          rcases List.mem_append.mp hp with hp | hp
          · exact h.short p hp
          · obtain rfl := List.mem_singleton.mp hp
            exact ⟨href, hlong⟩
        · exact h.short p hp
      · intro _
        have hnext : InOrder st.maxFrameNum pic.parsed.frameNum
            (st.last s.refs ++ [⟨slot, pic.parsed⟩]) := by
          have hsnoc : Numbered st.maxFrameNum (t + (s.refs.length - st.window))
              (st.last s.refs ++ [⟨slot, pic.parsed⟩]) := by
            refine numbered_snoc.mpr ⟨hwin, ?_⟩
            have hy : t + (s.refs.length - st.window) + (st.last s.refs).length =
                t + s.refs.length := by omega
            rw [hy]
            exact hfn
          refine hsnoc.inOrder hfn ?_ (by omega)
          rw [List.length_append, List.length_singleton]
          omega
        have hdone := hselects.complete hkeeps hshort hlong hadaptive (n := st.window)
          (congrArg (max · 1) hrefs) (by omega) (by omega) (hM ▸ hnext) pic.holdsAfter
        dsimp only
        split
        · rename_i href
          rw [if_pos href] at hdone
          rw [last_snoc]
          exact hdone
        · rename_i href
          rw [if_neg href] at hdone
          exact hdone
      · intro sel before hshown
        simp only [Option.some.injEq, Prod.mk.injEq] at hshown
        obtain ⟨rfl, rfl⟩ := hshown
        refine hkeeps.exposes hselects ?_
        rw [hM]
        exact hwin.inOrder hfn (by omega) (by omega)
    · contradiction
  · contradiction

theorem tracks_start (d : DpbCtx) : Tracks st { dpb := d } :=
  ⟨⟨0, numbered_nil⟩, by simp [ShortTerm], by simp, by simp, by simp⟩

theorem Tracks.play (hwindow : st.window < 16) (hmax : 16 ≤ st.maxFrameNum) {pics : List Picture}
    (h : Tracks st s) (hplay : pics.foldlM st.step s = some s') : Tracks st s' := by
  induction pics generalizing s with
  | nil =>
    obtain rfl := Option.some.inj hplay
    exact h
  | cons pic pics ih =>
    rw [List.foldlM_cons] at hplay
    obtain ⟨s₁, hstep, hrest⟩ := Option.bind_eq_some_iff.mp hplay
    exact ih (h.step hwindow hmax hstep) hrest

/-- Whatever the pool held before the IDR and however often `frame_num` wraps after it, the
reference slots are those of the last reference pictures, and every picture is decoded against
them. -/
theorem sliding_window_exact (st : Stream) (hwindow : st.window < 16) (hmax : 16 ≤ st.maxFrameNum)
    (d : DpbCtx) (pics : List Picture) (s : Track) (hplay : st.play d pics = some s) :
    (s.shown ≠ none → Keeps s.dpb (st.last s.refs)) ∧
      ∀ sel before, s.shown = some (sel, before) → sel.Exposes (st.last before) := by
  have h : Tracks st s := (tracks_start d).play hwindow hmax hplay
  exact ⟨h.keeps, h.exposes⟩

/-- Picture `k` of a stream with a 4-bit counter: an IDR, then P pictures, the fifth of which is no
reference. -/
def wrapPicture (k : Nat) : Picture where
  parsed :=
    { hasSps := true
      hasSlice := true
      isIdr := k == 0
      idrLongTermReferenceFlag := false
      nalRefIdc := if k = 5 then 0 else 1
      frameNum := BitVec.ofNat 16 ((if k ≤ 5 then k else k - 1) % 16)
      topFieldOrderCnt := 2 * k
      bottomFieldOrderCnt := 2 * k
      adaptiveRefPicMarkingModeFlag := false
      mmco := []
      maxNumRefFrames := 2
      log2MaxFrameNumMinus4 := 0 }

theorem sliding_window_exact_wrap :
    ∃ s, Stream.play ⟨2, 0⟩ init ((List.range 19).map wrapPicture) = some s ∧
    s.refs.length = 18 ∧ Keeps s.dpb (Stream.last ⟨2, 0⟩ s.refs) ∧
    ∀ sel before, s.shown = some (sel, before) → sel.Exposes (Stream.last ⟨2, 0⟩ before) := by
  obtain ⟨s, hs⟩ := Option.isSome_iff_exists.mp (show
    (Stream.play ⟨2, 0⟩ init ((List.range 19).map wrapPicture)).isSome = true by decide +kernel)
  have hshape : (Stream.play ⟨2, 0⟩ init ((List.range 19).map wrapPicture)).map
      (fun s => (s.refs.length, s.shown.isSome)) = some (18, true) := by decide +kernel
  rw [hs] at hshape
  simp only [Option.map_some, Option.some.injEq, Prod.mk.injEq] at hshape
  obtain ⟨hkeeps, hexposes⟩ := sliding_window_exact ⟨2, 0⟩ (by decide) (by decide) init _ s hs
  refine ⟨s, hs, hshape.1, hkeeps ?_, hexposes⟩
  intro hnone
  simp [hnone] at hshape

end Runs

end Rkvdec.Engine.H264
