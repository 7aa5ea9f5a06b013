import Mathlib.Data.Prod.Lex
import Mathlib.Tactic
import Rkvdec.Bitstream.H264
import Rkvdec.Engine.LongTerm
import Rkvdec.Lib.StableSort

/-! The initial reference lists of H.264 as `Dpb_Select` builds them, and as 8.2.4.2 orders them. -/
namespace Rkvdec.Engine.H264

open Bitstream.H264 (sliceTypeP sliceTypeB sliceTypeI sliceTypeSi)
open Lib (exchangeSort exchangeSort_perm exchangeSort_pairwise Ahead pairwise_iff_agree)

section Lists

/-- `v4l2_h264_reference`. -/
structure Reference where
  index : Nat := 0
  fields : Nat := 0
deriving DecidableEq

/-- `RefSort`. -/
structure RefSort where
  compactIdx : Nat
  poc : Int
  frameNum : BitVec 16
deriving DecidableEq

/-- `ref_lists` of `DpbSelection`. -/
structure RefLists where
  list0 : List Reference := List.replicate 32 {}
  list1 : List Reference := List.replicate 32 {}
  list2 : List Reference := List.replicate 32 {}

/-- The lesser one of the two field order counts. -/
def framePoc (topPoc bottomPoc : Int) : Int := if bottomPoc < topPoc then bottomPoc else topPoc

def Parsed.maxFn (parsed : Parsed) : Int := (2 ^ (parsed.log2MaxFrameNumMinus4 + 4) % 2 ^ 32 : Nat)

def refSort (c : CompactRef) (i : Nat) : RefSort := ⟨i, framePoc c.topPoc c.bottomPoc, c.frameNum⟩

def refSorts (compact : List CompactRef) : List RefSort :=
  compact.zipIdx.map fun e => refSort e.1 e.2

/-- The entries of a list; what is behind them stays zero. -/
def fill (es : List RefSort) : List Reference :=
  (es.take 32).map (fun e => ⟨e.compactIdx, frameRef⟩) ++ List.replicate (32 - es.length)
    ({} : Reference)

def swapFirst {α : Type*} : List α → List α
  | a :: b :: l => b :: a :: l
  | l => l

/-- `past`: down from the picture's order count. -/
def pastRefs (curPoc : Int) (refs : List RefSort) : List RefSort :=
  exchangeSort (fun a b => a.poc < b.poc) (refs.filter fun e => e.poc ≤ curPoc)

/-- `future`: up from it. -/
def futureRefs (curPoc : Int) (refs : List RefSort) : List RefSort :=
  exchangeSort (fun a b => b.poc < a.poc) (refs.filter fun e => ¬ e.poc ≤ curPoc)

/-- `all`: down by FrameNumWrap. -/
def allRefs (parsed : Parsed) (refs : List RefSort) : List RefSort :=
  exchangeSort (fun a b => wrapped parsed.maxFn parsed.frameNum a.frameNum <
    wrapped parsed.maxFn parsed.frameNum b.frameNum) refs

/-- The lists that `Dpb_Select` builds over the compact references. -/
def refLists (parsed : Parsed) (sliceType : Nat) (compact : List CompactRef) : RefLists :=
  if parsed.isIdr = true ∨ compact.length = 0 then {}
  else
    let curPoc := framePoc parsed.topFieldOrderCnt parsed.bottomFieldOrderCnt
    let refs := refSorts compact
    let past := pastRefs curPoc refs
    let future := futureRefs curPoc refs
    let all := allRefs parsed refs
    if sliceType ≠ sliceTypeI ∧ sliceType ≠ sliceTypeSi then
      let list1 := past ++ future
      let list2 := future ++ past
      let same := list1.map RefSort.compactIdx = list2.map RefSort.compactIdx
      { list0 := fill all
        list1 := fill list1
        list2 := fill (if 1 < list2.length ∧ same then swapFirst list2 else list2) }
    else { list0 := fill all }

/-- The references that `Dpb_Select` lists for the picture it has put into `slot`. -/
def compactRefs (d : DpbCtx) (slot : SlotIdx) (parsed : Parsed) : List CompactRef :=
  sortByWrap parsed.maxFn parsed.frameNum (collectRefs d slot)

/-- `Dpb_Select` with what it fills in, for a picture whose first slice is of the type. -/
def selectLists (d : DpbCtx) (parsed : Parsed) (sliceType : Nat) :
    Option (Selection × RefLists × DpbCtx) :=
  match select d parsed with
  | some (.ok, some slot, d) =>
    some (selection d slot parsed, refLists parsed sliceType (compactRefs d slot parsed), d)
  | _ => none

/-- The slots that the entries of a list stand for. -/
def Selection.named (sel : Selection) (list : List Reference) : List SlotIdx :=
  (list.filter fun r => r.fields ≠ 0).filterMap fun r => sel.refs[r.index]?

end Lists

section Standard

/-- The reference slots beside the current picture. -/
def references (d : DpbCtx) (slot : SlotIdx) : List SlotIdx :=
  allSlots.filter fun i => i != slot && (d.slots i).ref.inUse && (d.slots i).ref.isRef

def isLong (d : DpbCtx) (i : SlotIdx) : Bool := (d.slots i).ref.longTerm

def longTermPicNum (d : DpbCtx) (i : SlotIdx) : Nat := (d.slots i).ref.longTermFrameIdx.toNat

/-- PicNum of a short-term frame, and what the same computation gives for a long-term one. -/
def picNum (d : DpbCtx) (parsed : Parsed) (i : SlotIdx) : Int :=
  wrapped (2 ^ (parsed.log2MaxFrameNumMinus4 + 4)) parsed.frameNum (d.slots i).ref.frameNum

def pocOf (d : DpbCtx) (i : SlotIdx) : Int := min (d.slots i).ref.topPoc (d.slots i).ref.bottomPoc

def Parsed.poc (parsed : Parsed) : Int := min parsed.topFieldOrderCnt parsed.bottomFieldOrderCnt

/-- The order of list 0 of a P slice. -/
def byPicNum (d : DpbCtx) (parsed : Parsed) (i : SlotIdx) : Int := -picNum d parsed i

/-- Before the picture by POC distance, then behind it. -/
def pastFirst (d : DpbCtx) (parsed : Parsed) (i : SlotIdx) : Bool ×ₗ Int :=
  toLex (decide (parsed.poc < pocOf d i), |pocOf d i - parsed.poc|)

def futureFirst (d : DpbCtx) (parsed : Parsed) (i : SlotIdx) : Bool ×ₗ Int :=
  toLex (decide (pocOf d i ≤ parsed.poc), |pocOf d i - parsed.poc|)

/-- Short-term references by the key, then the long-term ones by LongTermPicNum. -/
def Before {κ : Type*} [LT κ] (d : DpbCtx) (key : SlotIdx → κ) (i j : SlotIdx) : Prop :=
  if isLong d j then isLong d i → longTermPicNum d i < longTermPicNum d j
  else isLong d i = false ∧ key i < key j

/-- All references, in that order. -/
structure Initial {κ : Type*} [LT κ] (d : DpbCtx) (slot : SlotIdx) (key : SlotIdx → κ)
    (list : List SlotIdx) : Prop where
  perm : list.Perm (references d slot)
  ordered : list.Pairwise (Before d key)

/-- The lists of 8.2.4.2.1 and 8.2.4.2.3. -/
structure InitialLists (d : DpbCtx) (slot : SlotIdx) (parsed : Parsed) (l0 l1 l2 : List SlotIdx) :
    Prop where
  list0 : Initial d slot (byPicNum d parsed) l0
  list1 : Initial d slot (pastFirst d parsed) l1
  list2 : ∃ l, Initial d slot (futureFirst d parsed) l ∧
    l2 = if 1 < l.length ∧ l = l1 then swapFirst l else l

/-- No two short-term references have a PicNum or a POC in common, no two long-term ones an
index. -/
structure Distinct (d : DpbCtx) (slot : SlotIdx) (parsed : Parsed) : Prop where
  picNum : ∀ i ∈ references d slot, ∀ j ∈ references d slot, isLong d i = false →
    isLong d j = false →
    picNum d parsed i = picNum d parsed j → i = j
  poc : ∀ i ∈ references d slot, ∀ j ∈ references d slot, isLong d i = false → isLong d j = false →
    pocOf d i = pocOf d j → i = j
  index : ∀ i ∈ references d slot, ∀ j ∈ references d slot, isLong d i = true → isLong d j = true →
    longTermPicNum d i = longTermPicNum d j → i = j

/-- Where pictures tie, the earlier in decode order comes first. -/
def decodePos (d : DpbCtx) (parsed : Parsed) (i : SlotIdx) : Int ×ₗ SlotIdx :=
  toLex (picNum d parsed i, i)

/-- What the standard puts before a long-term reference is before it by the key as well. -/
def KeyBehind {κ : Type*} [LT κ] (d : DpbCtx) (slot : SlotIdx) (parsed : Parsed)
    (key : SlotIdx → κ) :
    Prop :=
  ∀ i ∈ references d slot, ∀ j ∈ references d slot, isLong d j = true → Before d key i j →
    Ahead key (decodePos d parsed) i j

/-- The keys, which do not look at the marking, put every long-term reference where the standard has
it. Of two references only, list 2 is right with either order. -/
structure LongTermInPlace (d : DpbCtx) (slot : SlotIdx) (parsed : Parsed) : Prop where
  byPicNum : KeyBehind d slot parsed (byPicNum d parsed)
  pastFirst : KeyBehind d slot parsed (pastFirst d parsed)
  futureFirst : KeyBehind d slot parsed (futureFirst d parsed) ∨ (references d slot).length = 2

end Standard

section Compact

variable {d : DpbCtx} {slot i : SlotIdx} {parsed : Parsed} {c : CompactRef}

theorem framePoc_eq {top bottom : Int} : framePoc top bottom = min top bottom := by
  unfold framePoc
  split <;> omega

theorem maxFn_eq (hlog : parsed.log2MaxFrameNumMinus4 ≤ 26) :
    parsed.maxFn = 2 ^ (parsed.log2MaxFrameNumMinus4 + 4) := by
  have hlt : 2 ^ (parsed.log2MaxFrameNumMinus4 + 4) < 2 ^ 32 :=
    Nat.pow_lt_pow_right (by decide) (by omega)
  unfold Parsed.maxFn
  rw [Nat.mod_eq_of_lt hlt]
  push_cast
  rfl

theorem sortByWrap_eq_exchangeSort {maxFn : Int} {curFn : BitVec 16} {refs : List CompactRef} :
    sortByWrap maxFn curFn refs =
      exchangeSort (fun a b => wrapped maxFn curFn b.frameNum < wrapped maxFn curFn a.frameNum)
        refs := by
  unfold sortByWrap exchangeSort
  simp only [not_lt]

theorem compactRefs_perm : (compactRefs d slot parsed).Perm (collectRefs d slot) := by
  unfold compactRefs
  rw [sortByWrap_eq_exchangeSort]
  exact exchangeSort_perm

theorem map_collectRefs : (collectRefs d slot).map CompactRef.poolIdx = references d slot := by
  unfold collectRefs
  rw [List.map_map]
  exact List.map_id _

theorem compactRefs_slots :
    ((compactRefs d slot parsed).map CompactRef.poolIdx).Perm (references d slot) := by
  rw [← map_collectRefs]
  exact compactRefs_perm.map CompactRef.poolIdx

theorem mem_compactRefs (hc : c ∈ compactRefs d slot parsed) :
    c.poolIdx ∈ references d slot ∧ c = compactRef c.poolIdx (d.slots c.poolIdx).ref := by
  obtain ⟨i, hi, rfl⟩ := List.mem_map.mp (compactRefs_perm.mem_iff.mp hc)
  exact ⟨hi, rfl⟩

theorem references_nodup : (references d slot).Nodup := (List.nodup_finRange poolSize).filter _

theorem length_compactRefs : (compactRefs d slot parsed).length = (references d slot).length := by
  rw [← compactRefs_slots.length_eq, List.length_map]

theorem length_references : (references d slot).length ≤ poolSize :=
  (List.length_filter_le _ _).trans (by simp [allSlots])

/-- By FrameNumWrap, and by the slot where that is the same. -/
theorem compactRefs_sorted (d : DpbCtx) (slot : SlotIdx) (parsed : Parsed) :
    (compactRefs d slot parsed).Pairwise (Ahead
    (fun c => wrapped parsed.maxFn parsed.frameNum c.frameNum) CompactRef.poolIdx) := by
  have hpool : (collectRefs d slot).Pairwise fun a b => a.poolIdx < b.poolIdx := by
    rw [← List.pairwise_map, map_collectRefs]
    exact (List.pairwise_lt_finRange poolSize).filter _
  unfold compactRefs
  rw [sortByWrap_eq_exchangeSort]
  exact exchangeSort_pairwise (fun _ _ => Iff.rfl) hpool

theorem compactRefs_pairwise (hlog : parsed.log2MaxFrameNumMinus4 ≤ 26) :
    (compactRefs d slot parsed).Pairwise fun a b =>
      decodePos d parsed a.poolIdx < decodePos d parsed b.poolIdx := by
  refine List.Pairwise.imp_of_mem ?_ (compactRefs_sorted d slot parsed)
  intro a b ha hb hab
  have hnum : ∀ c ∈ compactRefs d slot parsed,
      wrapped parsed.maxFn parsed.frameNum c.frameNum = picNum d parsed c.poolIdx := by
    intro c hc
    rw [maxFn_eq hlog, (mem_compactRefs hc).2]
    rfl
  simp only [Ahead, hnum a ha, hnum b hb] at hab
  exact Prod.Lex.toLex_lt_toLex.mpr hab

end Compact

section Entries

variable {d : DpbCtx} {slot : SlotIdx} {parsed : Parsed} {compact : List CompactRef}
  {e e' : RefSort}
  {es : List RefSort}

/-- The slot of an entry. -/
def slotOf (compact : List CompactRef) (slot : SlotIdx) (e : RefSort) : SlotIdx :=
  (compact[e.compactIdx]?.map CompactRef.poolIdx).getD slot

abbrev entries (d : DpbCtx) (slot : SlotIdx) (parsed : Parsed) : List RefSort :=
  refSorts (compactRefs d slot parsed)

abbrev entrySlot (d : DpbCtx) (slot : SlotIdx) (parsed : Parsed) : RefSort → SlotIdx :=
  slotOf (compactRefs d slot parsed) slot

theorem mem_refSorts (he : e ∈ refSorts compact) :
    ∃ c, compact[e.compactIdx]? = some c ∧ e = refSort c e.compactIdx := by
  obtain ⟨⟨c, i⟩, hmem, rfl⟩ := List.mem_map.mp he
  exact ⟨c, List.mem_zipIdx_iff_getElem?.mp hmem, rfl⟩

theorem refSorts_pairwise : (refSorts compact).Pairwise fun a b => a.compactIdx < b.compactIdx := by
  have hidx : (refSorts compact).map RefSort.compactIdx = List.range' 0 compact.length := by
    unfold refSorts
    rw [List.map_map, ← List.zipIdx_map_snd 0 compact]
    rfl
  rw [← List.pairwise_map, hidx]
  exact List.pairwise_lt_range'

theorem map_slotOf_refSorts :
    (refSorts compact).map (slotOf compact slot) = compact.map CompactRef.poolIdx := by
  have hslot : ∀ p ∈ compact.zipIdx, slotOf compact slot (refSort p.1 p.2) = p.1.poolIdx := by
    rintro ⟨c, i⟩ hmem
    have hget : compact[i]? = some c := List.mem_zipIdx_iff_getElem?.mp hmem
    simp [slotOf, refSort, hget]
  have hfst : (refSorts compact).map (slotOf compact slot) =
      (compact.zipIdx.map Prod.fst).map CompactRef.poolIdx := by
    unfold refSorts
    rw [List.map_map, List.map_map]
    exact List.map_congr_left hslot
  rw [hfst, List.zipIdx_map_fst]

/-- What an entry says about its slot. -/
theorem entry_spec (hlog : parsed.log2MaxFrameNumMinus4 ≤ 26) (he : e ∈ entries d slot parsed) :
    e.compactIdx < (compactRefs d slot parsed).length ∧
    (compactRefs d slot parsed)[e.compactIdx]?.map CompactRef.poolIdx =
      some (entrySlot d slot parsed e) ∧
    e.poc = pocOf d (entrySlot d slot parsed e) ∧
    wrapped parsed.maxFn parsed.frameNum e.frameNum =
      picNum d parsed (entrySlot d slot parsed e) := by
  obtain ⟨c, hget, heq⟩ := mem_refSorts he
  have hslot : entrySlot d slot parsed e = c.poolIdx := by simp [slotOf, hget]
  obtain ⟨hlt, hc⟩ := List.getElem?_eq_some_iff.mp hget
  have hmem := (mem_compactRefs (hc ▸ List.getElem_mem hlt)).2
  rw [hslot, hget]
  refine ⟨hlt, rfl, ?_, ?_⟩
  · rw [heq, hmem]
    exact framePoc_eq
  · rw [maxFn_eq hlog, heq, hmem]
    rfl

/-- Later entries are later in decode order. -/
theorem decodePos_lt (hlog : parsed.log2MaxFrameNumMinus4 ≤ 26) (he : e ∈ entries d slot parsed)
    (he' : e' ∈ entries d slot parsed) (hlt : e.compactIdx < e'.compactIdx) :
    decodePos d parsed (entrySlot d slot parsed e) <
      decodePos d parsed (entrySlot d slot parsed e') := by
  obtain ⟨c, hget, -⟩ := mem_refSorts he
  obtain ⟨c', hget', -⟩ := mem_refSorts he'
  obtain ⟨hi, hc⟩ := List.getElem?_eq_some_iff.mp hget
  obtain ⟨hj, hc'⟩ := List.getElem?_eq_some_iff.mp hget'
  have hpair := List.pairwise_iff_getElem.mp (compactRefs_pairwise hlog) _ _ hi hj hlt
  rw [hc, hc'] at hpair
  simpa [slotOf, hget, hget'] using hpair

/-- Entries in the order of a key are slots in the order of the same key. -/
theorem map_slotOf_pairwise {κ κ' : Type*} [LT κ] [LT κ'] {key : RefSort → κ} {key' : SlotIdx → κ'}
    (hlog : parsed.log2MaxFrameNumMinus4 ≤ 26) (hes : es ⊆ entries d slot parsed)
    (hlt : ∀ a ∈ es, ∀ b ∈ es, key a < key b →
      key' (entrySlot d slot parsed a) < key' (entrySlot d slot parsed b))
    (heq : ∀ a ∈ es, ∀ b ∈ es, key a = key b →
      key' (entrySlot d slot parsed a) = key' (entrySlot d slot parsed b))
    (hsorted : es.Pairwise (Ahead key RefSort.compactIdx)) :
    (es.map (entrySlot d slot parsed)).Pairwise (Ahead key' (decodePos d parsed)) := by
  rw [List.pairwise_map]
  refine List.Pairwise.imp_of_mem ?_ hsorted
  rintro a b ha hb (hkey | ⟨hkey, hidx⟩)
  · exact .inl (hlt a ha b hb hkey)
  · exact .inr ⟨heq a ha b hb hkey, decodePos_lt hlog (hes ha) (hes hb) hidx⟩

theorem named_fill (hlog : parsed.log2MaxFrameNumMinus4 ≤ 26)
    (hes : es ⊆ entries d slot parsed) (hlen : es.length ≤ 32) :
    (selection d slot parsed).named (fill es) = es.map (entrySlot d slot parsed) := by
  have hrefs : ∀ e ∈ es, (selection d slot parsed).refs[e.compactIdx]? =
      some (entrySlot d slot parsed e) := by
    intro e he
    obtain ⟨hlt, hget, -⟩ := entry_spec hlog (hes he)
    have happend : (selection d slot parsed).refs =
        (compactRefs d slot parsed).map CompactRef.poolIdx ++
          List.replicate (poolSize - (compactRefs d slot parsed).length)
            (((compactRefs d slot parsed).getLast?.map CompactRef.poolIdx).getD slot) := rfl
    rw [happend, List.getElem?_append_left (by simpa using hlt), List.getElem?_map, hget]
  unfold Selection.named fill
  rw [List.take_of_length_le hlen, List.filter_append, List.filter_map, List.filter_replicate]
  rw [List.filter_eq_self.mpr (by simp [frameRef])]
  simp only [ne_eq, not_true_eq_false, decide_false, Bool.false_eq_true, ↓reduceIte,
    List.append_nil, List.filterMap_map, Function.comp_def]
  rw [List.filterMap_congr hrefs]
  exact congrFun List.filterMap_eq_map' es

theorem eq_of_map_eq {α β : Type*} {f : α → β} {l m n : List α} (hnodup : (l.map f).Nodup)
    (hm : m ⊆ l) (hn : n ⊆ l) (heq : m.map f = n.map f) : m = n := by
  induction m generalizing n with
  | nil => exact (List.map_eq_nil_iff.mp heq.symm).symm
  | cons a m ih =>
    cases n with
    | nil => cases heq
    | cons b n =>
      obtain ⟨hhead, htail⟩ := List.cons_eq_cons.mp heq
      have hab :=
        List.inj_on_of_nodup_map hnodup (hm List.mem_cons_self) (hn List.mem_cons_self) hhead
      rw [hab, ih (List.subset_of_cons_subset hm) (List.subset_of_cons_subset hn) htail]

theorem refSorts_nodup : ((refSorts compact).map RefSort.compactIdx).Nodup := by
  rw [List.Nodup, List.pairwise_map]
  exact refSorts_pairwise.imp fun h => h.ne

theorem slots_nodup :
    ((entries d slot parsed).map (entrySlot d slot parsed)).Nodup := by
  rw [map_slotOf_refSorts]
  exact compactRefs_slots.nodup_iff.mpr references_nodup

theorem swapFirst_perm {α : Type*} (l : List α) : (swapFirst l).Perm l := by
  match l with
  | [] => exact .refl _
  | [a] => exact .refl _
  | a :: b :: l => exact .swap a b l

theorem map_swapFirst {α β : Type*} (f : α → β) (l : List α) :
    (swapFirst l).map f = swapFirst (l.map f) := by
  match l with
  | [] => rfl
  | [a] => rfl
  | a :: b :: l => rfl

end Entries

section Built

variable {d d' : DpbCtx} {slot : SlotIdx} {parsed : Parsed} {sliceType : Nat}

/-- The slots of the references by the keys alone: list 0, and the two halves of lists 1 and 2. -/
structure Built (d : DpbCtx) (slot : SlotIdx) (parsed : Parsed) (l0 past future : List SlotIdx) :
    Prop where
  perm : l0.Perm (references d slot)
  permPast : (past ++ future).Perm (references d slot)
  byPicNum : l0.Pairwise (Ahead (byPicNum d parsed) (decodePos d parsed))
  pastFirst : (past ++ future).Pairwise (Ahead (pastFirst d parsed) (decodePos d parsed))
  futureFirst : (future ++ past).Pairwise (Ahead (futureFirst d parsed) (decodePos d parsed))
  past : ∀ i ∈ past, pocOf d i ≤ parsed.poc
  future : ∀ i ∈ future, parsed.poc < pocOf d i

/-- List 2 over the two halves. -/
def builtList2 (past future : List SlotIdx) : List SlotIdx :=
  if 1 < (future ++ past).length ∧ past ++ future = future ++ past then swapFirst (future ++ past)
  else future ++ past

theorem pastFirst_of_le {i : SlotIdx} (h : pocOf d i ≤ parsed.poc) :
    pastFirst d parsed i = toLex (false, parsed.poc - pocOf d i) := by
  unfold pastFirst
  rw [decide_eq_false (not_lt.mpr h), abs_of_nonpos (by omega), neg_sub]

theorem pastFirst_of_lt {i : SlotIdx} (h : parsed.poc < pocOf d i) :
    pastFirst d parsed i = toLex (true, pocOf d i - parsed.poc) := by
  unfold pastFirst
  rw [decide_eq_true h, abs_of_nonneg (by omega)]

theorem futureFirst_of_le {i : SlotIdx} (h : pocOf d i ≤ parsed.poc) :
    futureFirst d parsed i = toLex (true, parsed.poc - pocOf d i) := by
  unfold futureFirst
  rw [decide_eq_true h, abs_of_nonpos (by omega), neg_sub]

theorem futureFirst_of_lt {i : SlotIdx} (h : parsed.poc < pocOf d i) :
    futureFirst d parsed i = toLex (false, pocOf d i - parsed.poc) := by
  unfold futureFirst
  rw [decide_eq_false (not_le.mpr h), abs_of_nonneg (by omega)]

theorem toLex_lt_iff {b c : Bool} {x y : Int} :
    toLex (b, x) < toLex (c, y) ↔ (b = false ∧ c = true) ∨ (b = c ∧ x < y) := by
  rw [Prod.Lex.toLex_lt_toLex]
  cases b <;> cases c <;> simp

theorem pastFirst_lt {i j : SlotIdx} : pastFirst d parsed i < pastFirst d parsed j ↔
    (pocOf d i ≤ parsed.poc ∧ parsed.poc < pocOf d j) ∨
    (pocOf d j < pocOf d i ∧ pocOf d i ≤ parsed.poc) ∨
      (parsed.poc < pocOf d i ∧ pocOf d i < pocOf d j) := by
  rcases le_or_gt (pocOf d i) parsed.poc with hi |
    hi <;> rcases le_or_gt (pocOf d j) parsed.poc with hj | hj
  · rw [pastFirst_of_le hi, pastFirst_of_le hj, toLex_lt_iff]
    simp
    omega
  · rw [pastFirst_of_le hi, pastFirst_of_lt hj, toLex_lt_iff]
    simp [hi, hj]
  · rw [pastFirst_of_lt hi, pastFirst_of_le hj, toLex_lt_iff]
    simp
    omega
  · rw [pastFirst_of_lt hi, pastFirst_of_lt hj, toLex_lt_iff]
    simp
    omega

theorem futureFirst_lt {i j : SlotIdx} : futureFirst d parsed i < futureFirst d parsed j ↔
    (parsed.poc < pocOf d i ∧ pocOf d j ≤ parsed.poc) ∨
    (pocOf d j < pocOf d i ∧ pocOf d i ≤ parsed.poc) ∨
      (parsed.poc < pocOf d i ∧ pocOf d i < pocOf d j) := by
  rcases le_or_gt (pocOf d i) parsed.poc with hi |
    hi <;> rcases le_or_gt (pocOf d j) parsed.poc with hj | hj
  · rw [futureFirst_of_le hi, futureFirst_of_le hj, toLex_lt_iff]
    simp
    omega
  · rw [futureFirst_of_le hi, futureFirst_of_lt hj, toLex_lt_iff]
    simp
    omega
  · rw [futureFirst_of_lt hi, futureFirst_of_le hj, toLex_lt_iff]
    simp [hi, hj]
  · rw [futureFirst_of_lt hi, futureFirst_of_lt hj, toLex_lt_iff]
    simp
    omega

theorem pastFirst_congr {i j : SlotIdx} (h : pocOf d i = pocOf d j) :
    pastFirst d parsed i = pastFirst d parsed j := by
  unfold pastFirst
  rw [h]

theorem futureFirst_congr {i j : SlotIdx} (h : pocOf d i = pocOf d j) :
    futureFirst d parsed i = futureFirst d parsed j := by
  unfold futureFirst
  rw [h]

theorem pastRefs_subset {curPoc : Int} {refs : List RefSort} : pastRefs curPoc refs ⊆ refs := by
  intro e he
  exact List.mem_of_mem_filter (exchangeSort_perm.mem_iff.mp he)

theorem futureRefs_subset {curPoc : Int} {refs : List RefSort} : futureRefs curPoc refs ⊆ refs := by
  intro e he
  exact List.mem_of_mem_filter (exchangeSort_perm.mem_iff.mp he)

theorem halves_perm {curPoc : Int} {refs : List RefSort} :
    (pastRefs curPoc refs ++ futureRefs curPoc refs).Perm refs := by
  refine (exchangeSort_perm.append exchangeSort_perm).trans ?_
  have hfilter := List.filter_append_perm (fun e : RefSort => decide (e.poc ≤ curPoc)) refs
  simpa only [decide_not] using hfilter

theorem poc_pastRefs {curPoc : Int} {refs : List RefSort} {e : RefSort}
    (he : e ∈ pastRefs curPoc refs) :
    e.poc ≤ curPoc := by
  have hmem := List.of_mem_filter (exchangeSort_perm.mem_iff.mp he)
  simpa using hmem

theorem poc_futureRefs {curPoc : Int} {refs : List RefSort} {e : RefSort}
    (he : e ∈ futureRefs curPoc refs) :
    curPoc < e.poc := by
  have hmem := List.of_mem_filter (exchangeSort_perm.mem_iff.mp he)
  simpa using hmem

theorem pastRefs_pairwise {curPoc : Int} {refs : List RefSort}
    (hrefs : refs.Pairwise fun a b => a.compactIdx < b.compactIdx) :
    (pastRefs curPoc refs).Pairwise (Ahead (fun e => -e.poc) RefSort.compactIdx) := by
  refine exchangeSort_pairwise ?_ (hrefs.filter _)
  intro a b
  exact neg_lt_neg_iff.symm

theorem futureRefs_pairwise {curPoc : Int} {refs : List RefSort}
    (hrefs : refs.Pairwise fun a b => a.compactIdx < b.compactIdx) :
    (futureRefs curPoc refs).Pairwise (Ahead RefSort.poc RefSort.compactIdx) :=
  exchangeSort_pairwise (fun _ _ => Iff.rfl) (hrefs.filter _)

theorem allRefs_pairwise {refs : List RefSort}
    (hrefs : refs.Pairwise fun a b => a.compactIdx < b.compactIdx) :
    (allRefs parsed refs).Pairwise
      (Ahead (fun e => -wrapped parsed.maxFn parsed.frameNum e.frameNum) RefSort.compactIdx) := by
  refine exchangeSort_pairwise ?_ hrefs
  intro a b
  exact neg_lt_neg_iff.symm

theorem pocOf_past (hlog : parsed.log2MaxFrameNumMinus4 ≤ 26) {i : SlotIdx}
    (hi : i ∈ (pastRefs parsed.poc (entries d slot parsed)).map (entrySlot d slot parsed)) :
    pocOf d i ≤ parsed.poc := by
  obtain ⟨e, he, rfl⟩ := List.mem_map.mp hi
  rw [← (entry_spec hlog (pastRefs_subset he)).2.2.1]
  exact poc_pastRefs he

theorem pocOf_future (hlog : parsed.log2MaxFrameNumMinus4 ≤ 26) {i : SlotIdx}
    (hi : i ∈ (futureRefs parsed.poc (entries d slot parsed)).map (entrySlot d slot parsed)) :
    parsed.poc < pocOf d i := by
  obtain ⟨e, he, rfl⟩ := List.mem_map.mp hi
  rw [← (entry_spec hlog (futureRefs_subset he)).2.2.1]
  exact poc_futureRefs he

/-- The past half goes by every key that falls with the order counts below the picture's. -/
theorem past_pairwise {κ : Type*} [LT κ] {key : SlotIdx → κ}
    (hlog : parsed.log2MaxFrameNumMinus4 ≤ 26)
    (hlt : ∀ i j, pocOf d j < pocOf d i → pocOf d i ≤ parsed.poc → key i < key j)
    (hcongr : ∀ i j, pocOf d i = pocOf d j → key i = key j) :
    ((pastRefs parsed.poc (entries d slot parsed)).map (entrySlot d slot parsed)).Pairwise
      (Ahead key (decodePos d parsed)) := by
  refine map_slotOf_pairwise hlog pastRefs_subset ?_ ?_ (pastRefs_pairwise refSorts_pairwise)
  · intro a ha b hb hab
    apply hlt
    · rw [← (entry_spec hlog (pastRefs_subset ha)).2.2.1,
        ← (entry_spec hlog (pastRefs_subset hb)).2.2.1]
      exact neg_lt_neg_iff.mp hab
    · exact pocOf_past hlog (List.mem_map_of_mem ha)
  · intro a ha b hb hab
    apply hcongr
    rw [← (entry_spec hlog (pastRefs_subset ha)).2.2.1,
      ← (entry_spec hlog (pastRefs_subset hb)).2.2.1]
    exact neg_inj.mp hab

theorem future_pairwise {κ : Type*} [LT κ] {key : SlotIdx → κ}
    (hlog : parsed.log2MaxFrameNumMinus4 ≤ 26)
    (hlt : ∀ i j, parsed.poc < pocOf d i → pocOf d i < pocOf d j → key i < key j)
    (hcongr : ∀ i j, pocOf d i = pocOf d j → key i = key j) :
    ((futureRefs parsed.poc (entries d slot parsed)).map (entrySlot d slot parsed)).Pairwise
      (Ahead key (decodePos d parsed)) := by
  refine map_slotOf_pairwise hlog futureRefs_subset ?_ ?_ (futureRefs_pairwise refSorts_pairwise)
  · intro a ha b hb hab
    apply hlt
    · exact pocOf_future hlog (List.mem_map_of_mem ha)
    · rw [← (entry_spec hlog (futureRefs_subset ha)).2.2.1,
        ← (entry_spec hlog (futureRefs_subset hb)).2.2.1]
      exact hab
  · intro a ha b hb hab
    apply hcongr
    rw [← (entry_spec hlog (futureRefs_subset ha)).2.2.1,
      ← (entry_spec hlog (futureRefs_subset hb)).2.2.1]
    exact hab

theorem all_pairwise (hlog : parsed.log2MaxFrameNumMinus4 ≤ 26) :
    ((allRefs parsed (entries d slot parsed)).map (entrySlot d slot parsed)).Pairwise
      (Ahead (byPicNum d parsed) (decodePos d parsed)) := by
  have hsubset : allRefs parsed (entries d slot parsed) ⊆ entries d slot parsed := by
    intro e he
    exact exchangeSort_perm.mem_iff.mp he
  have hkey : ∀ e ∈ allRefs parsed (entries d slot parsed),
      -wrapped parsed.maxFn parsed.frameNum e.frameNum =
      byPicNum d parsed (entrySlot d slot parsed e) := by
    intro e he
    rw [(entry_spec hlog (hsubset he)).2.2.2]
    rfl
  refine map_slotOf_pairwise hlog hsubset ?_ ?_ (allRefs_pairwise refSorts_pairwise)
  · intro a ha b hb hab
    rwa [← hkey a ha, ← hkey b hb]
  · intro a ha b hb hab
    rwa [← hkey a ha, ← hkey b hb]

theorem built_slots (hlog : parsed.log2MaxFrameNumMinus4 ≤ 26) :
    Built d slot parsed ((allRefs parsed (entries d slot parsed)).map (entrySlot d slot parsed))
      ((pastRefs parsed.poc (entries d slot parsed)).map (entrySlot d slot parsed))
      ((futureRefs parsed.poc (entries d slot parsed)).map (entrySlot d slot parsed)) := by
  have hperm : ((entries d slot parsed).map (entrySlot d slot parsed)).Perm
      (references d slot) := by
    rw [map_slotOf_refSorts]
    exact compactRefs_slots
  constructor
  · exact (exchangeSort_perm.map _).trans hperm
  · rw [← List.map_append]
    exact (halves_perm.map _).trans hperm
  · exact all_pairwise hlog
  · refine List.pairwise_append.mpr ⟨?_, ?_, ?_⟩
    · exact past_pairwise hlog (fun i j hlt hle => pastFirst_lt.mpr (.inr (.inl ⟨hlt, hle⟩)))
        fun _ _ => pastFirst_congr
    · exact future_pairwise hlog (fun i j hlt hle => pastFirst_lt.mpr (.inr (.inr ⟨hlt, hle⟩)))
        fun _ _ => pastFirst_congr
    · intro i hi j hj
      exact .inl (pastFirst_lt.mpr (.inl ⟨pocOf_past hlog hi, pocOf_future hlog hj⟩))
  · refine List.pairwise_append.mpr ⟨?_, ?_, ?_⟩
    · exact future_pairwise hlog (fun i j hlt hle => futureFirst_lt.mpr (.inr (.inr ⟨hlt, hle⟩)))
        fun _ _ => futureFirst_congr
    · exact past_pairwise hlog (fun i j hlt hle => futureFirst_lt.mpr (.inr (.inl ⟨hlt, hle⟩)))
        fun _ _ => futureFirst_congr
    · intro i hi j hj
      exact .inl (futureFirst_lt.mpr (.inl ⟨pocOf_future hlog hi, pocOf_past hlog hj⟩))
  · exact fun i hi => pocOf_past hlog hi
  · exact fun i hi => pocOf_future hlog hi

theorem refLists_eq (hidr : parsed.isIdr = false)
    (hslice : sliceType ≠ sliceTypeI ∧ sliceType ≠ sliceTypeSi)
    (hsome : (compactRefs d slot parsed).length ≠ 0) :
    refLists parsed sliceType (compactRefs d slot parsed) =
      let list1 :=
        pastRefs parsed.poc (entries d slot parsed) ++ futureRefs parsed.poc (entries d slot parsed)
      let list2 :=
        futureRefs parsed.poc (entries d slot parsed) ++ pastRefs parsed.poc (entries d slot parsed)
      { list0 := fill (allRefs parsed (entries d slot parsed))
        list1 := fill list1
        list2 := fill (if 1 < list2.length ∧ list1 = list2 then swapFirst list2 else list2) } := by
  have hsame : ∀ {l m : List RefSort}, l ⊆ entries d slot parsed → m ⊆ entries d slot parsed →
      (l.map RefSort.compactIdx = m.map RefSort.compactIdx ↔ l = m) :=
    fun hl hm => ⟨eq_of_map_eq refSorts_nodup hl hm, congrArg _⟩
  have hpoc : framePoc parsed.topFieldOrderCnt parsed.bottomFieldOrderCnt =
      parsed.poc := framePoc_eq
  unfold refLists
  rw [if_neg (by simp [hidr, hsome]), hpoc]
  dsimp only
  rw [if_pos hslice]
  simp only [hsame (List.append_subset.mpr ⟨pastRefs_subset, futureRefs_subset⟩)
    (List.append_subset.mpr ⟨futureRefs_subset, pastRefs_subset⟩)]

/-- What `Dpb_Select` builds for a P or B slice. -/
theorem built_refLists (hlog : parsed.log2MaxFrameNumMinus4 ≤ 26) (hidr : parsed.isIdr = false)
    (hslice : sliceType ≠ sliceTypeI ∧ sliceType ≠ sliceTypeSi) :
    ∃ l0 past future, Built d slot parsed l0 past future ∧
      (selection d slot parsed).named
        (refLists parsed sliceType (compactRefs d slot parsed)).list0 = l0 ∧
      (selection d slot parsed).named
        (refLists parsed sliceType (compactRefs d slot parsed)).list1 =
        past ++ future ∧
      (selection d slot parsed).named
        (refLists parsed sliceType (compactRefs d slot parsed)).list2 =
        builtList2 past future := by
  by_cases hempty : (compactRefs d slot parsed).length = 0
  · have hnone : references d slot = [] :=
      List.length_eq_zero_iff.mp (length_compactRefs.symm.trans hempty)
    have hzero : (selection d slot parsed).named (List.replicate 32 ({} : Reference)) = [] := by
      simp [Selection.named]
    have hlists : refLists parsed sliceType (compactRefs d slot parsed) = {} := by
      unfold refLists
      rw [if_pos (.inr hempty)]
    refine ⟨[], [], [], ⟨by simp [hnone], by simp [hnone], .nil, .nil, .nil, by simp, by simp⟩, ?_⟩
    rw [hlists]
    exact ⟨hzero, hzero, hzero⟩
  · have hlists := refLists_eq hidr hslice hempty
    have hlen : ∀ {es : List RefSort}, es.Perm (entries d slot parsed) → es.length ≤ 32 := by
      intro es hes
      rw [hes.length_eq, ← List.length_map (entrySlot d slot parsed), map_slotOf_refSorts,
        compactRefs_slots.length_eq]
      exact length_references.trans (by decide)
    have hback : (futureRefs parsed.poc (entries d slot parsed) ++
        pastRefs parsed.poc (entries d slot parsed)).Perm
        (entries d slot parsed) := List.perm_append_comm.trans halves_perm
    refine ⟨_, _, _, built_slots hlog, ?_⟩
    rw [hlists]
    refine ⟨named_fill hlog (fun e he => exchangeSort_perm.mem_iff.mp he) (hlen exchangeSort_perm),
      ?_, ?_⟩
    · rw [← List.map_append]
      exact named_fill hlog (fun e he => halves_perm.mem_iff.mp he) (hlen halves_perm)
    · have hslots : ∀ {l m : List RefSort}, l ⊆ entries d slot parsed → m ⊆ entries d slot parsed →
          (l.map (entrySlot d slot parsed) = m.map (entrySlot d slot parsed) ↔ l = m) :=
        fun hl hm => ⟨eq_of_map_eq slots_nodup hl hm, congrArg _⟩
      have hswap := (swapFirst_perm (futureRefs parsed.poc (entries d slot parsed) ++
        pastRefs parsed.poc (entries d slot parsed))).trans hback
      unfold builtList2
      rw [← List.map_append, ← List.map_append, List.length_map]
      simp only [hslots (fun e he => halves_perm.mem_iff.mp he) (fun e he => hback.mem_iff.mp he)]
      split
      · rw [← map_swapFirst]
        exact named_fill hlog (fun e he => hswap.mem_iff.mp he) (hlen hswap)
      · exact named_fill hlog (fun e he => hback.mem_iff.mp he) (hlen hback)

end Built

section Orders

variable {d : DpbCtx} {slot : SlotIdx} {parsed : Parsed} {κ : Type*} {key : SlotIdx → κ}
  {list past future : List SlotIdx}

theorem Before.asymm [Preorder κ] {i j : SlotIdx} (h : Before d key i j) : ¬ Before d key j i := by
  intro hback
  unfold Before at h hback
  by_cases hi : isLong d i = true <;> by_cases hj : isLong d j = true
  · rw [if_pos hj] at h
    rw [if_pos hi] at hback
    exact lt_asymm (h hi) (hback hj)
  · rw [if_neg hj, hi] at h
    cases h.1
  · rw [if_neg hi, hj] at hback
    cases hback.1
  · rw [if_neg hj] at h
    rw [if_neg hi] at hback
    exact lt_asymm h.2 hback.2

/-- Distinct references come one before the other. -/
theorem Distinct.total [LinearOrder κ] (hdistinct : Distinct d slot parsed)
    (hkey : ∀ i ∈ references d slot, ∀ j ∈ references d slot, isLong d i = false →
    isLong d j = false →
      key i = key j → i = j) :
    ∀ i ∈ references d slot, ∀ j ∈ references d slot, i ≠ j → Before d key i j ∨
    Before d key j i := by
  intro i hi j hj hne
  unfold Before
  by_cases hli : isLong d i = true <;> by_cases hlj : isLong d j = true
  · rw [if_pos hli, if_pos hlj]
    have hidx : longTermPicNum d i ≠ longTermPicNum d j :=
      fun h => hne (hdistinct.index i hi j hj hli hlj h)
    rcases lt_or_gt_of_ne hidx with hlt | hlt
    · exact .inl fun _ => hlt
    · exact .inr fun _ => hlt
  · rw [if_pos hli]
    exact .inr fun h => absurd h hlj
  · rw [if_pos hlj]
    exact .inl fun h => absurd h hli
  · rw [if_neg hli, if_neg hlj]
    simp only [Bool.not_eq_true] at hli hlj
    have hkeys : key i ≠ key j := fun h => hne (hkey i hi j hj hli hlj h)
    rcases lt_or_gt_of_ne hkeys with hlt | hlt
    · exact .inl ⟨hli, hlt⟩
    · exact .inr ⟨hlj, hlt⟩

/-- A list in the order of a key is the standard's exactly when the long-term references are in
place. -/
theorem initial_iff [LinearOrder κ] (hdistinct : Distinct d slot parsed)
    (hkey : ∀ i ∈ references d slot, ∀ j ∈ references d slot, isLong d i = false →
    isLong d j = false →
      key i = key j → i = j)
    (hperm : list.Perm (references d slot))
      (hsorted : list.Pairwise (Ahead key (decodePos d parsed))) :
    Initial d slot key list ↔ KeyBehind d slot parsed key := by
  have hmem : ∀ {i}, i ∈ list ↔ i ∈ references d slot := hperm.mem_iff
  have hagree :=
    pairwise_iff_agree (S := Before d key) hsorted (fun _ _ h => h.asymm) (fun _ _ h => h.asymm)
    fun i hi j hj => hdistinct.total hkey i (hmem.mp hi) j (hmem.mp hj)
  constructor
  · intro hinitial i hi j hj _ hbefore
    exact hagree.mp hinitial.ordered i (hmem.mpr hi) j (hmem.mpr hj) hbefore
  · intro hbehind
    refine ⟨hperm, hagree.mpr ?_⟩
    intro i hi j hj hbefore
    by_cases hlj : isLong d j = true
    · exact hbehind i (hmem.mp hi) j (hmem.mp hj) hlj hbefore
    · rw [Before, if_neg hlj] at hbefore
      exact .inl hbefore.2

theorem append_comm_nodup (hnodup : (past ++ future).Nodup)
    (hsame : past ++ future = future ++ past) :
    past = [] ∨ future = [] := by
  cases past with
  | nil => exact .inl rfl
  | cons i past =>
    cases future with
    | nil => exact .inr rfl
    | cons j future =>
      obtain ⟨rfl, -⟩ := List.cons_eq_cons.mp hsame
      have hdisjoint := (List.nodup_append.mp hnodup).2.2 i List.mem_cons_self i List.mem_cons_self
      exact absurd rfl hdisjoint

/-- The halves in the other order are the list with its first two entries swapped only for one entry
each. -/
theorem append_eq_swapFirst (hnodup : (past ++ future).Nodup)
    (hne : past ++ future ≠ future ++ past) (hswap : future ++ past = swapFirst (past ++ future)) :
    (past ++ future).length = 2 := by
  cases past with
  | nil => exact absurd (List.append_nil future).symm hne
  | cons i past =>
    cases future with
    | nil => exact absurd (List.append_nil (i :: past)) hne
    | cons j future =>
      cases past with
      | nil =>
        obtain ⟨-, htail⟩ := List.cons_eq_cons.mp hswap
        cases future with
        | nil => rfl
        | cons k future =>
          obtain ⟨rfl, -⟩ := List.cons_eq_cons.mp htail
          simp at hnodup
      | cons k past =>
        obtain ⟨rfl, -⟩ := List.cons_eq_cons.mp hswap
        simp at hnodup

theorem swapFirst_swapFirst {α : Type*} (l : List α) : swapFirst (swapFirst l) = l := by
  match l with
  | [] => rfl
  | [a] => rfl
  | a :: b :: l => rfl

end Orders

section ListTwo

variable {d : DpbCtx} {slot : SlotIdx} {parsed : Parsed} {l0 past future : List SlotIdx}

theorem Built.nodup (h : Built d slot parsed l0 past future) : (past ++ future).Nodup :=
  h.permPast.nodup_iff.mpr references_nodup

theorem Built.permFuture (h : Built d slot parsed l0 past future) :
    (future ++ past).Perm (references d slot) :=
  List.perm_append_comm.trans h.permPast

/-- References on one side of the picture are in the same order in both lists. -/
theorem not_swapped (h : Built d slot parsed l0 past future) (hside : past = [] ∨ future = [])
    (hpast : Initial d slot (pastFirst d parsed) (past ++ future))
    (hlen : 1 < (past ++ future).length) :
    ¬ Initial d slot (futureFirst d parsed) (swapFirst (past ++ future)) := by
  intro hfuture
  have hsame : ∀ i ∈ past ++ future, ∀ j ∈ past ++ future, pocOf d i ≤ parsed.poc ↔
      pocOf d j ≤ parsed.poc := by
    rcases hside with rfl | rfl
    · intro i hi j hj
      have hi := h.future i hi
      have hj := h.future j hj
      omega
    · rw [List.append_nil]
      intro i hi j hj
      have hi := h.past i hi
      have hj := h.past j hj
      omega
  generalize past ++ future = list at *
  match list with
  | i :: j :: rest =>
    have hij : Before d (pastFirst d parsed) i j :=
      (List.pairwise_cons.mp hpast.ordered).1 j List.mem_cons_self
    have hji : Before d (futureFirst d parsed) j i :=
      (List.pairwise_cons.mp hfuture.ordered).1 i List.mem_cons_self
    have hside := hsame i List.mem_cons_self j (List.mem_cons_of_mem i List.mem_cons_self)
    unfold Before at hij hji
    by_cases hi : isLong d i = true <;> by_cases hj : isLong d j = true
    · rw [if_pos hj] at hij
      rw [if_pos hi] at hji
      exact lt_asymm (hij hi) (hji hj)
    · rw [if_neg hj, hi] at hij
      cases hij.1
    · rw [if_neg hi, hj] at hji
      cases hji.1
    · rw [if_neg hj, pastFirst_lt] at hij
      rw [if_neg hi, futureFirst_lt] at hji
      omega

/-- Of two references, list 2 has them the other way round than list 1. -/
theorem builtList2_two {i j : SlotIdx} (hnodup : (past ++ future).Nodup)
    (hlist : past ++ future = [i, j]) :
    builtList2 past future = [j, i] := by
  unfold builtList2
  rw [hlist] at hnodup ⊢
  match past, future with
  | [], [_, _] =>
    cases hlist
    simp [swapFirst]
  | [_], [_] =>
    cases hlist
    have hne : i ≠ j := by simpa using hnodup
    simp [hne]
  | [_, _], [] =>
    cases hlist
    simp [swapFirst]

theorem list2_iff (h : Built d slot parsed l0 past future) (hdistinct : Distinct d slot parsed)
    (hpast : Initial d slot (pastFirst d parsed) (past ++ future)) :
    (∃ l, Initial d slot (futureFirst d parsed) l ∧
      builtList2 past future = if 1 < l.length ∧ l = past ++ future then swapFirst l else l) ↔
    KeyBehind d slot parsed (futureFirst d parsed) ∨ (references d slot).length = 2 := by
  have hkey : ∀ i ∈ references d slot, ∀ j ∈ references d slot, isLong d i = false →
      isLong d j = false →
      futureFirst d parsed i = futureFirst d parsed j → i = j := by
    intro i hi j hj hli hlj heq
    refine hdistinct.poc i hi j hj hli hlj ?_
    have hij := mt futureFirst_lt.mpr heq.not_lt
    have hji := mt futureFirst_lt.mpr heq.not_gt
    omega
  have hiff := initial_iff hdistinct hkey h.permFuture h.futureFirst
  constructor
  · rintro ⟨l, hl, heq⟩
    have hlen : l.length = (past ++ future).length := (hl.perm.trans h.permPast.symm).length_eq
    have hback : (future ++ past).length = (past ++ future).length :=
      List.perm_append_comm.length_eq
    unfold builtList2 at heq
    rw [hback, hlen] at heq
    by_cases hone : 1 < (past ++ future).length
    · simp only [hone, true_and] at heq
      by_cases hcode : past ++ future = future ++ past <;> by_cases hstd : l = past ++ future
      · rw [if_pos hcode, if_pos hstd] at heq
        have hsame := congrArg swapFirst heq
        rw [swapFirst_swapFirst, swapFirst_swapFirst] at hsame
        exact .inl (hiff.mp (hsame ▸ hl))
      · rw [if_pos hcode, if_neg hstd, ← hcode] at heq
        exact absurd (heq ▸ hl) (not_swapped h (append_comm_nodup h.nodup hcode) hpast hone)
      · rw [if_neg hcode, if_pos hstd, hstd] at heq
        have htwo := append_eq_swapFirst h.nodup hcode heq
        exact .inr (h.permPast.length_eq.symm.trans htwo)
      · rw [if_neg hcode, if_neg hstd] at heq
        exact .inl (hiff.mp (heq ▸ hl))
    · simp only [hone, false_and, if_false] at heq
      exact .inl (hiff.mp (heq ▸ hl))
  · rintro (hbehind | htwo)
    · refine ⟨future ++ past, hiff.mpr hbehind, ?_⟩
      unfold builtList2
      simp only [eq_comm]
    · have hlen : (past ++ future).length = 2 := h.permPast.length_eq.trans htwo
      obtain ⟨i, j, hlist⟩ := List.length_eq_two.mp hlen
      have hmem : ∀ k, k ∈ [i, j] ↔ k ∈ references d slot := by
        intro k
        rw [← hlist]
        exact h.permPast.mem_iff
      have hne : i ≠ j := by
        have hnodup := h.nodup
        rw [hlist] at hnodup
        simpa using hnodup
      have hperm : [i, j].Perm (references d slot) := hlist ▸ h.permPast
      rw [builtList2_two h.nodup hlist, hlist]
      rcases hdistinct.total hkey i ((hmem i).mp (by simp)) j ((hmem j).mp (by simp)) hne
        with hij | hji
      · exact ⟨[i, j], ⟨hperm, by simpa using hij⟩, by simp [swapFirst]⟩
      · refine ⟨[j, i], ⟨(List.Perm.swap i j []).trans hperm, by simpa using hji⟩, ?_⟩
        simp [hne.symm]

end ListTwo

section Result

variable {d d' : DpbCtx} {parsed : Parsed} {sliceType : Nat} {sel : Selection} {lists : RefLists}

theorem selectLists_eq (h : selectLists d parsed sliceType = some (sel, lists, d')) :
    sel = selection d' sel.currentSlot parsed ∧
      lists = refLists parsed sliceType (compactRefs d' sel.currentSlot parsed) := by
  unfold selectLists at h
  split at h
  · cases h
    exact ⟨rfl, rfl⟩
  · cases h

/-- The lists of a P or B picture are the standard's exactly when the long-term references are in
place, for every MaxFrameNum that is an `int32_t`. -/
theorem initial_lists_iff (hselect : selectLists d parsed sliceType = some (sel, lists, d'))
    (hidr : parsed.isIdr = false) (hlog : parsed.log2MaxFrameNumMinus4 ≤ 26)
    (hslice : sliceType = sliceTypeP ∨ sliceType = sliceTypeB)
    (hdistinct : Distinct d' sel.currentSlot parsed) :
    InitialLists d' sel.currentSlot parsed (sel.named lists.list0) (sel.named lists.list1)
      (sel.named lists.list2) ↔ LongTermInPlace d' sel.currentSlot parsed := by
  have hinter : sliceType ≠ sliceTypeI ∧ sliceType ≠ sliceTypeSi := by
    rcases hslice with rfl | rfl <;> decide
  obtain ⟨hsel, hlists⟩ := selectLists_eq hselect
  obtain ⟨l0, past, future, hbuilt, hnamed⟩ :
      ∃ l0 past future, Built d' sel.currentSlot parsed l0 past future ∧ _ :=
    built_refLists hlog hidr hinter
  rw [← hsel, ← hlists] at hnamed
  obtain ⟨h0, h1, h2⟩ := hnamed
  rw [h0, h1, h2]
  have hfirst : Initial d' sel.currentSlot (byPicNum d' parsed) l0 ↔
      KeyBehind d' sel.currentSlot parsed (byPicNum d' parsed) := by
    refine initial_iff hdistinct ?_ hbuilt.perm hbuilt.byPicNum
    intro i hi j hj hli hlj heq
    exact hdistinct.picNum i hi j hj hli hlj (neg_inj.mp heq)
  have hpast : Initial d' sel.currentSlot (pastFirst d' parsed) (past ++ future) ↔
      KeyBehind d' sel.currentSlot parsed (pastFirst d' parsed) := by
    refine initial_iff hdistinct ?_ hbuilt.permPast hbuilt.pastFirst
    intro i hi j hj hli hlj heq
    refine hdistinct.poc i hi j hj hli hlj ?_
    have hij := mt pastFirst_lt.mpr heq.not_lt
    have hji := mt pastFirst_lt.mpr heq.not_gt
    omega
  constructor
  · intro h
    exact ⟨hfirst.mp h.list0, hpast.mp h.list1, (list2_iff hbuilt hdistinct h.list1).mp h.list2⟩
  · intro h
    have hlist1 := hpast.mpr h.pastFirst
    exact ⟨hfirst.mpr h.byPicNum, hlist1, (list2_iff hbuilt hdistinct hlist1).mpr h.futureFirst⟩

/-- The picture between the two of the run, and what `Dpb_Select` fills in for it. -/
def betweenLists (ms : List Mmco) (sliceType : Nat) : Option (Selection × RefLists × DpbCtx) :=
  ((markedRun ms).foldl call (some init)).bind fun d =>
    selectLists d (windowPicture false 2 1) sliceType

theorem between_runs : (betweenLists [] sliceTypeB).isSome = true := by decide +kernel

theorem between_long_runs :
    (betweenLists [⟨4, 0, 0, 0, 1⟩, ⟨6, 0, 0, 0, 0⟩] sliceTypeB).isSome = true := by decide +kernel

theorem between_distinct : ∃ r, betweenLists [] sliceTypeB = some r ∧
    Distinct r.2.2 r.1.currentSlot (windowPicture false 2 1) := by
  refine ⟨_, (Option.some_get between_runs).symm, ?_, ?_, ?_⟩
  · decide +kernel
  · decide +kernel
  · decide +kernel

theorem between_long_distinct :
    ∃ r, betweenLists [⟨4, 0, 0, 0, 1⟩, ⟨6, 0, 0, 0, 0⟩] sliceTypeB = some r ∧
    Distinct r.2.2 r.1.currentSlot (windowPicture false 2 1) ∧
    r.1.named r.2.1.list0 = [⟨1, by decide⟩, ⟨0, by decide⟩] ∧
    isLong r.2.2 ⟨1, by decide⟩ = true ∧ isLong r.2.2 ⟨0, by decide⟩ = false := by
  refine ⟨_, (Option.some_get between_long_runs).symm, ⟨?_, ?_, ?_⟩, ?_, ?_, ?_⟩
  · decide +kernel
  · decide +kernel
  · decide +kernel
  · decide +kernel
  · decide +kernel
  · decide +kernel

theorem initial_lists_between : ∃ d d' sel lists,
    (markedRun []).foldl call (some init) = some d ∧
    selectLists d (windowPicture false 2 1) sliceTypeB = some (sel, lists, d') ∧
    (InitialLists d' sel.currentSlot (windowPicture false 2 1) (sel.named lists.list0)
      (sel.named lists.list1)
      (sel.named lists.list2) ↔ LongTermInPlace d' sel.currentSlot (windowPicture false 2 1)) := by
  obtain ⟨⟨sel, lists, d'⟩, hrun, hdistinct⟩ := between_distinct
  obtain ⟨d, hd, hselect⟩ := Option.bind_eq_some_iff.mp hrun
  refine ⟨d, d', sel, lists, hd, hselect, ?_⟩
  exact initial_lists_iff hselect (by decide) (by decide) (by decide) hdistinct

theorem not_initial_of_long_first {slot i j : SlotIdx} {l l0 l1 l2 : List SlotIdx}
    (hlist : l0 = i :: j :: l) (hi : isLong d i = true) (hj : isLong d j = false) :
    ¬ InitialLists d slot parsed l0 l1 l2 := by
  intro h
  subst hlist
  have hbefore : Before d (byPicNum d parsed) i j :=
    (List.pairwise_cons.mp h.list0.ordered).1 j List.mem_cons_self
  rw [Before, if_neg (by simp [hj]), hi] at hbefore
  cases hbefore.1

/-- A long-term picture behind a short-term one in decode order comes first in the lists. -/
theorem long_term_listed_first : ∃ d d' sel lists,
    (markedRun [⟨4, 0, 0, 0, 1⟩, ⟨6, 0, 0, 0, 0⟩]).foldl call (some init) = some d ∧
    selectLists d (windowPicture false 2 1) sliceTypeB = some (sel, lists, d') ∧
    Distinct d' sel.currentSlot (windowPicture false 2 1) ∧
    sel.named lists.list0 = [⟨1, by decide⟩, ⟨0, by decide⟩] ∧
    isLong d' ⟨1, by decide⟩ = true ∧ isLong d' ⟨0, by decide⟩ = false ∧
    ¬ InitialLists d' sel.currentSlot (windowPicture false 2 1) (sel.named lists.list0)
      (sel.named lists.list1) (sel.named lists.list2) := by
  obtain ⟨⟨sel, lists, d'⟩, hrun, hdistinct, hnamed, hlong, hshort⟩ := between_long_distinct
  obtain ⟨d, hd, hselect⟩ := Option.bind_eq_some_iff.mp hrun
  refine ⟨d, d', sel, lists, hd, hselect, hdistinct, hnamed, hlong, hshort, ?_⟩
  exact not_initial_of_long_first hnamed hlong hshort

end Result

end Rkvdec.Engine.H264
