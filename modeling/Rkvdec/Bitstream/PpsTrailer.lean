import Rkvdec.Bitstream.Elements
import Rkvdec.Engine.ScalingLists

/-! `more_rbsp_data`, and that `parse_pps` reads the optional end of a picture parameter set just
where it was written. -/
namespace Rkvdec.Bitstream

open Lib (bitsOf golomb signedRank)

section MoreData

variable {br : BitReader} {data : List Byte} {last k : Nat} {w : List Bool}

/-- The last bit of the data that is set. -/
def LastOne (data : List Byte) (last : Nat) : Prop :=
  (dataBits data)[last]? = some true ∧ ∀ i, last < i → (dataBits data)[i]? ≠ some true

theorem bitAt_iff (br : BitReader) (i : Nat) :
    br.bitAt i = true ↔ (dataBits br.data)[i]? = some true := by
  rw [BitReader.getElem?_dataBits, BitReader.bitAt, List.getD_eq_getElem?_getD]
  cases br.data[i / 8]? with
  | none => simp
  | some b => simp

theorem LastOne.lt_bits (h : LastOne br.data last) : last < br.bits := by
  obtain ⟨hlt, -⟩ := List.getElem?_eq_some_iff.mp h.1
  rwa [BitReader.length_dataBits] at hlt

/-- In front of the last one the answer is yes, at it no. -/
theorem moreRbspData_iff (h : LastOne br.data last) (hp : br.bitPos ≤ last) :
    br.moreRbspData = true ↔ br.bitPos < last := by
  have hend := h.lt_bits
  have hmore : ¬br.eof = true := by
    rw [BitReader.eof, decide_eq_true_iff]
    omega
  unfold BitReader.moreRbspData
  rw [if_neg hmore]
  by_cases hnext : br.bitAt br.bitPos = false
  · rw [if_pos hnext]
    have hne : br.bitPos ≠ last := by
      rintro rfl
      rw [(bitAt_iff br br.bitPos).mpr h.1] at hnext
      cases hnext
    exact ⟨fun _ => by omega, fun _ => rfl⟩
  · rw [if_neg hnext, List.any_eq_true]
    constructor
    · rintro ⟨i, hi, hone⟩
      rw [List.mem_range'_1] at hi
      have hle : i ≤ last := by
        by_contra hgt
        exact h.2 i (by omega) ((bitAt_iff br i).mp hone)
      omega
    · intro hlt
      refine ⟨last, List.mem_range'_1.mpr (by omega), (bitAt_iff br last).mpr h.1⟩

/-- What is ahead ends with the trailing bits: the answer is whether something is in front of
them. -/
theorem more_ahead (h : br.ahead = w ++ true :: List.replicate k false) :
    br.moreRbspData = true ↔ w ≠ [] := by
  have hbit (j : Nat) : (dataBits br.data)[br.bitPos + w.length + j]? =
      (true :: List.replicate k false)[j]? := by
    have hdrop : (dataBits br.data)[br.bitPos + w.length + j]? = br.ahead[w.length + j]? := by
      rw [BitReader.ahead, List.getElem?_drop, Nat.add_assoc]
    rw [hdrop, h, List.getElem?_append_right (Nat.le_add_right _ _), Nat.add_sub_cancel_left]
  have hlast : LastOne br.data (br.bitPos + w.length) := by
    refine ⟨hbit 0, fun i hi hone => ?_⟩
    obtain ⟨j, rfl⟩ : ∃ j, i = br.bitPos + w.length + (j + 1) :=
      ⟨i - (br.bitPos + w.length) - 1, by omega⟩
    rw [hbit, List.getElem?_cons_succ, List.getElem?_replicate] at hone
    split at hone
    · cases hone
    · cases hone
  rw [moreRbspData_iff hlast (Nat.le_add_right _ _), ← List.length_pos_iff]
  omega

end MoreData

section Completion

variable {σ α β : Type} {p q : Parser σ α} {s s' s'' : σ} {w w' : List Bool} {a : α} {b : β}

/-- As `Decodes`, for a parser that asks for the end of the unit: the trailing bits and any zeros
are behind `w`. -/
def Completes (p : Parser σ α) (s : σ) (w : List Bool) (a : α) (s' : σ) : Prop :=
  ∀ br k, br.ahead = w ++ true :: List.replicate k false →
    exec p s br = ((.ok a, s'), br.advance w.length)

theorem Decodes.completes (hp : Decodes p s w a s') : Completes p s w a s' :=
  fun br _ h => hp br _ h

theorem Completes.from {t : σ} (hp : Completes p t w a s') (hs : t = s) :
    Completes p s w a s' := hs ▸ hp

theorem Completes.bind {f : α → Parser σ β} (hp : Decodes p s w a s')
    (hf : Completes (f a) s' w' b s'') :
    Completes (p >>= f) s (w ++ w') b s'' := by
  intro br k h
  rw [List.append_assoc] at h
  have hrest := hf (br.advance w.length) k (BitReader.ahead_advance h)
  rw [exec_bind, hp br _ h, List.length_append, ← BitReader.advance_advance]
  exact hrest

theorem Completes.update {g : σ → σ} {f : PUnit → Parser σ β}
    (hf : Completes (f PUnit.unit) (g s) w b s') :
    Completes (modify g >>= f) s w b s' := hf

theorem Completes.pos {c : Prop} [Decidable c] (hc : c) (hp : Completes p s w a s') :
    Completes (if c then p else q) s w a s' := by
  rwa [if_pos hc]

/-- An element that is stored as it is read. -/
theorem Completes.store {ν : Type} {read : Parser σ ν} {set : ν → σ → σ} {x : ν}
    (hread : Decodes read s w x s) (hq : Completes q (set x s) w' a s'') :
    Completes (read >>= fun v => (modify (set v) : Parser σ PUnit) >>= fun _ => q) s
      (w ++ w') a s'' :=
  Completes.bind hread (.update hq)

theorem Completes.neg {c : Prop} [Decidable c] (hc : ¬c) (hq : Completes q s w a s') :
    Completes (if c then p else q) s w a s' := by
  rwa [if_neg hc]

theorem Completes.more {f : Bool → Parser σ β} (hw : w ≠ []) (hf : Completes (f true) s w b s') :
    Completes (brMoreRbspData >>= f) s w b s' := by
  intro br k h
  have hmore : br.moreRbspData = true := (more_ahead h).mpr hw
  rw [exec_bind, brMoreRbspData, exec_ask]
  dsimp only [ReadOp.handle]
  rw [hmore]
  exact hf br k h

theorem Completes.done {f : Bool → Parser σ β} (hf : Completes (f false) s [] b s') :
    Completes (brMoreRbspData >>= f) s [] b s' := by
  intro br k h
  have hmore : br.moreRbspData = false := by
    rw [Bool.eq_false_iff, Ne, more_ahead h]
    exact fun hne => hne rfl
  rw [exec_bind, brMoreRbspData, exec_ask]
  dsimp only [ReadOp.handle]
  rw [hmore]
  exact hf br k h

/-- A unit that is read without an error passes the check at its end. -/
theorem Completes.checked (hp : Completes p s w a s') {br : BitReader}
    (hfailed : br.failed = false) {k : Nat} (h : br.ahead = w ++ true :: List.replicate k false) :
    exec (p >>= fun a => checkFailed >>= fun _ => pure a) s br =
    ((.ok a, s'), br.advance w.length) := by
  have hread := hp br k h
  have hcheck : exec checkFailed s' (br.advance w.length) = ((.ok (), s'), br.advance w.length) :=
    exec_checkFailed hfailed
  rw [exec_bind, hread]
  change exec (checkFailed >>= fun _ => pure a) s' (br.advance w.length) = _
  rw [exec_bind, hcheck]
  rfl

end Completion

namespace H264

section Lists

/-- A scaling list as it is written: left out, the default one, or its values in the order of the
scan, of which the first `run` are coded and the others repeat the last of these. -/
inductive ListSyntax where
  | absent
  | useDefault
  | explicit (values : List Nat) (run : Nat)

/-- `delta_scale`. -/
def deltaScale (lastScale nextScale : Nat) : Int := ((nextScale : Int) - lastScale).bmod 256

def writeDelta (lastScale nextScale : Nat) : List Bool :=
  golomb (signedRank (deltaScale lastScale nextScale))

/-- The values behind `lastScale`; a scale of 0 says that the others repeat it. -/
def writeValues : Nat → Nat → List Nat → List Bool
  | _, _, [] => []
  | lastScale, 0, _ :: _ => writeDelta lastScale 0
  | lastScale, run + 1, v :: values => writeDelta lastScale v ++ writeValues v run values

def ListSyntax.write : ListSyntax → List Bool
  | absent => [false]
  | useDefault => [true] ++ writeDelta 8 0
  | explicit values run => [true] ++ writeValues 8 run values

def ListSyntax.coded : ListSyntax → CodedList
  | absent => .absent
  | useDefault => .useDefault
  | explicit values _ => .explicit values

/-- The values that are not coded are the last one that is. -/
def Repeats (lastScale run : Nat) (values : List Nat) : Prop :=
  ∀ v ∈ values.drop run, v = (lastScale :: values).getD run 0

/-- List `i` has values for the whole scan, and it starts with a coded one. -/
def ListSyntax.Valid (i : Nat) : ListSyntax → Prop
  | explicit values run =>
    values.length = listSize i ∧ (∀ v ∈ values, 1 ≤ v ∧ v ≤ 255) ∧ 0 < run ∧ Repeats 8 run values
  | _ => True

variable {o : ParseResult} {lastScale nextScale run i : Nat} {values scan list : List Nat}

theorem deltaScale_range (lastScale nextScale : Nat) :
    -128 ≤ deltaScale lastScale nextScale ∧ deltaScale lastScale nextScale ≤ 127 := by
  have hlow := Int.le_bmod (x := (nextScale : Int) - lastScale) (by decide : 0 < 256)
  have hhigh := Int.bmod_lt (x := (nextScale : Int) - lastScale) (by decide : 0 < 256)
  unfold deltaScale
  omega

/-- The parser takes back the scale that was written. -/
theorem scale_back (hnext : nextScale < 256) :
    (((lastScale : Int) + deltaScale lastScale nextScale + 256) % 256).toNat = nextScale := by
  have hmod : deltaScale lastScale nextScale % 256 = ((nextScale : Int) - lastScale) % 256 :=
    Int.bmod_emod
  omega

theorem decodes_delta {α : Type} {f : Nat → P α} {w : List Bool} {a : α} {o' : ParseResult}
    (hnext : nextScale < 256) (hf : Decodes (f nextScale) o w a o') :
    Decodes
      (brSe >>= fun delta => (pure (((lastScale : Int) + delta + 256) % 256).toNat : P Nat) >>= f) o
      (writeDelta lastScale nextScale ++ w) a o' := by
  obtain ⟨hlow, hhigh⟩ := deltaScale_range lastScale nextScale
  refine (decodes_brSe (k := deltaScale lastScale nextScale) (by omega) (by omega)).bind ?_
  rw [scale_back hnext]
  exact Decodes.bind (decodes_pure nextScale o) hf

/-- With a next scale of 0 nothing is read any more. -/
theorem decodes_repeated (hlen : values.length = scan.length) (hlt : lastScale < 256)
    (hsame : ∀ v ∈ values, v = lastScale) :
    Decodes (scalingLoop scan false lastScale 0 lastScale list) o []
      (inverseScan scan values list, false) o := by
  induction scan generalizing values list with
  | nil =>
    obtain rfl := List.length_eq_zero_iff.mp hlen
    exact decodes_pure _ o
  | cons pos scan ih =>
    cases values with
    | nil => cases hlen
    | cons v values =>
      have hv : v = lastScale := hsame v List.mem_cons_self
      have hbyte : u8 lastScale = lastScale := Nat.mod_eq_of_lt hlt
      rw [inverseScan, hv]
      unfold scalingLoop
      refine Decodes.bind (decodes_pure 0 o) ?_
      simp only [Bool.false_eq_true, false_and, if_false, if_true, hbyte]
      exact ih (Nat.succ_inj.mp hlen) fun v hv => hsame v (List.mem_cons_of_mem _ hv)

/-- From any position of the scan on. The scale is that of the value before. -/
theorem decodes_scalingLoop {first : Bool} (hlen : values.length = scan.length)
    (hpos : 0 < lastScale) (hlt : lastScale < 256) (hvalues : ∀ v ∈ values, 1 ≤ v ∧ v ≤ 255)
    (hfirst : first = true → 0 < run) (hrepeats : Repeats lastScale run values) :
    Decodes (scalingLoop scan first lastScale lastScale lastScale list) o
      (writeValues lastScale run values)
      (inverseScan scan values list, false) o := by
  induction scan generalizing values list first lastScale run with
  | nil =>
    obtain rfl := List.length_eq_zero_iff.mp hlen
    rw [writeValues]
    exact decodes_pure _ o
  | cons pos scan ih =>
    cases values with
    | nil => cases hlen
    | cons v values =>
      have hread : lastScale ≠ 0 := by omega
      unfold scalingLoop
      simp only [if_pos hread]
      cases run with
      | zero =>
        have hsame (v' : Nat) (hv' : v' ∈ v :: values) : v' = lastScale := hrepeats v' hv'
        have hlater : ¬(first = true ∧ (0 : Nat) = 0) :=
          fun h => absurd (hfirst h.1) (Nat.not_lt_zero 0)
        have hbyte : u8 lastScale = lastScale := Nat.mod_eq_of_lt hlt
        have hbits : writeValues lastScale 0 (v :: values) = writeDelta lastScale 0 ++ [] :=
          (List.append_nil _).symm
        rw [hbits, inverseScan, hsame v List.mem_cons_self]
        refine decodes_delta (by decide) ?_
        rw [if_neg hlater]
        simp only [if_true, hbyte]
        exact decodes_repeated (Nat.succ_inj.mp hlen) hlt fun v' hv' =>
          hsame v' (List.mem_cons_of_mem _ hv')
      | succ run =>
        obtain ⟨hlow, hhigh⟩ := hvalues v List.mem_cons_self
        have hnonzero : ¬v = 0 := by omega
        have hlater : ¬(first = true ∧ v = 0) := fun h => hnonzero h.2
        have hbyte : u8 v = v := Nat.mod_eq_of_lt (by omega)
        rw [writeValues, inverseScan]
        refine decodes_delta (Nat.lt_succ_of_le hhigh) ?_
        rw [if_neg hlater]
        simp only [if_neg hnonzero, hbyte]
        have hrest (v' : Nat) (hv' : v' ∈ values) : 1 ≤ v' ∧
            v' ≤ 255 := hvalues v' (List.mem_cons_of_mem _ hv')
        exact ih (Nat.succ_inj.mp hlen) (by omega) (by omega) hrest
          (fun h => absurd h Bool.false_ne_true) hrepeats

theorem decodes_useDefault (hscan : scan ≠ []) :
    Decodes (scalingLoop scan true 8 8 8 list) o (writeDelta 8 0) (list, true) o := by
  cases scan with
  | nil => exact absurd rfl hscan
  | cons pos scan =>
    have hbits : writeDelta 8 0 = writeDelta 8 0 ++ [] := (List.append_nil _).symm
    rw [hbits]
    unfold scalingLoop
    refine decodes_delta (by decide) ?_
    exact decodes_pure (list, true) o

theorem length_scanOf (i : Nat) : (scanOf i).length = listSize i := by
  unfold scanOf listSize
  split
  · rfl
  · rfl

theorem scanOf_ne_nil (i : Nat) : scanOf i ≠ [] := by
  unfold scanOf
  split
  · exact List.cons_ne_nil _ _
  · exact List.cons_ne_nil _ _

theorem decodes_parseMatrixList {sm : ScalingMatrix} (hlen : values.length = listSize i)
    (hvalues : ∀ v ∈ values, 1 ≤ v ∧ v ≤ 255) (hrun : 0 < run) (hrepeats : Repeats 8 run values) :
    Decodes (parseMatrixList sm i) o (writeValues 8 run values)
      (storeCoded sm i (.explicit values), false) o := by
  rw [parseMatrixList_eq]
  have hloop : Decodes (scalingLoop (scanOf i) true 8 8 8 (listAt sm i)) o _ _ o :=
    decodes_scalingLoop (hlen.trans (length_scanOf i).symm) (by decide) (by decide) hvalues
      (fun _ => hrun) hrepeats
  exact hloop.last

theorem decodes_parseMatrixList_default (sm : ScalingMatrix) (i : Nat) :
    Decodes (parseMatrixList sm i) o (writeDelta 8 0) (sm, true) o := by
  rw [parseMatrixList_eq]
  have hloop : Decodes (scalingLoop (scanOf i) true 8 8 8 (listAt sm i)) o _ _ o :=
    decodes_useDefault (scanOf_ne_nil i)
  have hread := hloop.last (g := fun x => (putList sm i x.1, x.2))
  rwa [putList_listAt] at hread

def writeLists (lists : List ListSyntax) : List Bool := lists.flatMap ListSyntax.write

/-- The lists from `i` on have values for their scans. -/
def ValidFrom : Nat → List ListSyntax → Prop
  | _, [] => True
  | i, list :: lists => list.Valid i ∧ ValidFrom (i + 1) lists

/-- The matrix of the result with the lists from `i` on stored. -/
def storeLists (i : Nat) (lists : List ListSyntax) (o : ParseResult) : ParseResult :=
  { o with scalingMatrix := storeAll o.scalingMatrix i (lists.map ListSyntax.coded) }

theorem decodes_parsePicScalingLists (lists : List ListSyntax) (hvalid : ValidFrom i lists) :
    Decodes (parsePicScalingLists lists.length i) o (writeLists lists)
      (lists.map fun list => list.coded.flags) (storeLists i lists o) := by
  induction lists generalizing i o with
  | nil => exact decodes_pure [] o
  | cons list lists ih =>
    obtain ⟨hlist, hrest⟩ := hvalid
    have hbits : writeLists (list :: lists) = list.write ++ writeLists lists := List.flatMap_cons
    rw [hbits, List.length_cons]
    unfold parsePicScalingLists
    cases list with
    | absent =>
      exact (decodes_flag false).bind (Decodes.bind (decodes_pure false o) (ih hrest).last)
    | useDefault =>
      rw [ListSyntax.write, List.append_assoc]
      refine (decodes_flag true).bind
        (.look ((decodes_parseMatrixList_default _ i).bind (.update ?_)))
      exact Decodes.bind (decodes_pure true o) (ih hrest).last
    | explicit values run =>
      obtain ⟨hlen, hvalues, hrun, hrepeats⟩ := hlist
      rw [ListSyntax.write, List.append_assoc]
      refine (decodes_flag true).bind
        (.look ((decodes_parseMatrixList hlen hvalues hrun hrepeats).bind (.update ?_)))
      exact Decodes.bind (decodes_pure false _) (ih hrest).last

end Lists

section Parameters

/-- The elements of a picture parameter set that not every one has. -/
structure PpsTrailer where
  transform8x8ModeFlag : Bool
  picScalingLists : Option (List ListSyntax)
  secondChromaQpIndexOffset : Int

/-- A picture parameter set with one slice group. -/
structure PpsSyntax where
  picParameterSetId : Nat
  seqParameterSetId : Nat
  entropyCodingModeFlag : Bool
  bottomFieldPicOrderInFramePresentFlag : Bool
  numRefIdxL0DefaultActiveMinus1 : Nat
  numRefIdxL1DefaultActiveMinus1 : Nat
  weightedPredFlag : Bool
  weightedBipredIdc : Nat
  picInitQpMinus26 : Int
  picInitQsMinus26 : Int
  chromaQpIndexOffset : Int
  deblockingFilterControlPresentFlag : Bool
  constrainedIntraPredFlag : Bool
  redundantPicCntPresentFlag : Bool
  trailer : Option PpsTrailer

/-- The values of an `int8_t`; those of the standard are among them. -/
def InByte (k : Int) : Prop := -128 ≤ k ∧ k ≤ 127

instance (k : Int) : Decidable (InByte k) := inferInstanceAs (Decidable (_ ∧ _))

/-- The lists are those of a format other than 4:4:4, the ones that `parse_pps` knows. -/
structure PpsTrailer.Valid (t : PpsTrailer) : Prop where
  count : ∀ lists, t.picScalingLists = some lists →
    lists.length = if t.transform8x8ModeFlag then 8 else 6
  lists : ∀ lists, t.picScalingLists = some lists → ValidFrom 0 lists
  secondChromaQpIndexOffset : InByte t.secondChromaQpIndexOffset

/-- The values have room in the fields, which is wider than the standard asks for. -/
structure PpsSyntax.Valid (pps : PpsSyntax) : Prop where
  picParameterSetId : pps.picParameterSetId < 256
  seqParameterSetId : pps.seqParameterSetId < 256
  numRefIdxL0DefaultActiveMinus1 : pps.numRefIdxL0DefaultActiveMinus1 < 256
  numRefIdxL1DefaultActiveMinus1 : pps.numRefIdxL1DefaultActiveMinus1 < 256
  weightedBipredIdc : pps.weightedBipredIdc < 4
  picInitQpMinus26 : InByte pps.picInitQpMinus26
  picInitQsMinus26 : InByte pps.picInitQsMinus26
  chromaQpIndexOffset : InByte pps.chromaQpIndexOffset
  trailer : ∀ t, pps.trailer = some t → t.Valid

def writePicScalingLists : Option (List ListSyntax) → List Bool
  | some lists => [true] ++ writeLists lists
  | none => [false]

def PpsTrailer.write (t : PpsTrailer) : List Bool :=
  [t.transform8x8ModeFlag] ++
    (writePicScalingLists t.picScalingLists ++ golomb (signedRank t.secondChromaQpIndexOffset))

/-- `pic_parameter_set_rbsp`, up to its trailing bits. -/
def PpsSyntax.write (pps : PpsSyntax) : List Bool := List.flatten [
  golomb pps.picParameterSetId,
  golomb pps.seqParameterSetId,
  [pps.entropyCodingModeFlag],
  [pps.bottomFieldPicOrderInFramePresentFlag],
  golomb 0,
  golomb pps.numRefIdxL0DefaultActiveMinus1,
  golomb pps.numRefIdxL1DefaultActiveMinus1,
  [pps.weightedPredFlag],
  bitsOf 2 pps.weightedBipredIdc,
  golomb (signedRank pps.picInitQpMinus26),
  golomb (signedRank pps.picInitQsMinus26),
  golomb (signedRank pps.chromaQpIndexOffset),
  [pps.deblockingFilterControlPresentFlag],
  [pps.constrainedIntraPredFlag],
  [pps.redundantPicCntPresentFlag],
  pps.trailer.elim [] PpsTrailer.write]

def orIf (bit : Nat) (b : Bool) (flags : Nat) : Nat := if b then flags ||| bit else flags

/-- The parameter set without its trailer, as it is stored. -/
def PpsSyntax.stored (pps : PpsSyntax) : Pps where
  picParameterSetId := pps.picParameterSetId
  seqParameterSetId := pps.seqParameterSetId
  numRefIdxL0DefaultActiveMinus1 := pps.numRefIdxL0DefaultActiveMinus1
  numRefIdxL1DefaultActiveMinus1 := pps.numRefIdxL1DefaultActiveMinus1
  weightedBipredIdc := pps.weightedBipredIdc
  picInitQpMinus26 := pps.picInitQpMinus26
  picInitQsMinus26 := pps.picInitQsMinus26
  chromaQpIndexOffset := pps.chromaQpIndexOffset
  flags := orIf ppsFlagRedundantPicCntPresent pps.redundantPicCntPresentFlag
    (orIf ppsFlagConstrainedIntraPred pps.constrainedIntraPredFlag
      (orIf ppsFlagDeblockingFilterControlPresent pps.deblockingFilterControlPresentFlag
        (orIf ppsFlagWeightedPred pps.weightedPredFlag
          (orIf ppsFlagBottomFieldPicOrderInFramePresent pps.bottomFieldPicOrderInFramePresentFlag
            (orIf ppsFlagEntropyCodingMode pps.entropyCodingModeFlag 0)))))

/-- What the trailer adds to the parameter set, or what is inferred without it. -/
def PpsSyntax.withTrailer (pps : PpsSyntax) : Pps :=
  match pps.trailer with
  | some t => { pps.stored with
      flags := orIf ppsFlagScalingMatrixPresent t.picScalingLists.isSome
        (orIf ppsFlagTransform8x8Mode t.transform8x8ModeFlag pps.stored.flags)
      secondChromaQpIndexOffset := t.secondChromaQpIndexOffset }
  | none => { pps.stored with secondChromaQpIndexOffset := pps.chromaQpIndexOffset }

/-- The lists of the parameter set, if it has some. -/
def PpsSyntax.lists (pps : PpsSyntax) : Option (List ListSyntax) :=
  pps.trailer.bind PpsTrailer.picScalingLists

variable {o o' : ParseResult} {w : List Bool} {pps : PpsSyntax}

theorem decodes_int8 {k : Int} (h : InByte k) : Decodes brSe o (golomb (signedRank k)) k o :=
  decodes_brSe (by have hlow := h.1; omega) (by have hhigh := h.2; omega)

theorem i8_of_inByte {k : Int} (h : InByte k) : i8 k = k := i8_eq h.1 h.2

theorem u8_of_lt {n : Nat} (h : n < 256) : u8 n = n := Nat.mod_eq_of_lt h

theorem decodes_ppsFlag (bit : Nat) (b : Bool) :
    Decodes (ppsFlag bit) o [b] () { o with
    pps := { o.pps with flags := orIf bit b o.pps.flags } } := by
  have hbits : [b] = [b] ++ [] := rfl
  rw [hbits]
  unfold ppsFlag
  refine (decodes_flag b).bind ?_
  cases b with
  | false => exact decodes_pure () o
  | true => exact decodes_pure () _

theorem completes_orFlag {bit : Nat} {b : Bool} {q : P Bool} {a : Bool}
    (hq : Completes q { o with pps := { o.pps with flags := orIf bit b o.pps.flags } } w a o') :
    Completes (if b = true then setPps (fun p => { p with flags := p.flags ||| bit }) >>= fun _ => q
    else q) o w a
      o' := by
  cases b with
  | false => exact hq
  | true => exact .update hq

/-- The result with the lists of a trailer in place. -/
def storeMatrix (o : ParseResult) : Option (List ListSyntax) → ParseResult
  | some lists => { o with
      pps := { o.pps with flags := orIf ppsFlagScalingMatrixPresent true o.pps.flags }
      scalingMatrix := picStored (lists.map ListSyntax.coded) }
  | none => o

/-- What `parse_pps` makes of a parameter set. -/
def PpsSyntax.store (pps : PpsSyntax) (o : ParseResult) : ParseResult :=
  { o with
    pps := pps.withTrailer
    scalingMatrix := (pps.lists.map fun lists => picStored (lists.map ListSyntax.coded)).getD
      o.scalingMatrix }

theorem picStored_coded (lists : List ListSyntax) : picStored (lists.map ListSyntax.coded) =
    resolveLists (lists.map fun list => list.coded.flags) 0
      (storeAll {} 0 (lists.map ListSyntax.coded)) := by
  unfold picStored
  rw [List.map_map]
  rfl

theorem completes_lists {t : PpsTrailer} (ht : t.Valid) {q : Bool → P Bool} {a : Bool}
    (hq : Completes (q t.picScalingLists.isSome) (storeMatrix o t.picScalingLists) w a o') :
    Completes (flag >>= fun hasScaling =>
      if hasScaling = true then
        setPps (fun p => { p with flags := p.flags ||| ppsFlagScalingMatrixPresent }) >>= fun _ =>
        (modify fun o : ParseResult => { o with scalingMatrix := {} }) >>= fun _ =>
        parsePicScalingLists (if t.transform8x8ModeFlag = true then 8 else 6) 0 >>= fun lists =>
        (modify fun o : ParseResult => { o with
          scalingMatrix := resolveLists lists 0 o.scalingMatrix }) >>= fun _ =>
        q hasScaling
      else q hasScaling) o (writePicScalingLists t.picScalingLists ++ w) a o' := by
  cases hlists : t.picScalingLists with
  | none =>
    rw [hlists] at hq
    exact Completes.bind (decodes_flag false) hq
  | some lists =>
    rw [hlists] at hq
    dsimp only [storeMatrix] at hq
    rw [picStored_coded] at hq
    rw [writePicScalingLists, List.append_assoc]
    refine Completes.bind (decodes_flag true) (.update (.update ?_))
    rw [← ht.count lists hlists]
    refine Completes.bind (decodes_parsePicScalingLists lists (ht.lists lists hlists)) (.update ?_)
    exact hq

theorem PpsTrailer.write_ne_nil (t : PpsTrailer) : t.write ≠ [] := List.cons_ne_nil _ _

theorem completes_parsePpsFields (hpps : pps.Valid) :
    Completes parsePpsFields o pps.write pps.lists.isSome (pps.store o) := by
  unfold parsePpsFields PpsSyntax.write
  simp only [List.flatten_cons, List.flatten_nil, List.append_nil]
  refine .update
    (.store (decodes_brUe (Nat.le_of_lt (hpps.picParameterSetId.trans (by decide)))) ?_)
  refine .store (decodes_brUe (Nat.le_of_lt (hpps.seqParameterSetId.trans (by decide)))) ?_
  refine .bind (decodes_ppsFlag _ _) (.bind (decodes_ppsFlag _ _) ?_)
  refine .bind (decodes_brUe (Nat.zero_le _)) (.update (.neg (by decide) ?_))
  refine .store
    (decodes_brUe (Nat.le_of_lt (hpps.numRefIdxL0DefaultActiveMinus1.trans (by decide)))) ?_
  refine .store
    (decodes_brUe (Nat.le_of_lt (hpps.numRefIdxL1DefaultActiveMinus1.trans (by decide)))) ?_
  refine .bind (decodes_ppsFlag _ _) (.store (decodes_brU (by decide) hpps.weightedBipredIdc) ?_)
  refine .store (decodes_int8 hpps.picInitQpMinus26)
    (.store (decodes_int8 hpps.picInitQsMinus26) ?_)
  refine .store (decodes_int8 hpps.chromaQpIndexOffset) ?_
  refine .bind (decodes_ppsFlag _ _) (.bind (decodes_ppsFlag _ _) (.bind (decodes_ppsFlag _ _) ?_))
  refine Completes.from (t := { o with pps := pps.stored }) ?_ ?_
  · cases htrailer : pps.trailer with
    | none =>
      have hlists : pps.lists = none := by rw [PpsSyntax.lists, htrailer]; rfl
      have hstore : pps.store o = { o with
          pps := { pps.stored with secondChromaQpIndexOffset := pps.chromaQpIndexOffset } } := by
        rw [PpsSyntax.store, PpsSyntax.withTrailer, htrailer, hlists]
        rfl
      rw [hlists, hstore]
      exact .done (.neg (by decide) (.update (decodes_pure false _).completes))
    | some t =>
      have ht := hpps.trailer t htrailer
      have hlists : pps.lists = t.picScalingLists := by rw [PpsSyntax.lists, htrailer]; rfl
      refine .more t.write_ne_nil
        (.pos rfl (.bind (decodes_flag _) (completes_orFlag (completes_lists ht ?_))))
      refine .more (Lib.golomb_ne_nil _) (.pos rfl ?_)
      rw [← List.append_nil (golomb _), hlists]
      refine .bind (decodes_int8 ht.secondChromaQpIndexOffset) (.update ?_)
      refine Completes.from (t := pps.store o) (decodes_pure _ _).completes ?_
      dsimp only
      rw [i8_of_inByte ht.secondChromaQpIndexOffset, PpsSyntax.store, PpsSyntax.withTrailer,
        htrailer, hlists]
      dsimp only
      cases t.picScalingLists with
      | none => rfl
      | some lists => rfl
  · dsimp only
    rw [u8_of_lt hpps.picParameterSetId, u8_of_lt hpps.seqParameterSetId,
      u8_of_lt hpps.numRefIdxL0DefaultActiveMinus1, u8_of_lt hpps.numRefIdxL1DefaultActiveMinus1,
      u8_of_lt (hpps.weightedBipredIdc.trans (by decide)),
      i8_of_inByte hpps.picInitQpMinus26, i8_of_inByte hpps.picInitQsMinus26,
      i8_of_inByte hpps.chromaQpIndexOffset]
    rfl

end Parameters

section Exactness

variable {pps : PpsSyntax} {o : ParseResult} {flags bit other : Nat} {b : Bool}

theorem hasFlag_or (flags bit other : Nat) :
    hasFlag (flags ||| bit) other = (hasFlag flags other || hasFlag bit other) := by
  unfold hasFlag
  rw [Nat.and_or_distrib_right, Bool.eq_iff_iff, decide_eq_true_iff, Bool.or_eq_true,
    decide_eq_true_iff, decide_eq_true_iff, Ne, Nat.or_eq_zero_iff]
  tauto

theorem hasFlag_orIf (bit other flags : Nat) (b : Bool) :
    hasFlag (orIf bit b flags) other = (hasFlag flags other || (b && hasFlag bit other)) := by
  cases b with
  | false => exact (Bool.or_false _).symm
  | true => exact hasFlag_or flags bit other

/-- A flag of the trailer is not among those in front of it. -/
theorem stored_flags
    (hother : other = ppsFlagTransform8x8Mode ∨ other = ppsFlagScalingMatrixPresent) :
    hasFlag pps.stored.flags other = false := by
  unfold PpsSyntax.stored
  rcases hother with rfl | rfl
  · simp only [hasFlag_orIf]
    simp [hasFlag, ppsFlagRedundantPicCntPresent, ppsFlagConstrainedIntraPred,
      ppsFlagDeblockingFilterControlPresent, ppsFlagWeightedPred,
      ppsFlagBottomFieldPicOrderInFramePresent, ppsFlagEntropyCodingMode, ppsFlagTransform8x8Mode]
  · simp only [hasFlag_orIf]
    simp [hasFlag, ppsFlagRedundantPicCntPresent, ppsFlagConstrainedIntraPred,
      ppsFlagDeblockingFilterControlPresent, ppsFlagWeightedPred,
      ppsFlagBottomFieldPicOrderInFramePresent, ppsFlagEntropyCodingMode,
      ppsFlagScalingMatrixPresent]

/-- The result has the trailer that was written, or what is inferred without one. A list that is not
explicit falls back to another one. -/
structure Returned (pps : PpsSyntax) (o : ParseResult) : Prop where
  offset : ∀ t, pps.trailer = some t → o.pps.secondChromaQpIndexOffset = t.secondChromaQpIndexOffset
  transform : ∀ t, pps.trailer = some t →
    hasFlag o.pps.flags ppsFlagTransform8x8Mode = t.transform8x8ModeFlag
  matrix : ∀ t, pps.trailer = some t →
    hasFlag o.pps.flags ppsFlagScalingMatrixPresent = t.picScalingLists.isSome
  lists : ∀ t lists i values run, pps.trailer = some t → t.picScalingLists = some lists →
    lists[i]? = some (.explicit values run) → listAt o.scalingMatrix i = matrixOf i values
  inferredOffset : pps.trailer = none → o.pps.secondChromaQpIndexOffset = pps.chromaQpIndexOffset
  inferredTransform : pps.trailer = none → hasFlag o.pps.flags ppsFlagTransform8x8Mode = false

theorem listAt_picStored {lists : List ListSyntax} {i run : Nat} {values : List Nat}
    (hlen : lists.length ≤ 8) (hlist : lists[i]? = some (.explicit values run)) :
    listAt (picStored (lists.map ListSyntax.coded)) i = matrixOf i values := by
  obtain ⟨hi, -⟩ := List.getElem?_eq_some_iff.mp hlist
  have hcount : (lists.map ListSyntax.coded).length ≤ 8 := by rwa [List.length_map]
  obtain ⟨-, hstored⟩ := picStored_spec hcount
  have hcoded : codedAt ((lists.map ListSyntax.coded).map CodedList.sansDefault) i =
      .explicit values := by
    rw [codedAt, List.getD_eq_getElem?_getD, List.getElem?_map, List.getElem?_map, hlist]
    rfl
  rw [hstored i (by rwa [List.length_map]), derive_eq, codedOr_explicit hcoded]

theorem returned_store (hpps : pps.Valid) (o : ParseResult) : Returned pps (pps.store o) where
  offset t ht := by
    rw [PpsSyntax.store, PpsSyntax.withTrailer, ht]
  transform t ht := by
    rw [PpsSyntax.store, PpsSyntax.withTrailer, ht]
    dsimp only
    rw [hasFlag_orIf, hasFlag_orIf, stored_flags (.inl rfl)]
    simp [hasFlag, ppsFlagScalingMatrixPresent, ppsFlagTransform8x8Mode]
  matrix t ht := by
    rw [PpsSyntax.store, PpsSyntax.withTrailer, ht]
    dsimp only
    rw [hasFlag_orIf, hasFlag_orIf, stored_flags (.inr rfl)]
    simp [hasFlag, ppsFlagScalingMatrixPresent, ppsFlagTransform8x8Mode]
  lists t lists i values run ht hlists hlist := by
    have hlen : lists.length ≤ 8 := by
      rw [(hpps.trailer t ht).count lists hlists]
      split
      · exact Nat.le_refl 8
      · decide
    have hmatrix : (pps.store o).scalingMatrix = picStored (lists.map ListSyntax.coded) := by
      rw [PpsSyntax.store, PpsSyntax.lists, ht, Option.bind_some, hlists]
      rfl
    rw [hmatrix]
    exact listAt_picStored hlen hlist
  inferredOffset ht := by
    rw [PpsSyntax.store, PpsSyntax.withTrailer, ht]
  inferredTransform ht := by
    rw [PpsSyntax.store, PpsSyntax.withTrailer, ht]
    exact stored_flags (.inl rfl)

/-- The reader's answer is exact in front of the last one of any data, and the parser reads a
parameter set to its end and nothing of the trailing bits, with its trailer just where it has
one. -/
theorem pps_trailer_exact (data : List Byte) :
    (∀ p last failed, LastOne data last → p ≤ last →
      ((BitReader.mk data p failed).moreRbspData = true ↔ p < last)) ∧
    ∀ (pps : PpsSyntax) (zeros : Nat) (o : ParseResult), pps.Valid →
      dataBits data = pps.write ++ true :: List.replicate zeros false →
      exec parsePps o (.init data) =
          ((.ok pps.lists.isSome, pps.store o), (BitReader.init data).advance pps.write.length) ∧
        Returned pps (pps.store o) := by
  refine ⟨fun p last failed hlast hp => moreRbspData_iff hlast hp, fun pps zeros o hpps hdata => ?_⟩
  refine ⟨?_, returned_store hpps o⟩
  have hahead : (BitReader.init data).ahead =
      pps.write ++ true :: List.replicate zeros false := hdata
  exact (completes_parsePpsFields hpps).checked rfl hahead

/-- A parameter set with an offset of 2 for the second chroma component, or with no trailer. -/
def samplePps (trailer : Bool) : PpsSyntax where
  picParameterSetId := 0
  seqParameterSetId := 0
  entropyCodingModeFlag := true
  bottomFieldPicOrderInFramePresentFlag := false
  numRefIdxL0DefaultActiveMinus1 := 0
  numRefIdxL1DefaultActiveMinus1 := 0
  weightedPredFlag := false
  weightedBipredIdc := 0
  picInitQpMinus26 := 0
  picInitQsMinus26 := 0
  chromaQpIndexOffset := 0
  deblockingFilterControlPresentFlag := true
  constrainedIntraPredFlag := false
  redundantPicCntPresentFlag := false
  trailer := if trailer then some ⟨true, none, 2⟩ else none

theorem samplePps_valid (trailer : Bool) : (samplePps trailer).Valid where
  picParameterSetId := by decide +revert
  seqParameterSetId := by decide +revert
  numRefIdxL0DefaultActiveMinus1 := by decide +revert
  numRefIdxL1DefaultActiveMinus1 := by decide +revert
  weightedBipredIdc := by decide +revert
  picInitQpMinus26 := by decide +revert
  picInitQsMinus26 := by decide +revert
  chromaQpIndexOffset := by decide +revert
  trailer t ht := by
    cases trailer with
    | false => cases ht
    | true =>
      cases ht
      exact ⟨nofun, nofun, by decide⟩

/-- Both with a zero byte behind them, and the last bit of a byte. -/
theorem pps_trailer_exact_both :
    (BitReader.mk [0x01] 3 false).moreRbspData = true ∧
    Returned (samplePps true) ((samplePps true).store {}) ∧
    Returned (samplePps false) ((samplePps false).store {}) := by
  refine ⟨?_, ?_, ?_⟩
  · refine ((pps_trailer_exact [0x01]).1 3 7 false ⟨by decide, fun i hi => ?_⟩ (by decide)).mpr
      (by decide)
    rw [List.getElem?_eq_none (by rw [BitReader.length_dataBits]; exact hi)]
    nofun
  · exact ((pps_trailer_exact [0xee, 0x3c, 0x89, 0x00]).2 (samplePps true) 8 {}
      (samplePps_valid true)
      (by decide +kernel)).2
  · exact ((pps_trailer_exact [0xee, 0x3c, 0x80, 0x00]).2 (samplePps false) 15 {}
      (samplePps_valid false)
      (by decide +kernel)).2

end Exactness

end H264

end Rkvdec.Bitstream
