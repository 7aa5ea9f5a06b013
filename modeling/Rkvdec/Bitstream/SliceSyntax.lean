import Rkvdec.Bitstream.H264
import Rkvdec.Bitstream.Elements

/-! The slice header of H.264 as the syntax tables of the standard write it, and what
`parse_slice_header` makes of it. The pictures are frames. The elements behind the reference picture
marking are left to what follows the header. -/
namespace Rkvdec.Bitstream

open Lib (bitsOf golomb signedRank)

section Writers

/-- What was written, and whether that is the whole structure: behind an operation code that they do
not have, the tables say nothing. -/
structure Written where
  bits : List Bool
  ended : Bool

namespace Written

/-- A structure that has no operation codes. -/
def all (bits : List Bool) : Written := ⟨bits, true⟩

/-- A structure that only some headers have. -/
def opt (c : Prop) [Decidable c] (w : Written) : Written := if c then w else all []

/-- Structures one behind the other. -/
def concat : List Written → Written
  | [] => all []
  | w :: ws => if w.ended then ⟨w.bits ++ (concat ws).bits, (concat ws).ended⟩ else w

end Written

def writeSe (k : Int) : List Bool := golomb (signedRank k)

/-- The elements one reference has in `pred_weight_table`: a weight and an offset for luma, two of
each for chroma. -/
structure WeightEntry where
  luma : Option (Int × Int)
  chroma : Option (Int × Int × Int × Int)

def writeLuma : Option (Int × Int) → List Bool
  | some (weight, offset) => writeSe weight ++ writeSe offset
  | none => []

def writeChroma : Option (Int × Int × Int × Int) → List Bool
  | some (weight, offset, weight', offset') =>
    writeSe weight ++ writeSe offset ++ writeSe weight' ++ writeSe offset'
  | none => []

/-- The values of `ue(v)`. -/
def InUe (v : Nat) : Prop := v ≤ 2 ^ 32 - 2

/-- The values of `se(v)`. -/
def InSe (k : Int) : Prop := -(2 ^ 31 - 1) ≤ k ∧ k ≤ 2 ^ 31 - 1

instance (v : Nat) : Decidable (InUe v) := inferInstanceAs (Decidable (_ ≤ _))

instance (k : Int) : Decidable (InSe k) := inferInstanceAs (Decidable (_ ∧ _))

structure WeightEntry.InRange (e : WeightEntry) : Prop where
  luma : ∀ weight offset, e.luma = some (weight, offset) → InSe weight ∧ InSe offset
  chroma : ∀ weight offset weight' offset', e.chroma = some (weight, offset, weight', offset') →
    InSe weight ∧ InSe offset ∧ InSe weight' ∧ InSe offset'

theorem isSome_eq_bits {α : Type} (write : Option α → List Bool) (v : Option α)
    (hnone : write none = []) :
    write v = if v.isSome = true then write v else [] := by
  cases v with
  | none => exact hnone
  | some _ => rfl

variable {σ : Type} {s : σ}

theorem decodes_se {k : Int} (h : InSe k) : Decodes brSe s (writeSe k) k s := decodes_brSe h.1 h.2

end Writers

namespace H264

section Syntax

/-- The syntax elements of the slice header of a frame; those that the header does not have are not
written. An override comes with the two counts, a modification and an adaptive marking with their
operations. -/
structure SliceSyntax where
  firstMbInSlice : Nat
  sliceType : Nat
  picParameterSetId : Nat
  colourPlaneId : Nat
  frameNum : Nat
  idrPicId : Nat
  picOrderCntLsb : Nat
  deltaPicOrderCntBottom : Int
  deltaPicOrderCnt0 : Int
  deltaPicOrderCnt1 : Int
  redundantPicCnt : Nat
  directSpatialMvPredFlag : Bool
  numRefIdxActiveOverride : Option (Nat × Nat)
  modificationL0 : Option (List RplmOp)
  modificationL1 : Option (List RplmOp)
  lumaLog2WeightDenom : Nat
  chromaLog2WeightDenom : Nat
  weightsL0 : List WeightEntry
  weightsL1 : List WeightEntry
  noOutputOfPriorPicsFlag : Bool
  longTermReferenceFlag : Bool
  adaptiveMarking : Option (List Mmco)

variable (sps : Sps) (pps : Pps) (nalRefIdc nalUnitType : Nat) (h : SliceSyntax)

/-- The slice type without the promise that the other slices of the picture have it too. -/
def SliceSyntax.kind : Nat := if 5 ≤ h.sliceType then h.sliceType - 5 else h.sliceType

/-- The slices with references. -/
def SliceSyntax.Inter : Prop := h.kind = sliceTypeP ∨ h.kind = sliceTypeSp ∨ h.kind = sliceTypeB

def SliceSyntax.numRefIdxL0ActiveMinus1 : Nat :=
  match h.numRefIdxActiveOverride with
  | some (l0, _) => l0
  | none => pps.numRefIdxL0DefaultActiveMinus1

def SliceSyntax.numRefIdxL1ActiveMinus1 : Nat :=
  match h.numRefIdxActiveOverride with
  | some (_, l1) => l1
  | none => pps.numRefIdxL1DefaultActiveMinus1

/-- The slices with a `pred_weight_table`. -/
def SliceSyntax.Weighted : Prop :=
  (hasFlag pps.flags ppsFlagWeightedPred ∧ (h.kind = sliceTypeP ∨ h.kind = sliceTypeSp)) ∨
    (pps.weightedBipredIdc = 1 ∧ h.kind = sliceTypeB)

instance : Decidable h.Inter := inferInstanceAs (Decidable (_ ∨ _))

instance : Decidable (h.Weighted pps) := inferInstanceAs (Decidable (_ ∨ _))

/-- `ChromaArrayType`. -/
def chromaArrayType : Nat :=
  if hasFlag sps.flags spsFlagSeparateColourPlane then 0 else sps.chromaFormatIdc

/-- Whether the header has an element for the bottom field of a frame. -/
def bottomPresent (fieldPicFlag : Bool) : Bool :=
  hasFlag pps.flags ppsFlagBottomFieldPicOrderInFramePresent && !fieldPicFlag

/-- The counts of an override; only a B slice has the second one. -/
def writeCounts (isB : Prop) [Decidable isB] : Option (Nat × Nat) → List Bool
  | some (l0, l1) => golomb l0 ++ (if isB then golomb l1 else [])
  | none => []

def writeOverride : List Bool :=
  [h.numRefIdxActiveOverride.isSome] ++ writeCounts (h.kind = sliceTypeB) h.numRefIdxActiveOverride

/-- `ref_pic_list_modification`, one list of it; the code 3 ends it. -/
def writeCommands : List RplmOp → Written
  | [] => .all (golomb 3)
  | c :: cs =>
    if c.op < 3 then ⟨golomb c.op ++ golomb c.value ++ (writeCommands cs).bits,
      (writeCommands cs).ended⟩
    else ⟨golomb c.op, false⟩

def writeModification (cs : Option (List RplmOp)) : Written :=
  match cs with
  | some cs => .concat [.all [true], writeCommands cs]
  | none => .all [false]

def writeWeights (chroma : Bool) (e : WeightEntry) : List Bool :=
  [e.luma.isSome] ++ writeLuma e.luma ++
    (if chroma then [e.chroma.isSome] ++ writeChroma e.chroma else [])

def writeWeightTable (chroma : Bool) : List Bool :=
  golomb h.lumaLog2WeightDenom ++ (if chroma then golomb h.chromaLog2WeightDenom else []) ++
    h.weightsL0.flatMap (writeWeights chroma) ++
    (if h.kind = sliceTypeB then h.weightsL1.flatMap (writeWeights chroma) else [])

/-- The operands of a memory management control operation. -/
def writeOperands (m : Mmco) : List Bool :=
  (if m.op = 1 ∨ m.op = 3 then golomb m.differenceOfPicNumsMinus1 else []) ++
    (if m.op = 2 then golomb m.longTermPicNum else []) ++
    (if m.op = 3 ∨ m.op = 6 then golomb m.longTermFrameIdx else []) ++
    (if m.op = 4 then golomb m.maxLongTermFrameIdxPlus1 else [])

/-- The operations of `dec_ref_pic_marking`; the code 0 ends them. -/
def writeOperations : List Mmco → Written
  | [] => .all (golomb 0)
  | m :: ms =>
    if m.op ≤ 6 then ⟨golomb m.op ++ writeOperands m ++ (writeOperations ms).bits,
      (writeOperations ms).ended⟩
    else ⟨golomb m.op, false⟩

def writeMarking : Written :=
  if nalUnitType = 5 then .all [h.noOutputOfPriorPicsFlag, h.longTermReferenceFlag]
  else
    match h.adaptiveMarking with
    | some ms => .concat [.all [true], writeOperations ms]
    | none => .all [false]

/-- The elements of the picture order count. -/
def writePicOrderCnt : Written := .concat [
  .opt (sps.picOrderCntType = 0) (.concat [
    .all (bitsOf (sps.log2MaxPicOrderCntLsbMinus4 + 4) h.picOrderCntLsb),
    .opt (bottomPresent pps false) (.all (writeSe h.deltaPicOrderCntBottom))]),
  .opt (sps.picOrderCntType = 1 ∧
  hasFlag sps.flags spsFlagDeltaPicOrderAlwaysZero = false) (.concat [
    .all (writeSe h.deltaPicOrderCnt0),
    .opt (bottomPresent pps false) (.all (writeSe h.deltaPicOrderCnt1))])]

/-- The lists of a slice with references. -/
def writeRefPicLists : Written := .concat [
  .all (writeOverride h),
  writeModification h.modificationL0,
  .opt (h.kind = sliceTypeB) (writeModification h.modificationL1)]

/-- `slice_header`, up to the reference picture marking. -/
def writeSliceHeader : Written := .concat [
  .all (golomb h.firstMbInSlice),
  .all (golomb h.sliceType),
  .all (golomb h.picParameterSetId),
  .opt (hasFlag sps.flags spsFlagSeparateColourPlane) (.all (bitsOf 2 h.colourPlaneId)),
  .all (bitsOf (sps.log2MaxFrameNumMinus4 + 4) h.frameNum),
  .opt (hasFlag sps.flags spsFlagFrameMbsOnly = false) (.all [false]),
  .opt (nalUnitType = 5) (.all (golomb h.idrPicId)),
  writePicOrderCnt sps pps h,
  .opt (hasFlag pps.flags ppsFlagRedundantPicCntPresent) (.all (golomb h.redundantPicCnt)),
  .opt (h.kind = sliceTypeB) (.all [h.directSpatialMvPredFlag]),
  .opt h.Inter (writeRefPicLists h),
  .opt (h.Weighted pps) (.all (writeWeightTable h (chromaArrayType sps ≠ 0))),
  .opt (nalRefIdc ≠ 0) (writeMarking nalUnitType h)]

end Syntax

section Ranges

/-- The commands can be written, and none of them is the end. -/
def CommandsInUe (cs : List RplmOp) : Prop := ∀ c ∈ cs, c.op ≠ 3 ∧ InUe c.op ∧ InUe c.value

/-- The operands an operation has can be written, and the others are 0. -/
structure Operands (m : Mmco) : Prop where
  op : m.op ≠ 0 ∧ InUe m.op
  difference : if m.op = 1 ∨ m.op = 3 then InUe m.differenceOfPicNumsMinus1
    else m.differenceOfPicNumsMinus1 = 0
  longTermPicNum : if m.op = 2 then InUe m.longTermPicNum else m.longTermPicNum = 0
  longTermFrameIdx : if m.op = 3 ∨ m.op = 6 then InUe m.longTermFrameIdx else m.longTermFrameIdx = 0
  maxLongTermFrameIdx :
    if m.op = 4 then InUe m.maxLongTermFrameIdxPlus1 else m.maxLongTermFrameIdxPlus1 = 0

/-- What the header takes from the stored sets is within the ranges of the standard. -/
structure SetsInRange (sps : Sps) (pps : Pps) : Prop where
  log2MaxFrameNum : sps.log2MaxFrameNumMinus4 ≤ 12
  log2MaxPicOrderCntLsb : sps.log2MaxPicOrderCntLsbMinus4 ≤ 12
  numRefIdxL0Default : pps.numRefIdxL0DefaultActiveMinus1 ≤ 31
  numRefIdxL1Default : pps.numRefIdxL1DefaultActiveMinus1 ≤ 31

/-- The elements have values that their syntax can express. A list has no more commands than active
references. -/
structure SliceSyntax.Expressible (sps : Sps) (pps : Pps) (h : SliceSyntax) : Prop where
  firstMbInSlice : InUe h.firstMbInSlice
  sliceType : h.sliceType ≤ 9
  picParameterSetId : h.picParameterSetId ≤ 255
  colourPlaneId : h.colourPlaneId ≤ 2
  frameNum : h.frameNum < 2 ^ (sps.log2MaxFrameNumMinus4 + 4)
  idrPicId : h.idrPicId < 2 ^ 16
  picOrderCntLsb : h.picOrderCntLsb < 2 ^ (sps.log2MaxPicOrderCntLsbMinus4 + 4)
  deltaPicOrderCntBottom : InSe h.deltaPicOrderCntBottom
  deltaPicOrderCnt0 : InSe h.deltaPicOrderCnt0
  deltaPicOrderCnt1 : InSe h.deltaPicOrderCnt1
  redundantPicCnt : h.redundantPicCnt ≤ 127
  counts : ∀ l0 l1, h.numRefIdxActiveOverride = some (l0, l1) → l0 ≤ 31 ∧ l1 ≤ 31
  commandsL0 : ∀ cs, h.modificationL0 = some cs →
    CommandsInUe cs ∧ cs.length ≤ h.numRefIdxL0ActiveMinus1 pps + 1
  commandsL1 : ∀ cs, h.modificationL1 = some cs →
    CommandsInUe cs ∧ cs.length ≤ h.numRefIdxL1ActiveMinus1 pps + 1
  denominators : h.lumaLog2WeightDenom ≤ 7 ∧ h.chromaLog2WeightDenom ≤ 7
  weightsL0 : ∀ e ∈ h.weightsL0, e.InRange
  weightsL1 : ∀ e ∈ h.weightsL1, e.InRange
  numWeightsL0 : h.Weighted pps → h.weightsL0.length = h.numRefIdxL0ActiveMinus1 pps + 1
  numWeightsL1 : h.Weighted pps → h.kind = sliceTypeB →
    h.weightsL1.length = h.numRefIdxL1ActiveMinus1 pps + 1
  operations : ∀ ms, h.adaptiveMarking = some ms → ∀ m ∈ ms, Operands m

end Ranges

end H264

end Rkvdec.Bitstream
