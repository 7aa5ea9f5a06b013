import Rkvdec.Bitstream.SliceSyntax
import Rkvdec.Engine.RpsWriting

/-! The slice segment header of H.265 as the syntax tables of the standard write it. The header has
no long-term pictures. -/
namespace Rkvdec.Bitstream.H265

open Lib (bitsOf golomb)
open Engine.Rps (Coded RefPicSet SpsRight writeCoded)

section Syntax

/-- The syntax elements of a slice segment header; those that the header does not have are not
written. The set is one of the header's own, or one of its SPS. An override comes with the two
counts, a modification with its entries. -/
structure SegmentSyntax where
  firstSliceSegmentInPicFlag : Bool
  noOutputOfPriorPicsFlag : Bool
  slicePicParameterSetId : Nat
  dependentSliceSegmentFlag : Bool
  sliceSegmentAddress : Nat
  sliceReservedFlags : List Bool
  sliceType : Nat
  picOutputFlag : Bool
  colourPlaneId : Nat
  slicePicOrderCntLsb : Nat
  shortTermRefPicSet : Option Coded
  shortTermRefPicSetIdx : Nat
  sliceTemporalMvpEnabledFlag : Bool
  sliceSaoLumaFlag : Bool
  sliceSaoChromaFlag : Bool
  numRefIdxActiveOverride : Option (Nat × Nat)
  listEntriesL0 : Option (List Nat)
  listEntriesL1 : Option (List Nat)
  mvdL1ZeroFlag : Bool
  cabacInitFlag : Bool
  collocatedFromL0Flag : Bool
  collocatedRefIdx : Nat
  lumaLog2WeightDenom : Nat
  deltaChromaLog2WeightDenom : Int
  weightsL0 : List WeightEntry
  weightsL1 : List WeightEntry
  fiveMinusMaxNumMergeCand : Nat
  sliceQpDelta : Int
  sliceCbQpOffset : Int
  sliceCrQpOffset : Int
  deblockingFilterOverrideFlag : Bool
  sliceDeblockingFilterDisabledFlag : Bool
  sliceBetaOffsetDiv2 : Int
  sliceTcOffsetDiv2 : Int
  sliceLoopFilterAcrossSlicesEnabledFlag : Bool
  offsetLenMinus1 : Nat
  entryPointOffsetsMinus1 : List Nat
  sliceSegmentHeaderExtension : List Byte

variable (sps : Sps) (pps : Pps) (table : List RefPicSet) (nalUnitType : Nat) (chroma : Bool)
  (h : SegmentSyntax)

/-- The elements that the header has, or that another one decides on, with their values. -/
def SegmentSyntax.dependent : Bool :=
  !h.firstSliceSegmentInPicFlag && pps.dependentSliceSegmentsEnabledFlag ≠ 0 &&
    h.dependentSliceSegmentFlag

def SegmentSyntax.Inter : Prop := h.sliceType = sliceTypeP ∨ h.sliceType = sliceTypeB

instance : Decidable h.Inter := inferInstanceAs (Decidable (_ ∨ _))

def SegmentSyntax.temporalMvp : Bool :=
  !isIdrType nalUnitType && sps.spsTemporalMvpEnabledFlag ≠ 0 && h.sliceTemporalMvpEnabledFlag

def SegmentSyntax.saoLuma : Bool := sps.sampleAdaptiveOffsetEnabledFlag ≠ 0 && h.sliceSaoLumaFlag

def SegmentSyntax.saoChroma : Bool := sps.sampleAdaptiveOffsetEnabledFlag ≠ 0 && chroma &&
    h.sliceSaoChromaFlag

def SegmentSyntax.deblockingOverride : Bool :=
  pps.deblockingFilterOverrideEnabledFlag ≠ 0 && h.deblockingFilterOverrideFlag

def SegmentSyntax.deblockingDisabled : Bool :=
  if h.deblockingOverride pps then h.sliceDeblockingFilterDisabledFlag
  else pps.ppsDeblockingFilterDisabledFlag ≠ 0

/-- Whether the header has the flag of the loop filter. -/
def SegmentSyntax.loopFilterPresent : Bool :=
  pps.ppsLoopFilterAcrossSlicesEnabledFlag ≠ 0 &&
    (h.saoLuma sps || h.saoChroma sps chroma || !h.deblockingDisabled pps)

def SegmentSyntax.numRefIdxL0ActiveMinus1 : Nat :=
  match h.numRefIdxActiveOverride with
  | some (l0, _) => l0
  | none => pps.numRefIdxL0DefaultActiveMinus1

def SegmentSyntax.numRefIdxL1ActiveMinus1 : Nat :=
  match h.numRefIdxActiveOverride with
  | some (_, l1) => l1
  | none => pps.numRefIdxL1DefaultActiveMinus1

/-- The set the pictures of the slice are taken from. -/
def SegmentSyntax.refPicSet : RefPicSet :=
  if isIdrType nalUnitType then ⟨[], []⟩
  else
    match h.shortTermRefPicSet with
    | some coded => coded.derive table table.length
    | none => table.getD h.shortTermRefPicSetIdx ⟨[], []⟩

/-- `NumPicTotalCurr`. -/
def numPicTotalCurr (set : RefPicSet) : Nat := (set.s0 ++ set.s1).countP fun e => e.2 ≠ 0

/-- The slices with a `pred_weight_table`. -/
def SegmentSyntax.Weighted : Prop :=
  (pps.weightedPredFlag ≠ 0 ∧ h.sliceType = sliceTypeP) ∨
    (pps.weightedBipredFlag ≠ 0 ∧ h.sliceType = sliceTypeB)

instance : Decidable (h.Weighted pps) := inferInstanceAs (Decidable (_ ∨ _))

/-- The list the collocated picture is taken from has more than one entry. -/
def SegmentSyntax.ChoosesCollocated : Prop :=
  0 < if h.sliceType = sliceTypeB ∧ h.collocatedFromL0Flag = false then
    h.numRefIdxL1ActiveMinus1 pps
    else h.numRefIdxL0ActiveMinus1 pps

instance : Decidable (h.ChoosesCollocated pps) := inferInstanceAs (Decidable (_ < _))

/-- Whether `ChromaArrayType` is not 0. -/
def hasChroma : Bool := sps.separateColourPlaneFlag = 0 && sps.chromaFormatIdc ≠ 0

end Syntax

section Writers

variable (sps : Sps) (pps : Pps) (table : List RefPicSet) (nalUnitType : Nat) (chroma : Bool)
  (h : SegmentSyntax)

/-- The elements up to the parameter set. -/
def writeSets : List Bool :=
  [h.firstSliceSegmentInPicFlag] ++
    ((if isIrapType nalUnitType then [h.noOutputOfPriorPicsFlag] else []) ++
    golomb h.slicePicParameterSetId)

def writeAddress : List Bool :=
  if h.firstSliceSegmentInPicFlag then []
  else
    (if pps.dependentSliceSegmentsEnabledFlag ≠ 0 then [h.dependentSliceSegmentFlag] else []) ++
      bitsOf (ceilLog2 (sps.picWidthInCtbsY * sps.picHeightInCtbsY)) h.sliceSegmentAddress

/-- The set of the header's own, or the index of one of the SPS. -/
def writeRefPicSet : List Bool :=
  match h.shortTermRefPicSet with
  | some coded => writeCoded table.length table.length coded
  | none => if 1 < table.length then bitsOf (ceilLog2 table.length) h.shortTermRefPicSetIdx else []

/-- The picture order count and the pictures of a picture that is not an IDR. -/
def writeRps : List Bool :=
  bitsOf (sps.log2MaxPicOrderCntLsbMinus4 + 4) h.slicePicOrderCntLsb ++
    ([h.shortTermRefPicSet.isNone] ++
    (writeRefPicSet table h ++
      ((if sps.longTermRefPicsPresentFlag ≠ 0 then
          (if 0 < sps.numLongTermRefPicsSps then golomb 0 else []) ++ golomb 0 else []) ++
        (if sps.spsTemporalMvpEnabledFlag ≠ 0 then [h.sliceTemporalMvpEnabledFlag] else []))))

def writeSao : List Bool :=
  if sps.sampleAdaptiveOffsetEnabledFlag ≠ 0 then
    [h.sliceSaoLumaFlag] ++ (if chroma then [h.sliceSaoChromaFlag] else [])
  else []

/-- The counts of an override; only a B slice has the second one. -/
def writeCounts (isB : Prop) [Decidable isB] : Option (Nat × Nat) → List Bool
  | some (l0, l1) => golomb l0 ++ (if isB then golomb l1 else [])
  | none => []

def writeEntries (total : Nat) : Option (List Nat) → List Bool
  | some entries => entries.flatMap (bitsOf (ceilLog2 total))
  | none => []

/-- `ref_pic_lists_modification`. -/
def writeListsModification (total : Nat) : List Bool :=
  [h.listEntriesL0.isSome] ++ (writeEntries total h.listEntriesL0 ++
    (if h.sliceType = sliceTypeB then [h.listEntriesL1.isSome] ++ writeEntries total h.listEntriesL1
    else []))

def writeCollocated : List Bool :=
  (if h.sliceType = sliceTypeB then [h.collocatedFromL0Flag] else []) ++
    (if h.ChoosesCollocated pps then golomb h.collocatedRefIdx else [])

/-- The weights of one list: all flags first. -/
def writeListWeights (es : List WeightEntry) : List Bool :=
  es.map (·.luma.isSome) ++ ((if chroma then es.map (·.chroma.isSome) else []) ++
    es.flatMap fun e => writeLuma e.luma ++ (if chroma then writeChroma e.chroma else []))

/-- `pred_weight_table`. -/
def writeWeightTable : List Bool :=
  golomb h.lumaLog2WeightDenom ++ ((if chroma then writeSe h.deltaChromaLog2WeightDenom else []) ++
    (writeListWeights chroma h.weightsL0 ++
      (if h.sliceType = sliceTypeB then writeListWeights chroma h.weightsL1 else [])))

/-- The elements of a P or B slice. -/
def writeInter : List Bool :=
  ([h.numRefIdxActiveOverride.isSome] ++ writeCounts (h.sliceType = sliceTypeB)
    h.numRefIdxActiveOverride) ++
  ((if pps.listsModificationPresentFlag ≠ 0 ∧
  1 < numPicTotalCurr (h.refPicSet table nalUnitType) then
      writeListsModification h (numPicTotalCurr (h.refPicSet table nalUnitType)) else []) ++
  ((if h.sliceType = sliceTypeB then [h.mvdL1ZeroFlag] else []) ++
  ((if pps.cabacInitPresentFlag ≠ 0 then [h.cabacInitFlag] else []) ++
  ((if h.temporalMvp sps nalUnitType then writeCollocated pps h else []) ++
  ((if h.Weighted pps then writeWeightTable chroma h else []) ++
  golomb h.fiveMinusMaxNumMergeCand)))))

def writeDeblocking : List Bool :=
  (if pps.deblockingFilterOverrideEnabledFlag ≠ 0 then [h.deblockingFilterOverrideFlag] else []) ++
    (if h.deblockingOverride pps then
      [h.sliceDeblockingFilterDisabledFlag] ++
        (if h.sliceDeblockingFilterDisabledFlag then []
        else writeSe h.sliceBetaOffsetDiv2 ++ writeSe h.sliceTcOffsetDiv2)
    else [])

/-- The elements that only an independent segment has. -/
def writeIndependent : List Bool :=
  h.sliceReservedFlags ++
  (golomb h.sliceType ++
  ((if pps.outputFlagPresentFlag ≠ 0 then [h.picOutputFlag] else []) ++
  ((if sps.separateColourPlaneFlag ≠ 0 then bitsOf 2 h.colourPlaneId else []) ++
  ((if isIdrType nalUnitType = false then writeRps sps table h else []) ++
  (writeSao sps chroma h ++
  ((if h.Inter then writeInter sps pps table nalUnitType chroma h else []) ++
  (writeSe h.sliceQpDelta ++
  ((if pps.ppsSliceChromaQpOffsetsPresentFlag ≠ 0 then writeSe h.sliceCbQpOffset ++
  writeSe h.sliceCrQpOffset
    else []) ++
  (writeDeblocking pps h ++
  (if h.loopFilterPresent sps pps chroma then [h.sliceLoopFilterAcrossSlicesEnabledFlag]
  else []))))))))))

def writeEntryPoints : List Bool :=
  if pps.tilesEnabledFlag ≠ 0 ∨ pps.entropyCodingSyncEnabledFlag ≠ 0 then
    golomb h.entryPointOffsetsMinus1.length ++
      (if h.entryPointOffsetsMinus1 = [] then []
      else golomb h.offsetLenMinus1 ++ h.entryPointOffsetsMinus1.flatMap
        (bitsOf (h.offsetLenMinus1 + 1)))
  else []

def writeExtension : List Bool :=
  if pps.sliceSegmentHeaderExtensionPresentFlag ≠ 0 then
    golomb h.sliceSegmentHeaderExtension.length ++ dataBits h.sliceSegmentHeaderExtension
  else []

/-- The header without the alignment at its end. -/
def writeFields : List Bool :=
  writeSets nalUnitType h ++ (writeAddress sps pps h ++
    ((if h.dependent pps then [] else writeIndependent sps pps table nalUnitType chroma h) ++
      (writeEntryPoints pps h ++ writeExtension pps h)))

/-- `byte_alignment`. -/
def align (w : List Bool) : List Bool := w ++ true :: List.replicate (7 - w.length % 8) false

/-- `slice_segment_header`. -/
def writeSegmentHeader : List Bool :=
  align (writeFields sps pps table nalUnitType (hasChroma sps) h)

end Writers

section Ranges

/-- The header takes from the stored sets what the standard allows them to have. -/
structure SetsInRange (sps : Sps) (pps : Pps) (table : List RefPicSet) : Prop where
  spsValid : sps.valid = true
  ppsValid : pps.valid = true
  sizeInCtbs : sps.picWidthInCtbsY * sps.picHeightInCtbsY < 2 ^ 32
  log2MaxPicOrderCntLsb : sps.log2MaxPicOrderCntLsbMinus4 ≤ 12
  rps : SpsRight sps table
  numRps : table.length ≤ 64
  rpsInRange : ∀ set ∈ table, set.InRange
  numRefIdxL0Default : pps.numRefIdxL0DefaultActiveMinus1 ≤ 14
  numRefIdxL1Default : pps.numRefIdxL1DefaultActiveMinus1 ≤ 14
  deblockingControl : pps.deblockingFilterControlPresentFlag = 0 →
    pps.deblockingFilterOverrideEnabledFlag = 0 ∧
    pps.ppsDeblockingFilterDisabledFlag = 0 ∧ pps.ppsBetaOffsetDiv2 = 0 ∧ pps.ppsTcOffsetDiv2 = 0
  deblockingDisabled : pps.ppsDeblockingFilterDisabledFlag ≤ 1
  loopFilter : pps.ppsLoopFilterAcrossSlicesEnabledFlag ≤ 1
  entryPoints : sps.picHeightInCtbsY * (pps.numTileColumnsMinus1 + 1) < 2 ^ 32

/-- The elements have values that their syntax can express, and the lists have as many entries as
the standard says. -/
structure SegmentSyntax.Expressible (sps : Sps) (pps : Pps) (table : List RefPicSet)
    (nalUnitType : Nat) (h : SegmentSyntax) : Prop where
  ppsId : h.slicePicParameterSetId ≤ 63
  address : h.sliceSegmentAddress < 2 ^ ceilLog2 (sps.picWidthInCtbsY * sps.picHeightInCtbsY)
  reservedFlags : h.sliceReservedFlags.length = pps.numExtraSliceHeaderBits
  sliceType : h.sliceType ≤ 2
  colourPlaneId : h.colourPlaneId ≤ 2
  lsb : h.slicePicOrderCntLsb < 2 ^ (sps.log2MaxPicOrderCntLsbMinus4 + 4)
  set : ∀ coded, h.shortTermRefPicSet = some coded →
    coded.Writable table table.length table.length ∧ (coded.derive table table.length).InRange
  setIdx : h.shortTermRefPicSet = none → h.shortTermRefPicSetIdx < table.length
  counts : ∀ l0 l1, h.numRefIdxActiveOverride = some (l0, l1) → l0 ≤ 14 ∧ l1 ≤ 14
  entriesL0 : ∀ entries, h.listEntriesL0 = some entries →
    entries.length = h.numRefIdxL0ActiveMinus1 pps + 1 ∧
    ∀ e ∈ entries, e < 2 ^ ceilLog2 (numPicTotalCurr (h.refPicSet table nalUnitType))
  entriesL1 : ∀ entries, h.listEntriesL1 = some entries →
    entries.length = h.numRefIdxL1ActiveMinus1 pps + 1 ∧
    ∀ e ∈ entries, e < 2 ^ ceilLog2 (numPicTotalCurr (h.refPicSet table nalUnitType))
  collocatedRefIdx : h.collocatedRefIdx ≤ 15
  denominators : h.lumaLog2WeightDenom ≤ 7 ∧ InSe h.deltaChromaLog2WeightDenom
  weightsL0 : ∀ e ∈ h.weightsL0, e.InRange
  weightsL1 : ∀ e ∈ h.weightsL1, e.InRange
  numWeightsL0 : h.Weighted pps → h.weightsL0.length = h.numRefIdxL0ActiveMinus1 pps + 1
  numWeightsL1 : h.Weighted pps → h.sliceType = sliceTypeB →
    h.weightsL1.length = h.numRefIdxL1ActiveMinus1 pps + 1
  mergeCand : h.fiveMinusMaxNumMergeCand ≤ 4
  qpDelta : -128 ≤ h.sliceQpDelta ∧ h.sliceQpDelta ≤ 127
  cbQpOffset : -12 ≤ h.sliceCbQpOffset ∧ h.sliceCbQpOffset ≤ 12
  crQpOffset : -12 ≤ h.sliceCrQpOffset ∧ h.sliceCrQpOffset ≤ 12
  betaOffset : -6 ≤ h.sliceBetaOffsetDiv2 ∧ h.sliceBetaOffsetDiv2 ≤ 6
  tcOffset : -6 ≤ h.sliceTcOffsetDiv2 ∧ h.sliceTcOffsetDiv2 ≤ 6
  entryPoints : h.entryPointOffsetsMinus1.length <
    sps.picHeightInCtbsY * (pps.numTileColumnsMinus1 + 1)
  offsetLen : h.offsetLenMinus1 ≤ 31
  offsets : ∀ v ∈ h.entryPointOffsetsMinus1, v < 2 ^ (h.offsetLenMinus1 + 1)
  extension : h.sliceSegmentHeaderExtension.length ≤ 256

end Ranges

end Rkvdec.Bitstream.H265
