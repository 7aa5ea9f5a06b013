import Rkvdec.Bitstream.Nal

/-! The H.265 parser of `parser_glue_h265.cpp`: parameter sets, slice segment header, picture order
count and the access unit. -/
namespace Rkvdec.Bitstream.H265

section Limits

def maxVps : Nat := 16
def maxSps : Nat := 32
def maxPps : Nat := 64
def maxSubLayers : Nat := 7
def maxRefs : Nat := 16
def maxShortTermRps : Nat := 64
def maxLongTermRefs : Nat := 32

def sliceTypeB : Nat := 0
def sliceTypeP : Nat := 1
def sliceTypeI : Nat := 2

def nalTrailN : Nat := 0
def nalTsaN : Nat := 2
def nalStsaN : Nat := 4
def nalRadlN : Nat := 6
def nalRadlR : Nat := 7
def nalRaslN : Nat := 8
def nalRaslR : Nat := 9
def nalBlaWLp : Nat := 16
def nalIdrWRadl : Nat := 19
def nalIdrNLp : Nat := 20
def nalCraNut : Nat := 21
def nalVps : Nat := 32
def nalSps : Nat := 33
def nalPps : Nat := 34

/-- The types of the slice case of the switch. -/
def sliceNalTypes : List Nat := [0, 1, 2, 3, 4, 5, 6, 7, 8, 9, 16, 17, 18, 19, 20, 21]

end Limits

structure Ptl where
  profileSpace : Nat := 0
  tierFlag : Nat := 0
  profileIdc : Nat := 0
  profileCompatibilityFlag : List Nat := List.replicate 32 0
  progressiveSourceFlag : Nat := 0
  interlacedSourceFlag : Nat := 0
  nonPackedConstraintFlag : Nat := 0
  frameOnlyConstraintFlag : Nat := 0
  levelIdc : Nat := 0

structure ShortTermRps where
  interRefPicSetPredictionFlag : Nat := 0
  numNegativePics : Nat := 0
  numPositivePics : Nat := 0
  numDeltaPocs : Nat := 0
  deltaPoc : List Int := List.replicate maxRefs 0
  usedByCurrPicFlag : List Nat := List.replicate maxRefs 0
deriving DecidableEq

structure ScalingList where
  scalingList4x4 : List (List Nat) := List.replicate 6 (List.replicate 16 0)
  scalingList8x8 : List (List Nat) := List.replicate 6 (List.replicate 64 0)
  scalingList16x16 : List (List Nat) := List.replicate 6 (List.replicate 64 0)
  scalingList32x32 : List (List Nat) := List.replicate 6 (List.replicate 64 0)
  scalingListDc16x16 : List Nat := List.replicate 6 0
  scalingListDc32x32 : List Nat := List.replicate 6 0

structure Vps where
  valid : Bool := false
  vpsId : Nat := 0
  vpsMaxLayersMinus1 : Nat := 0
  vpsMaxSubLayersMinus1 : Nat := 0
  vpsTemporalIdNestingFlag : Nat := 0
  ptl : Ptl := {}
  vpsSubLayerOrderingInfoPresentFlag : Nat := 0
  vpsMaxDecPicBufferingMinus1 : List Nat := List.replicate maxSubLayers 0
  vpsMaxNumReorderPics : List Nat := List.replicate maxSubLayers 0
  vpsMaxLatencyIncreasePlus1 : List Nat := List.replicate maxSubLayers 0

structure Sps where
  valid : Bool := false
  vpsId : Nat := 0
  spsMaxSubLayersMinus1 : Nat := 0
  spsTemporalIdNestingFlag : Nat := 0
  ptl : Ptl := {}
  spsId : Nat := 0
  chromaFormatIdc : Nat := 0
  separateColourPlaneFlag : Nat := 0
  picWidthInLumaSamples : Nat := 0
  picHeightInLumaSamples : Nat := 0
  conformanceWindowFlag : Nat := 0
  confWinLeftOffset : Nat := 0
  confWinRightOffset : Nat := 0
  confWinTopOffset : Nat := 0
  confWinBottomOffset : Nat := 0
  bitDepthLumaMinus8 : Nat := 0
  bitDepthChromaMinus8 : Nat := 0
  log2MaxPicOrderCntLsbMinus4 : Nat := 0
  spsSubLayerOrderingInfoPresentFlag : Nat := 0
  spsMaxDecPicBufferingMinus1 : List Nat := List.replicate maxSubLayers 0
  spsMaxNumReorderPics : List Nat := List.replicate maxSubLayers 0
  spsMaxLatencyIncreasePlus1 : List Nat := List.replicate maxSubLayers 0
  log2MinLumaCodingBlockSizeMinus3 : Nat := 0
  log2DiffMaxMinLumaCodingBlockSize : Nat := 0
  log2MinLumaTransformBlockSizeMinus2 : Nat := 0
  log2DiffMaxMinLumaTransformBlockSize : Nat := 0
  maxTransformHierarchyDepthInter : Nat := 0
  maxTransformHierarchyDepthIntra : Nat := 0
  scalingListEnabledFlag : Nat := 0
  spsScalingListDataPresentFlag : Nat := 0
  scalingList : ScalingList := {}
  ampEnabledFlag : Nat := 0
  sampleAdaptiveOffsetEnabledFlag : Nat := 0
  pcmEnabledFlag : Nat := 0
  pcmSampleBitDepthLumaMinus1 : Nat := 0
  pcmSampleBitDepthChromaMinus1 : Nat := 0
  log2MinPcmLumaCodingBlockSizeMinus3 : Nat := 0
  log2DiffMaxMinPcmLumaCodingBlockSize : Nat := 0
  pcmLoopFilterDisabledFlag : Nat := 0
  numShortTermRefPicSets : Nat := 0
  stRps : List ShortTermRps := List.replicate maxShortTermRps {}
  longTermRefPicsPresentFlag : Nat := 0
  numLongTermRefPicsSps : Nat := 0
  ltRefPicPocLsbSps : List Nat := List.replicate maxLongTermRefs 0
  usedByCurrPicLtSpsFlag : List Nat := List.replicate maxLongTermRefs 0
  spsTemporalMvpEnabledFlag : Nat := 0
  strongIntraSmoothingEnabledFlag : Nat := 0
  ctbLog2SizeY : Nat := 0
  ctbSizeY : Nat := 0
  picWidthInCtbsY : Nat := 0
  picHeightInCtbsY : Nat := 0

structure Pps where
  valid : Bool := false
  ppsId : Nat := 0
  spsId : Nat := 0
  dependentSliceSegmentsEnabledFlag : Nat := 0
  outputFlagPresentFlag : Nat := 0
  numExtraSliceHeaderBits : Nat := 0
  signDataHidingEnabledFlag : Nat := 0
  cabacInitPresentFlag : Nat := 0
  numRefIdxL0DefaultActiveMinus1 : Nat := 0
  numRefIdxL1DefaultActiveMinus1 : Nat := 0
  initQpMinus26 : Int := 0
  constrainedIntraPredFlag : Nat := 0
  transformSkipEnabledFlag : Nat := 0
  cuQpDeltaEnabledFlag : Nat := 0
  diffCuQpDeltaDepth : Nat := 0
  ppsCbQpOffset : Int := 0
  ppsCrQpOffset : Int := 0
  ppsSliceChromaQpOffsetsPresentFlag : Nat := 0
  weightedPredFlag : Nat := 0
  weightedBipredFlag : Nat := 0
  transquantBypassEnabledFlag : Nat := 0
  tilesEnabledFlag : Nat := 0
  entropyCodingSyncEnabledFlag : Nat := 0
  numTileColumnsMinus1 : Nat := 0
  numTileRowsMinus1 : Nat := 0
  uniformSpacingFlag : Nat := 0
  loopFilterAcrossTilesEnabledFlag : Nat := 0
  ppsLoopFilterAcrossSlicesEnabledFlag : Nat := 0
  deblockingFilterControlPresentFlag : Nat := 0
  deblockingFilterOverrideEnabledFlag : Nat := 0
  ppsDeblockingFilterDisabledFlag : Nat := 0
  ppsBetaOffsetDiv2 : Int := 0
  ppsTcOffsetDiv2 : Int := 0
  ppsScalingListDataPresentFlag : Nat := 0
  scalingList : ScalingList := {}
  listsModificationPresentFlag : Nat := 0
  log2ParallelMergeLevelMinus2 : Nat := 0
  sliceSegmentHeaderExtensionPresentFlag : Nat := 0

structure SliceHeader where
  firstSliceSegmentInPicFlag : Nat := 0
  noOutputOfPriorPicsFlag : Nat := 0
  slicePicParameterSetId : Nat := 0
  dependentSliceSegmentFlag : Nat := 0
  sliceSegmentAddress : Nat := 0
  sliceType : Nat := 0
  picOutputFlag : Nat := 0
  colourPlaneId : Nat := 0
  slicePicOrderCntLsb : Nat := 0
  shortTermRefPicSetSpsFlag : Nat := 0
  shortTermRefPicSetIdx : Nat := 0
  stRpsSlice : ShortTermRps := {}
  numLongTermSps : Nat := 0
  numLongTermPics : Nat := 0
  sliceTemporalMvpEnabledFlag : Nat := 0
  sliceSaoLumaFlag : Nat := 0
  sliceSaoChromaFlag : Nat := 0
  numRefIdxActiveOverrideFlag : Nat := 0
  numRefIdxL0ActiveMinus1 : Nat := 0
  numRefIdxL1ActiveMinus1 : Nat := 0
  mvdL1ZeroFlag : Nat := 0
  cabacInitFlag : Nat := 0
  collocatedFromL0Flag : Nat := 0
  collocatedRefIdx : Nat := 0
  fiveMinusMaxNumMergeCand : Nat := 0
  sliceQpDelta : Int := 0
  sliceCbQpOffset : Int := 0
  sliceCrQpOffset : Int := 0
  deblockingFilterOverrideFlag : Nat := 0
  sliceDeblockingFilterDisabledFlag : Nat := 0
  sliceBetaOffsetDiv2 : Int := 0
  sliceTcOffsetDiv2 : Int := 0
  sliceLoopFilterAcrossSlicesEnabledFlag : Nat := 0
  numEntryPointOffsets : Nat := 0
  headerBitSize : Nat := 0
  shortTermRefPicSetSize : Nat := 0

/-- `H265ParseResult`; the defaults are those of `H265ParseResultInit`. `sliceData` are the bytes
the pointer and the size describe. -/
structure ParseResult where
  vps : List Vps := List.replicate maxVps {}
  sps : List Sps := List.replicate maxSps {}
  pps : List Pps := List.replicate maxPps {}
  slice : SliceHeader := {}
  hasSlice : Bool := false
  activeSpsId : Int := -1
  activePpsId : Int := -1
  gotVpsInAu : Bool := false
  gotSpsInAu : Bool := false
  gotPpsInAu : Bool := false
  sliceNalUnitType : Nat := 0
  nalRefFlag : Bool := false
  isIdr : Bool := false
  isIrap : Bool := false
  poc : Int := 0
  sliceData : List Byte := []
  prevPocMsbTid0 : Int := 0
  prevPocLsbTid0 : Int := 0

abbrev P := Parser ParseResult

/-- Put the elements a parser reads into `n` places of an array, from place `i` on. -/
def fill {α : Type} (read : P α) : Nat → Nat → List α → P (List α)
  | 0, _, list => pure list
  | n + 1, i, list => do
    let x ← read
    fill read n (i + 1) (list.set i x)

/-- `ceil_log2`. -/
def ceilLog2 (n : Nat) : Nat := if n ≤ 1 then 0 else Nat.log2 (n - 1) + 1

def brU8 (n : Nat) : P Nat := do return u8 (← brU n)
def brUe8 : P Nat := do return u8 (← brUe)

section ProfileTierLevel

/-- The flags `sub_profile_present` and `sub_level_present` of the sub-layers. -/
def parseSubLayersPresent : Nat → P (List (Bool × Bool))
  | 0 => pure []
  | n + 1 => do
    let profile ← flag
    let level ← flag
    return (profile, level) :: (← parseSubLayersPresent n)

def skipSubLayers : List (Bool × Bool) → P Unit
  | [] => pure ()
  | (profile, level) :: rest => do
    if profile then
      let _ ← brU 32
      let _ ← brU 32
      let _ ← brU 24
    if level then
      let _ ← brU 8
    skipSubLayers rest

def parsePtl (maxSubLayersMinus1 : Nat) : P Ptl := do
  let profileSpace ← brU8 2
  let tierFlag ← brU8 1
  let profileIdc ← brU8 5
  let compatibility ← fill (brU8 1) 32 0 (List.replicate 32 0)
  let progressive ← brU8 1
  let interlaced ← brU8 1
  let nonPacked ← brU8 1
  let frameOnly ← brU8 1
  let _ ← brU 16
  let _ ← brU 16
  let _ ← brU 12
  let levelIdc ← brU8 8
  let present ← parseSubLayersPresent maxSubLayersMinus1
  if 0 < maxSubLayersMinus1 then
    skip (8 - maxSubLayersMinus1) do
      let _ ← brU 2
  skipSubLayers present
  return {
    profileSpace := profileSpace
    tierFlag := tierFlag
    profileIdc := profileIdc
    profileCompatibilityFlag := compatibility
    progressiveSourceFlag := progressive
    interlacedSourceFlag := interlaced
    nonPackedConstraintFlag := nonPacked
    frameOnlyConstraintFlag := frameOnly
    levelIdc := levelIdc }

end ProfileTierLevel

section ScalingLists

def defaultScalingIntra : List Nat :=
  [16, 16, 16, 16, 17, 18, 21, 24, 16, 16, 16, 16, 17, 19, 22, 25,
    16, 16, 17, 18, 20, 22, 25, 29, 16, 16, 18, 21, 24, 27, 31, 36,
    17, 17, 20, 24, 30, 35, 41, 47, 18, 19, 22, 27, 35, 44, 54, 65,
    21, 22, 25, 31, 41, 54, 70, 88, 24, 25, 29, 36, 47, 65, 88, 115]

def defaultScalingInter : List Nat :=
  [16, 16, 16, 16, 17, 18, 20, 24, 16, 16, 16, 17, 18, 20, 24, 25,
    16, 16, 17, 18, 20, 24, 25, 28, 16, 17, 18, 20, 24, 25, 28, 33,
    17, 18, 20, 24, 25, 28, 33, 41, 18, 20, 24, 25, 28, 33, 41, 54,
    20, 24, 25, 28, 33, 41, 54, 71, 24, 25, 28, 33, 41, 54, 71, 91]

def diagScan4x4 : List Nat := [0, 4, 1, 8, 5, 2, 12, 9, 6, 3, 13, 10, 7, 14, 11, 15]

def diagScan8x8 : List Nat :=
  [0, 8, 1, 16, 9, 2, 24, 17, 10, 3, 32, 25, 18, 11, 4, 40,
    33, 26, 19, 12, 5, 48, 41, 34, 27, 20, 13, 6, 56, 49, 42, 35,
    28, 21, 14, 7, 57, 50, 43, 36, 29, 22, 15, 58, 51, 44, 37, 30,
    23, 59, 52, 45, 38, 31, 60, 53, 46, 39, 61, 54, 47, 62, 55, 63]

namespace ScalingList

/-- `scaling_list_set_default`. -/
def setDefault : ScalingList :=
  let byMatrix := [defaultScalingIntra, defaultScalingIntra, defaultScalingIntra,
    defaultScalingInter, defaultScalingInter, defaultScalingInter]
  { scalingList4x4 := List.replicate 6 (List.replicate 16 16)
    scalingList8x8 := byMatrix
    scalingList16x16 := byMatrix
    scalingList32x32 := byMatrix
    scalingListDc16x16 := List.replicate 6 16
    scalingListDc32x32 := List.replicate 6 16 }

/-- The list of a size and a matrix. -/
def list (sl : ScalingList) (szId matId : Nat) : List Nat :=
  match szId with
  | 0 => sl.scalingList4x4.getD matId []
  | 1 => sl.scalingList8x8.getD matId []
  | 2 => sl.scalingList16x16.getD matId []
  | _ => sl.scalingList32x32.getD matId []

def setList (sl : ScalingList) (szId matId : Nat) (l : List Nat) : ScalingList :=
  match szId with
  | 0 => { sl with scalingList4x4 := sl.scalingList4x4.set matId l }
  | 1 => { sl with scalingList8x8 := sl.scalingList8x8.set matId l }
  | 2 => { sl with scalingList16x16 := sl.scalingList16x16.set matId l }
  | _ => { sl with scalingList32x32 := sl.scalingList32x32.set matId l }

/-- Only the two larger sizes have a DC coefficient. -/
def setDc (sl : ScalingList) (szId matId : Nat) (dc : Nat) : ScalingList :=
  match szId with
  | 2 => { sl with scalingListDc16x16 := sl.scalingListDc16x16.set matId dc }
  | 3 => { sl with scalingListDc32x32 := sl.scalingListDc32x32.set matId dc }
  | _ => sl

def dc (sl : ScalingList) (szId matId : Nat) : Nat :=
  match szId with
  | 2 => sl.scalingListDc16x16.getD matId 0
  | _ => sl.scalingListDc32x32.getD matId 0

end ScalingList

/-- The coefficients of an explicit list, over the positions left in scan order. -/
def coefLoop : List Nat → Int → List Nat → P (List Nat)
  | [], _, l => pure l
  | pos :: scan, nextCoef, l => do
    let deltaCoef ← brSe
    let nextCoef := (nextCoef + deltaCoef + 256) % 256
    coefLoop scan nextCoef (l.set pos (u8 nextCoef.toNat))

/-- One list: copied from an earlier matrix of its size, left at the default, or explicit. -/
def parseScalingListOf (sl : ScalingList) (szId matId : Nat) : P ScalingList := do
  let matStep := if szId = 3 then 3 else 1
  if (← flag) = false then
    let delta ← brUe
    if delta = 0 then return sl
    if matId < delta * matStep then throw .invalid
    let src := matId - delta * matStep
    let sl := sl.setList szId matId (sl.list szId src)
    return sl.setDc szId matId (sl.dc szId src)
  else
    let scan := if szId = 0 then diagScan4x4 else diagScan8x8
    if 1 < szId then
      let dcMinus8 ← brSe
      if dcMinus8 < -7 ∨ 247 < dcMinus8 then throw .invalid
      let nextCoef := dcMinus8 + 8
      let l ← coefLoop scan nextCoef (sl.list szId matId)
      return (sl.setDc szId matId (u8 nextCoef.toNat)).setList szId matId l
    else
      let l ← coefLoop scan 8 (sl.list szId matId)
      return sl.setList szId matId l

def parseScalingLists : List (Nat × Nat) → ScalingList → P ScalingList
  | [], sl => pure sl
  | (szId, matId) :: rest, sl => do
    let sl ← parseScalingListOf sl szId matId
    parseScalingLists rest sl

/-- The size and matrix ids in the order of the two loops; size 3 has every third matrix only. -/
def scalingListIds : List (Nat × Nat) :=
  [(0, 0), (0, 1), (0, 2), (0, 3), (0, 4), (0, 5), (1, 0), (1, 1), (1, 2), (1, 3), (1, 4), (1, 5),
    (2, 0), (2, 1), (2, 2), (2, 3), (2, 4), (2, 5), (3, 0), (3, 3)]

def parseScalingListData : P ScalingList := parseScalingLists scalingListIds .setDefault

end ScalingLists

section ShortTermRps

/-- `used_by_curr_pic[j]` and `use_delta[j]` for `j ≤ n_ref`. -/
def parsePredictionFlags : Nat → Nat → P (List (Nat × Bool))
  | 0, _ => pure []
  | n + 1, j => do
    access (maxRefs + 1) j
    let used ← brU8 1
    let useDelta ← if used = 0 then flag else pure true
    return (used, useDelta) :: (← parsePredictionFlags n (j + 1))

/-- The entries of the reference set at the indices given, shifted by `deltaRps`, that `keep` keeps;
each comes with its used flag. -/
def predictFrom (ref : ShortTermRps) (flags : List (Nat × Bool)) (deltaRps : Int)
    (keep : Int → Bool) : List Nat → P (List (Int × Nat))
  | [] => pure []
  | i :: rest => do
    access maxRefs i
    access (maxRefs + 1) i
    let dPoc := i32 (ref.deltaPoc.getD i 0 + deltaRps)
    let (used, useDelta) := flags.getD i (0, false)
    let kept ← predictFrom ref flags deltaRps keep rest
    return if keep dPoc && useDelta then (i16 dPoc, used) :: kept else kept

/-- The pivot of the prediction: the reference picture set's own picture. -/
def predictPivot (flags : List (Nat × Bool)) (nRef : Nat) (deltaRps : Int) (keep : Int → Bool) :
    List (Int × Nat) :=
  let (used, useDelta) := flags.getD nRef (0, false)
  if keep deltaRps && useDelta then [(i16 deltaRps, used)] else []

/-- The set predicted from the entry `ref_idx` of the table. -/
def parseInterRps (rpsList : List ShortTermRps) (stRpsIdx numShortTermRefPicSets : Nat)
    (out : ShortTermRps) : P ShortTermRps := do
  let deltaIdxMinus1 ← if stRpsIdx = numShortTermRefPicSets then brUe else pure 0
  if stRpsIdx < u32 (deltaIdxMinus1 + 1) then throw .invalid
  let refIdx := stRpsIdx - u32 (deltaIdxMinus1 + 1)
  let deltaRpsSign ← brU1
  let absDeltaRpsMinus1 ← brUe
  let deltaRps := i32 ((1 - 2 * (deltaRpsSign : Int)) * i32 (u32 (absDeltaRpsMinus1 + 1)))
  access maxShortTermRps refIdx
  let ref := rpsList.getD refIdx {}
  let nRef := ref.numDeltaPocs
  if maxRefs < nRef then throw .invalid
  let flags ← parsePredictionFlags (nRef + 1) 0
  let negatives := List.range ref.numNegativePics
  let positives := (List.range ref.numPositivePics).map (ref.numNegativePics + ·)
  let isNeg (d : Int) : Bool := d < 0
  let isPos (d : Int) : Bool := 0 < d
  let neg₁ ← predictFrom ref flags deltaRps isNeg positives.reverse
  let neg₂ ← predictFrom ref flags deltaRps isNeg negatives
  let neg := neg₁ ++ predictPivot flags nRef deltaRps isNeg ++ neg₂
  let pos₁ ← predictFrom ref flags deltaRps isPos negatives.reverse
  let pos₂ ← predictFrom ref flags deltaRps isPos positives
  let pos := pos₁ ++ predictPivot flags nRef deltaRps isPos ++ pos₂
  let entries := neg ++ pos
  -- the last entry the local arrays take
  if entries ≠ [] then access (maxRefs + 1) (entries.length - 1)
  if maxRefs < entries.length then throw .invalid
  return { out with
    numNegativePics := u8 neg.length
    numPositivePics := u8 pos.length
    numDeltaPocs := u8 entries.length
    deltaPoc := entries.map Prod.fst ++ out.deltaPoc.drop entries.length
    usedByCurrPicFlag := entries.map Prod.snd ++ out.usedByCurrPicFlag.drop entries.length }

/-- `n` coded entries from place `j` on; `sign` is the direction in which they leave `prev`. -/
def parseDeltas (sign : Int) : Nat → Nat → Int → ShortTermRps → P ShortTermRps
  | 0, _, _, out => pure out
  | n + 1, j, prev, out => do
    let delta := i32 (i32 (← brUe) + 1)
    let poc := i32 (prev + sign * delta)
    access maxRefs j
    let used ← brU8 1
    parseDeltas sign n (j + 1) poc { out with
      deltaPoc := out.deltaPoc.set j (i16 poc)
      usedByCurrPicFlag := out.usedByCurrPicFlag.set j used }

def parseDirectRps (out : ShortTermRps) : P ShortTermRps := do
  let numNeg ← brUe
  let numPos ← brUe
  if maxRefs < numNeg ∨ maxRefs < numPos ∨ maxRefs < u32 (numNeg + numPos) then throw .invalid
  let out := { out with
    numNegativePics := u8 numNeg
    numPositivePics := u8 numPos
    numDeltaPocs := u8 (numNeg + numPos) }
  let out ← parseDeltas (-1) numNeg 0 0 out
  parseDeltas 1 numPos numNeg 0 out

/-- `parse_st_rps` into a set that is all zero; `mark` stores the prediction flag, the only field
that is written before the parser can give up. -/
def parseStRps (mark : Nat → P Unit) (rpsList : List ShortTermRps)
    (stRpsIdx numShortTermRefPicSets : Nat) : P ShortTermRps := do
  let interRps ← if stRpsIdx ≠ 0 then brU1 else pure 0
  mark (u8 interRps)
  let out : ShortTermRps := { interRefPicSetPredictionFlag := u8 interRps }
  if interRps ≠ 0 then parseInterRps rpsList stRpsIdx numShortTermRefPicSets out
  else parseDirectRps out

end ShortTermRps

section VpsParser

def setVps (id : Nat) (g : Vps → Vps) : P Unit :=
  modify fun o => { o with vps := o.vps.modify id g }

/-- The ordering info of `n` sub-layers from layer `i` on, stored as it is read. -/
def parseVpsOrdering (id : Nat) : Nat → Nat → P Unit
  | 0, _ => pure ()
  | n + 1, i => do
    let buffering ← brUe8
    let reorder ← brUe8
    let latency ← brUe
    setVps id fun v => { v with
      vpsMaxDecPicBufferingMinus1 := v.vpsMaxDecPicBufferingMinus1.set i buffering
      vpsMaxNumReorderPics := v.vpsMaxNumReorderPics.set i reorder
      vpsMaxLatencyIncreasePlus1 := v.vpsMaxLatencyIncreasePlus1.set i latency }
    parseVpsOrdering id n (i + 1)

/-- `parse_vps`: it works on the stored VPS, and it does not look at the reader's flag. -/
def parseVps : P Unit := do
  let vpsId ← brU8 4
  if maxVps ≤ vpsId then throw .invalid
  setVps vpsId fun _ => { vpsId := vpsId }
  let _ ← brU 2
  let maxLayersMinus1 ← brU8 6
  let maxSubLayersMinus1 ← brU8 3
  let nesting ← brU8 1
  setVps vpsId fun v => { v with
    vpsMaxLayersMinus1 := maxLayersMinus1
    vpsMaxSubLayersMinus1 := maxSubLayersMinus1
    vpsTemporalIdNestingFlag := nesting }
  let _ ← brU 16
  if maxSubLayers ≤ maxSubLayersMinus1 then throw .invalid
  let ptl ← parsePtl maxSubLayersMinus1
  let orderingPresent ← brU8 1
  setVps vpsId fun v => { v with
    ptl := ptl, vpsSubLayerOrderingInfoPresentFlag := orderingPresent }
  let start := if orderingPresent ≠ 0 then 0 else maxSubLayersMinus1
  parseVpsOrdering vpsId (maxSubLayersMinus1 + 1 - start) start
  let maxLayerId ← brU 6
  let numLayerSetsMinus1 ← brUe
  skip (numLayerSetsMinus1 * (maxLayerId + 1)) do
    let _ ← brU1
  if ← flag then
    let _ ← brU 32
    let _ ← brU 32
    if ← flag then
      let _ ← brUe
    let numHrdParameters ← brUe
    if numHrdParameters ≠ 0 then throw .unsupported
  setVps vpsId fun v => { v with valid := true }

end VpsParser

section SpsParser

def parseSpsOrdering : Nat → Nat → Sps → P Sps
  | 0, _, tmp => pure tmp
  | n + 1, i, tmp => do
    let buffering ← brUe8
    let reorder ← brUe8
    let latency ← brUe
    parseSpsOrdering n (i + 1) { tmp with
      spsMaxDecPicBufferingMinus1 := tmp.spsMaxDecPicBufferingMinus1.set i buffering
      spsMaxNumReorderPics := tmp.spsMaxNumReorderPics.set i reorder
      spsMaxLatencyIncreasePlus1 := tmp.spsMaxLatencyIncreasePlus1.set i latency }

/-- The info of layer `start` goes to the layers below it. -/
def broadcastOrdering (start : Nat) (tmp : Sps) : Sps :=
  let down (l : List Nat) : List Nat := List.replicate start (l.getD start 0) ++ l.drop start
  { tmp with
    spsMaxDecPicBufferingMinus1 := down tmp.spsMaxDecPicBufferingMinus1
    spsMaxNumReorderPics := down tmp.spsMaxNumReorderPics
    spsMaxLatencyIncreasePlus1 := down tmp.spsMaxLatencyIncreasePlus1 }

/-- The header of the SPS, up to the picture size. -/
def parseSpsHead : P Sps := do
  let vpsId ← brU8 4
  let maxSubLayersMinus1 ← brU8 3
  let nesting ← brU8 1
  if maxSubLayers ≤ maxSubLayersMinus1 then throw .invalid
  let ptl ← parsePtl maxSubLayersMinus1
  let spsId ← brUe
  if maxSps ≤ spsId then throw .invalid
  let chromaFormatIdc ← brUe8
  let separate ← if chromaFormatIdc = 3 then brU8 1 else pure 0
  let width ← brUe
  let height ← brUe
  if width = 0 ∨ 8192 < width ∨ height = 0 ∨ 8192 < height then throw .invalid
  return {
    vpsId := vpsId
    spsMaxSubLayersMinus1 := maxSubLayersMinus1
    spsTemporalIdNestingFlag := nesting
    ptl := ptl
    spsId := u8 spsId
    chromaFormatIdc := chromaFormatIdc
    separateColourPlaneFlag := separate
    picWidthInLumaSamples := width
    picHeightInLumaSamples := height }

def parseConformanceWindow (tmp : Sps) : P Sps := do
  let window ← brU8 1
  if window = 0 then return tmp
  let left ← brUe
  let right ← brUe
  let top ← brUe
  let bottom ← brUe
  return { tmp with
    conformanceWindowFlag := window
    confWinLeftOffset := left
    confWinRightOffset := right
    confWinTopOffset := top
    confWinBottomOffset := bottom }

def parseSubLayerOrdering (tmp : Sps) : P Sps := do
  let present ← brU8 1
  let tmp := { tmp with spsSubLayerOrderingInfoPresentFlag := present }
  let start := if present ≠ 0 then 0 else tmp.spsMaxSubLayersMinus1
  let tmp ← parseSpsOrdering (tmp.spsMaxSubLayersMinus1 + 1 - start) start tmp
  return if present = 0 then broadcastOrdering start tmp else tmp

def parseBlockSizes (tmp : Sps) : P Sps := do
  let minCb ← brUe8
  let diffCb ← brUe8
  let minTb ← brUe8
  let diffTb ← brUe8
  let depthInter ← brUe8
  let depthIntra ← brUe8
  return { tmp with
    log2MinLumaCodingBlockSizeMinus3 := minCb
    log2DiffMaxMinLumaCodingBlockSize := diffCb
    log2MinLumaTransformBlockSizeMinus2 := minTb
    log2DiffMaxMinLumaTransformBlockSize := diffTb
    maxTransformHierarchyDepthInter := depthInter
    maxTransformHierarchyDepthIntra := depthIntra }

def parseSpsScalingList (tmp : Sps) : P Sps := do
  let enabled ← brU8 1
  let tmp := { tmp with scalingListEnabledFlag := enabled }
  if enabled = 0 then return tmp
  let present ← brU8 1
  let sl ← if present ≠ 0 then parseScalingListData else pure .setDefault
  return { tmp with spsScalingListDataPresentFlag := present, scalingList := sl }

def parsePcm (tmp : Sps) : P Sps := do
  let enabled ← brU8 1
  if enabled = 0 then return tmp
  let luma ← brU8 4
  let chroma ← brU8 4
  let minCb ← brUe8
  let diffCb ← brUe8
  let loopFilterDisabled ← brU8 1
  return { tmp with
    pcmEnabledFlag := enabled
    pcmSampleBitDepthLumaMinus1 := luma
    pcmSampleBitDepthChromaMinus1 := chroma
    log2MinPcmLumaCodingBlockSizeMinus3 := minCb
    log2DiffMaxMinPcmLumaCodingBlockSize := diffCb
    pcmLoopFilterDisabledFlag := loopFilterDisabled }

/-- The entries of the RPS table from `i` on. -/
def parseRpsTable : Nat → Nat → Sps → P Sps
  | 0, _, tmp => pure tmp
  | n + 1, i, tmp => do
    access maxShortTermRps i
    let rps ← parseStRps (fun _ => pure ()) tmp.stRps i tmp.numShortTermRefPicSets
    parseRpsTable n (i + 1) { tmp with stRps := tmp.stRps.set i rps }

def parseLtRefPics : Nat → Nat → Sps → P Sps
  | 0, _, tmp => pure tmp
  | n + 1, i, tmp => do
    let lsb ← brU (tmp.log2MaxPicOrderCntLsbMinus4 + 4)
    let used ← brU8 1
    parseLtRefPics n (i + 1) { tmp with
      ltRefPicPocLsbSps := tmp.ltRefPicPocLsbSps.set i (u16 lsb)
      usedByCurrPicLtSpsFlag := tmp.usedByCurrPicLtSpsFlag.set i used }

def parseLongTerm (tmp : Sps) : P Sps := do
  let present ← brU8 1
  let tmp := { tmp with longTermRefPicsPresentFlag := present }
  if present = 0 then return tmp
  let num ← brUe8
  if maxLongTermRefs < num then throw .invalid
  parseLtRefPics num 0 { tmp with numLongTermRefPicsSps := num }

/-- The quantities derived from the block sizes. -/
def deriveCtbs (tmp : Sps) : P Sps := do
  let log2Ctb := tmp.log2MinLumaCodingBlockSizeMinus3 + 3 + tmp.log2DiffMaxMinLumaCodingBlockSize
  if log2Ctb = 0 ∨ 6 < log2Ctb then throw .invalid
  return { tmp with
    ctbLog2SizeY := u8 log2Ctb
    ctbSizeY := u8 (2 ^ log2Ctb)
    picWidthInCtbsY := (tmp.picWidthInLumaSamples + 2 ^ log2Ctb - 1) / 2 ^ log2Ctb
    picHeightInCtbsY := (tmp.picHeightInLumaSamples + 2 ^ log2Ctb - 1) / 2 ^ log2Ctb }

/-- `parse_sps` up to the check of the reader. -/
def parseSpsFields : P Sps := do
  let tmp ← parseSpsHead
  let tmp ← parseConformanceWindow tmp
  let luma ← brUe8
  let chroma ← brUe8
  let log2MaxLsb ← brUe8
  let tmp := { tmp with
    bitDepthLumaMinus8 := luma
    bitDepthChromaMinus8 := chroma
    log2MaxPicOrderCntLsbMinus4 := log2MaxLsb }
  let tmp ← parseSubLayerOrdering tmp
  let tmp ← parseBlockSizes tmp
  let tmp ← parseSpsScalingList tmp
  let amp ← brU8 1
  let sao ← brU8 1
  let tmp := { tmp with ampEnabledFlag := amp, sampleAdaptiveOffsetEnabledFlag := sao }
  let tmp ← parsePcm tmp
  let numRps ← brUe8
  if maxShortTermRps < numRps then throw .invalid
  let tmp ← parseRpsTable numRps 0 { tmp with numShortTermRefPicSets := numRps }
  let tmp ← parseLongTerm tmp
  let temporalMvp ← brU8 1
  let strongIntra ← brU8 1
  deriveCtbs { tmp with
    spsTemporalMvpEnabledFlag := temporalMvp
    strongIntraSmoothingEnabledFlag := strongIntra }

/-- `parse_sps`: the SPS is stored after the check. -/
def parseSps : P Unit := do
  let tmp ← parseSpsFields
  checkFailed
  modify fun o => { o with
    sps := o.sps.set tmp.spsId { tmp with valid := true }
    activeSpsId := tmp.spsId
    gotSpsInAu := true }

end SpsParser

section PpsParser

/-- The elements up to the tile syntax; the tile flags start at their inferred values. -/
def parsePpsHead (ppsId spsId : Nat) : P Pps := do
  let dependent ← brU8 1
  let outputFlag ← brU8 1
  let extraBits ← brU8 3
  let signHiding ← brU8 1
  let cabacInit ← brU8 1
  let l0 ← brUe8
  let l1 ← brUe8
  let initQp ← brSe
  let constrainedIntra ← brU8 1
  let transformSkip ← brU8 1
  let cuQpDelta ← brU8 1
  let depth ← if cuQpDelta ≠ 0 then brUe8 else pure 0
  let cb ← brSe
  let cr ← brSe
  let chromaOffsets ← brU8 1
  let weighted ← brU8 1
  let weightedBi ← brU8 1
  let bypass ← brU8 1
  let tiles ← brU8 1
  let sync ← brU8 1
  return {
    ppsId := u8 ppsId
    spsId := u8 spsId
    uniformSpacingFlag := 1
    loopFilterAcrossTilesEnabledFlag := 1
    dependentSliceSegmentsEnabledFlag := dependent
    outputFlagPresentFlag := outputFlag
    numExtraSliceHeaderBits := extraBits
    signDataHidingEnabledFlag := signHiding
    cabacInitPresentFlag := cabacInit
    numRefIdxL0DefaultActiveMinus1 := l0
    numRefIdxL1DefaultActiveMinus1 := l1
    initQpMinus26 := i8 initQp
    constrainedIntraPredFlag := constrainedIntra
    transformSkipEnabledFlag := transformSkip
    cuQpDeltaEnabledFlag := cuQpDelta
    diffCuQpDeltaDepth := depth
    ppsCbQpOffset := i8 cb
    ppsCrQpOffset := i8 cr
    ppsSliceChromaQpOffsetsPresentFlag := chromaOffsets
    weightedPredFlag := weighted
    weightedBipredFlag := weightedBi
    transquantBypassEnabledFlag := bypass
    tilesEnabledFlag := tiles
    entropyCodingSyncEnabledFlag := sync }

def parseTiles (tmp : Pps) : P Pps := do
  if tmp.tilesEnabledFlag = 0 then return tmp
  let ncols ← brUe
  let nrows ← brUe
  if 20 ≤ ncols ∨ 22 ≤ nrows then throw .invalid
  let uniform ← brU8 1
  if uniform = 0 then
    skip (u8 ncols) do
      let _ ← brUe
    skip (u8 nrows) do
      let _ ← brUe
  let acrossTiles ← brU8 1
  return { tmp with
    numTileColumnsMinus1 := u8 ncols
    numTileRowsMinus1 := u8 nrows
    uniformSpacingFlag := uniform
    loopFilterAcrossTilesEnabledFlag := acrossTiles }

def parsePpsDeblocking (tmp : Pps) : P Pps := do
  let control ← brU8 1
  if control = 0 then return tmp
  let overrideEnabled ← brU8 1
  let disabled ← brU8 1
  let tmp := { tmp with
    deblockingFilterControlPresentFlag := control
    deblockingFilterOverrideEnabledFlag := overrideEnabled
    ppsDeblockingFilterDisabledFlag := disabled }
  if disabled ≠ 0 then return tmp
  let beta ← brSe
  let tc ← brSe
  return { tmp with ppsBetaOffsetDiv2 := i8 beta, ppsTcOffsetDiv2 := i8 tc }

/-- `parse_pps` up to the check of the reader. -/
def parsePpsFields : P Pps := do
  let ppsId ← brUe
  if maxPps ≤ ppsId then throw .invalid
  let spsId ← brUe
  if maxSps ≤ spsId then throw .invalid
  if ((← get).sps.getD spsId {}).valid = false then throw .invalid
  let tmp ← parsePpsHead ppsId spsId
  let tmp ← parseTiles tmp
  let acrossSlices ← brU8 1
  let tmp ← parsePpsDeblocking { tmp with ppsLoopFilterAcrossSlicesEnabledFlag := acrossSlices }
  let scalingPresent ← brU8 1
  let sl ← if scalingPresent ≠ 0 then parseScalingListData else pure {}
  let listsModification ← brU8 1
  let mergeLevel ← brUe8
  let extensionPresent ← brU8 1
  return { tmp with
    ppsScalingListDataPresentFlag := scalingPresent
    scalingList := sl
    listsModificationPresentFlag := listsModification
    log2ParallelMergeLevelMinus2 := mergeLevel
    sliceSegmentHeaderExtensionPresentFlag := extensionPresent }

/-- `parse_pps`: the PPS is stored after the check. -/
def parsePps : P Unit := do
  let tmp ← parsePpsFields
  checkFailed
  modify fun o => { o with
    pps := o.pps.set tmp.ppsId { tmp with valid := true }
    activePpsId := tmp.ppsId
    gotPpsInAu := true }

end PpsParser

section SliceHeader

def setSlice (g : SliceHeader → SliceHeader) : P Unit :=
  modify fun o => { o with slice := g o.slice }

def isIrapType (nalUnitType : Nat) : Bool := nalBlaWLp ≤ nalUnitType ∧ nalUnitType ≤ nalCraNut

def isIdrType (nalUnitType : Nat) : Bool := nalUnitType = nalIdrWRadl ∨ nalUnitType = nalIdrNLp

/-- The elements up to the parameter sets of the slice, which become the active ones. -/
def parseSliceSets (nalUnitType : Nat) : P (Pps × Sps) := do
  setSlice fun _ => {}
  let first ← brU8 1
  setSlice fun s => { s with firstSliceSegmentInPicFlag := first }
  modify fun o => { o with isIrap := isIrapType nalUnitType, isIdr := isIdrType nalUnitType }
  if isIrapType nalUnitType then
    let noOutput ← brU8 1
    setSlice fun s => { s with noOutputOfPriorPicsFlag := noOutput }
  let ppsId ← brUe8
  setSlice fun s => { s with slicePicParameterSetId := ppsId }
  if maxPps ≤ ppsId then throw .invalid
  access maxPps ppsId
  let pps := (← get).pps.getD ppsId {}
  if pps.valid = false then throw .invalid
  modify fun o => { o with activePpsId := ppsId }
  access maxSps pps.spsId
  let sps := (← get).sps.getD pps.spsId {}
  if sps.valid = false then throw .invalid
  modify fun o => { o with activeSpsId := pps.spsId }
  return (pps, sps)

def parseSegmentAddress (pps : Pps) (sps : Sps) : P Unit := do
  if (← get).slice.firstSliceSegmentInPicFlag = 0 then
    if pps.dependentSliceSegmentsEnabledFlag ≠ 0 then
      let dependent ← brU8 1
      setSlice fun s => { s with dependentSliceSegmentFlag := dependent }
    let address ← brU (ceilLog2 (u32 (sps.picWidthInCtbsY * sps.picHeightInCtbsY)))
    setSlice fun s => { s with sliceSegmentAddress := address }

/-- The picture order count and the reference picture set of a picture that is not an IDR. -/
def parseSliceRps (sps : Sps) : P Unit := do
  let lsb ← brU (sps.log2MaxPicOrderCntLsbMinus4 + 4)
  setSlice fun s => { s with slicePicOrderCntLsb := u16 lsb }
  let spsFlag ← brU8 1
  setSlice fun s => { s with shortTermRefPicSetSpsFlag := spsFlag }
  let bitBegin ← brBitPos
  if spsFlag = 0 then
    let mark (inter : Nat) : P Unit := setSlice fun s => { s with
      stRpsSlice := { s.stRpsSlice with interRefPicSetPredictionFlag := inter } }
    let num := sps.numShortTermRefPicSets
    let rps ← parseStRps mark sps.stRps num num
    setSlice fun s => { s with stRpsSlice := rps }
  else if 1 < sps.numShortTermRefPicSets then
    let idx ← brU8 (ceilLog2 sps.numShortTermRefPicSets)
    setSlice fun s => { s with shortTermRefPicSetIdx := idx }
  let bitEnd ← brBitPos
  setSlice fun s => { s with shortTermRefPicSetSize := u32 (bitEnd - bitBegin) }
  if sps.longTermRefPicsPresentFlag ≠ 0 then
    let nLtSps ← if 0 < sps.numLongTermRefPicsSps then brUe else pure 0
    let nLtPics ← brUe
    if maxLongTermRefs < nLtSps ∨ maxLongTermRefs < nLtPics then throw .invalid
    setSlice fun s => { s with numLongTermSps := u8 nLtSps, numLongTermPics := u8 nLtPics }
    if 0 < nLtSps + nLtPics then throw .unsupported
  if sps.spsTemporalMvpEnabledFlag ≠ 0 then
    let temporalMvp ← brU8 1
    setSlice fun s => { s with sliceTemporalMvpEnabledFlag := temporalMvp }

/-- The entries of the set from `i` on that the picture uses. -/
def countUsed (rps : ShortTermRps) : Nat → Nat → P Nat
  | 0, _ => pure 0
  | n + 1, i => do
    access maxRefs i
    let rest ← countUsed rps n (i + 1)
    return if rps.usedByCurrPicFlag.getD i 0 ≠ 0 then rest + 1 else rest

def parseListsModification (pps : Pps) (sps : Sps) : P Unit := do
  let slice := (← get).slice
  let strps ←
    if slice.shortTermRefPicSetSpsFlag ≠ 0 then do
      access maxShortTermRps slice.shortTermRefPicSetIdx
      pure (sps.stRps.getD slice.shortTermRefPicSetIdx {})
    else pure slice.stRpsSlice
  let totalRefs ← countUsed strps strps.numDeltaPocs 0
  if pps.listsModificationPresentFlag ≠ 0 ∧ 1 < totalRefs then
    if ← flag then
      skip (slice.numRefIdxL0ActiveMinus1 + 1) do
        let _ ← brU (ceilLog2 totalRefs)
    if slice.sliceType = sliceTypeB then
      if ← flag then
        skip (slice.numRefIdxL1ActiveMinus1 + 1) do
          let _ ← brU (ceilLog2 totalRefs)

/-- `n` weight flags into a local array of 16, from place `i` on. -/
def parseWeightFlags : Nat → Nat → P (List Bool)
  | 0, _ => pure []
  | n + 1, i => do
    access 16 i
    let weight ← flag
    return weight :: (← parseWeightFlags n (i + 1))

def skipWeights : Nat → Nat → List Bool → List Bool → P Unit
  | 0, _, _, _ => pure ()
  | n + 1, i, luma, chroma => do
    access 16 i
    if luma.getD i false then
      let _ ← brSe
      let _ ← brSe
    if chroma.getD i false then
      let _ ← brSe
      let _ ← brSe
      let _ ← brSe
      let _ ← brSe
    skipWeights n (i + 1) luma chroma

/-- The weights of one list of `n` references. -/
def parseListWeights (chroma : Bool) (n : Nat) : P Unit := do
  let lumaWeights ← parseWeightFlags n 0
  let chromaWeights ← if chroma then parseWeightFlags n 0 else pure []
  skipWeights n 0 lumaWeights chromaWeights

def parsePredWeightTable (sps : Sps) : P Unit := do
  let slice := (← get).slice
  let chroma : Bool := sps.chromaFormatIdc ≠ 0
  let _ ← brUe
  if chroma then
    let _ ← brSe
  parseListWeights chroma (slice.numRefIdxL0ActiveMinus1 + 1)
  if slice.sliceType = sliceTypeB then
    parseListWeights chroma (slice.numRefIdxL1ActiveMinus1 + 1)

def parseCollocated : P Unit := do
  let slice := (← get).slice
  if slice.sliceTemporalMvpEnabledFlag ≠ 0 then
    let fromL0 ← if slice.sliceType = sliceTypeB then brU8 1 else pure 1
    setSlice fun s => { s with collocatedFromL0Flag := fromL0 }
    let listSize :=
      (if fromL0 ≠ 0 then slice.numRefIdxL0ActiveMinus1 else slice.numRefIdxL1ActiveMinus1) + 1
    if 1 < listSize then
      let refIdx ← brUe8
      setSlice fun s => { s with collocatedRefIdx := refIdx }

/-- The elements of a P or B slice. -/
def parseInterSlice (pps : Pps) (sps : Sps) (st : Nat) : P Unit := do
  let overrideFlag ← brU8 1
  setSlice fun s => { s with numRefIdxActiveOverrideFlag := overrideFlag }
  if overrideFlag ≠ 0 then
    let l0 ← brUe8
    setSlice fun s => { s with numRefIdxL0ActiveMinus1 := l0 }
    if st = sliceTypeB then
      let l1 ← brUe8
      setSlice fun s => { s with numRefIdxL1ActiveMinus1 := l1 }
  else
    setSlice fun s => { s with
      numRefIdxL0ActiveMinus1 := pps.numRefIdxL0DefaultActiveMinus1
      numRefIdxL1ActiveMinus1 := pps.numRefIdxL1DefaultActiveMinus1 }
  parseListsModification pps sps
  if st = sliceTypeB then
    let mvdL1Zero ← brU8 1
    setSlice fun s => { s with mvdL1ZeroFlag := mvdL1Zero }
  if pps.cabacInitPresentFlag ≠ 0 then
    let cabacInit ← brU8 1
    setSlice fun s => { s with cabacInitFlag := cabacInit }
  parseCollocated
  if (pps.weightedPredFlag ≠ 0 ∧ st = sliceTypeP) ∨
      (pps.weightedBipredFlag ≠ 0 ∧ st = sliceTypeB) then
    parsePredWeightTable sps
  let mergeCand ← brUe8
  setSlice fun s => { s with fiveMinusMaxNumMergeCand := mergeCand }

def parseSliceDeblocking (pps : Pps) : P Unit := do
  if pps.deblockingFilterControlPresentFlag ≠ 0 then
    if pps.deblockingFilterOverrideEnabledFlag ≠ 0 then
      let overrideFlag ← brU8 1
      setSlice fun s => { s with deblockingFilterOverrideFlag := overrideFlag }
    if (← get).slice.deblockingFilterOverrideFlag ≠ 0 then
      let disabled ← brU8 1
      setSlice fun s => { s with sliceDeblockingFilterDisabledFlag := disabled }
      if disabled = 0 then
        let beta ← brSe
        setSlice fun s => { s with sliceBetaOffsetDiv2 := i8 beta }
        let tc ← brSe
        setSlice fun s => { s with sliceTcOffsetDiv2 := i8 tc }
    else
      setSlice fun s => { s with
        sliceDeblockingFilterDisabledFlag := pps.ppsDeblockingFilterDisabledFlag
        sliceBetaOffsetDiv2 := pps.ppsBetaOffsetDiv2
        sliceTcOffsetDiv2 := pps.ppsTcOffsetDiv2 }

/-- The elements an independent slice segment has and a dependent one has not. -/
def parseIndependent (nalUnitType : Nat) (pps : Pps) (sps : Sps) : P Unit := do
  skip pps.numExtraSliceHeaderBits do
    let _ ← brU1
  let st ← brUe8
  setSlice fun s => { s with sliceType := st }
  if sliceTypeI < st then throw .invalid
  if pps.outputFlagPresentFlag ≠ 0 then
    let picOutput ← brU8 1
    setSlice fun s => { s with picOutputFlag := picOutput }
  if sps.separateColourPlaneFlag ≠ 0 then
    let colourPlaneId ← brU8 2
    setSlice fun s => { s with colourPlaneId := colourPlaneId }
  if isIdrType nalUnitType = false then parseSliceRps sps
  if sps.sampleAdaptiveOffsetEnabledFlag ≠ 0 then
    let saoLuma ← brU8 1
    setSlice fun s => { s with sliceSaoLumaFlag := saoLuma }
    if sps.chromaFormatIdc ≠ 0 then
      let saoChroma ← brU8 1
      setSlice fun s => { s with sliceSaoChromaFlag := saoChroma }
  if st = sliceTypeP ∨ st = sliceTypeB then parseInterSlice pps sps st
  let qpDelta ← brSe
  setSlice fun s => { s with sliceQpDelta := i8 qpDelta }
  if pps.ppsSliceChromaQpOffsetsPresentFlag ≠ 0 then
    let cb ← brSe
    setSlice fun s => { s with sliceCbQpOffset := i8 cb }
    let cr ← brSe
    setSlice fun s => { s with sliceCrQpOffset := i8 cr }
  parseSliceDeblocking pps
  let slice := (← get).slice
  if pps.ppsLoopFilterAcrossSlicesEnabledFlag ≠ 0 ∧ (slice.sliceSaoLumaFlag ≠ 0 ∨
      slice.sliceSaoChromaFlag ≠ 0 ∨ slice.sliceDeblockingFilterDisabledFlag = 0) then
    let across ← brU8 1
    setSlice fun s => { s with sliceLoopFilterAcrossSlicesEnabledFlag := across }

def parseEntryPoints (pps : Pps) (sps : Sps) : P Unit := do
  if pps.tilesEnabledFlag ≠ 0 ∨ pps.entropyCodingSyncEnabledFlag ≠ 0 then
    let nEp ← brUe
    if u32 (sps.picHeightInCtbsY * (pps.numTileColumnsMinus1 + 1)) < nEp then
      brFail
      throw .invalid
    setSlice fun s => { s with numEntryPointOffsets := nEp }
    if nEp ≠ 0 then
      let offsetLenMinus1 ← brUe
      if 31 < offsetLenMinus1 then
        brFail
        throw .invalid
      skip nEp do
        let _ ← brU (offsetLenMinus1 + 1)

def parseHeaderExtension (pps : Pps) : P Unit := do
  if pps.sliceSegmentHeaderExtensionPresentFlag ≠ 0 then
    let length ← brUe
    let bitPos ← brBitPos
    let len ← brLen
    let remainingBytes := if bitPos < len * 8 then len - (bitPos + 7) / 8 else 0
    if remainingBytes < length then
      brFail
      throw .invalid
    skip length do
      let _ ← brU 8

/-- `while (br->bit_pos & 7) br_u1(br)`; fewer than eight turns lead to a byte boundary. -/
def alignLoop : Nat → P Unit
  | 0 => pure ()
  | turns + 1 => do
    if (← brBitPos) % 8 ≠ 0 then
      let _ ← brU1
      alignLoop turns

/-- `parse_slice_header`. It does not look at the reader's flag. -/
def parseSliceHeader (nalUnitType : Nat) : P Unit := do
  let (pps, sps) ← parseSliceSets nalUnitType
  parseSegmentAddress pps sps
  if (← get).slice.dependentSliceSegmentFlag = 0 then parseIndependent nalUnitType pps sps
  parseEntryPoints pps sps
  parseHeaderExtension pps
  let _ ← brU1
  alignLoop 8
  let headerBits ← brBitPos
  setSlice fun s => { s with headerBitSize := u32 headerBits }

end SliceHeader

section PicOrderCnt

/-- The POC state the access unit parser keeps on its stack. -/
structure Staged where
  prevMsb : Int
  prevLsb : Int

def maxLsb (sps : Sps) : Int := i32 (2 ^ (sps.log2MaxPicOrderCntLsbMinus4 + 4))

/-- The POC of a picture that is not an IDR. -/
def computePoc (sps : Sps) (lsb : Int) (p : Staged) : Int :=
  let half := (maxLsb sps).tdiv 2
  let msb :=
    if lsb < p.prevLsb ∧ half ≤ i32 (p.prevLsb - lsb) then i32 (p.prevMsb + maxLsb sps)
    else if p.prevLsb < lsb ∧ half < i32 (lsb - p.prevLsb) then i32 (p.prevMsb - maxLsb sps)
    else p.prevMsb
  i32 (msb + lsb)

/-- The types of `is_radl_rasl_n`, whose pictures are no anchors. -/
def noAnchorTypes : List Nat :=
  [nalRadlN, nalRadlR, nalRaslN, nalRaslR, nalTrailN, nalTsaN, nalStsaN]

def subLayerNonRefTypes : List Nat := [nalTrailN, nalTsaN, nalStsaN, nalRadlN, nalRaslN]

/-- The anchor of the pictures that follow. -/
def updateAnchor (sps : Sps) (poc : Int) (p : Staged) : Staged :=
  if maxLsb sps = 0 then p
  else
    let lsb := poc.tmod (maxLsb sps)
    let lsb := if lsb < 0 then i32 (lsb + maxLsb sps) else lsb
    { prevMsb := i32 (poc - lsb), prevLsb := lsb }

end PicOrderCnt

section AccessUnit

abbrev Au := AuState ParseResult Staged

/-- What follows a slice header that was parsed. -/
def finishSlice (s : Au) (nalUnitType temporalIdP1 : Nat) (payload : List Byte)
    (headerBits : Nat) : Au :=
  let (out, staged) := s.result
  let sps := out.sps.getD out.activeSpsId.toNat {}
  let poc := if out.isIdr then 0 else computePoc sps out.slice.slicePicOrderCntLsb staged
  let staged := if out.isIdr then ⟨0, 0⟩ else staged
  let staged :=
    if temporalIdP1 = 1 ∧ nalUnitType ∉ noAnchorTypes ∧ 0 ≤ out.activeSpsId then
      updateAnchor sps poc staged
    else staged
  let out := { out with
    hasSlice := true
    sliceNalUnitType := nalUnitType
    nalRefFlag := nalUnitType ∉ subLayerNonRefTypes
    poc := poc }
  let dataOff := (headerBits + 7) / 8
  if payload.length < dataOff then { s with result := (out, staged), status := some .invalid }
  else { s with result := ({ out with sliceData := payload.drop dataOff }, staged) }

/-- The switch over the NAL unit type, behind a header of two bytes. -/
def visit (s : Au) (rbsp : List Byte) : Au :=
  let nh := (rbsp.getD 0 0).toNat * 2 ^ 8 + (rbsp.getD 1 0).toNat
  let nalUnitType := nh / 2 ^ 9 % 2 ^ 6
  let temporalIdP1 := nh % 2 ^ 3
  let payload := rbsp.drop 2
  let out := s.result.1
  if nalUnitType = nalVps then s.parse ⟨.vps, parseVps, out, .init payload⟩
  else if nalUnitType = nalSps then s.parse ⟨.sps, parseSps, out, .init payload⟩
  else if nalUnitType = nalPps then s.parse ⟨.pps, parsePps, out, .init payload⟩
  else if nalUnitType ∈ sliceNalTypes then
    let u : UnitRun ParseResult := ⟨.slice, parseSliceHeader nalUnitType, out, .init payload⟩
    let s := s.parse u
    if s.status.isSome then s
    else finishSlice s nalUnitType temporalIdP1 payload u.outcome.2.bitPos
  else s

/-- The fields of the result that belong to one access unit only. -/
def resetAu (out : ParseResult) : ParseResult :=
  { out with
    slice := {}
    hasSlice := false
    gotVpsInAu := false
    gotSpsInAu := false
    gotPpsInAu := false
    sliceNalUnitType := 0
    nalRefFlag := false
    isIdr := false
    isIrap := false
    sliceData := [] }

/-- The loop of `H265ParseAccessUnit`. -/
def auUnits (buf : List Byte) (scratchSize : Nat) (out : ParseResult) : Au :=
  auLoop 2 visit buf scratchSize buf.length 0 0
    { result := (resetAu out, ⟨out.prevPocMsbTid0, out.prevPocLsbTid0⟩)
      status := none
      units := [] }

/-- `H265ParseAccessUnit` on a buffer, a result and a scratch buffer that are there. -/
def parseAccessUnit (buf : List Byte) (scratchSize : Nat) (out : ParseResult) :
    ParseStatus × ParseResult :=
  let s := auUnits buf scratchSize out
  let (out, staged) := s.result
  match s.status with
  | some e => (e.status, out)
  | none =>
    if out.hasSlice = false then
      (if out.gotSpsInAu ∨ out.gotPpsInAu ∨ out.gotVpsInAu then .needMore else .invalid, out)
    else (.ok, { out with prevPocMsbTid0 := staged.prevMsb, prevPocLsbTid0 := staged.prevLsb })

end AccessUnit

end Rkvdec.Bitstream.H265
