import Rkvdec.Bitstream.Nal

/-! The H.264 parser of `parser_glue.cpp`: parameter sets, slice header, picture order count and the
access unit. -/
namespace Rkvdec.Bitstream.H264

section Flags

def spsFlagSeparateColourPlane : Nat := 0x01
def spsFlagQpprimeYZeroTransformBypass : Nat := 0x02
def spsFlagDeltaPicOrderAlwaysZero : Nat := 0x04
def spsFlagGapsInFrameNumValueAllowed : Nat := 0x08
def spsFlagFrameMbsOnly : Nat := 0x10
def spsFlagMbAdaptiveFrameField : Nat := 0x20
def spsFlagDirect8x8Inference : Nat := 0x40

def ppsFlagEntropyCodingMode : Nat := 0x0001
def ppsFlagBottomFieldPicOrderInFramePresent : Nat := 0x0002
def ppsFlagWeightedPred : Nat := 0x0004
def ppsFlagDeblockingFilterControlPresent : Nat := 0x0008
def ppsFlagConstrainedIntraPred : Nat := 0x0010
def ppsFlagRedundantPicCntPresent : Nat := 0x0020
def ppsFlagTransform8x8Mode : Nat := 0x0040
def ppsFlagScalingMatrixPresent : Nat := 0x0080

def sliceFlagDirectSpatialMvPred : Nat := 0x01

def decodeParamFlagIdrPic : Nat := 0x01
def decodeParamFlagFieldPic : Nat := 0x02
def decodeParamFlagBottomField : Nat := 0x04

def sliceTypeP : Nat := 0
def sliceTypeB : Nat := 1
def sliceTypeI : Nat := 2
def sliceTypeSp : Nat := 3
def sliceTypeSi : Nat := 4

end Flags

/-- `v4l2_ctrl_h264_sps`; the defaults are those of `memset`. -/
structure Sps where
  profileIdc : Nat := 0
  constraintSetFlags : Nat := 0
  levelIdc : Nat := 0
  seqParameterSetId : Nat := 0
  chromaFormatIdc : Nat := 0
  bitDepthLumaMinus8 : Nat := 0
  bitDepthChromaMinus8 : Nat := 0
  log2MaxFrameNumMinus4 : Nat := 0
  picOrderCntType : Nat := 0
  log2MaxPicOrderCntLsbMinus4 : Nat := 0
  maxNumRefFrames : Nat := 0
  numRefFramesInPicOrderCntCycle : Nat := 0
  offsetForRefFrame : List Int := List.replicate 255 0
  offsetForNonRefPic : Int := 0
  offsetForTopToBottomField : Int := 0
  picWidthInMbsMinus1 : Nat := 0
  picHeightInMapUnitsMinus1 : Nat := 0
  flags : Nat := 0

structure Pps where
  picParameterSetId : Nat := 0
  seqParameterSetId : Nat := 0
  numSliceGroupsMinus1 : Nat := 0
  numRefIdxL0DefaultActiveMinus1 : Nat := 0
  numRefIdxL1DefaultActiveMinus1 : Nat := 0
  weightedBipredIdc : Nat := 0
  picInitQpMinus26 : Int := 0
  picInitQsMinus26 : Int := 0
  chromaQpIndexOffset : Int := 0
  secondChromaQpIndexOffset : Int := 0
  flags : Nat := 0

structure ScalingMatrix where
  scalingList4x4 : List (List Nat) := List.replicate 6 (List.replicate 16 0)
  scalingList8x8 : List (List Nat) := List.replicate 6 (List.replicate 64 0)

/-- The fields of `v4l2_ctrl_h264_slice_params` the parser fills. -/
structure SliceParams where
  headerBitSize : Nat := 0
  firstMbInSlice : Nat := 0
  sliceType : Nat := 0
  colourPlaneId : Nat := 0
  redundantPicCnt : Nat := 0
  numRefIdxL0ActiveMinus1 : Nat := 0
  numRefIdxL1ActiveMinus1 : Nat := 0
  flags : Nat := 0

/-- The fields of `v4l2_ctrl_h264_decode_params` the parser fills. -/
structure DecodeParams where
  nalRefIdc : Nat := 0
  frameNum : Nat := 0
  topFieldOrderCnt : Int := 0
  bottomFieldOrderCnt : Int := 0
  idrPicId : Nat := 0
  picOrderCntLsb : Nat := 0
  deltaPicOrderCntBottom : Int := 0
  deltaPicOrderCnt0 : Int := 0
  deltaPicOrderCnt1 : Int := 0
  flags : Nat := 0
deriving DecidableEq

structure Mmco where
  op : Nat
  differenceOfPicNumsMinus1 : Nat
  longTermPicNum : Nat
  longTermFrameIdx : Nat
  maxLongTermFrameIdxPlus1 : Nat
deriving DecidableEq

structure RplmOp where
  op : Nat
  value : Nat

/-- `H264ParseResult`. An array with its count is the list of the entries in use, `sliceData` the
bytes the pointer and the size describe. -/
structure ParseResult where
  sps : Sps := {}
  pps : Pps := {}
  scalingMatrix : ScalingMatrix := {}
  slice : SliceParams := {}
  decode : DecodeParams := {}
  hasSps : Bool := false
  hasPps : Bool := false
  hasScalingMatrix : Bool := false
  hasSlice : Bool := false
  hasSpsVuiReorder : Bool := false
  spsVuiMaxNumReorderFrames : Nat := 0
  hasVuiColour : Bool := false
  vuiFullRangeFlag : Nat := 0
  hasVuiColourDesc : Bool := false
  vuiColourPrimaries : Nat := 0
  vuiTransferCharacteristics : Nat := 0
  vuiMatrixCoefficients : Nat := 0
  sliceData : List Byte := []
  prevPicOrderCntMsb : Int := 0
  prevPicOrderCntLsb : Int := 0
  prevFrameNum : Int := 0
  prevFrameNumOffset : Int := 0
  adaptiveRefPicMarkingModeFlag : Nat := 0
  idrNoOutputOfPriorPicsFlag : Nat := 0
  idrLongTermReferenceFlag : Nat := 0
  mmco : List Mmco := []
  refPicListModificationFlagL0 : Nat := 0
  refPicListModificationFlagL1 : Nat := 0
  rplmL0 : List RplmOp := []
  rplmL1 : List RplmOp := []

abbrev P := Parser ParseResult

section Update

def setSps (g : Sps → Sps) : P Unit := modify fun o => { o with sps := g o.sps }
def setPps (g : Pps → Pps) : P Unit := modify fun o => { o with pps := g o.pps }
def setSlice (g : SliceParams → SliceParams) : P Unit :=
  modify fun o => { o with slice := g o.slice }
def setDecode (g : DecodeParams → DecodeParams) : P Unit :=
  modify fun o => { o with decode := g o.decode }

/-- `flags |= bit` if the next bit is set. -/
def spsFlag (bit : Nat) : P Unit := do
  if ← flag then setSps fun s => { s with flags := s.flags ||| bit }

def ppsFlag (bit : Nat) : P Unit := do
  if ← flag then setPps fun s => { s with flags := s.flags ||| bit }

end Update

section ScalingLists

def zigZag4x4 : List Nat := [0, 1, 4, 8, 5, 2, 3, 6, 9, 12, 13, 10, 7, 11, 14, 15]

def zigZag8x8 : List Nat :=
  [0, 1, 8, 16, 9, 2, 3, 10, 17, 24, 32, 25, 18, 11, 4, 5,
    12, 19, 26, 33, 40, 48, 41, 34, 27, 20, 13, 6, 7, 14, 21, 28,
    35, 42, 49, 56, 57, 50, 43, 36, 29, 22, 15, 23, 30, 37, 44, 51,
    58, 59, 52, 45, 38, 31, 39, 46, 53, 60, 61, 54, 47, 55, 62, 63]

def default4x4Intra : List Nat := [6, 13, 13, 20, 20, 20, 28, 28, 28, 28, 32, 32, 32, 36, 36, 42]

def default4x4Inter : List Nat := [10, 14, 14, 20, 20, 20, 24, 24, 24, 24, 27, 27, 27, 30, 30, 34]

def default8x8Intra : List Nat :=
  [6, 10, 13, 16, 18, 23, 25, 27, 10, 11, 16, 18, 23, 25, 27, 29,
    13, 16, 18, 23, 25, 27, 29, 31, 16, 18, 23, 25, 27, 29, 31, 33,
    18, 23, 25, 27, 29, 31, 33, 36, 23, 25, 27, 29, 31, 33, 36, 38,
    25, 27, 29, 31, 33, 36, 38, 40, 27, 29, 31, 33, 36, 38, 40, 42]

def default8x8Inter : List Nat :=
  [9, 13, 15, 17, 19, 21, 22, 24, 13, 13, 17, 19, 21, 22, 24, 25,
    15, 17, 19, 21, 22, 24, 25, 27, 17, 19, 21, 22, 24, 25, 27, 28,
    19, 21, 22, 24, 25, 27, 28, 30, 21, 22, 24, 25, 27, 28, 30, 32,
    22, 24, 25, 27, 28, 30, 32, 33, 24, 25, 27, 28, 30, 32, 33, 35]

/-- The loop of `parse_scaling_list` over the positions left, in zig-zag order. It returns the list
and whether the stream asks for the default. -/
def scalingLoop : List Nat → Bool → Nat → Nat → Nat → List Nat → P (List Nat × Bool)
  | [], _, _, _, _, list => pure (list, false)
  | pos :: zz, first, lastScale, nextScale, lastValue, list => do
    let nextScale ←
      if nextScale ≠ 0 then do
        let deltaScale ← brSe
        pure (((lastScale : Int) + deltaScale + 256) % 256).toNat
      else pure nextScale
    if first ∧ nextScale = 0 then pure (list, true)
    else
      let v := if nextScale = 0 then lastValue else nextScale
      scalingLoop zz false (if nextScale = 0 then lastScale else nextScale) nextScale v
        (list.set pos (u8 v))

def parseScalingList (list : List Nat) (size : Nat) : P (List Nat × Bool) :=
  scalingLoop (if size = 16 then zigZag4x4 else zigZag8x8) true 8 8 8 list

/-- List `i` of a matrix: the six 4x4 lists come first. -/
def parseMatrixList (sm : ScalingMatrix) (i : Nat) : P (ScalingMatrix × Bool) := do
  if i < 6 then
    let (list, useDefault) ← parseScalingList (sm.scalingList4x4.getD i []) 16
    pure ({ sm with scalingList4x4 := sm.scalingList4x4.set i list }, useDefault)
  else
    let (list, useDefault) ← parseScalingList (sm.scalingList8x8.getD (i - 6) []) 64
    pure ({ sm with scalingList8x8 := sm.scalingList8x8.set (i - 6) list }, useDefault)

end ScalingLists

section SpsParser

def parseHrdParameters : P Unit := do
  let cpbCntMinus1 ← brUe
  let cpbCntMinus1 := if 31 < cpbCntMinus1 then 31 else cpbCntMinus1
  let _ ← brU 4
  let _ ← brU 4
  skip (cpbCntMinus1 + 1) do
    let _ ← brUe
    let _ ← brUe
    let _ ← brU1
  let _ ← brU 5
  let _ ← brU 5
  let _ ← brU 5
  let _ ← brU 5

def parseVuiParameters : P Unit := do
  modify fun o => { o with hasSpsVuiReorder := false, spsVuiMaxNumReorderFrames := 0 }
  if ← flag then
    let idc ← brU 8
    if idc = 255 then
      let _ ← brU 16
      let _ ← brU 16
  if ← flag then
    let _ ← brU1
  if ← flag then
    modify fun o => { o with hasVuiColour := true }
    let _ ← brU 3
    let fullRange ← brU1
    modify fun o => { o with vuiFullRangeFlag := u8 fullRange }
    if ← flag then
      let cp ← brU 8
      let tc ← brU 8
      let mc ← brU 8
      modify fun o => { o with
        hasVuiColourDesc := true
        vuiColourPrimaries := u8 cp
        vuiTransferCharacteristics := u8 tc
        vuiMatrixCoefficients := u8 mc }
  if ← flag then
    let _ ← brUe
    let _ ← brUe
  if ← flag then
    let _ ← brU 32
    let _ ← brU 32
    let _ ← brU1
  let nalHrd ← flag
  if nalHrd then parseHrdParameters
  let vclHrd ← flag
  if vclHrd then parseHrdParameters
  if nalHrd || vclHrd then
    let _ ← brU1
  let _ ← brU1
  if ← flag then
    let _ ← brU1
    let _ ← brUe
    let _ ← brUe
    let _ ← brUe
    let _ ← brUe
    let mr ← brUe
    let _ ← brUe
    modify fun o => { o with
      hasSpsVuiReorder := true
      spsVuiMaxNumReorderFrames := u8 (if 16 < mr then 16 else mr) }

/-- The profiles with the fidelity extensions. -/
def highProfiles : List Nat := [100, 110, 122, 244, 44, 83, 86, 118, 128, 138, 139, 134, 135]

/-- The lists of a matrix from `i` on, each behind its present flag. -/
def parseSeqScalingLists : Nat → Nat → ScalingMatrix → P ScalingMatrix
  | 0, _, sm => pure sm
  | n + 1, i, sm => do
    if ← flag then
      let (sm, _) ← parseMatrixList sm i
      parseSeqScalingLists n (i + 1) sm
    else parseSeqScalingLists n (i + 1) sm

def parseOffsetsForRefFrame : Nat → Nat → P Unit
  | 0, _ => pure ()
  | n + 1, i => do
    let offset ← brSe
    setSps fun s => { s with offsetForRefFrame := s.offsetForRefFrame.set i offset }
    parseOffsetsForRefFrame n (i + 1)

/-- `parse_sps` up to the check of the reader. It returns the matrix of the SPS if it carries
one. -/
def parseSpsFields : P (Option ScalingMatrix) := do
  modify fun o => { o with hasSpsVuiReorder := false, spsVuiMaxNumReorderFrames := 0, sps := {} }
  let profileIdc ← brU 8
  setSps fun s => { s with profileIdc := u8 profileIdc }
  let constraintSetFlags ← brU 8
  setSps fun s => { s with constraintSetFlags := u8 constraintSetFlags }
  let levelIdc ← brU 8
  setSps fun s => { s with levelIdc := u8 levelIdc }
  let seqParameterSetId ← brUe
  setSps fun s => { s with seqParameterSetId := u8 seqParameterSetId }
  let sm ←
    if profileIdc ∈ highProfiles then do
      let chromaFormatIdc ← brUe
      setSps fun s => { s with chromaFormatIdc := u8 chromaFormatIdc }
      if u8 chromaFormatIdc = 3 then spsFlag spsFlagSeparateColourPlane
      let bitDepthLumaMinus8 ← brUe
      setSps fun s => { s with bitDepthLumaMinus8 := u8 bitDepthLumaMinus8 }
      let bitDepthChromaMinus8 ← brUe
      setSps fun s => { s with bitDepthChromaMinus8 := u8 bitDepthChromaMinus8 }
      spsFlag spsFlagQpprimeYZeroTransformBypass
      if ← flag then
        let sm ← parseSeqScalingLists (if u8 chromaFormatIdc = 3 then 12 else 8) 0 {}
        pure (some sm)
      else pure none
    else do
      setSps fun s => { s with
        chromaFormatIdc := 1, bitDepthLumaMinus8 := 0, bitDepthChromaMinus8 := 0 }
      pure none
  let log2MaxFrameNumMinus4 ← brUe
  setSps fun s => { s with log2MaxFrameNumMinus4 := u8 log2MaxFrameNumMinus4 }
  let picOrderCntType ← brUe
  setSps fun s => { s with picOrderCntType := u8 picOrderCntType }
  if u8 picOrderCntType = 0 then
    let log2MaxPicOrderCntLsbMinus4 ← brUe
    setSps fun s => { s with log2MaxPicOrderCntLsbMinus4 := u8 log2MaxPicOrderCntLsbMinus4 }
  else if u8 picOrderCntType = 1 then
    spsFlag spsFlagDeltaPicOrderAlwaysZero
    let offsetForNonRefPic ← brSe
    setSps fun s => { s with offsetForNonRefPic := offsetForNonRefPic }
    let offsetForTopToBottomField ← brSe
    setSps fun s => { s with offsetForTopToBottomField := offsetForTopToBottomField }
    let cycle ← brUe
    setSps fun s => { s with numRefFramesInPicOrderCntCycle := u8 cycle }
    parseOffsetsForRefFrame (min (u8 cycle) 255) 0
  let maxNumRefFrames ← brUe
  setSps fun s => { s with maxNumRefFrames := u8 maxNumRefFrames }
  spsFlag spsFlagGapsInFrameNumValueAllowed
  let wMbs ← brUe
  let hMbs ← brUe
  if 511 < wMbs ∨ 511 < hMbs then throw .invalid
  setSps fun s => { s with
    picWidthInMbsMinus1 := u16 wMbs, picHeightInMapUnitsMinus1 := u16 hMbs }
  let frameMbsOnly ← flag
  if frameMbsOnly then setSps fun s => { s with flags := s.flags ||| spsFlagFrameMbsOnly }
  if !frameMbsOnly then spsFlag spsFlagMbAdaptiveFrameField
  spsFlag spsFlagDirect8x8Inference
  if ← flag then
    let _ ← brUe
    let _ ← brUe
    let _ ← brUe
    let _ ← brUe
  if ← flag then parseVuiParameters
  return sm

def parseSps : P (Option ScalingMatrix) := do
  let sm ← parseSpsFields
  checkFailed
  return sm

/-- NAL type 7: the SPS and, if it has one, its matrix become the active ones. -/
def spsUnit : P Unit := do
  let sm ← parseSps
  modify fun o => { o with hasSps := true }
  match sm with
  | none => pure ()
  | some sm =>
    modify fun o => { o with scalingMatrix := sm, hasScalingMatrix := true }
    if (← get).hasPps then setPps fun p => { p with
      flags := p.flags ||| ppsFlagScalingMatrixPresent }

end SpsParser

section PpsParser

/-- The lists of the PPS from `i` on, stored as they are read; which were present, and which asked
for the default. -/
def parsePicScalingLists : Nat → Nat → P (List (Bool × Bool))
  | 0, _ => pure []
  | n + 1, i => do
    let present ← flag
    let useDefault ←
      if present then do
        let (sm, useDefault) ← parseMatrixList (← get).scalingMatrix i
        modify fun o => { o with scalingMatrix := sm }
        pure useDefault
      else pure false
    let rest ← parsePicScalingLists n (i + 1)
    return (present, useDefault) :: rest

/-- What a list that is absent or asks for the default falls back to. -/
def fallBack (sm : ScalingMatrix) (i : Nat) : ScalingMatrix :=
  let inherit4x4 (dst src : Nat) : ScalingMatrix :=
    { sm with scalingList4x4 := sm.scalingList4x4.set dst (sm.scalingList4x4.getD src []) }
  match i with
  | 0 => { sm with scalingList4x4 := sm.scalingList4x4.set 0 default4x4Intra }
  | 1 => inherit4x4 1 0
  | 2 => inherit4x4 2 1
  | 3 => { sm with scalingList4x4 := sm.scalingList4x4.set 3 default4x4Inter }
  | 4 => inherit4x4 4 3
  | 5 => inherit4x4 5 4
  | 6 => { sm with scalingList8x8 := sm.scalingList8x8.set 0 default8x8Intra }
  | 7 => { sm with scalingList8x8 := sm.scalingList8x8.set 1 default8x8Inter }
  | _ => sm

def resolveLists : List (Bool × Bool) → Nat → ScalingMatrix → ScalingMatrix
  | [], _, sm => sm
  | (present, useDefault) :: lists, i, sm =>
    resolveLists lists (i + 1) (if present && !useDefault then sm else fallBack sm i)

/-- `parse_pps` up to the check of the reader; whether the PPS carries a matrix. -/
def parsePpsFields : P Bool := do
  modify fun o => { o with pps := {} }
  let picParameterSetId ← brUe
  setPps fun p => { p with picParameterSetId := u8 picParameterSetId }
  let seqParameterSetId ← brUe
  setPps fun p => { p with seqParameterSetId := u8 seqParameterSetId }
  ppsFlag ppsFlagEntropyCodingMode
  ppsFlag ppsFlagBottomFieldPicOrderInFramePresent
  let numSliceGroupsMinus1 ← brUe
  setPps fun p => { p with numSliceGroupsMinus1 := u8 numSliceGroupsMinus1 }
  if u8 numSliceGroupsMinus1 ≠ 0 then throw .unsupported
  let numRefIdxL0 ← brUe
  setPps fun p => { p with numRefIdxL0DefaultActiveMinus1 := u8 numRefIdxL0 }
  let numRefIdxL1 ← brUe
  setPps fun p => { p with numRefIdxL1DefaultActiveMinus1 := u8 numRefIdxL1 }
  ppsFlag ppsFlagWeightedPred
  let weightedBipredIdc ← brU 2
  setPps fun p => { p with weightedBipredIdc := u8 weightedBipredIdc }
  let picInitQpMinus26 ← brSe
  setPps fun p => { p with picInitQpMinus26 := i8 picInitQpMinus26 }
  let picInitQsMinus26 ← brSe
  setPps fun p => { p with picInitQsMinus26 := i8 picInitQsMinus26 }
  let chromaQpIndexOffset ← brSe
  setPps fun p => { p with chromaQpIndexOffset := i8 chromaQpIndexOffset }
  ppsFlag ppsFlagDeblockingFilterControlPresent
  ppsFlag ppsFlagConstrainedIntraPred
  ppsFlag ppsFlagRedundantPicCntPresent
  if ← brMoreRbspData then
    let transform8x8Mode ← flag
    if transform8x8Mode then
      setPps fun p => { p with flags := p.flags ||| ppsFlagTransform8x8Mode }
    let hasScaling ← flag
    if hasScaling then
      setPps fun p => { p with flags := p.flags ||| ppsFlagScalingMatrixPresent }
      modify fun o => { o with scalingMatrix := {} }
      let lists ← parsePicScalingLists (if transform8x8Mode then 8 else 6) 0
      modify fun o => { o with scalingMatrix := resolveLists lists 0 o.scalingMatrix }
    if ← brMoreRbspData then
      let secondChromaQpIndexOffset ← brSe
      setPps fun p => { p with secondChromaQpIndexOffset := i8 secondChromaQpIndexOffset }
    else setPps fun p => { p with secondChromaQpIndexOffset := p.chromaQpIndexOffset }
    return hasScaling
  else
    setPps fun p => { p with secondChromaQpIndexOffset := p.chromaQpIndexOffset }
    return false

def parsePps : P Bool := do
  let hasScaling ← parsePpsFields
  checkFailed
  return hasScaling

/-- NAL type 8. -/
def ppsUnit : P Unit := do
  let hasScaling ← parsePps
  modify fun o => { o with hasPps := true }
  if hasScaling then modify fun o => { o with hasScalingMatrix := true }
  else if (← get).hasScalingMatrix then
    setPps fun p => { p with flags := p.flags ||| ppsFlagScalingMatrixPresent }

end PpsParser

section SliceHeader

/-- The loop of `ref_pic_list_modification`. A turn that does not end it has read a bit, so the bits
of the RBSP bound the turns. -/
def rplmLoop (store : RplmOp → ParseResult → ParseResult) : Nat → P Unit
  | 0 => pure ()
  | turns + 1 => do
    let modOp ← brUe
    if modOp = 3 then pure ()
    else
      let val ← brUe
      modify (store ⟨u8 modOp, val⟩)
      if ← brEof then pure () else rplmLoop store turns

def storeRplmL0 (op : RplmOp) (o : ParseResult) : ParseResult :=
  if o.rplmL0.length < 32 then { o with rplmL0 := o.rplmL0 ++ [op] } else o

def storeRplmL1 (op : RplmOp) (o : ParseResult) : ParseResult :=
  if o.rplmL1.length < 32 then { o with rplmL1 := o.rplmL1 ++ [op] } else o

def storeMmco (m : Mmco) (o : ParseResult) : ParseResult :=
  if o.mmco.length < 16 then { o with mmco := o.mmco ++ [m] } else o

/-- A field the operation has only sometimes; 0 when it is absent. -/
def ueIf (c : Prop) [Decidable c] : P Nat := if c then brUe else pure 0

/-- The loop over the memory management control operations, bounded like the one above. -/
def mmcoLoop : Nat → P Unit
  | 0 => pure ()
  | turns + 1 => do
    let op ← brUe
    if op = 0 then pure ()
    else if 6 < op ∨ (← brEof) = true then pure ()
    else
      let difference ← ueIf (op = 1 ∨ op = 3)
      let longTermPicNum ← ueIf (op = 2)
      let longTermFrameIdx ← ueIf (op = 3 ∨ op = 6)
      let maxLongTermFrameIdx ← ueIf (op = 4)
      modify (storeMmco ⟨u8 op, difference, longTermPicNum, longTermFrameIdx, maxLongTermFrameIdx⟩)
      mmcoLoop turns

def brBits : P Nat := do return 8 * (← brLen)

def hasFlag (flags bit : Nat) : Bool := flags &&& bit ≠ 0

/-- One entry of `pred_weight_table`. -/
def skipWeights (chroma : Bool) : P Unit := do
  if ← flag then
    let _ ← brSe
    let _ ← brSe
  if chroma then
    if ← flag then
      let _ ← brSe
      let _ ← brSe
      let _ ← brSe
      let _ ← brSe

def parseRefPicLists (st : Nat) : P Unit := do
  let pps := (← get).pps
  let overrideFlag ← flag
  if overrideFlag then
    let l0 ← brUe
    setSlice fun s => { s with numRefIdxL0ActiveMinus1 := u8 l0 }
    if st = sliceTypeB then
      let l1 ← brUe
      setSlice fun s => { s with numRefIdxL1ActiveMinus1 := u8 l1 }
  else
    setSlice fun s => { s with
      numRefIdxL0ActiveMinus1 := pps.numRefIdxL0DefaultActiveMinus1
      numRefIdxL1ActiveMinus1 := pps.numRefIdxL1DefaultActiveMinus1 }
  let modL0 ← brU1
  modify fun o => { o with refPicListModificationFlagL0 := u8 modL0 }
  if modL0 ≠ 0 then rplmLoop storeRplmL0 ((← brBits) + 1)
  if st = sliceTypeB then
    let modL1 ← brU1
    modify fun o => { o with refPicListModificationFlagL1 := u8 modL1 }
    if modL1 ≠ 0 then rplmLoop storeRplmL1 ((← brBits) + 1)

/-- `parse_slice_header` up to the check of the reader. -/
def parseSliceFields (nalRefIdc nalUnitType : Nat) : P Unit := do
  modify fun o => { o with slice := {}, decode := {} }
  setDecode fun d => { d with nalRefIdc := nalRefIdc }
  let sps := (← get).sps
  let pps := (← get).pps
  let firstMbInSlice ← brUe
  setSlice fun s => { s with firstMbInSlice := firstMbInSlice }
  let st ← brUe
  let st := if 5 ≤ st then st - 5 else st
  if 4 < st then throw .invalid
  setSlice fun s => { s with sliceType := u8 st }
  let _ ← brUe
  if hasFlag sps.flags spsFlagSeparateColourPlane then
    let colourPlaneId ← brU 2
    setSlice fun s => { s with colourPlaneId := u8 colourPlaneId }
  let frameNum ← brU (sps.log2MaxFrameNumMinus4 + 4)
  setDecode fun d => { d with frameNum := u16 frameNum }
  let fieldPic ←
    if hasFlag sps.flags spsFlagFrameMbsOnly then pure false
    else do
      let fieldPic ← flag
      if fieldPic then
        setDecode fun d => { d with flags := d.flags ||| decodeParamFlagFieldPic }
        if ← flag then setDecode fun d => { d with flags := d.flags ||| decodeParamFlagBottomField }
      pure fieldPic
  if nalUnitType = 5 then
    setDecode fun d => { d with flags := d.flags ||| decodeParamFlagIdrPic }
    let idrPicId ← brUe
    setDecode fun d => { d with idrPicId := u16 idrPicId }
  let bottomPresent := hasFlag pps.flags ppsFlagBottomFieldPicOrderInFramePresent && !fieldPic
  if sps.picOrderCntType = 0 then
    let lsb ← brU (sps.log2MaxPicOrderCntLsbMinus4 + 4)
    setDecode fun d => { d with picOrderCntLsb := u16 lsb }
    if bottomPresent then
      let delta ← brSe
      setDecode fun d => { d with deltaPicOrderCntBottom := delta }
  else if sps.picOrderCntType = 1 ∧ hasFlag sps.flags spsFlagDeltaPicOrderAlwaysZero = false then
    let delta0 ← brSe
    setDecode fun d => { d with deltaPicOrderCnt0 := delta0 }
    if bottomPresent then
      let delta1 ← brSe
      setDecode fun d => { d with deltaPicOrderCnt1 := delta1 }
  if hasFlag pps.flags ppsFlagRedundantPicCntPresent then
    let redundantPicCnt ← brUe
    setSlice fun s => { s with redundantPicCnt := u8 redundantPicCnt }
  if st = sliceTypeB then
    if ← flag then setSlice fun s => { s with flags := s.flags ||| sliceFlagDirectSpatialMvPred }
  if st = sliceTypeP ∨ st = sliceTypeSp ∨ st = sliceTypeB then parseRefPicLists st
  if (hasFlag pps.flags ppsFlagWeightedPred ∧ (st = sliceTypeP ∨ st = sliceTypeSp)) ∨
      (pps.weightedBipredIdc = 1 ∧ st = sliceTypeB) then
    let chroma : Bool := sps.chromaFormatIdc ≠ 0
    let _ ← brUe
    if chroma then
      let _ ← brUe
    let slice := (← get).slice
    skip (slice.numRefIdxL0ActiveMinus1 + 1) (skipWeights chroma)
    if st = sliceTypeB then skip (slice.numRefIdxL1ActiveMinus1 + 1) (skipWeights chroma)
  if nalRefIdc ≠ 0 then
    if nalUnitType = 5 then
      let noOutput ← brU1
      modify fun o => { o with idrNoOutputOfPriorPicsFlag := u8 noOutput }
      let longTerm ← brU1
      modify fun o => { o with idrLongTermReferenceFlag := u8 longTerm }
    else
      let adaptive ← brU1
      modify fun o => { o with adaptiveRefPicMarkingModeFlag := u8 adaptive }
      if adaptive ≠ 0 then mmcoLoop ((← brBits) + 1)

def parseSliceHeader (nalRefIdc nalUnitType : Nat) : P Unit := do
  parseSliceFields nalRefIdc nalUnitType
  checkFailed

end SliceHeader

section PicOrderCnt

/-- The POC state the access unit parser keeps on its stack. -/
structure Staged where
  prevMsb : Int
  prevLsb : Int
  prevFrameNum : Int
  prevFrameNumOffset : Int

def computePocType0 (sps : Sps) (decode : DecodeParams) (isIdr : Bool) (nalRefIdc : Nat)
    (p : Staged) : DecodeParams × Staged :=
  let maxPicOrderCntLsb := i32 (2 ^ (sps.log2MaxPicOrderCntLsbMinus4 + 4))
  let pocLsb : Int := decode.picOrderCntLsb
  let prevMsb := if isIdr then 0 else p.prevMsb
  let prevLsb := if isIdr then 0 else p.prevLsb
  let pocMsb :=
    if pocLsb < prevLsb ∧ i32 (maxPicOrderCntLsb.tdiv 2) ≤ i32 (prevLsb - pocLsb) then
      i32 (prevMsb + maxPicOrderCntLsb)
    else if prevLsb < pocLsb ∧ i32 (maxPicOrderCntLsb.tdiv 2) < i32 (pocLsb - prevLsb) then
      i32 (prevMsb - maxPicOrderCntLsb)
    else prevMsb
  let top := i32 (pocMsb + pocLsb)
  let bottom := i32 (top + decode.deltaPicOrderCntBottom)
  ({ decode with topFieldOrderCnt := top, bottomFieldOrderCnt := bottom },
    if nalRefIdc ≠ 0 then { p with prevMsb := pocMsb, prevLsb := pocLsb } else p)

/-- `frame_num_offset` of types 1 and 2. -/
def frameNumOffset (sps : Sps) (decode : DecodeParams) (isIdr : Bool) (p : Staged) : Int :=
  if isIdr then 0
  else if (decode.frameNum : Int) < p.prevFrameNum then
    i32 (p.prevFrameNumOffset + i32 (2 ^ (sps.log2MaxFrameNumMinus4 + 4)))
  else p.prevFrameNumOffset

def computePocType1 (sps : Sps) (decode : DecodeParams) (isIdr : Bool) (nalRefIdc : Nat)
    (p : Staged) : DecodeParams × Staged :=
  let offset := frameNumOffset sps decode isIdr p
  let cycle := sps.numRefFramesInPicOrderCntCycle
  let absFrameNum := if cycle ≠ 0 then i32 (offset + decode.frameNum) else 0
  let absFrameNum := if nalRefIdc = 0 ∧ 0 < absFrameNum then absFrameNum - 1 else absFrameNum
  let expected :=
    if 0 < absFrameNum then
      let pocCycleLen := (sps.offsetForRefFrame.take cycle).foldl (fun a b => i32 (a + b)) 0
      let cycleCnt := (absFrameNum - 1).tdiv cycle
      let inCycle := ((absFrameNum - 1).tmod cycle).toNat
      (sps.offsetForRefFrame.take (inCycle + 1)).foldl (fun a b => i32 (a + b))
        (i32 (cycleCnt * pocCycleLen))
    else 0
  let expected := if nalRefIdc = 0 then i32 (expected + sps.offsetForNonRefPic) else expected
  let top := i32 (expected + decode.deltaPicOrderCnt0)
  let bottom := i32 (i32 (top + sps.offsetForTopToBottomField) + decode.deltaPicOrderCnt1)
  ({ decode with topFieldOrderCnt := top, bottomFieldOrderCnt := bottom },
    { p with prevFrameNum := decode.frameNum, prevFrameNumOffset := offset })

def computePocType2 (sps : Sps) (decode : DecodeParams) (isIdr : Bool) (nalRefIdc : Nat)
    (p : Staged) : DecodeParams × Staged :=
  let offset := frameNumOffset sps decode isIdr p
  let poc :=
    if isIdr then 0
    else if nalRefIdc = 0 then i32 (i32 (2 * i32 (offset + decode.frameNum)) - 1)
    else i32 (2 * i32 (offset + decode.frameNum))
  ({ decode with topFieldOrderCnt := poc, bottomFieldOrderCnt := poc },
    { p with prevFrameNum := decode.frameNum, prevFrameNumOffset := offset })

def computePoc (sps : Sps) (decode : DecodeParams) (nalRefIdc : Nat) (p : Staged) :
    DecodeParams × Staged :=
  let isIdr := hasFlag decode.flags decodeParamFlagIdrPic
  if sps.picOrderCntType = 0 then computePocType0 sps decode isIdr nalRefIdc p
  else if sps.picOrderCntType = 1 then computePocType1 sps decode isIdr nalRefIdc p
  else computePocType2 sps decode isIdr nalRefIdc p

end PicOrderCnt

section AccessUnit

abbrev Au := AuState ParseResult Staged

/-- What follows a slice header that was parsed: the picture order count and the slice data, which
starts at the next byte. -/
def finishSlice (s : Au) (nalRefIdc : Nat) (payload : List Byte) (headerBits : Nat) : Au :=
  let (out, staged) := s.result
  let (decode, staged) := computePoc out.sps out.decode nalRefIdc staged
  let out := { out with
    hasSlice := true
    decode := decode
    slice := { out.slice with headerBitSize := u32 headerBits } }
  let dataOff := (headerBits + 7) / 8
  if payload.length < dataOff then { s with result := (out, staged), status := some .invalid }
  else { s with result := ({ out with sliceData := payload.drop dataOff }, staged) }

/-- The switch over the NAL unit type. -/
def visit (s : Au) (rbsp : List Byte) : Au :=
  let nalHeader := (rbsp.headD 0).toNat
  let nalRefIdc := nalHeader / 2 ^ 5 % 4
  let nalUnitType := nalHeader % 2 ^ 5
  let payload := rbsp.drop 1
  let out := s.result.1
  if nalUnitType = 7 then s.parse ⟨.sps, spsUnit, out, .init payload⟩
  else if nalUnitType = 8 then s.parse ⟨.pps, ppsUnit, out, .init payload⟩
  else if nalUnitType = 1 ∨ nalUnitType = 5 then
    if out.hasSps = false ∨ out.hasPps = false then { s with status := some .invalid }
    else
      let u : UnitRun ParseResult :=
        ⟨.slice, parseSliceHeader nalRefIdc nalUnitType, out, .init payload⟩
      let s := s.parse u
      if s.status.isSome then s else finishSlice s nalRefIdc payload u.outcome.2.bitPos
  else s

/-- The fields of the result that belong to one access unit only. -/
def resetAu (out : ParseResult) : ParseResult :=
  { out with
    decode := {}
    slice := {}
    hasSlice := false
    sliceData := []
    adaptiveRefPicMarkingModeFlag := 0
    idrNoOutputOfPriorPicsFlag := 0
    idrLongTermReferenceFlag := 0
    mmco := []
    refPicListModificationFlagL0 := 0
    refPicListModificationFlagL1 := 0
    rplmL0 := []
    rplmL1 := [] }

/-- The loop of `H264ParseAccessUnit`. -/
def auUnits (buf : List Byte) (scratchSize : Nat) (out : ParseResult) : Au :=
  auLoop 1 visit buf scratchSize buf.length 0 0
    { result := (resetAu out, ⟨out.prevPicOrderCntMsb, out.prevPicOrderCntLsb, out.prevFrameNum,
        out.prevFrameNumOffset⟩)
      status := none
      units := [] }

/-- `H264ParseAccessUnit` on a buffer, a result and a scratch buffer that are there. -/
def parseAccessUnit (buf : List Byte) (scratchSize : Nat) (out : ParseResult) :
    ParseStatus × ParseResult :=
  let s := auUnits buf scratchSize out
  let (out, staged) := s.result
  match s.status with
  | some e => (e.status, out)
  | none =>
    if out.hasSlice = false then
      (if out.hasSps ∧ out.hasPps then .needMore else .invalid, out)
    else
      (.ok, { out with
        prevPicOrderCntMsb := staged.prevMsb
        prevPicOrderCntLsb := staged.prevLsb
        prevFrameNum := staged.prevFrameNum
        prevFrameNumOffset := staged.prevFrameNumOffset })

end AccessUnit

end Rkvdec.Bitstream.H264
