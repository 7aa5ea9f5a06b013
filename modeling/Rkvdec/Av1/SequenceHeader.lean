import Mathlib.Tactic
import Rkvdec.Lib.Golomb
import Rkvdec.Vp9.HeaderSyntax

/-! The sequence header of AV1: its parser, and what section 5.5 of the standard can say and how it
is written. The bit reader is the one of the VP9 parser. -/
namespace Rkvdec.Av1

open Bitstream (Byte)
open Headers (HeaderBits brU brBit)
open Lib (golomb)
open Vp9 (msbs writeOption)

section Parser

/-- `Dav1dSequenceHeaderOperatingPoint`. -/
structure OperatingPoint where
  majorLevel : Nat := 0
  minorLevel : Nat := 0
  initialDisplayDelay : Nat := 0
  idc : Nat := 0
  tier : Bool := false
  decoderModelParamPresent : Bool := false
  displayModelParamPresent : Bool := false
deriving DecidableEq

/-- `Dav1dSequenceHeaderOperatingParameterInfo`. -/
structure OperatingParameterInfo where
  decoderBufferDelay : Nat := 0
  encoderBufferDelay : Nat := 0
  lowDelayMode : Bool := false
deriving DecidableEq

/-- The timing, the decoder model and the operating points of the header. -/
structure OperatingFields where
  timingInfoPresent : Bool := false
  numUnitsInTick : Nat := 0
  timeScale : Nat := 0
  equalPictureInterval : Bool := false
  numTicksPerPicture : Nat := 0
  decoderModelInfoPresent : Bool := false
  encoderDecoderBufferDelayLength : Nat := 0
  numUnitsInDecodingTick : Nat := 0
  bufferRemovalDelayLength : Nat := 0
  framePresentationDelayLength : Nat := 0
  displayModelInfoPresent : Bool := false
  numOperatingPoints : Nat := 0
  operatingPoints : List (OperatingPoint × OperatingParameterInfo) := []
deriving DecidableEq

/-- `frame_id_numbers_present`, `delta_frame_id_n_bits` and `frame_id_n_bits`. -/
structure FrameIdFields where
  present : Bool := false
  deltaFrameIdNBits : Nat := 0
  frameIdNBits : Nat := 0
deriving DecidableEq

/-- The coding tools; the defaults are those of a reduced header, where 2 is `DAV1D_ADAPTIVE`. -/
structure ToolFields where
  screenContentTools : Nat := 2
  forceIntegerMv : Nat := 2
  interIntra : Bool := false
  maskedCompound : Bool := false
  warpedMotion : Bool := false
  dualFilter : Bool := false
  orderHint : Bool := false
  jntComp : Bool := false
  refFrameMvs : Bool := false
  orderHintNBits : Nat := 0
deriving DecidableEq

/-- `Dav1dPixelLayout`. -/
inductive PixelLayout where
  | i400
  | i420
  | i422
  | i444
deriving DecidableEq

/-- `color_description_present`, `pri`, `trc` and `mtrx`. -/
structure ColorDescription where
  present : Bool
  pri : Nat
  trc : Nat
  mtrx : Nat
deriving DecidableEq

/-- The range, the layout and the position of the chroma samples. -/
structure ChromaFields where
  colorRange : Bool
  layout : PixelLayout
  ssHor : Bool
  ssVer : Bool
  chr : Nat
deriving DecidableEq

structure ColorFields where
  hbd : Nat
  monochrome : Bool
  description : ColorDescription
  chroma : ChromaFields
  separateUvDeltaQ : Bool
deriving DecidableEq

/-- `Dav1dSequenceHeader`. -/
structure SequenceHeader where
  profile : Nat
  stillPicture : Bool
  reducedStillPictureHeader : Bool
  operating : OperatingFields
  widthNBits : Nat
  heightNBits : Nat
  maxWidth : Nat
  maxHeight : Nat
  frameIds : FrameIdFields
  sb128 : Bool
  filterIntra : Bool
  intraEdgeFilter : Bool
  tools : ToolFields
  superRes : Bool
  cdef : Bool
  restoration : Bool
  color : ColorFields
  filmGrainPresent : Bool
deriving DecidableEq

/-- The loop of `br_uvlc`: how many zeros stand before the first one, `none` for 32 of them. -/
def countZeros : Nat → Nat → HeaderBits (Option Nat)
  | 0, _ => pure none
  | left + 1, leading => do
    let one ← brBit
    if one then pure (some leading) else countZeros left (leading + 1)

/-- `br_uvlc`; `none` is `UINT32_MAX`, which no shorter code gives. -/
def brUvlc : HeaderBits (Option Nat) := do
  let leading ← countZeros 32 0
  match leading with
  | none => pure none
  | some 0 => pure (some 0)
  | some (n + 1) =>
    let v ← brU (n + 1)
    pure (some (2 ^ (n + 1) - 1 + v.toNat))

/-- A flag that is read under a condition and is 0 otherwise. -/
def readFlag (present : Bool) : HeaderBits Bool := if present then brBit else pure false

def readTicks (equalPictureInterval : Bool) : HeaderBits (Option Nat) :=
  if equalPictureInterval then Option.map (· + 1) <$> brUvlc else pure (some 0)

def readDecoderModel (o : OperatingFields) : HeaderBits OperatingFields := do
  let present ← brBit
  if present then
    let delayLength ← brU 5
    let unitsInDecodingTick ← brU 32
    let removalLength ← brU 5
    let presentationLength ← brU 5
    pure { o with
      decoderModelInfoPresent := true
      encoderDecoderBufferDelayLength := delayLength.toNat + 1
      numUnitsInDecodingTick := unitsInDecodingTick.toNat
      bufferRemovalDelayLength := removalLength.toNat + 1
      framePresentationDelayLength := presentationLength.toNat + 1 }
  else pure o

def readTimingInfo : HeaderBits (Option OperatingFields) := do
  let units ← brU 32
  let scale ← brU 32
  let equal ← brBit
  let ticks ← readTicks equal
  match ticks with
  | none => pure none
  | some ticks => some <$> readDecoderModel {
      timingInfoPresent := true, numUnitsInTick := units.toNat, timeScale := scale.toNat
      equalPictureInterval := equal, numTicksPerPicture := ticks }

def readTiming : HeaderBits (Option OperatingFields) := do
  let present ← brBit
  if present then readTimingInfo else pure (some {})

def readParameterInfo (delayLength : Nat) : HeaderBits OperatingParameterInfo := do
  let decoderDelay ← brU delayLength
  let encoderDelay ← brU delayLength
  let lowDelay ← brBit
  pure ⟨decoderDelay.toNat, encoderDelay.toNat, lowDelay⟩

def readParameters (o : OperatingFields) (present : Bool) : HeaderBits OperatingParameterInfo :=
  if present then readParameterInfo o.encoderDecoderBufferDelayLength else pure {}

def readDisplayDelay (present : Bool) : HeaderBits Nat :=
  if present then (fun v => v.toNat + 1) <$> brU 4 else pure 10

/-- A turn of the loop over the operating points. -/
def readOperatingPoint (o : OperatingFields) :
    HeaderBits (OperatingPoint × OperatingParameterInfo) := do
  let idc ← brU 12
  let major ← brU 3
  let minor ← brU 2
  let majorLevel := 2 + major.toNat
  let tier ← readFlag (3 < majorLevel)
  let modelPresent ← readFlag o.decoderModelInfoPresent
  let info ← readParameters o modelPresent
  let displayPresent ← readFlag o.displayModelInfoPresent
  let delay ← readDisplayDelay displayPresent
  pure (⟨majorLevel, minor.toNat, delay, idc.toNat, tier, modelPresent, displayPresent⟩, info)

def readOperatingPoints (o : OperatingFields) :
    Nat → HeaderBits (List (OperatingPoint × OperatingParameterInfo))
  | 0 => pure []
  | n + 1 => do
    let point ← readOperatingPoint o
    let points ← readOperatingPoints o n
    pure (point :: points)

def readPointList (o : OperatingFields) : HeaderBits OperatingFields := do
  let display ← brBit
  let count ← brU 5
  let points ← readOperatingPoints { o with displayModelInfoPresent := display } (count.toNat + 1)
  pure { o with
    displayModelInfoPresent := display, numOperatingPoints := count.toNat + 1,
    operatingPoints := points }

/-- The operating point of a reduced header; its level does not start from 2. -/
def readReducedPoint : HeaderBits OperatingFields := do
  let major ← brU 3
  let minor ← brU 2
  pure {
    numOperatingPoints := 1
    operatingPoints :=
      [({ majorLevel := major.toNat, minorLevel := minor.toNat, initialDisplayDelay := 10 }, {})] }

def readOperating (reduced : Bool) : HeaderBits (Option OperatingFields) :=
  if reduced then some <$> readReducedPoint
  else do
    let timing ← readTiming
    match timing with
    | none => pure none
    | some o => some <$> readPointList o

def readFrameIds (reduced : Bool) : HeaderBits FrameIdFields :=
  if reduced then pure {}
  else do
    let present ← brBit
    if present then
      let delta ← brU 4
      let additional ← brU 3
      pure ⟨true, delta.toNat + 2, additional.toNat + (delta.toNat + 2) + 1⟩
    else pure {}

/-- `DAV1D_ADAPTIVE`, or a flag. -/
def readAdaptive : HeaderBits Nat := do
  let adaptive ← brBit
  if adaptive then pure 2 else Bool.toNat <$> brBit

def readIntegerMv (screenContentTools : Nat) : HeaderBits Nat :=
  if screenContentTools ≠ 0 then readAdaptive else pure 2

def readOrderHintNBits (orderHint : Bool) : HeaderBits Nat :=
  if orderHint then (fun v => v.toNat + 1) <$> brU 3 else pure 0

def readTools (reduced : Bool) : HeaderBits ToolFields :=
  if reduced then pure {}
  else do
    let interIntra ← brBit
    let maskedCompound ← brBit
    let warpedMotion ← brBit
    let dualFilter ← brBit
    let orderHint ← brBit
    let jntComp ← readFlag orderHint
    let refFrameMvs ← readFlag orderHint
    let screenContentTools ← readAdaptive
    let forceIntegerMv ← readIntegerMv screenContentTools
    let orderHintNBits ← readOrderHintNBits orderHint
    pure ⟨screenContentTools, forceIntegerMv, interIntra, maskedCompound, warpedMotion, dualFilter,
      orderHint, jntComp,
      refFrameMvs, orderHintNBits⟩

def readHbd (profile : Nat) : HeaderBits Nat := do
  let hbd ← brBit
  if profile = 2 ∧ hbd = true then (fun b => 1 + b.toNat) <$> brBit else pure hbd.toNat

/-- The values without a description are `UNKNOWN`. -/
def readColorDescription : HeaderBits ColorDescription := do
  let present ← brBit
  if present then
    let pri ← brU 8
    let trc ← brU 8
    let mtrx ← brU 8
    pure ⟨true, pri.toNat, trc.toNat, mtrx.toNat⟩
  else pure ⟨false, 2, 2, 2⟩

/-- `DAV1D_COLOR_PRI_BT709`, `DAV1D_TRC_SRGB` and `DAV1D_MC_IDENTITY`. -/
def ColorDescription.isIdentity (d : ColorDescription) : Bool :=
  d.pri == 1 && d.trc == 13 && d.mtrx == 0

def readSubsampling (profile hbd : Nat) : HeaderBits (Bool × Bool) :=
  if profile = 0 then pure (true, true)
  else if profile = 1 then pure (false, false)
  else if hbd = 2 then do
    let hor ← brBit
    let ver ← readFlag hor
    pure (hor, ver)
  else pure (true, false)

def layoutOf (ssHor ssVer : Bool) : PixelLayout :=
  if ssHor then if ssVer then .i420 else .i422 else .i444

def readChromaPosition (ssHor ssVer : Bool) : HeaderBits Nat :=
  if ssHor && ssVer then BitVec.toNat <$> brU 2 else pure 0

def readChroma (profile hbd : Nat) (monochrome : Bool) (d : ColorDescription) :
    HeaderBits (Option ChromaFields) :=
  if monochrome then do
    let range ← brBit
    pure (some ⟨range, .i400, true, true, 0⟩)
  else if d.isIdentity then
    if profile ≠ 1 ∧ ¬(profile = 2 ∧ hbd = 2) then pure none
    else pure (some ⟨true, .i444, false, false, 0⟩)
  else do
    let range ← brBit
    let ss ← readSubsampling profile hbd
    let chr ← readChromaPosition ss.1 ss.2
    pure (some ⟨range, layoutOf ss.1 ss.2, ss.1, ss.2, chr⟩)

def readColorConfig (profile : Nat) : HeaderBits (Option ColorFields) := do
  let hbd ← readHbd profile
  let monochrome ← readFlag (profile ≠ 1)
  let d ← readColorDescription
  let chroma ← readChroma profile hbd monochrome d
  match chroma with
  | none => pure none
  | some chroma =>
    let separate ← readFlag (!monochrome)
    pure (some ⟨hbd, monochrome, d, chroma, separate⟩)

/-- `parse_seq_hdr` behind the operating points. -/
def readSequenceRest (profile : Nat) (still reduced : Bool) (o : OperatingFields) :
    HeaderBits (Option SequenceHeader) := do
  let widthBits ← brU 4
  let heightBits ← brU 4
  let width ← brU (widthBits.toNat + 1)
  let height ← brU (heightBits.toNat + 1)
  let frameIds ← readFrameIds reduced
  let sb128 ← brBit
  let filterIntra ← brBit
  let intraEdgeFilter ← brBit
  let tools ← readTools reduced
  let superRes ← brBit
  let cdef ← brBit
  let restoration ← brBit
  let color ← readColorConfig profile
  match color with
  | none => pure none
  | some color =>
    let filmGrain ← brBit
    pure (some ⟨profile, still, reduced, o, widthBits.toNat + 1, heightBits.toNat + 1,
      width.toNat + 1, height.toNat + 1,
      frameIds, sb128, filterIntra, intraEdgeFilter, tools, superRes, cdef, restoration,
      color, filmGrain⟩)

/-- `parse_seq_hdr`. -/
def parseSeqHdr : HeaderBits (Option SequenceHeader) := do
  let profile ← brU 3
  if 2 < profile.toNat then pure none
  else do
    let still ← brBit
    let reduced ← brBit
    if reduced && !still then pure none
    else do
      let operating ← readOperating reduced
      match operating with
      | none => pure none
      | some o => readSequenceRest profile.toNat still reduced o

/-- `Av1ParseSeqHeader`; `none` is everything but 0. -/
def parseSeqHeader (payload : List Byte) : Option SequenceHeader :=
  if payload = [] then none
  else
    let r := parseSeqHdr.run Vp9.BitReader.answer { buf := payload }
    if r.2.error then none else r.1

end Parser

section Standard

/-- `timing_info()`; the last element is there with `equal_picture_interval`. -/
structure TimingInfo where
  numUnitsInDisplayTick : BitVec 32
  timeScale : BitVec 32
  numTicksPerPictureMinus1 : Option { n : Nat // n + 1 < 2 ^ 32 }

def TimingInfo.write (t : TimingInfo) : List Bool :=
  msbs 32 t.numUnitsInDisplayTick ++ (msbs 32 t.timeScale ++
    writeOption (fun n => golomb n.val) t.numTicksPerPictureMinus1)

/-- `decoder_model_info()`. -/
structure DecoderModelInfo where
  bufferDelayLengthMinus1 : BitVec 5
  numUnitsInDecodingTick : BitVec 32
  bufferRemovalTimeLengthMinus1 : BitVec 5
  framePresentationTimeLengthMinus1 : BitVec 5

def DecoderModelInfo.write (m : DecoderModelInfo) : List Bool :=
  msbs 5 m.bufferDelayLengthMinus1 ++ (msbs 32 m.numUnitsInDecodingTick ++
    (msbs 5 m.bufferRemovalTimeLengthMinus1 ++ msbs 5 m.framePresentationTimeLengthMinus1))

/-- The width of the delays of an operating point. -/
def delayLength (model : Option DecoderModelInfo) : Nat :=
  match model with
  | none => 0
  | some m => m.bufferDelayLengthMinus1.toNat + 1

/-- `operating_parameters_info()`. -/
structure OperatingParameters (n : Nat) where
  decoderBufferDelay : BitVec n
  encoderBufferDelay : BitVec n
  lowDelayModeFlag : Bool

def OperatingParameters.write {n : Nat} (p : OperatingParameters n) : List Bool :=
  msbs n p.decoderBufferDelay ++ (msbs n p.encoderBufferDelay ++ [p.lowDelayModeFlag])

/-- An operating point. What is absent has its inferred value. -/
structure CodedPoint (model : Option DecoderModelInfo) (displayDelay : Bool) where
  operatingPointIdc : BitVec 12
  seqLevelIdx : BitVec 5
  seqTier : Bool
  parameters : Option (OperatingParameters (delayLength model))
  initialDisplayDelayMinus1 : Option (BitVec 4)
  tierCoded : seqTier = true → 7 < seqLevelIdx.toNat
  parametersCoded : parameters.isSome = true → model.isSome = true
  delayCoded : initialDisplayDelayMinus1.isSome = true → displayDelay = true

def CodedPoint.write {model : Option DecoderModelInfo} {displayDelay : Bool}
    (p : CodedPoint model displayDelay) :
    List Bool :=
  msbs 12 p.operatingPointIdc ++
    (msbs 5 p.seqLevelIdx ++ ((if 7 < p.seqLevelIdx.toNat then [p.seqTier] else []) ++
    ((if model.isSome then writeOption OperatingParameters.write p.parameters else []) ++
      if displayDelay then writeOption (msbs 4) p.initialDisplayDelayMinus1 else [])))

/-- What a header that is not reduced has in front of the frame size. -/
structure OperatingInfo where
  timing : Option TimingInfo
  model : Option DecoderModelInfo
  displayDelay : Bool
  points : List (CodedPoint model displayDelay)
  modelCoded : model.isSome = true → timing.isSome = true
  somePoint : 0 < points.length
  fewPoints : points.length ≤ 32

def OperatingInfo.write (o : OperatingInfo) : List Bool :=
  writeOption (fun t => t.write ++ writeOption DecoderModelInfo.write o.model) o.timing ++
    (o.displayDelay ::
    (msbs 5 (BitVec.ofNat 5 (o.points.length - 1)) ++ o.points.flatMap CodedPoint.write))

/-- `enable_order_hint` and what depends on it. -/
structure OrderHintTools where
  jntComp : Bool
  refFrameMvs : Bool
  orderHintBitsMinus1 : BitVec 3

/-- The tools of a header that is not reduced; `none` selects per frame. -/
structure CodedTools where
  interintraCompound : Bool
  maskedCompound : Bool
  warpedMotion : Bool
  dualFilter : Bool
  orderHint : Option OrderHintTools
  forceScreenContentTools : Option Bool
  forceIntegerMv : Option Bool
  integerMvCoded : forceScreenContentTools = some false → forceIntegerMv = none

/-- `seq_choose_..`, and `seq_force_..` if nothing is chosen. -/
def writeForced : Option Bool → List Bool
  | none => [true]
  | some b => [false, b]

def CodedTools.write (t : CodedTools) : List Bool :=
  [t.interintraCompound, t.maskedCompound, t.warpedMotion, t.dualFilter, t.orderHint.isSome] ++
    ((t.orderHint.map fun o => [o.jntComp, o.refFrameMvs]).getD [] ++
    (writeForced t.forceScreenContentTools ++
      ((if t.forceScreenContentTools = some false then [] else writeForced t.forceIntegerMv) ++
        (t.orderHint.map fun o => msbs 3 o.orderHintBitsMinus1).getD [])))

/-- What only a header that is not reduced has. -/
structure FullInfo where
  stillPicture : Bool
  operating : OperatingInfo
  frameIds : Option (BitVec 4 × BitVec 3)
  tools : CodedTools

/-- `color_primaries`, `transfer_characteristics` and `matrix_coefficients`. -/
structure CodedColors where
  primaries : BitVec 8
  transfer : BitVec 8
  matrix : BitVec 8

/-- They are unspecified if they are absent. -/
def colorsOf (colors : Option CodedColors) : CodedColors := colors.getD ⟨2, 2, 2⟩

/-- Primaries of BT.709, transfer of sRGB and the identity matrix. -/
def isRgb (colors : Option CodedColors) : Bool :=
  (colorsOf colors).primaries == 1 && (colorsOf colors).transfer == 13 &&
    (colorsOf colors).matrix == 0

/-- `color_config()`. What is absent has its inferred value. -/
structure ColorConfig (profile : Fin 3) where
  highBitdepth : Bool
  twelveBit : Bool
  monoChrome : Bool
  colors : Option CodedColors
  colorRange : Bool
  subsamplingX : Bool
  subsamplingY : Bool
  chromaSamplePosition : BitVec 2
  separateUvDeltaQ : Bool
  twelveBitCoded : twelveBit = true → profile.val = 2 ∧ highBitdepth = true
  monoCoded : profile.val = 1 → monoChrome = false
  monoValues : monoChrome = true →
    subsamplingX = true ∧ subsamplingY = true ∧ chromaSamplePosition = 0 ∧ separateUvDeltaQ = false
  rgbValues : monoChrome = false → isRgb colors = true →
    colorRange = true ∧ subsamplingX = false ∧ subsamplingY = false
  subsamplingValues : monoChrome = false → isRgb colors = false →
    (profile.val = 0 → subsamplingX = true ∧ subsamplingY = true) ∧
    (profile.val = 1 → subsamplingX = false ∧ subsamplingY = false) ∧
    (profile.val = 2 → twelveBit = false → subsamplingX = true ∧ subsamplingY = false)
  subsamplingCoded : subsamplingX = false → subsamplingY = false
  positionCoded : (subsamplingX && subsamplingY) = false → chromaSamplePosition = 0

/-- The subsampling, which is coded for 12 bits. -/
def ColorConfig.writeSubsampling {profile : Fin 3} (c : ColorConfig profile) : List Bool :=
  (if profile.val = 2 ∧
    c.twelveBit = true then c.subsamplingX :: if c.subsamplingX then [c.subsamplingY] else []
    else []) ++
    if c.subsamplingX && c.subsamplingY then msbs 2 c.chromaSamplePosition else []

def CodedColors.write (c : CodedColors) : List Bool :=
  msbs 8 c.primaries ++ (msbs 8 c.transfer ++ msbs 8 c.matrix)

def ColorConfig.write {profile : Fin 3} (c : ColorConfig profile) : List Bool :=
  c.highBitdepth :: ((if profile.val = 2 ∧ c.highBitdepth = true then [c.twelveBit] else []) ++
    ((if profile.val = 1 then [] else [c.monoChrome]) ++ (writeOption CodedColors.write c.colors ++
      if c.monoChrome then [c.colorRange]
      else if isRgb c.colors then [c.separateUvDeltaQ]
      else c.colorRange :: (c.writeSubsampling ++ [c.separateUvDeltaQ]))))

/-- The parser rejects RGB but for profile 1 and for 12 bits. -/
def ColorConfig.Rejected {profile : Fin 3} (c : ColorConfig profile) : Prop :=
  c.monoChrome = false ∧ isRgb c.colors = true ∧ profile.val ≠ 1 ∧
    ¬(profile.val = 2 ∧ c.twelveBit = true)

/-- The level of the one operating point of a reduced header, or what the others have. -/
inductive SequenceKind where
  | reduced (seqLevelIdx : BitVec 5)
  | full (info : FullInfo)

/-- A `sequence_header_obu()` of the profiles 0 to 2. -/
structure CodedSequence where
  seqProfile : Fin 3
  kind : SequenceKind
  frameWidthBitsMinus1 : BitVec 4
  frameHeightBitsMinus1 : BitVec 4
  maxFrameWidthMinus1 : BitVec (frameWidthBitsMinus1.toNat + 1)
  maxFrameHeightMinus1 : BitVec (frameHeightBitsMinus1.toNat + 1)
  use128x128Superblock : Bool
  enableFilterIntra : Bool
  enableIntraEdgeFilter : Bool
  enableSuperres : Bool
  enableCdef : Bool
  enableRestoration : Bool
  color : ColorConfig seqProfile
  filmGrainParamsPresent : Bool

namespace CodedSequence

/-- A reduced header is one of a still picture. -/
def stillPicture (h : CodedSequence) : Bool :=
  match h.kind with
  | .reduced _ => true
  | .full info => info.stillPicture

def isReduced (h : CodedSequence) : Bool :=
  match h.kind with
  | .reduced _ => true
  | .full _ => false

def writeOperating (h : CodedSequence) : List Bool :=
  match h.kind with
  | .reduced seqLevelIdx => msbs 5 seqLevelIdx
  | .full info => info.operating.write

def writeFrameIds (h : CodedSequence) : List Bool :=
  match h.kind with
  | .reduced _ => []
  | .full info => writeOption (fun ids => msbs 4 ids.1 ++ msbs 3 ids.2) info.frameIds

def writeTools (h : CodedSequence) : List Bool :=
  match h.kind with
  | .reduced _ => []
  | .full info => info.tools.write

/-- `sequence_header_obu()` in the order of the standard. -/
def write (h : CodedSequence) : List Bool :=
  msbs 3 (BitVec.ofNat 3 h.seqProfile) ++
    ([h.stillPicture] ++ ([h.isReduced] ++ (h.writeOperating ++
    (msbs 4 h.frameWidthBitsMinus1 ++ (msbs 4 h.frameHeightBitsMinus1 ++
      (msbs (h.frameWidthBitsMinus1.toNat + 1) h.maxFrameWidthMinus1 ++
        (msbs (h.frameHeightBitsMinus1.toNat + 1) h.maxFrameHeightMinus1 ++ (h.writeFrameIds ++
          ([h.use128x128Superblock] ++
          ([h.enableFilterIntra] ++ ([h.enableIntraEdgeFilter] ++ (h.writeTools ++
            ([h.enableSuperres] ++ ([h.enableCdef] ++ ([h.enableRestoration] ++
              (h.color.write ++ [h.filmGrainParamsPresent]))))))))))))))))

end CodedSequence

end Standard

section Values

/-- The levels start from 2.0, and there are four of each. -/
def majorLevel (seqLevelIdx : BitVec 5) : Nat := 2 + seqLevelIdx.toNat / 4

def minorLevel (seqLevelIdx : BitVec 5) : Nat := seqLevelIdx.toNat % 4

/-- A delay that is absent is one of 10 frames. -/
def CodedPoint.fields {model : Option DecoderModelInfo} {displayDelay : Bool}
    (p : CodedPoint model displayDelay) :
    OperatingPoint × OperatingParameterInfo :=
  ({ majorLevel := majorLevel p.seqLevelIdx
     minorLevel := minorLevel p.seqLevelIdx
     initialDisplayDelay := (p.initialDisplayDelayMinus1.map fun v => v.toNat + 1).getD 10
     idc := p.operatingPointIdc.toNat
     tier := p.seqTier
     decoderModelParamPresent := p.parameters.isSome
     displayModelParamPresent := p.initialDisplayDelayMinus1.isSome },
   (p.parameters.map fun q => ⟨q.decoderBufferDelay.toNat, q.encoderBufferDelay.toNat,
   q.lowDelayModeFlag⟩).getD {})

def OperatingInfo.fields (o : OperatingInfo) : OperatingFields where
  timingInfoPresent := o.timing.isSome
  numUnitsInTick := (o.timing.map fun t => t.numUnitsInDisplayTick.toNat).getD 0
  timeScale := (o.timing.map fun t => t.timeScale.toNat).getD 0
  equalPictureInterval := (o.timing.map fun t => t.numTicksPerPictureMinus1.isSome).getD false
  numTicksPerPicture :=
    ((o.timing.bind fun t => t.numTicksPerPictureMinus1).map fun n => n.val + 1).getD 0
  decoderModelInfoPresent := o.model.isSome
  encoderDecoderBufferDelayLength := delayLength o.model
  numUnitsInDecodingTick := (o.model.map fun m => m.numUnitsInDecodingTick.toNat).getD 0
  bufferRemovalDelayLength :=
    (o.model.map fun m => m.bufferRemovalTimeLengthMinus1.toNat + 1).getD 0
  framePresentationDelayLength :=
    (o.model.map fun m => m.framePresentationTimeLengthMinus1.toNat + 1).getD 0
  displayModelInfoPresent := o.displayDelay
  numOperatingPoints := o.points.length
  operatingPoints := o.points.map CodedPoint.fields

/-- A value of a frame-wide choice is 2. -/
def forcedValue (forced : Option Bool) : Nat := (forced.map Bool.toNat).getD 2

def CodedTools.fields (t : CodedTools) : ToolFields where
  screenContentTools := forcedValue t.forceScreenContentTools
  forceIntegerMv := forcedValue t.forceIntegerMv
  interIntra := t.interintraCompound
  maskedCompound := t.maskedCompound
  warpedMotion := t.warpedMotion
  dualFilter := t.dualFilter
  orderHint := t.orderHint.isSome
  jntComp := (t.orderHint.map OrderHintTools.jntComp).getD false
  refFrameMvs := (t.orderHint.map OrderHintTools.refFrameMvs).getD false
  orderHintNBits := (t.orderHint.map fun o => o.orderHintBitsMinus1.toNat + 1).getD 0

def frameIdFields (ids : Option (BitVec 4 × BitVec 3)) : FrameIdFields :=
  (ids.map fun ids => ⟨true, ids.1.toNat + 2, ids.2.toNat + (ids.1.toNat + 2) + 1⟩).getD {}

/-- `hbd` is 0, 1 and 2 for 8, 10 and 12 bits. -/
def ColorConfig.fields {profile : Fin 3} (c : ColorConfig profile) : ColorFields where
  hbd := c.highBitdepth.toNat + c.twelveBit.toNat
  monochrome := c.monoChrome
  description := ⟨c.colors.isSome, (colorsOf c.colors).primaries.toNat,
    (colorsOf c.colors).transfer.toNat,
    (colorsOf c.colors).matrix.toNat⟩
  chroma := ⟨c.colorRange, if c.monoChrome then .i400 else layoutOf c.subsamplingX c.subsamplingY,
    c.subsamplingX,
    c.subsamplingY, c.chromaSamplePosition.toNat⟩
  separateUvDeltaQ := c.separateUvDeltaQ

namespace CodedSequence

/-- The operating points of a header; a reduced one has one, whose level is `level`. -/
def operatingFields (level : BitVec 5 → Nat) (h : CodedSequence) : OperatingFields :=
  match h.kind with
  | .reduced seqLevelIdx => {
      numOperatingPoints := 1
      operatingPoints := [({
        majorLevel := level seqLevelIdx, minorLevel := minorLevel seqLevelIdx,
        initialDisplayDelay := 10 }, {})] }
  | .full info => info.operating.fields

/-- The header with its fields, where `level` gives the major level of a reduced one. -/
def fieldsWith (level : BitVec 5 → Nat) (h : CodedSequence) : SequenceHeader where
  profile := h.seqProfile
  stillPicture := h.stillPicture
  reducedStillPictureHeader := h.isReduced
  operating := h.operatingFields level
  widthNBits := h.frameWidthBitsMinus1.toNat + 1
  heightNBits := h.frameHeightBitsMinus1.toNat + 1
  maxWidth := h.maxFrameWidthMinus1.toNat + 1
  maxHeight := h.maxFrameHeightMinus1.toNat + 1
  frameIds := match h.kind with
    | .reduced _ => {}
    | .full info => frameIdFields info.frameIds
  sb128 := h.use128x128Superblock
  filterIntra := h.enableFilterIntra
  intraEdgeFilter := h.enableIntraEdgeFilter
  tools := match h.kind with
    | .reduced _ => {}
    | .full info => info.tools.fields
  superRes := h.enableSuperres
  cdef := h.enableCdef
  restoration := h.enableRestoration
  color := h.color.fields
  filmGrainPresent := h.filmGrainParamsPresent

/-- Every field with its written or inferred value. -/
def fields (h : CodedSequence) : SequenceHeader := h.fieldsWith majorLevel

/-- Every payload that starts with the header gives its fields, and none that ends before its last
bit is accepted. -/
def RoundTrip (h : CodedSequence) : Prop :=
  (∀ payload, h.write <+: Vp9.frameBits payload → parseSeqHeader payload = some h.fields) ∧
    ∀ payload, Vp9.frameBits payload <+: h.write → (Vp9.frameBits payload).length < h.write.length →
      parseSeqHeader payload = none

end CodedSequence

end Values

end Rkvdec.Av1
