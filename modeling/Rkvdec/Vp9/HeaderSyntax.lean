import Mathlib.Tactic
import Rkvdec.Vp9.BitReader
import Rkvdec.Vp9.Persistence

/-! The uncompressed header of VP9 as section 6.2 of the standard has it: what a header says, how it
is written, and the values that the frame has after it. -/
namespace Rkvdec.Vp9

open Bitstream (Byte)
open Headers

section Elements

/-- `su(n)`: a magnitude and a sign. -/
structure Signed (n : Nat) where
  magnitude : BitVec n
  negative : Bool
deriving DecidableEq

def Signed.value {n : Nat} (x : Signed n) : Int :=
  if x.negative then -(x.magnitude.toNat : Int) else x.magnitude.toNat

def Signed.write {n : Nat} (x : Signed n) : List Bool := msbs n x.magnitude ++ [x.negative]

/-- A flag, and behind it what it announces. -/
def writeOption {α : Type} (write : α → List Bool) : Option α → List Bool
  | none => [false]
  | some a => true :: write a

/-- `color_config()`; 12 bits are left out. -/
structure ColorConfig where
  space : BitVec 3
  range : Bool
  subsamplingX : Bool
  subsamplingY : Bool
deriving DecidableEq

def ColorConfig.write (profile : Nat) (c : ColorConfig) : List Bool :=
  (if 2 ≤ profile then [false] else []) ++ (msbs 3 c.space ++
    if c.space ≠ 7 then
      c.range :: if profile = 1 then [c.subsamplingX, c.subsamplingY, false] else []
    else if profile = 1 then [false] else [])

/-- `frame_size()`, and the size in `render_size()`. -/
structure FrameSize where
  widthMinus1 : BitVec 16
  heightMinus1 : BitVec 16
deriving DecidableEq

def FrameSize.size (s : FrameSize) : Nat × Nat :=
  (s.widthMinus1.toNat + 1, s.heightMinus1.toNat + 1)

def FrameSize.write (s : FrameSize) : List Bool := msbs 16 s.widthMinus1 ++ msbs 16 s.heightMinus1

/-- `frame_size_with_refs()` up to the render size: coded, or the size of a reference. -/
inductive SizeWithRefs where
  | coded (size : FrameSize)
  | ofRef (ref : Fin 3)
deriving DecidableEq

def SizeWithRefs.write : SizeWithRefs → List Bool
  | coded size => [false, false, false] ++ size.write
  | ofRef ref => List.replicate ref false ++ [true]

/-- A reference: `ref_frame_idx` and `ref_frame_sign_bias`. -/
def RefFrameDesc.write (ref : RefFrameDesc) : List Bool :=
  msbs 3 (BitVec.ofNat 3 ref.index) ++ [ref.signBias]

/-- The deltas of `loop_filter_params()`. -/
inductive DeltaSyntax where
  | disabled
  | kept
  | updated (refs : Vector (Option (Signed 6)) 4) (modes : Vector (Option (Signed 6)) 2)
deriving DecidableEq

def DeltaSyntax.write : DeltaSyntax → List Bool
  | disabled => [false]
  | kept => [true, false]
  | updated refs modes =>
    [true, true] ++ (refs.toList.flatMap (writeOption Signed.write) ++
      modes.toList.flatMap (writeOption Signed.write))

/-- `loop_filter_params()`. -/
structure LoopFilter where
  level : BitVec 6
  sharpness : BitVec 3
  deltas : DeltaSyntax
deriving DecidableEq

def LoopFilter.write (lf : LoopFilter) : List Bool :=
  msbs 6 lf.level ++ (msbs 3 lf.sharpness ++ lf.deltas.write)

/-- The features of a segment. -/
structure SegmentFeatures where
  altQ : Option (Signed 8)
  altLf : Option (Signed 6)
  refFrame : Option (BitVec 2)
  skip : Bool
deriving DecidableEq

def SegmentFeatures.write (s : SegmentFeatures) : List Bool :=
  writeOption Signed.write s.altQ ++
    (writeOption Signed.write s.altLf ++ (writeOption (msbs 2) s.refFrame ++ [s.skip]))

/-- The probabilities of the map: those of the tree, and with `temporal_update` those of the
prediction. -/
structure SegmentMap where
  tree : Vector (Option (BitVec 8)) 7
  pred : Option (Vector (Option (BitVec 8)) 3)
deriving DecidableEq

def writeProbs (probs : List (Option (BitVec 8))) : List Bool :=
  probs.flatMap (writeOption (msbs 8))

def SegmentMap.write (map : SegmentMap) : List Bool :=
  writeProbs map.tree.toList ++ writeOption (fun pred => writeProbs pred.toList) map.pred

/-- The data of the segments. -/
structure SegmentData where
  absDelta : Bool
  segments : Vector SegmentFeatures 8
deriving DecidableEq

def SegmentData.write (data : SegmentData) : List Bool :=
  data.absDelta :: data.segments.toList.flatMap SegmentFeatures.write

/-- `segmentation_params()` of a frame with segmentation. -/
structure Segmentation where
  map : Option SegmentMap
  data : Option SegmentData
deriving DecidableEq

def Segmentation.write (seg : Segmentation) : List Bool :=
  writeOption SegmentMap.write seg.map ++ writeOption SegmentData.write seg.data

/-- The smallest binary logarithm for the tile columns: no tile is wider than 64 superblocks. -/
def minTileColsLog2 (sbCols : Nat) : Nat := (List.range 16).findIdx fun k => sbCols ≤ 64 * 2 ^ k

/-- The largest one: no tile is narrower than four. -/
def maxTileColsLog2 (sbCols : Nat) : Nat :=
  (List.range 16).findIdx fun k => sbCols / 2 ^ (k + 1) < 4

/-- The superblocks in a row. -/
def sb64Cols (width : Nat) : Nat := (width + 63) / 64

/-- `tile_info()`. -/
def writeTileInfo (width colsLog2 : Nat) (rowsLog2 : Fin 3) : List Bool :=
  List.replicate (colsLog2 - minTileColsLog2 (sb64Cols width)) true ++
    ((if colsLog2 < maxTileColsLog2 (sb64Cols width) then [false] else []) ++
      if rowsLog2 = 0 then [false] else [true, decide (rowsLog2 = 2)])

end Elements

section Frames

/-- What the type of the frame decides. -/
inductive FrameKind where
  | key (color : ColorConfig) (size : FrameSize)
  | intraOnly (color : ColorConfig) (refresh : BitVec 8) (size : FrameSize)
  | inter (refresh : BitVec 8) (refs : Vector RefFrameDesc 3) (size : SizeWithRefs)
      (highPrecision : Bool)
    (interpFilter : Option (BitVec 2))
deriving DecidableEq

/-- The header of a coded frame. An element that is left out under `errorResilient` is not
written. -/
structure CodedFrame where
  showFrame : Bool
  errorResilient : Bool
  resetFrameContext : BitVec 2
  kind : FrameKind
  render : Option FrameSize
  refreshFrameContext : Bool
  frameParallel : Bool
  frameContextIdx : BitVec 2
  lf : LoopFilter
  baseQindex : BitVec 8
  yDcDeltaQ : Option (Signed 4)
  uvDcDeltaQ : Option (Signed 4)
  uvAcDeltaQ : Option (Signed 4)
  seg : Option Segmentation
  tileColsLog2 : Nat
  tileRowsLog2 : Fin 3
  headerSize : BitVec 16
deriving DecidableEq

def frameSync : List Bool := msbs 24 (0x498342 : BitVec 24)

/-- A switchable filter, or the one that is named. -/
def writeInterpFilter : Option (BitVec 2) → List Bool
  | none => [true]
  | some filter => false :: msbs 2 filter

namespace CodedFrame

def isKey (f : CodedFrame) : Bool :=
  match f.kind with
  | .key .. => true
  | _ => false

def isIntraOnly (f : CodedFrame) : Bool :=
  match f.kind with
  | .intraOnly .. => true
  | _ => false

def isInter (f : CodedFrame) : Bool :=
  match f.kind with
  | .inter .. => true
  | _ => false

/-- The frame size; that of a reference is in the state. -/
def size (st : ParserState) (f : CodedFrame) : Nat × Nat :=
  match f.kind with
  | .key _ size => size.size
  | .intraOnly _ _ size => size.size
  | .inter _ _ (.coded size) _ _ => size.size
  | .inter _ refs (.ofRef ref) _ _ => (st.refSize refs[ref].index).getD (0, 0)

/-- What is left out under `errorResilient`. -/
def unlessResilient (f : CodedFrame) (bits : List Bool) : List Bool :=
  if f.errorResilient then [] else bits

/-- The part before `refresh_frame_context` that depends on the type. -/
def writeKind (profile : Nat) (f : CodedFrame) : List Bool :=
  match f.kind with
  | .key color size =>
    frameSync ++ (color.write profile ++ (size.write ++ writeOption FrameSize.write f.render))
  | .intraOnly color refresh size =>
    (if f.showFrame then [] else [true]) ++ (f.unlessResilient (msbs 2 f.resetFrameContext) ++
      (frameSync ++ ((if 0 < profile then color.write profile else []) ++
        (msbs 8 refresh ++ (size.write ++ writeOption FrameSize.write f.render)))))
  | .inter refresh refs size highPrecision interpFilter =>
    (if f.showFrame then [] else [false]) ++ (f.unlessResilient (msbs 2 f.resetFrameContext) ++
      (msbs 8 refresh ++ (refs.toList.flatMap RefFrameDesc.write ++
        ((size.write ++ writeOption FrameSize.write f.render) ++
        (highPrecision :: writeInterpFilter interpFilter)))))

def writeTrailer (st : ParserState) (f : CodedFrame) : List Bool :=
  f.unlessResilient [f.refreshFrameContext] ++
    (f.unlessResilient [f.frameParallel] ++ (msbs 2 f.frameContextIdx ++
    (f.lf.write ++ (msbs 8 f.baseQindex ++ (writeOption Signed.write f.yDcDeltaQ ++
      (writeOption Signed.write f.uvDcDeltaQ ++ (writeOption Signed.write f.uvAcDeltaQ ++
        (writeOption Segmentation.write f.seg ++
          (writeTileInfo (f.size st).1 f.tileColsLog2 f.tileRowsLog2 ++
          msbs 16 f.headerSize)))))))))

def write (st : ParserState) (profile : Nat) (f : CodedFrame) : List Bool :=
  [!f.isKey] ++
    ([f.showFrame] ++ ([f.errorResilient] ++ (f.writeKind profile ++ f.writeTrailer st)))

/-- The header can be written: an intra-only frame is not shown, the slot that the size is taken
from is valid, the width is at most 8192, and the tile columns lie between their bounds. -/
structure Expressible (st : ParserState) (f : CodedFrame) : Prop where
  hidden : f.isIntraOnly = true → f.showFrame = false
  valid : ∀ refresh refs ref highPrecision interpFilter,
    f.kind = .inter refresh refs (.ofRef ref) highPrecision interpFilter →
    (st.refSize refs[ref].index).isSome
  width : (f.size st).1 ≤ 8192
  minTileCols : minTileColsLog2 (sb64Cols (f.size st).1) ≤ f.tileColsLog2
  maxTileCols : f.tileColsLog2 ≤ maxTileColsLog2 (sb64Cols (f.size st).1)

end CodedFrame

/-- What stands behind `show_existing_frame`. -/
inductive HeaderBody where
  | existing (idx : BitVec 3)
  | coded (frame : CodedFrame)
deriving DecidableEq

/-- `uncompressed_header()` of profile 0, 1 or 2. -/
structure UncompressedHeader where
  profile : Fin 3
  body : HeaderBody
deriving DecidableEq

namespace UncompressedHeader

def write (st : ParserState) (h : UncompressedHeader) : List Bool :=
  msbs 2 (2 : BitVec 2) ++ ([decide (h.profile = 1)] ++ ([decide (h.profile = 2)] ++
    match h.body with
    | .existing idx => [true] ++ msbs 3 idx
    | .coded f => [false] ++ f.write st h.profile))

def Expressible (st : ParserState) (h : UncompressedHeader) : Prop :=
  ∀ f, h.body = .coded f → f.Expressible st

/-- The bits in bytes, with zeros after them. -/
def packBits (bits : List Bool) : List Byte :=
  (List.range ((bits.length + 7) / 8)).map fun i =>
    BitVec.ofNat 8 (bitsToNat ((List.range 8).map fun j => bits.getD (8 * i + j) false))

def bytes (st : ParserState) (h : UncompressedHeader) : List Byte := packBits (h.write st)

end UncompressedHeader

end Frames

section Values

/-- The colours of a sequence; the standard's decoder keeps them for the inter frames. -/
structure Colour where
  space : Nat := 0
  range : Bool := false
  subsamplingX : Bool := false
  subsamplingY : Bool := false
deriving DecidableEq

def PicParams.colour (pp : PicParams) : Colour :=
  ⟨pp.colorSpace, pp.colorRange, pp.subsamplingX, pp.subsamplingY⟩

/-- What `color_config()` says. Without the elements of profile 1 the chroma is 4:2:0; RGB of
another profile has none. -/
structure ColorConfig.Carried (profile : Nat) (c : ColorConfig) (pp : PicParams) : Prop where
  bitDepth : pp.bitDepth = if 2 ≤ profile then 10 else 8
  space : pp.colorSpace = c.space.toNat
  range : pp.colorRange = (c.space == 7 || c.range)
  coded : c.space ≠ 7 → profile = 1 →
    (pp.subsamplingX, pp.subsamplingY) = (c.subsamplingX, c.subsamplingY)
  implied : c.space ≠ 7 → profile ≠ 1 → (pp.subsamplingX, pp.subsamplingY) = (true, true)
  rgb : c.space = 7 → profile = 1 → (pp.subsamplingX, pp.subsamplingY) = (false, false)

/-- The deltas that are updated. -/
def DeltaSyntax.updates : DeltaSyntax → List (Option Int) × List (Option Int)
  | updated refs modes =>
    (refs.toList.map (Option.map Signed.value), modes.toList.map (Option.map Signed.value))
  | _ => (List.replicate 4 none, List.replicate 2 none)

def featureOf {α : Type} (value : α → Int) : Option α → Feature
  | none => {}
  | some a => ⟨true, value a⟩

def SegmentFeatures.features (s : SegmentFeatures) : List Feature :=
  [featureOf Signed.value s.altQ, featureOf Signed.value s.altLf,
    featureOf (fun v => (v.toNat : Int)) s.refFrame, ⟨s.skip, 0⟩]

def SegmentData.features (data : SegmentData) : Features :=
  data.segments.toList.map SegmentFeatures.features

/-- A probability that is not coded is 255. -/
def probsOf (probs : List (Option (BitVec 8))) : List Nat :=
  probs.map fun p => (p.map BitVec.toNat).getD 255

def deltaQ (x : Option (Signed 4)) : Int := (x.map Signed.value).getD 0

/-- What the parser state has of the standard's persistent state. -/
def ParserState.persistent (st : ParserState) : Persistent :=
  ⟨st.prevLf.refDeltas, st.prevLf.modeDeltas, st.prevSeg.absDelta, st.prevSeg.features⟩

/-- The bit depth of the sequence; it is 8 as long as there is none. -/
def ParserState.bitDepth (st : ParserState) : Nat :=
  if st.lastBitDepth = 0 then 8 else st.lastBitDepth

namespace CodedFrame

def isIndependent (f : CodedFrame) : Bool := !f.isInter || f.errorResilient

def data (f : CodedFrame) : Option SegmentData := f.seg.bind Segmentation.data

/-- The persistent state in effect for the frame: it is reset by `setup_past_independence`, and
changed by what is written. -/
def persistent (st : ParserState) (f : CodedFrame) : Persistent :=
  let base := if f.isIndependent then pastIndependence else st.persistent
  { refDeltas := updateDeltas base.refDeltas f.lf.deltas.updates.1
    modeDeltas := updateDeltas base.modeDeltas f.lf.deltas.updates.2
    absDelta := (f.data.map SegmentData.absDelta).getD base.absDelta
    features := (f.data.map SegmentData.features).getD base.features }

/-- What the type of the frame decides. -/
def KindCarried (st : ParserState) (colour : Colour) (profile : Nat) (f : CodedFrame)
    (pp : PicParams) : Prop :=
  match f.kind with
  | .key color _ => color.Carried profile pp ∧ pp.refreshFrameFlags = 0xff
  | .intraOnly color refresh _ =>
    (if profile = 0 then
      pp.bitDepth = 8 ∧ pp.colorSpace = 1 ∧ pp.subsamplingX = true ∧ pp.subsamplingY = true
    else color.Carried profile pp) ∧ pp.refreshFrameFlags = refresh
  | .inter refresh refs _ highPrecision interpFilter =>
    pp.bitDepth = st.bitDepth ∧ pp.colour = colour ∧ pp.refreshFrameFlags = refresh ∧
      pp.frameRefs = refs.toList ∧
      pp.allowHighPrecisionMv = highPrecision ∧
      pp.interpFilter = (interpFilter.map BitVec.toNat).getD 4

/-- What `loop_filter_params()` says; the update flag counts where it is written. -/
structure LfCarried (p : Persistent) (f : CodedFrame) (lf : LoopFilterParams) : Prop where
  level : lf.level = f.lf.level.toNat
  sharpness : lf.sharpness = f.lf.sharpness.toNat
  enabled : lf.modeRefDeltaEnabled = decide (f.lf.deltas ≠ .disabled)
  kept : f.lf.deltas = .kept → lf.modeRefDeltaUpdate = false
  updated : ∀ refs modes, f.lf.deltas = .updated refs modes → lf.modeRefDeltaUpdate = true
  refDeltas : lf.refDeltas = p.refDeltas
  modeDeltas : lf.modeDeltas = p.modeDeltas

/-- What `segmentation_params()` says; without segmentation the probabilities of the map mean
nothing. -/
structure SegCarried (st : ParserState) (p : Persistent) (f : CodedFrame)
    (seg : SegmentParams) : Prop where
  enabled : seg.enabled = f.seg.isSome
  updateMap : seg.updateMap = (f.seg.bind Segmentation.map).isSome
  temporalUpdate : seg.temporalUpdate = ((f.seg.bind Segmentation.map).bind SegmentMap.pred).isSome
  updateData : seg.updateData = f.data.isSome
  coded : ∀ s map, f.seg = some s → s.map = some map → seg.treeProbs = probsOf map.tree.toList ∧
    seg.predProbs = (map.pred.map fun pred => probsOf pred.toList).getD [255, 255, 255]
  inherited : ∀ s, f.seg = some s → s.map = none → seg.treeProbs = st.prevSeg.treeProbs ∧
    seg.predProbs = st.prevSeg.predProbs
  absDelta : seg.absDelta = p.absDelta
  features : seg.features = p.features

/-- Every field is what is written, or what is inherited. -/
structure Carried (st : ParserState) (colour : Colour) (profile : Nat) (f : CodedFrame)
    (pp : PicParams) : Prop where
  sameProfile : pp.profile = profile
  shows : pp.showExistingFrame = false
  frameType : pp.frameType = if f.isKey then 0 else 1
  showFrame : pp.showFrame = f.showFrame
  errorResilient : pp.errorResilientMode = f.errorResilient
  intraOnly : pp.intraOnly = f.isIntraOnly
  reset : pp.resetFrameContext = if f.isKey || f.errorResilient then
    0 else f.resetFrameContext.toNat
  kind : f.KindCarried st colour profile pp
  size : (pp.width, pp.height) = f.size st
  render : (pp.renderWidth, pp.renderHeight) = (f.render.map FrameSize.size).getD (f.size st)
  refreshContext : pp.refreshFrameContext = (!f.errorResilient && f.refreshFrameContext)
  parallel : pp.frameParallelDecodingMode = (f.errorResilient || f.frameParallel)
  context : pp.frameContextIdx = f.frameContextIdx.toFin
  lf : f.LfCarried (f.persistent st) pp.lf
  quantizer : pp.baseQindex = f.baseQindex.toNat
  yDc : pp.yDcDeltaQ = deltaQ f.yDcDeltaQ
  uvDc : pp.uvDcDeltaQ = deltaQ f.uvDcDeltaQ
  uvAc : pp.uvAcDeltaQ = deltaQ f.uvAcDeltaQ
  seg : f.SegCarried st (f.persistent st) pp.seg
  tileCols : pp.tileColsLog2 = f.tileColsLog2
  tileRows : pp.tileRowsLog2 = f.tileRowsLog2
  headerSize : pp.headerSize = f.headerSize.toNat

end CodedFrame

namespace UncompressedHeader

def Carried (st : ParserState) (colour : Colour) (h : UncompressedHeader) (pp : PicParams) : Prop :=
  match h.body with
  | .existing idx =>
    pp.profile = h.profile ∧ pp.showExistingFrame = true ∧ pp.showExistingFrameIdx = idx.toFin
  | .coded f => f.Carried st colour h.profile pp

/-- The header, with any bytes behind it, is parsed to what is written, its size is the length that
was written, and a part of it is not accepted. -/
structure RoundTrip (st : ParserState) (colour : Colour) (h : UncompressedHeader)
    (rest : List Byte) : Prop where
  accepted : ∃ r, parseHeader st (h.bytes st ++ rest) = some r ∧ h.Carried st colour r.pp ∧
    r.uncompressedHeaderSize = (h.bytes st).length
  cut : ∀ n < (h.bytes st).length, parseHeader st ((h.bytes st).take n) = none

end UncompressedHeader

end Values

end Rkvdec.Vp9
