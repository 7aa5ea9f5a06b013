import Mathlib.Tactic.Common
import Rkvdec.Basic
import Rkvdec.Bitstream.HeaderBits

/-! The uncompressed header of a VP9 frame: `parse_uncompressed_header` and the state that
`Vp9Parser_ApplyDpbUpdate` keeps for it. -/
namespace Rkvdec.Vp9

open Headers

/-- A reference slot, `kNumRefFrames` of them. -/
abbrev RefSlot := Fin 8

/-- One of the probability contexts. -/
abbrev FrameContext := Fin 4

/-- `loop_filter_params()` as it is read: a delta is `none` where it is not updated. -/
structure LoopFilterSyntax where
  level : Nat
  sharpness : Nat
  enabled : Bool
  update : Bool
  refUpdates : List (Option Int)
  modeUpdates : List (Option Int)
deriving DecidableEq, Repr

/-- `LoopFilterParams`. -/
structure LoopFilterParams where
  level : Nat := 0
  sharpness : Nat := 0
  modeRefDeltaEnabled : Bool := false
  modeRefDeltaUpdate : Bool := false
  refDeltas : List Int := [0, 0, 0, 0]
  modeDeltas : List Int := [0, 0]
deriving DecidableEq, Repr

/-- One feature of a segment: its bit in `feature_mask`, and `feature_data`. -/
structure Feature where
  enabled : Bool := false
  data : Int := 0
deriving DecidableEq, Repr

/-- The features of the eight segments. -/
abbrev Features := List (List Feature)

def noFeatures : Features := List.replicate 8 (List.replicate 4 {})

/-- `segmentation_params()` as it is read; what is not coded is `none`. -/
structure SegmentSyntax where
  enabled : Bool
  treeProbs : Option (List Nat)
  predProbs : Option (List Nat)
  data : Option (Bool × Features)
deriving DecidableEq, Repr

/-- `SegmentParams`. -/
structure SegmentParams where
  enabled : Bool := false
  updateMap : Bool := false
  temporalUpdate : Bool := false
  updateData : Bool := false
  absDelta : Bool := false
  treeProbs : List Nat := List.replicate 7 0
  predProbs : List Nat := List.replicate 3 0
  features : Features := noFeatures
deriving DecidableEq, Repr

/-- `RefFrameDesc`. -/
structure RefFrameDesc where
  index : RefSlot := 0
  signBias : Bool := false
deriving DecidableEq, Repr

/-- `PicParams`; the parser starts from zeros. The syntax of the loop filter and of the segmentation
stands beside what it came to. -/
structure PicParams where
  profile : Nat := 0
  bitDepth : Nat := 0
  colorSpace : Nat := 0
  colorRange : Bool := false
  subsamplingX : Bool := false
  subsamplingY : Bool := false
  frameType : Nat := 0
  showFrame : Bool := false
  showExistingFrame : Bool := false
  showExistingFrameIdx : RefSlot := 0
  errorResilientMode : Bool := false
  intraOnly : Bool := false
  allowHighPrecisionMv : Bool := false
  refreshFrameContext : Bool := false
  frameParallelDecodingMode : Bool := false
  resetFrameContext : Nat := 0
  frameContextIdx : FrameContext := 0
  width : Nat := 0
  height : Nat := 0
  renderWidth : Nat := 0
  renderHeight : Nat := 0
  frameRefs : List RefFrameDesc := [{}, {}, {}]
  refreshFrameFlags : BitVec 8 := 0
  interpFilter : Nat := 0
  lfSyntax : LoopFilterSyntax := ⟨0, 0, false, false, [none, none, none, none], [none, none]⟩
  lf : LoopFilterParams := {}
  segSyntax : SegmentSyntax := ⟨false, none, none, none⟩
  seg : SegmentParams := {}
  baseQindex : Nat := 0
  yDcDeltaQ : Int := 0
  uvDcDeltaQ : Int := 0
  uvAcDeltaQ : Int := 0
  tileColsLog2 : Nat := 0
  tileRowsLog2 : Nat := 0
  headerSize : Nat := 0
deriving DecidableEq, Repr

namespace PicParams

def isKey (pp : PicParams) : Bool := pp.frameType == 0

/-- A key frame, or an intra-only one. -/
def isIntra (pp : PicParams) : Bool := pp.isKey || pp.intraOnly

end PicParams

/-- What the parser reads of `ParserState`: the sizes of the valid slots and the last frame. -/
structure ParserState where
  refSize : RefSlot → Option (Nat × Nat) := fun _ => none
  prevLf : LoopFilterParams := {}
  prevSeg : SegmentParams := {}
  lastBitDepth : Nat := 8

def readBitDepth (profile : Nat) : HeaderBits Nat :=
  if 2 ≤ profile then (fun twelve => if twelve then 12 else 10) <$> brBit else pure 8

/-- `read_color_config`. -/
def readColorConfig (profile : Nat) (pp : PicParams) : HeaderBits PicParams := do
  let bitDepth ← readBitDepth profile
  let colorSpace ← brU 3
  let pp := { pp with bitDepth := bitDepth, colorSpace := colorSpace.toNat }
  if colorSpace ≠ 7 then do
    let colorRange ← brBit
    if profile = 1 ∨ profile = 3 then do
      let x ← brBit
      let y ← brBit
      let _ ← brBit
      pure { pp with colorRange := colorRange, subsamplingX := x, subsamplingY := y }
    else pure { pp with colorRange := colorRange, subsamplingX := true, subsamplingY := true }
  else if profile = 1 ∨ profile = 3 then do
    let _ ← brBit
    pure { pp with colorRange := true }
  else pure { pp with colorRange := true }

/-- `read_frame_size`. -/
def readFrameSize : HeaderBits (Nat × Nat) := do
  let w ← brU 16
  let h ← brU 16
  pure (w.toNat + 1, h.toNat + 1)

/-- `read_render_size`. -/
def readRenderSize (size : Nat × Nat) : HeaderBits (Nat × Nat) := do
  let different ← brBit
  if different then readFrameSize else pure size

/-- The loop of `read_frame_size_with_refs`: the size of the first reference that is named, if it is
valid. -/
def readRefSize (st : ParserState) : List RefFrameDesc → HeaderBits (Option (Nat × Nat))
  | [] => pure none
  | ref :: refs => do
    let useRef ← brBit
    if useRef then pure (st.refSize ref.index) else readRefSize st refs

/-- The size that is found, or the one that is coded. -/
def sizeOr (found : Option (Nat × Nat)) : HeaderBits (Nat × Nat) :=
  match found with
  | some size => pure size
  | none => readFrameSize

/-- `read_frame_size_with_refs`: the frame size and the render size. -/
def readFrameSizeWithRefs (st : ParserState) (refs : List RefFrameDesc) :
    HeaderBits ((Nat × Nat) × (Nat × Nat)) := do
  let found ← readRefSize st refs
  let size ← sizeOr found
  let render ← readRenderSize size
  pure (size, render)

/-- A delta of the loop filter. -/
def readUpdate : HeaderBits (Option Int) := do
  let coded ← brBit
  if coded then some <$> brSu 6 else pure none

def readUpdates : Nat → HeaderBits (List (Option Int))
  | 0 => pure []
  | n + 1 => do
    let u ← readUpdate
    let us ← readUpdates n
    pure (u :: us)

/-- The deltas, where the frame updates them. -/
def readDeltaUpdates (update : Bool) : HeaderBits (List (Option Int) × List (Option Int)) :=
  if update then do
    let refs ← readUpdates 4
    let modes ← readUpdates 2
    pure (refs, modes)
  else pure (List.replicate 4 none, List.replicate 2 none)

def readUpdateFlag (enabled : Bool) : HeaderBits Bool := if enabled then brBit else pure false

def readLoopFilterSyntax : HeaderBits LoopFilterSyntax := do
  let level ← brU 6
  let sharpness ← brU 3
  let enabled ← brBit
  let update ← readUpdateFlag enabled
  let updates ← readDeltaUpdates update
  pure ⟨level.toNat, sharpness.toNat, enabled, update, updates.1, updates.2⟩

/-- The deltas after the updates. -/
def updateDeltas (deltas : List Int) (updates : List (Option Int)) : List Int :=
  List.zipWith (fun d u => u.getD d) deltas updates

/-- The deltas of `setup_past_independence`. -/
def defaultLf : LoopFilterParams :=
  { modeRefDeltaEnabled := true, refDeltas := [1, 0, -1, -1], modeDeltas := [0, 0] }

/-- The frame's values over the ones it starts from; the update flag stays where it is not read. -/
def LoopFilterParams.apply (base : LoopFilterParams) (x : LoopFilterSyntax) : LoopFilterParams where
  level := x.level
  sharpness := x.sharpness
  modeRefDeltaEnabled := x.enabled
  modeRefDeltaUpdate := if x.enabled then x.update else base.modeRefDeltaUpdate
  refDeltas := updateDeltas base.refDeltas x.refUpdates
  modeDeltas := updateDeltas base.modeDeltas x.modeUpdates

/-- `read_loop_filter_params`. -/
def loopFilterParams (st : ParserState) (isKeyOrIntra : Bool) (x : LoopFilterSyntax) :
    LoopFilterParams :=
  (if isKeyOrIntra then defaultLf else st.prevLf).apply x

/-- `read_quantization_params`: one delta. -/
def readDeltaQ : HeaderBits Int := do
  let coded ← brBit
  if coded then brSu 4 else pure 0

/-- A probability of the segmentation map. -/
def readProb : HeaderBits Nat := do
  let coded ← brBit
  if coded then (fun p => p.toNat) <$> brU 8 else pure 255

def readProbs : Nat → HeaderBits (List Nat)
  | 0 => pure []
  | n + 1 => do
    let p ← readProb
    let ps ← readProbs n
    pure (p :: ps)

/-- `kSegFeatureBits` and `kSegFeatureSigned`. -/
def segFeatures : List (Nat × Bool) := [(8, true), (6, true), (2, false), (0, false)]

def readFeatureData : Nat × Bool → HeaderBits Int
  | (0, _) => pure 0
  | (n, true) => brSu n
  | (n, false) => (fun v => (v.toNat : Int)) <$> brU n

def readFeature (f : Nat × Bool) : HeaderBits Feature := do
  let enabled ← brBit
  if enabled then (fun v => ⟨true, v⟩) <$> readFeatureData f else pure {}

def readSegment : List (Nat × Bool) → HeaderBits (List Feature)
  | [] => pure []
  | f :: fs => do
    let x ← readFeature f
    let xs ← readSegment fs
    pure (x :: xs)

def readSegments : Nat → HeaderBits Features
  | 0 => pure []
  | n + 1 => do
    let x ← readSegment segFeatures
    let xs ← readSegments n
    pure (x :: xs)

/-- The probabilities of the map, if it is updated, and with `temporal_update` those of the
prediction. -/
def readSegmentMap (updateMap : Bool) : HeaderBits (Option (List Nat) × Option (List Nat)) :=
  if updateMap then do
    let tree ← readProbs 7
    let temporal ← brBit
    if temporal then do
      let pred ← readProbs 3
      pure (some tree, some pred)
    else pure (some tree, none)
  else pure (none, none)

def readSegmentData (updateData : Bool) : HeaderBits (Option (Bool × Features)) :=
  if updateData then do
    let absDelta ← brBit
    let features ← readSegments 8
    pure (some (absDelta, features))
  else pure none

def readSegmentSyntax : HeaderBits SegmentSyntax := do
  let enabled ← brBit
  if enabled then do
    let updateMap ← brBit
    let map ← readSegmentMap updateMap
    let updateData ← brBit
    let data ← readSegmentData updateData
    pure ⟨true, map.1, map.2, data⟩
  else pure ⟨false, none, none, none⟩

/-- `read_segmentation_params`: what is not coded comes from the last frame, and a frame without
segmentation has nothing. -/
def segmentationParams (st : ParserState) (x : SegmentSyntax) : SegmentParams :=
  if x.enabled then
    { enabled := true
      updateMap := x.treeProbs.isSome
      temporalUpdate := x.predProbs.isSome
      updateData := x.data.isSome
      absDelta := (x.data.map Prod.fst).getD st.prevSeg.absDelta
      treeProbs := x.treeProbs.getD st.prevSeg.treeProbs
      predProbs :=
        if x.treeProbs.isSome then x.predProbs.getD [255, 255, 255] else st.prevSeg.predProbs
      features := (x.data.map Prod.snd).getD st.prevSeg.features }
  else { predProbs := [255, 255, 255] }

/-- `min_log2_tile_cols` and `max_log2_tile_cols`: the loops over `k`. -/
def minLog2TileCols (sbCols : Nat) : Nat → Nat → Nat
  | 0, k => k
  | fuel + 1, k => if 64 < sbCols >>> k then minLog2TileCols sbCols fuel (k + 1) else k

def maxLog2TileCols (sbCols : Nat) : Nat → Nat → Nat
  | 0, k => k
  | fuel + 1, k => if 4 ≤ sbCols >>> (k + 1) then maxLog2TileCols sbCols fuel (k + 1) else k

def readTileCols (limit : Nat) : Nat → Nat → HeaderBits Nat
  | 0, k => pure k
  | fuel + 1, k =>
    if k < limit then do
      let more ← brBit
      if more then readTileCols limit fuel (k + 1) else pure k
    else pure k

def readTileRows : HeaderBits Nat := do
  let first ← brBit
  if first then (fun b => 1 + b.toNat) <$> brBit else pure 0

/-- `read_tile_info`. -/
def readTileInfo (width : Nat) : HeaderBits (Nat × Nat) := do
  let sbCols := (width + 63) >>> 6
  let cols ← readTileCols (maxLog2TileCols sbCols 16 0) 16 (minLog2TileCols sbCols 16 0)
  let rows ← readTileRows
  pure (cols, rows)

def frameSyncCode : BitVec 24 := 0x498342

/-- The part of a key frame. -/
def readKeyFrame (pp : PicParams) : HeaderBits (Option PicParams) := do
  let sync ← brU 24
  if sync ≠ frameSyncCode then pure none
  else do
    let pp ← readColorConfig pp.profile pp
    if pp.bitDepth = 12 then pure none
    else do
      let size ← readFrameSize
      let render ← readRenderSize size
      pure (some { pp with
        width := size.1, height := size.2, renderWidth := render.1, renderHeight := render.2,
        refreshFrameFlags := 0xff })

/-- The colours of an intra-only frame; profile 0 has none coded. -/
def readIntraColor (pp : PicParams) : HeaderBits PicParams :=
  if 0 < pp.profile then readColorConfig pp.profile pp
  else pure { pp with
    bitDepth := 8, colorSpace := 1, colorRange := true, subsamplingX := true, subsamplingY := true }

/-- The part of an intra-only frame. -/
def readIntraOnly (pp : PicParams) : HeaderBits (Option PicParams) := do
  let sync ← brU 24
  if sync ≠ frameSyncCode then pure none
  else do
    let pp ← readIntraColor pp
    if pp.bitDepth = 12 then pure none
    else do
      let flags ← brU 8
      let size ← readFrameSize
      let render ← readRenderSize size
      pure (some { pp with
        width := size.1, height := size.2, renderWidth := render.1, renderHeight := render.2,
        refreshFrameFlags := flags })

def readFrameRefs : Nat → HeaderBits (List RefFrameDesc)
  | 0 => pure []
  | n + 1 => do
    let index ← brU 3
    let signBias ← brBit
    let refs ← readFrameRefs n
    pure (⟨index.toFin, signBias⟩ :: refs)

def readInterpFilter : HeaderBits Nat := do
  let switchable ← brBit
  if switchable then pure 4 else (fun v => v.toNat) <$> brU 2

/-- The part of an inter frame. -/
def readInter (st : ParserState) (pp : PicParams) : HeaderBits (Option PicParams) := do
  let flags ← brU 8
  let refs ← readFrameRefs 3
  let size ← readFrameSizeWithRefs st refs
  let highPrecision ← brBit
  let interpFilter ← readInterpFilter
  pure (some { pp with
    frameRefs := refs, refreshFrameFlags := flags, width := size.1.1, height := size.1.2,
    renderWidth := size.2.1, renderHeight := size.2.2, allowHighPrecisionMv := highPrecision,
    interpFilter := interpFilter })

/-- What is coded only without `error_resilient_mode`. -/
def unlessResilient (pp : PicParams) (n : Nat) (other : BitVec n) : HeaderBits (BitVec n) :=
  if pp.errorResilientMode then pure other else brU n

/-- `intra_only`, coded for a frame that is not shown. -/
def readIntraOnlyFlag (pp : PicParams) : HeaderBits Bool :=
  if pp.showFrame then pure false else brBit

/-- The part of a frame that is not a key frame. -/
def readNonKey (st : ParserState) (pp : PicParams) : HeaderBits (Option PicParams) := do
  let intraOnly ← readIntraOnlyFlag pp
  let reset ← unlessResilient pp 2 0
  let pp := { pp with intraOnly := intraOnly, resetFrameContext := reset.toNat }
  if intraOnly then readIntraOnly pp else readInter st pp

/-- From `refresh_frame_context` to the size of the compressed header. -/
def readTrailer (st : ParserState) (pp : PicParams) : HeaderBits PicParams := do
  let refreshContext ← unlessResilient pp 1 0
  let parallel ← unlessResilient pp 1 1
  let context ← brU 2
  let lf ← readLoopFilterSyntax
  let qindex ← brU 8
  let yDc ← readDeltaQ
  let uvDc ← readDeltaQ
  let uvAc ← readDeltaQ
  let seg ← readSegmentSyntax
  let tiles ← readTileInfo pp.width
  let headerSize ← brU 16
  pure { pp with
    refreshFrameContext := refreshContext != 0, frameParallelDecodingMode := parallel != 0,
    frameContextIdx := context.toFin,
    lfSyntax := lf, lf := loopFilterParams st pp.isIntra lf,
    baseQindex := qindex.toNat, yDcDeltaQ := yDc, uvDcDeltaQ := uvDc, uvAcDeltaQ := uvAc,
    segSyntax := seg, seg := segmentationParams st seg,
    tileColsLog2 := tiles.1, tileRowsLog2 := tiles.2, headerSize := headerSize.toNat }

/-- The part between the flags and `refresh_frame_context`. -/
def readBody (st : ParserState) (pp : PicParams) : HeaderBits (Option PicParams) :=
  if pp.isKey then readKeyFrame pp else readNonKey st pp

/-- A frame that is coded. -/
def readCoded (st : ParserState) (pp : PicParams) : HeaderBits (Option PicParams) := do
  let frameType ← brU 1
  let showFrame ← brBit
  let errorResilient ← brBit
  let body ← readBody st { pp with
    frameType := frameType.toNat, showFrame := showFrame, errorResilientMode := errorResilient }
  match body with
  | none => pure none
  | some pp => some <$> readTrailer st pp

/-- `parse_uncompressed_header`. Profile 3 is refused whatever its reserved bit is. -/
def parseUncompressedHeader (st : ParserState) : HeaderBits (Option PicParams) := do
  let marker ← brU 2
  if marker ≠ 2 then pure none
  else do
    let low ← brBit
    let high ← brBit
    let profile := low.toNat + 2 * high.toNat
    if profile = 3 then pure none
    else do
      let pp : PicParams :=
        { profile := profile, bitDepth := if st.lastBitDepth = 0 then 8 else st.lastBitDepth }
      let showExisting ← brBit
      if showExisting then do
        let idx ← brU 3
        pure (some { pp with showExistingFrame := true, showExistingFrameIdx := idx.toFin })
      else readCoded st pp

/-- `Vp9Parser_Parse` as far as the uncompressed header goes. -/
def parse (st : ParserState) (bits : List Bool) : Option PicParams :=
  parseBits (parseUncompressedHeader st) bits

/-- What every header starts from. -/
def PicParams.initial (st : ParserState) (profile : Nat) : PicParams :=
  { profile := profile, bitDepth := if st.lastBitDepth = 0 then 8 else st.lastBitDepth }

/-- A header that is accepted shows a slot, or is that of a coded frame. -/
theorem parse_cases {st : ParserState} {bits : List Bool} {pp : PicParams}
    (h : parse st bits = some pp) :
    ∃ profile, (∃ idx, pp = { PicParams.initial st profile with
        showExistingFrame := true, showExistingFrameIdx := idx }) ∨
      ∃ r, ((readCoded st (.initial st profile)).run BitCursor.answer r).1 = some pp := by
  have h := parseBits_some h
  simp only [parseUncompressedHeader, Lib.Prog.run_bind] at h
  split at h
  · cases h
  simp only [Lib.Prog.run_bind] at h
  split at h
  · cases h
  simp only [Lib.Prog.run_bind] at h
  split at h
  · simp only [Lib.Prog.run_bind, Lib.Prog.run_pure, Option.some.injEq] at h
    exact ⟨_, .inl ⟨_, h.symm⟩⟩
  · exact ⟨_, .inr ⟨_, h⟩⟩

/-- `Vp9Parser_ApplyDpbUpdate`. -/
def applyDpbUpdate (st : ParserState) (pp : PicParams) : ParserState where
  refSize := fun i => if pp.refreshFrameFlags.getLsbD i then
    some (pp.width, pp.height) else st.refSize i
  prevLf := pp.lf
  prevSeg := pp.seg
  lastBitDepth := if pp.bitDepth = 0 then 8 else pp.bitDepth

/-- A number in `n` bits. -/
def toBits (n v : Nat) : List Bool := (List.range n).map fun i => v.testBit (n - 1 - i)

/-- A shown key frame of 64x64 that sets the first delta to 2. -/
def keyFrameBits : List Bool :=
  toBits 2 2 ++ toBits 6 0b000010 ++ toBits 24 0x498342 ++ toBits 4 0b0010 ++ toBits 16 63 ++
    toBits 16 63 ++ toBits 1 0 ++ toBits 4 0b1000 ++
    (toBits 9 0 ++ toBits 2 0b11 ++ toBits 8 0b10000100 ++ toBits 5 0) ++
    (toBits 11 0 ++ toBits 1 0 ++ toBits 1 0 ++ toBits 16 1)

/-- The header that shows the frame of a reference slot. -/
def showExistingBits (idx : Nat) : List Bool :=
  toBits 2 2 ++ toBits 2 0 ++ toBits 1 1 ++ toBits 3 idx

/-- The end of a header for a width of 64: no deltas, no segments, one tile. -/
def trailerBits (refreshContext : Bool) (context : Nat) : List Bool :=
  [refreshContext, false] ++ toBits 2 context ++ toBits 23 0 ++ toBits 16 1

/-- A shown inter frame of 64x64 with its size coded, all references to one slot. -/
def interFrameBits (flags ref : Nat) (refreshContext : Bool) (context : Nat) : List Bool :=
  toBits 2 2 ++ toBits 6 0b000110 ++ toBits 2 0 ++ toBits 8 flags ++ toBits 3 ref ++ [false] ++
    toBits 3 ref ++ [false] ++ toBits 3 ref ++ [false] ++ toBits 3 0 ++ toBits 16 63 ++
    toBits 16 63 ++
    toBits 3 0b001 ++ trailerBits refreshContext context

end Rkvdec.Vp9
