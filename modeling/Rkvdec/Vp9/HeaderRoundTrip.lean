import Rkvdec.Lib.Cuts
import Rkvdec.Vp9.HeaderSyntax

/-! What is written of an uncompressed header is what the parser reads: element by element, then for
the whole header and its bytes. -/
namespace Rkvdec.Vp9

open Bitstream (Byte)
open Headers
open Lib (getElem?_flatMap_range)

section Rules

variable {α β : Type} {p : HeaderBits α} {f : α → HeaderBits β} {g : α → β} {w w' : List Bool}
  {a : α} {b : β}

/-- The program reads just the bits `w`, whatever comes behind them, and returns `a`. -/
def Reads (p : HeaderBits α) (w : List Bool) (a : α) : Prop :=
  ∀ rest, p.run BitCursor.answer ⟨w ++ rest, false⟩ = (a, ⟨rest, false⟩)

theorem reads_pure (a : α) : Reads (pure a) [] a := fun _ => rfl

theorem Reads.bind (hp : Reads p w a) (hf : Reads (f a) w' b) : Reads (p >>= f) (w ++ w') b := by
  intro rest
  rw [Lib.Prog.run_bind, List.append_assoc, hp]
  exact hf rest

theorem Reads.map (hp : Reads p w a) : Reads (g <$> p) w (g a) := by
  intro rest
  rw [Lib.Prog.run_map, hp]

/-- The last element of a structure. -/
theorem Reads.last (hp : Reads p w a) : Reads (p >>= fun a => pure (g a)) w (g a) := hp.map

/-- An element that is not there. -/
theorem Reads.absent (hp : Reads p [] a) (hf : Reads (f a) w' b) :
    Reads (p >>= f) w' b := hp.bind hf

theorem Reads.cond_pos {c : Prop} [Decidable c] {q : HeaderBits α} (hc : c) (hp : Reads p w a) :
    Reads (if c then p else q) w a := by rwa [if_pos hc]

theorem Reads.cond_neg {c : Prop} [Decidable c] {q : HeaderBits α} (hc : ¬c) (hq : Reads q w a) :
    Reads (if c then p else q) w a := by rwa [if_neg hc]

theorem reads_brU {n : Nat} (v : BitVec n) : Reads (brU n) (msbs n v) v := by
  intro rest
  have hlen := length_msbs n v
  have henough : ¬(false = true ∨ (msbs n v ++ rest).length < n) := by
    rw [List.length_append, hlen]
    simp
  have hvalue : BitVec.ofNat n (bitsToNat (msbs n v)) = v := by
    rw [bitsToNat_msbs v (Nat.le_refl n), Nat.sub_self, Nat.pow_zero, Nat.div_one,
      BitVec.ofNat_toNat]
    exact BitVec.setWidth_eq v
  change BitCursor.answer n _ = _
  unfold BitCursor.answer
  rw [if_neg henough, List.take_left' hlen, List.drop_left' hlen, hvalue]

theorem reads_bit (b : Bool) : Reads (brU 1) [b] (BitVec.ofBool b) := by
  have hbits : msbs 1 (BitVec.ofBool b) = [b] := by
    cases b with
    | false => rfl
    | true => rfl
  have hread := reads_brU (BitVec.ofBool b)
  rwa [hbits] at hread

theorem reads_brBit (b : Bool) : Reads brBit [b] b := by
  have hvalue : (BitVec.ofBool b != 0) = b := by
    cases b with
    | false => rfl
    | true => rfl
  have hread : Reads brBit [b] (BitVec.ofBool b != 0) := (reads_bit b).last
  rwa [hvalue] at hread

theorem reads_brSu {n : Nat} (x : Signed n) : Reads (brSu n) x.write x.value :=
  (reads_brU x.magnitude).bind (reads_brBit x.negative).last

end Rules

section Elements

variable {α : Type} {profile : Nat}

/-- The colours over what there is before; RGB leaves the subsampling. -/
def ColorConfig.apply (profile : Nat) (c : ColorConfig) (pp : PicParams) : PicParams :=
  { pp with
    bitDepth := if 2 ≤ profile then 10 else 8
    colorSpace := c.space.toNat
    colorRange := c.space == 7 || c.range
    subsamplingX :=
      if c.space = 7 then pp.subsamplingX else if profile = 1 then c.subsamplingX else true
    subsamplingY :=
      if c.space = 7 then pp.subsamplingY else if profile = 1 then c.subsamplingY else true }

theorem reads_readColorConfig (hprofile : profile < 3) (c : ColorConfig) (pp : PicParams) :
    Reads (readColorConfig profile pp) (c.write profile) (c.apply profile pp) := by
  have hdepth : Reads (readBitDepth profile) (if 2 ≤ profile then [false] else [])
      (if 2 ≤ profile then 10 else 8) := by
    unfold readBitDepth
    split
    · exact (reads_brBit false).map
    · exact reads_pure 8
  unfold readColorConfig ColorConfig.write ColorConfig.apply
  refine hdepth.bind ((reads_brU c.space).bind ?_)
  have hthree : (profile = 1 ∨ profile = 3) ↔ profile = 1 := by omega
  simp only [hthree]
  by_cases hspace : c.space = 7
  · have hrgb : (c.space == 7 || c.range) = true := by rw [hspace]; rfl
    rw [hrgb]
    simp only [hspace, ne_eq, not_true_eq_false, if_false, if_true]
    by_cases hone : profile = 1
    · simp only [if_pos hone]
      exact (reads_brBit false).last
    · simp only [if_neg hone]
      exact reads_pure _
  · have hrange : (c.space == 7 || c.range) = c.range := by
      rw [beq_eq_false_iff_ne.mpr hspace, Bool.false_or]
    rw [hrange]
    simp only [ne_eq, hspace, not_false_eq_true, if_true, if_false]
    by_cases hone : profile = 1
    · simp only [if_pos hone]
      exact (reads_brBit c.range).bind
        ((reads_brBit c.subsamplingX).bind
          ((reads_brBit c.subsamplingY).bind (reads_brBit false).last))
    · simp only [if_neg hone]
      exact (reads_brBit c.range).last

/-- The same for an intra-only frame, which has them from profile 1 on. -/
def ColorConfig.applyIntra (profile : Nat) (c : ColorConfig) (pp : PicParams) : PicParams :=
  if 0 < profile then c.apply profile pp
  else { pp with bitDepth := 8, colorSpace := 1, colorRange := true, subsamplingX := true,
                 subsamplingY := true }

theorem reads_readIntraColor (c : ColorConfig) (pp : PicParams) (hlt : pp.profile < 3) :
    Reads (readIntraColor pp) (if 0 < pp.profile then c.write pp.profile else [])
      (c.applyIntra pp.profile pp) := by
  unfold readIntraColor ColorConfig.applyIntra
  by_cases hpos : 0 < pp.profile
  · simp only [if_pos hpos]
    exact reads_readColorConfig hlt c pp
  · simp only [if_neg hpos]
    exact reads_pure _

theorem bitDepth_apply (c : ColorConfig) (pp : PicParams) :
    ¬(c.apply profile pp).bitDepth = 12 := by
  unfold ColorConfig.apply
  dsimp only
  split <;> decide

theorem bitDepth_applyIntra (c : ColorConfig) (pp : PicParams) :
    ¬(c.applyIntra profile pp).bitDepth = 12 := by
  unfold ColorConfig.applyIntra
  split
  · exact bitDepth_apply c pp
  · have hno : ¬(8 = 12) := by decide
    exact hno

theorem reads_readFrameSize (s : FrameSize) : Reads readFrameSize s.write s.size :=
  (reads_brU s.widthMinus1).bind (reads_brU s.heightMinus1).last

theorem reads_readRenderSize (size : Nat × Nat) (render : Option FrameSize) :
    Reads (readRenderSize size) (writeOption FrameSize.write render)
      ((render.map FrameSize.size).getD size) := by
  cases render with
  | none => exact (reads_brBit false).bind (reads_pure size)
  | some s => exact (reads_brBit true).bind (reads_readFrameSize s)

theorem reads_readUpdates (us : List (Option (Signed 6))) :
    Reads (readUpdates us.length) (us.flatMap (writeOption Signed.write))
      (us.map (Option.map Signed.value)) := by
  induction us with
  | nil => exact reads_pure []
  | cons u us ih =>
    have hupdate : Reads readUpdate (writeOption Signed.write u) (u.map Signed.value) := by
      cases u with
      | none => exact (reads_brBit false).bind (reads_pure none)
      | some x => exact (reads_brBit true).bind (reads_brSu x).map
    exact hupdate.bind ih.last

/-- The deltas as the parser notes them. -/
def LoopFilter.read (lf : LoopFilter) : LoopFilterSyntax where
  level := lf.level.toNat
  sharpness := lf.sharpness.toNat
  enabled := lf.deltas ≠ .disabled
  update := decide (lf.deltas ≠ .disabled) && decide (lf.deltas ≠ .kept)
  refUpdates := lf.deltas.updates.1
  modeUpdates := lf.deltas.updates.2

theorem reads_readLoopFilterSyntax (lf : LoopFilter) :
    Reads readLoopFilterSyntax lf.write lf.read := by
  obtain ⟨level, sharpness, deltas⟩ := lf
  refine (reads_brU level).bind ((reads_brU sharpness).bind ?_)
  cases deltas with
  | disabled => exact (reads_brBit false).bind ((reads_pure false).absent (reads_pure _).last)
  | kept => exact (reads_brBit true).bind ((reads_brBit false).bind (reads_pure _).last)
  | updated refs modes =>
    have hrefs := reads_readUpdates refs.toList
    have hmodes := reads_readUpdates modes.toList
    rw [Vector.length_toList] at hrefs hmodes
    have hdeltas : Reads (readDeltaUpdates true)
        (refs.toList.flatMap (writeOption Signed.write) ++ modes.toList.flatMap
          (writeOption Signed.write))
        (DeltaSyntax.updated refs modes).updates := hrefs.bind hmodes.last
    exact (reads_brBit true).bind ((reads_brBit true).bind hdeltas.last)

theorem reads_readDeltaQ (x : Option (Signed 4)) :
    Reads readDeltaQ (writeOption Signed.write x) (deltaQ x) := by
  cases x with
  | none => exact (reads_brBit false).bind (reads_pure 0)
  | some x => exact (reads_brBit true).bind (reads_brSu x)

theorem reads_readProbs (ps : List (Option (BitVec 8))) :
    Reads (readProbs ps.length) (writeProbs ps) (probsOf ps) := by
  induction ps with
  | nil => exact reads_pure []
  | cons p ps ih =>
    have hprob : Reads readProb (writeOption (msbs 8) p) ((p.map BitVec.toNat).getD 255) := by
      cases p with
      | none => exact (reads_brBit false).bind (reads_pure 255)
      | some v => exact (reads_brBit true).bind (reads_brU v).map
    exact hprob.bind ih.last

theorem reads_readSegment (s : SegmentFeatures) :
    Reads (readSegment segFeatures) s.write s.features := by
  have hsigned {n : Nat} (x : Option (Signed (n + 1))) :
      Reads (readFeature (n + 1, true)) (writeOption Signed.write x)
        (featureOf Signed.value x) := by
    cases x with
    | none => exact (reads_brBit false).bind (reads_pure _)
    | some x => exact (reads_brBit true).bind (reads_brSu x).map
  have hunsigned (x : Option (BitVec 2)) :
      Reads (readFeature (2, false)) (writeOption (msbs 2) x)
        (featureOf (fun v => (v.toNat : Int)) x) := by
    cases x with
    | none => exact (reads_brBit false).bind (reads_pure _)
    | some v => exact (reads_brBit true).bind (reads_brU v).map.map
  have hskip (skip : Bool) : Reads (readFeature (0, false)) [skip] ⟨skip, 0⟩ := by
    cases skip with
    | false => exact (reads_brBit false).bind (reads_pure _)
    | true => exact (reads_brBit true).bind (reads_pure _).map
  exact (hsigned s.altQ).bind ((hsigned s.altLf).bind ((hunsigned s.refFrame).bind
    ((hskip s.skip).bind (reads_pure []).last).last).last).last

theorem reads_readSegments (ss : List SegmentFeatures) :
    Reads (readSegments ss.length) (ss.flatMap SegmentFeatures.write)
      (ss.map SegmentFeatures.features) := by
  induction ss with
  | nil => exact reads_pure []
  | cons s ss ih => exact (reads_readSegment s).bind ih.last

/-- The segmentation as the parser notes it. -/
def readOf (seg : Option Segmentation) : SegmentSyntax where
  enabled := seg.isSome
  treeProbs := (seg.bind Segmentation.map).map fun map => probsOf map.tree.toList
  predProbs := ((seg.bind Segmentation.map).bind SegmentMap.pred).map fun pred =>
    probsOf pred.toList
  data := (seg.bind Segmentation.data).map fun data => (data.absDelta, data.features)

theorem reads_readSegmentSyntax (seg : Option Segmentation) :
    Reads readSegmentSyntax (writeOption Segmentation.write seg) (readOf seg) := by
  cases seg with
  | none => exact (reads_brBit false).bind (reads_pure _)
  | some seg =>
    obtain ⟨map, data⟩ := seg
    have hdata (g : Option (Bool × Features) → SegmentSyntax) : Reads (do
        let updateData ← brBit
        let data ← readSegmentData updateData
        pure (g data)) (writeOption SegmentData.write data)
        (g (data.map fun data => (data.absDelta, data.features))) := by
      cases data with
      | none => exact (reads_brBit false).bind (reads_pure none).last
      | some data =>
        have hsegments := reads_readSegments data.segments.toList
        rw [Vector.length_toList] at hsegments
        have hread : Reads (readSegmentData true) data.write
            (some (data.absDelta, data.features)) :=
          (reads_brBit data.absDelta).bind hsegments.last
        exact (reads_brBit true).bind hread.last
    refine (reads_brBit true).bind ?_
    cases map with
    | none => exact (reads_brBit false).bind ((reads_pure (none, none)).absent (hdata _))
    | some map =>
      have hmap : Reads (readSegmentMap true) map.write
          (some (probsOf map.tree.toList), map.pred.map fun pred => probsOf pred.toList) := by
        obtain ⟨tree, pred⟩ := map
        have htree := reads_readProbs tree.toList
        rw [Vector.length_toList] at htree
        refine htree.bind ?_
        cases pred with
        | none => exact (reads_brBit false).bind (reads_pure _)
        | some pred =>
          have hpred := reads_readProbs pred.toList
          rw [Vector.length_toList] at hpred
          exact (reads_brBit true).bind hpred.last
      change Reads _ ([true] ++ (map.write ++ writeOption SegmentData.write data)) _
      exact (reads_brBit true).bind (hmap.bind (hdata _))

theorem reads_readTileCols {limit fuel k cols : Nat} (hk : k ≤ cols) (hcols : cols ≤ limit)
    (hfuel : limit ≤ k + fuel) :
    Reads (readTileCols limit fuel k)
      (List.replicate (cols - k) true ++ if cols < limit then [false] else []) cols := by
  induction fuel generalizing k with
  | zero =>
    obtain rfl : k = cols := by omega
    rw [Nat.sub_self, if_neg (by omega)]
    exact reads_pure k
  | succ fuel ih =>
    rw [readTileCols]
    by_cases hmore : k < cols
    · have hcount : cols - k = cols - (k + 1) + 1 := by omega
      rw [if_pos (by omega), hcount, List.replicate_succ]
      exact (reads_brBit true).bind (ih hmore (by omega))
    · obtain rfl : k = cols := by omega
      rw [Nat.sub_self]
      by_cases hlimit : k < limit
      · rw [if_pos hlimit, if_pos hlimit]
        exact (reads_brBit false).bind (reads_pure k)
      · rw [if_neg hlimit, if_neg hlimit]
        exact reads_pure k

/-- Up to 128 superblocks the parser has the bounds of the standard. -/
theorem tileCols_bounds : ∀ sbCols < 129, minLog2TileCols sbCols 16 0 = minTileColsLog2 sbCols ∧
    maxLog2TileCols sbCols 16 0 = maxTileColsLog2 sbCols ∧ maxTileColsLog2 sbCols ≤ 16 := by
      decide +kernel

theorem reads_readTileRows (rows : Fin 3) :
    Reads readTileRows (if rows = 0 then [false] else [true, decide (rows = 2)]) rows := by
  match rows with
  | 0 => exact (reads_brBit false).bind (reads_pure 0)
  | 1 => exact (reads_brBit true).bind (reads_brBit false).map
  | 2 => exact (reads_brBit true).bind (reads_brBit true).map

theorem reads_readTileInfo {width cols : Nat} (rows : Fin 3) (hwidth : width ≤ 8192)
    (hmin : minTileColsLog2 (sb64Cols width) ≤ cols)
    (hmax : cols ≤ maxTileColsLog2 (sb64Cols width)) :
    Reads (readTileInfo width) (writeTileInfo width cols rows) (cols, rows) := by
  have hsb : (width + 63) >>> 6 = sb64Cols width := Nat.shiftRight_eq_div_pow _ 6
  have hsmall : sb64Cols width < 129 := by
    unfold sb64Cols
    omega
  obtain ⟨hlow, hhigh, hfuel⟩ := tileCols_bounds _ hsmall
  unfold readTileInfo writeTileInfo
  dsimp only
  rw [hsb, hlow, hhigh, ← List.append_assoc]
  exact (reads_readTileCols hmin hmax (by omega)).bind (reads_readTileRows rows).last

theorem reads_readFrameRefs (refs : List RefFrameDesc) :
    Reads (readFrameRefs refs.length) (refs.flatMap RefFrameDesc.write) refs := by
  induction refs with
  | nil => exact reads_pure []
  | cons ref refs ih =>
    obtain ⟨index, signBias⟩ := ref
    have hindex : (BitVec.ofNat 3 index).toFin = index := by
      revert index
      decide
    have hread : Reads (readFrameRefs (refs.length + 1))
        (msbs 3 (BitVec.ofNat 3 index) ++ ([signBias] ++ refs.flatMap RefFrameDesc.write))
        (⟨(BitVec.ofNat 3 index).toFin, signBias⟩ :: refs) :=
      (reads_brU _).bind ((reads_brBit signBias).bind ih.last)
    rw [hindex, ← List.append_assoc] at hread
    exact hread

theorem reads_readRefSize_none (st : ParserState) (refs : List RefFrameDesc) :
    Reads (readRefSize st refs) (List.replicate refs.length false) none := by
  induction refs with
  | nil => exact reads_pure none
  | cons ref refs ih => exact (reads_brBit false).bind ih

theorem reads_readRefSize_some (st : ParserState) {refs : List RefFrameDesc} {i : Nat}
    (hi : i < refs.length) :
    Reads (readRefSize st refs) (List.replicate i false ++ [true]) (st.refSize refs[i].index) := by
  induction refs generalizing i with
  | nil => exact absurd hi (Nat.not_lt_zero i)
  | cons ref refs ih =>
    cases i with
    | zero => exact (reads_brBit true).bind (reads_pure _)
    | succ i => exact (reads_brBit false).bind (ih (Nat.lt_of_succ_lt_succ hi))

theorem reads_readInterpFilter (filter : Option (BitVec 2)) :
    Reads readInterpFilter (writeInterpFilter filter) ((filter.map BitVec.toNat).getD 4) := by
  cases filter with
  | none => exact (reads_brBit true).bind (reads_pure 4)
  | some v => exact (reads_brBit false).bind (reads_brU v).map

end Elements

namespace CodedFrame

variable {st : ParserState} {profile : Nat} {f : CodedFrame} {pp : PicParams}

/-- What is known of a frame before its type is looked at. -/
def opened (f : CodedFrame) (pp : PicParams) : PicParams :=
  { pp with
    frameType := (!f.isKey).toNat
    showFrame := f.showFrame
    errorResilientMode := f.errorResilient }

def renderSize (st : ParserState) (f : CodedFrame) : Nat × Nat :=
  (f.render.map FrameSize.size).getD (f.size st)

def withSizes (st : ParserState) (f : CodedFrame) (pp : PicParams) : PicParams :=
  { pp with
    width := (f.size st).1
    height := (f.size st).2
    renderWidth := (f.renderSize st).1
    renderHeight := (f.renderSize st).2 }

def withReset (f : CodedFrame) (pp : PicParams) : PicParams :=
  { pp with
    intraOnly := f.isIntraOnly
    resetFrameContext := if f.errorResilient then 0 else f.resetFrameContext.toNat }

/-- The part that depends on the type. -/
def withKind (st : ParserState) (profile : Nat) (f : CodedFrame) (pp : PicParams) : PicParams :=
  match f.kind with
  | .key color _ => f.withSizes st { color.apply profile pp with refreshFrameFlags := 0xff }
  | .intraOnly color refresh _ =>
    f.withSizes st { color.applyIntra profile (f.withReset pp) with refreshFrameFlags := refresh }
  | .inter refresh refs _ highPrecision interpFilter =>
    f.withSizes st { f.withReset pp with
      frameRefs := refs.toList
      refreshFrameFlags := refresh
      allowHighPrecisionMv := highPrecision
      interpFilter := (interpFilter.map BitVec.toNat).getD 4 }

/-- What comes from the trailer. -/
def withTrailer (st : ParserState) (f : CodedFrame) (pp : PicParams) : PicParams :=
  { pp with
    refreshFrameContext := !f.errorResilient && f.refreshFrameContext
    frameParallelDecodingMode := f.errorResilient || f.frameParallel
    frameContextIdx := f.frameContextIdx.toFin
    lfSyntax := f.lf.read
    lf := loopFilterParams st pp.isIntra f.lf.read
    baseQindex := f.baseQindex.toNat
    yDcDeltaQ := deltaQ f.yDcDeltaQ
    uvDcDeltaQ := deltaQ f.uvDcDeltaQ
    uvAcDeltaQ := deltaQ f.uvAcDeltaQ
    segSyntax := readOf f.seg
    seg := segmentationParams st (readOf f.seg)
    tileColsLog2 := f.tileColsLog2
    tileRowsLog2 := f.tileRowsLog2
    headerSize := f.headerSize.toNat }

/-- What the parser makes of the frame. -/
def result (st : ParserState) (profile : Nat) (f : CodedFrame) (pp : PicParams) : PicParams :=
  f.withTrailer st (f.withKind st profile (f.opened pp))

theorem reads_unlessResilient (herror : pp.errorResilientMode = f.errorResilient) {n : Nat}
    (other v : BitVec n) (bits : List Bool) (hbits : Reads (brU n) bits v) :
    Reads (Vp9.unlessResilient pp n other) (f.unlessResilient bits)
      (if f.errorResilient then other else v) := by
  unfold Vp9.unlessResilient CodedFrame.unlessResilient
  rw [herror]
  cases f.errorResilient with
  | true => exact reads_pure other
  | false => exact hbits

theorem reads_sizes (size : FrameSize) (hsize : size.size = f.size st)
    (g : Nat × Nat → Nat × Nat → Option PicParams) :
    Reads (do
      let size ← readFrameSize
      let render ← readRenderSize size
      pure (g size render)) (size.write ++ writeOption FrameSize.write f.render)
      (g (f.size st) (f.renderSize st)) := by
  have hread := (reads_readFrameSize size).bind (reads_readRenderSize size.size f.render).last
      (f := fun size => do
    let render ← readRenderSize size
    pure (g size render))
  rw [hsize] at hread
  exact hread

theorem reads_sync {g : HeaderBits (Option PicParams)} {w : List Bool} {a : Option PicParams}
    (hg : Reads g w a) :
    Reads (do
      let sync ← brU 24
      if sync ≠ frameSyncCode then pure none else g) (frameSync ++ w) a :=
  (reads_brU frameSyncCode).bind (Reads.cond_neg (fun hne => hne rfl) hg)

theorem reads_key {color : ColorConfig} {size : FrameSize} (hkind : f.kind = .key color size)
    (hprofile : pp.profile = profile) (hlt : profile < 3) :
    Reads (readKeyFrame pp) (f.writeKind profile) (some (f.withKind st profile pp)) := by
  have hsize : size.size = f.size st := by rw [CodedFrame.size, hkind]
  unfold readKeyFrame writeKind withKind
  rw [hkind, hprofile]
  refine reads_sync
    ((reads_readColorConfig hlt color pp).bind (Reads.cond_neg (bitDepth_apply color pp) ?_))
  exact reads_sizes size hsize _

theorem reads_intraOnly (st : ParserState) {color : ColorConfig} {refresh : BitVec 8}
    {size : FrameSize} (hkind : f.kind = .intraOnly color refresh size)
    (hprofile : pp.profile = profile) (hlt : profile < 3) :
    Reads (readIntraOnly (f.withReset pp))
      (frameSync ++ ((if 0 < profile then color.write profile else []) ++
      (msbs 8 refresh ++ (size.write ++ writeOption FrameSize.write f.render))))
      (some (f.withKind st profile pp)) := by
  have hsize : size.size = f.size st := by rw [CodedFrame.size, hkind]
  have hsame : (f.withReset pp).profile = profile := hprofile
  have hcolor := reads_readIntraColor color (f.withReset pp) (by rwa [hsame])
  rw [hsame] at hcolor
  unfold readIntraOnly withKind
  rw [hkind]
  refine reads_sync (hcolor.bind (Reads.cond_neg (bitDepth_applyIntra color _) ?_))
  exact (reads_brU refresh).bind (reads_sizes size hsize _)

theorem reads_sizeWithRefs {refs : Vector RefFrameDesc 3} {size : SizeWithRefs}
    (hsize : ∀ coded, size = .coded coded → f.size st = coded.size)
    (href : ∀ ref, size = .ofRef ref → st.refSize (refs.get ref).index = some (f.size st)) :
    Reads (readFrameSizeWithRefs st refs.toList)
      (size.write ++ writeOption FrameSize.write f.render)
      (f.size st, f.renderSize st) := by
  have hrender : Reads (do
      let render ← readRenderSize (f.size st)
      pure (f.size st, render)) (writeOption FrameSize.write f.render)
        (f.size st, f.renderSize st) :=
    (reads_readRenderSize (f.size st) f.render).last
  have hlen : refs.toList.length = 3 := Vector.length_toList
  unfold readFrameSizeWithRefs
  cases size with
  | coded coded =>
    have hnone := reads_readRefSize_none st refs.toList
    rw [hlen] at hnone
    have hread := reads_readFrameSize coded
    rw [← hsize coded rfl] at hread
    rw [SizeWithRefs.write, List.append_assoc]
    exact hnone.bind (hread.bind hrender)
  | ofRef ref =>
    have hlt : (ref : Nat) < refs.toList.length := ref.isLt.trans_eq hlen.symm
    have hsome := reads_readRefSize_some st hlt
    have hfound : st.refSize refs[(ref : Nat)].index = some (f.size st) := href ref rfl
    rw [Vector.getElem_toList, hfound] at hsome
    exact hsome.bind ((reads_pure _).absent hrender)

theorem reads_inter (profile : Nat) (pp : PicParams) {refresh : BitVec 8}
    {refs : Vector RefFrameDesc 3} {size : SizeWithRefs} {highPrecision : Bool}
    {interpFilter : Option (BitVec 2)}
    (hkind : f.kind = .inter refresh refs size highPrecision interpFilter)
    (hexpr : f.Expressible st) :
    Reads (readInter st (f.withReset pp))
      (msbs 8 refresh ++ (refs.toList.flatMap RefFrameDesc.write ++
      ((size.write ++ writeOption FrameSize.write f.render) ++
      (highPrecision :: writeInterpFilter interpFilter))))
      (some (f.withKind st profile pp)) := by
  have hrefs := reads_readFrameRefs refs.toList
  rw [Vector.length_toList] at hrefs
  have hsize : Reads (readFrameSizeWithRefs st refs.toList)
      (size.write ++ writeOption FrameSize.write f.render)
      (f.size st, f.renderSize st) := by
    refine reads_sizeWithRefs ?_ ?_
    · rintro coded rfl
      rw [CodedFrame.size, hkind]
    · rintro ref rfl
      obtain ⟨found, hfound⟩ := Option.isSome_iff_exists.mp (hexpr.valid _ _ _ _ _ hkind)
      have hget : st.refSize (refs.get ref).index = some found := hfound
      rw [CodedFrame.size, hkind, hget]
      dsimp only
      rw [hfound]
      rfl
  unfold readInter withKind
  rw [hkind]
  exact (reads_brU refresh).bind (hrefs.bind (hsize.bind ((reads_brBit highPrecision).bind
    (reads_readInterpFilter interpFilter).last)))

theorem reads_nonKey (st : ParserState) (pp : PicParams) (hshow : pp.showFrame = f.showFrame)
    (herror : pp.errorResilientMode = f.errorResilient)
    (hhidden : f.isIntraOnly = true → f.showFrame = false) {w : List Bool} {a : Option PicParams}
    (hrest : Reads (if f.isIntraOnly then readIntraOnly (f.withReset pp)
    else readInter st (f.withReset pp)) w a) :
    Reads (readNonKey st pp) ((if f.showFrame then [] else [f.isIntraOnly]) ++
      (f.unlessResilient (msbs 2 f.resetFrameContext) ++ w)) a := by
  have hflag : Reads (readIntraOnlyFlag pp) (if f.showFrame then [] else [f.isIntraOnly])
      f.isIntraOnly := by
    unfold readIntraOnlyFlag
    rw [hshow]
    cases hshown : f.showFrame with
    | true =>
      have hno : f.isIntraOnly = false := by
        by_contra hyes
        rw [hhidden (by simpa using hyes)] at hshown
        cases hshown
      rw [hno]
      exact reads_pure false
    | false => exact reads_brBit _
  have hreset :=
    reads_unlessResilient herror 0 f.resetFrameContext _ (reads_brU f.resetFrameContext)
  have hvalue : (if f.errorResilient then (0 : BitVec 2) else f.resetFrameContext).toNat =
      if f.errorResilient then 0 else f.resetFrameContext.toNat := by
    cases f.errorResilient with
    | true => rfl
    | false => rfl
  unfold readNonKey
  refine hflag.bind (hreset.bind ?_)
  rw [hvalue]
  exact hrest

theorem reads_body (hprofile : pp.profile = profile) (hlt : profile < 3)
    (hexpr : f.Expressible st) :
    Reads (readBody st (f.opened pp)) (f.writeKind profile)
      (some (f.withKind st profile (f.opened pp))) := by
  have hopened : (f.opened pp).profile = profile := hprofile
  unfold readBody
  have hisKey : (f.opened pp).isKey = f.isKey := by
    unfold PicParams.isKey opened
    cases f.isKey with
    | true => rfl
    | false => rfl
  rw [hisKey]
  cases hkind : f.kind with
  | key color size =>
    have hkey : f.isKey = true := by rw [isKey, hkind]
    rw [if_pos hkey]
    exact reads_key hkind hopened hlt
  | intraOnly color refresh size =>
    have hkey : ¬f.isKey = true := by
      rw [isKey, hkind]
      exact Bool.false_ne_true
    have hintra : f.isIntraOnly = true := by rw [isIntraOnly, hkind]
    have hrest := reads_intraOnly st hkind hopened hlt
    have hread := reads_nonKey st (f.opened pp) rfl rfl hexpr.hidden
      (Reads.cond_pos hintra hrest)
    rw [if_neg hkey, writeKind, hkind]
    rw [hintra] at hread
    exact hread
  | inter refresh refs size highPrecision interpFilter =>
    have hkey : ¬f.isKey = true := by
      rw [isKey, hkind]
      exact Bool.false_ne_true
    have hintra : f.isIntraOnly = false := by rw [isIntraOnly, hkind]
    have hrest := reads_inter profile (f.opened pp) hkind hexpr
    have hread := reads_nonKey st (f.opened pp) rfl rfl hexpr.hidden
      (Reads.cond_neg (by rw [hintra]; decide) hrest)
    rw [if_neg hkey, writeKind, hkind]
    rw [hintra] at hread
    exact hread

theorem reads_trailer (herror : pp.errorResilientMode = f.errorResilient)
    (hwidth : pp.width = (f.size st).1) (hexpr : f.Expressible st) :
    Reads (readTrailer st pp) (f.writeTrailer st) (f.withTrailer st pp) := by
  have hrefresh := reads_unlessResilient herror 0 _ _ (reads_bit f.refreshFrameContext)
  have hparallel := reads_unlessResilient herror 1 _ _ (reads_bit f.frameParallel)
  have htiles := reads_readTileInfo f.tileRowsLog2 hexpr.width hexpr.minTileCols hexpr.maxTileCols
  rw [← hwidth] at htiles
  have hno (b : Bool) : ((if f.errorResilient then 0 else BitVec.ofBool b) != 0) =
      (!f.errorResilient && b) := by
    cases f.errorResilient <;> cases b <;> rfl
  have hyes (b : Bool) : ((if f.errorResilient then 1 else BitVec.ofBool b) != 0) =
      (f.errorResilient || b) := by
    cases f.errorResilient <;> cases b <;> rfl
  unfold readTrailer writeTrailer withTrailer
  rw [← hno, ← hyes, ← hwidth]
  refine hrefresh.bind (hparallel.bind ((reads_brU f.frameContextIdx).bind ?_))
  refine (reads_readLoopFilterSyntax f.lf).bind ((reads_brU f.baseQindex).bind ?_)
  refine (reads_readDeltaQ f.yDcDeltaQ).bind ((reads_readDeltaQ f.uvDcDeltaQ).bind ?_)
  refine (reads_readDeltaQ f.uvAcDeltaQ).bind ((reads_readSegmentSyntax f.seg).bind ?_)
  exact htiles.bind (reads_brU f.headerSize).last

end CodedFrame

namespace UncompressedHeader

variable {st : ParserState} {h : UncompressedHeader}

/-- What the parser makes of the header. -/
def result (st : ParserState) (h : UncompressedHeader) : PicParams :=
  match h.body with
  | .existing idx =>
    { PicParams.initial st h.profile with
      showExistingFrame := true, showExistingFrameIdx := idx.toFin }
  | .coded f => f.result st h.profile (.initial st h.profile)

theorem reads_coded {profile : Nat} {f : CodedFrame} {pp : PicParams}
    (hprofile : pp.profile = profile) (hlt : profile < 3) (hexpr : f.Expressible st) :
    Reads (readCoded st pp) (f.write st profile) (some (f.result st profile pp)) := by
  have hvalue : (BitVec.ofBool (!f.isKey)).toNat = (!f.isKey).toNat := by
    cases f.isKey with
    | true => rfl
    | false => rfl
  have herror : (f.withKind st profile (f.opened pp)).errorResilientMode = f.errorResilient := by
    unfold CodedFrame.withKind
    cases f.kind with
    | key color size => rfl
    | intraOnly color refresh size =>
      unfold ColorConfig.applyIntra
      dsimp only
      split
      · rfl
      · rfl
    | inter refresh refs size highPrecision interpFilter => rfl
  have hwidth : (f.withKind st profile (f.opened pp)).width = (f.size st).1 := by
    unfold CodedFrame.withKind
    cases f.kind with
    | key color size => rfl
    | intraOnly color refresh size => rfl
    | inter refresh refs size highPrecision interpFilter => rfl
  have hbody := CodedFrame.reads_body hprofile hlt hexpr
  unfold CodedFrame.opened at hbody
  rw [← hvalue] at hbody
  unfold readCoded CodedFrame.write
  refine (reads_bit (!f.isKey)).bind
    ((reads_brBit f.showFrame).bind ((reads_brBit f.errorResilient).bind ?_))
  refine hbody.bind ?_
  rw [hvalue]
  exact (CodedFrame.reads_trailer herror hwidth hexpr).map

theorem reads_header (hexpr : h.Expressible st) :
    Reads (parseUncompressedHeader st) (h.write st) (some (h.result st)) := by
  obtain ⟨profile, body⟩ := h
  have hall : ∀ profile : Fin 3, (decide (profile = 1)).toNat + 2 * (decide (profile = 2)).toNat =
      (profile : Nat) := by
    decide
  have hprofile := hall profile
  have hthree : ¬(profile : Nat) = 3 := Nat.ne_of_lt profile.isLt
  unfold parseUncompressedHeader write
  refine (reads_brU (2 : BitVec 2)).bind (Reads.cond_neg (fun hne => hne rfl) ?_)
  refine (reads_brBit (decide (profile = 1))).bind ((reads_brBit (decide (profile = 2))).bind ?_)
  dsimp only
  rw [hprofile]
  refine Reads.cond_neg hthree ?_
  cases body with
  | existing idx => exact (reads_brBit true).bind (reads_brU idx).last
  | coded f => exact (reads_brBit false).bind (reads_coded rfl profile.isLt (hexpr f rfl))

end UncompressedHeader

section Cut

variable {α : Type} {p : HeaderBits α} {w w' : List Bool} {a : α}

theorem answer_error (n : Nat) (c : BitCursor) :
    (BitCursor.answer n c).2.error = false ↔ c.error = false ∧ n ≤ c.bits.length := by
  unfold BitCursor.answer
  cases herror : c.error with
  | true => simp
  | false =>
    by_cases hshort : c.bits.length < n
    · simp [hshort, Nat.not_le.mpr hshort]
    · simp [hshort, Nat.not_lt.mp hshort]

theorem run_failed {c : BitCursor} (h : c.error = true) :
    (p.run BitCursor.answer c).2.error = true := by
  by_contra hno
  rw [Bool.not_eq_true, Lib.Prog.sticky answer_error, h] at hno
  cases hno.1

/-- A program that reads all of some bits fails on a part of them. -/
theorem run_cut (hrun : (p.run BitCursor.answer ⟨w, false⟩).2 = ⟨[], false⟩) (hpart : w' <+: w)
    (hlt : w'.length < w.length) : (p.run BitCursor.answer ⟨w', false⟩).2.error = true := by
  induction p generalizing w w' with
  | done a =>
    change (⟨w, false⟩ : BitCursor) = ⟨[], false⟩ at hrun
    cases hrun
    exact absurd hlt (Nat.not_lt_zero _)
  | ask n next ih =>
    rw [Lib.Prog.run] at hrun ⊢
    have hall : n ≤ w.length := by
      by_contra hshort
      have hfail : (BitCursor.answer n ⟨w, false⟩).2.error = true := by
        by_contra hno
        rw [Bool.not_eq_true, answer_error] at hno
        exact hshort hno.2
      have hend := run_failed (p := next (BitCursor.answer n ⟨w, false⟩).1) hfail
      rw [hrun] at hend
      cases hend
    by_cases hpart' : n ≤ w'.length
    · have hanswer (v : List Bool) (hv : n ≤ v.length) : BitCursor.answer n ⟨v, false⟩ =
          (BitVec.ofNat n (bitsToNat (v.take n)), ⟨v.drop n, false⟩) := by
        unfold BitCursor.answer
        exact if_neg (by simpa using hv)
      have htake : w'.take n = w.take n := by
        obtain ⟨more, rfl⟩ := hpart
        rw [List.take_append_of_le_length hpart']
      rw [hanswer w hall] at hrun
      rw [hanswer w' hpart', htake]
      refine ih _ hrun (hpart.drop n) ?_
      rw [List.length_drop, List.length_drop]
      omega
    · refine run_failed ?_
      by_contra hno
      rw [Bool.not_eq_true, answer_error] at hno
      exact hpart' hno.2

end Cut

section Bytes

variable {bits : List Bool}

theorem msbs_byte (f : Nat → Bool) :
    msbs 8 (BitVec.ofNat 8 (bitsToNat ((List.range 8).map f))) = (List.range 8).map f := by
  have hall : ∀ b₀ b₁ b₂ b₃ b₄ b₅ b₆ b₇,
      msbs 8 (BitVec.ofNat 8 (bitsToNat [b₀, b₁, b₂, b₃, b₄, b₅, b₆, b₇])) =
      [b₀, b₁, b₂, b₃, b₄, b₅, b₆, b₇] := by decide +kernel
  exact hall _ _ _ _ _ _ _ _

theorem length_packBits (bits : List Bool) :
    (UncompressedHeader.packBits bits).length = (bits.length + 7) / 8 := by
  rw [UncompressedHeader.packBits, List.length_map, List.length_range]

/-- The bytes hold the bits, and zeros up to a whole byte. -/
theorem frameBits_packBits (bits : List Bool) : ∃ pad,
    frameBits (UncompressedHeader.packBits bits) = bits ++ List.replicate pad false := by
  refine ⟨8 * ((bits.length + 7) / 8) - bits.length, List.ext_getElem? fun i => ?_⟩
  have hlen := length_frameBits (UncompressedHeader.packBits bits)
  rw [length_packBits] at hlen
  by_cases hi : i < 8 * ((bits.length + 7) / 8)
  · have hsplit : i = i / 8 * 8 + i % 8 := by omega
    have hbyte : i / 8 < (bits.length + 7) / 8 := by omega
    have hat : (frameBits (UncompressedHeader.packBits bits))[i]? = some (bits.getD i false) := by
      unfold frameBits UncompressedHeader.packBits
      rw [List.flatMap_map]
      simp only [msbs_byte]
      rw [hsplit, getElem?_flatMap_range (fun r _ => by simp) hbyte (by omega), ← hsplit,
        List.getElem?_map, List.getElem?_range (by omega), Option.map_some]
      congr 2
      omega
    rw [hat]
    by_cases hin : i < bits.length
    · rw [List.getElem?_append_left hin, List.getD_eq_getElem?_getD, List.getElem?_eq_getElem hin]
      rfl
    · rw [List.getElem?_append_right (by omega), List.getElem?_replicate, if_pos (by omega),
        List.getD_eq_getElem?_getD, List.getElem?_eq_none (by omega)]
      rfl
  · rw [List.getElem?_eq_none (by omega), List.getElem?_eq_none]
    rw [List.length_append, List.length_replicate]
    omega

theorem frameBits_take (frame : List Byte) (n : Nat) :
    frameBits (frame.take n) = (frameBits frame).take (8 * n) := by
  induction frame generalizing n with
  | nil => simp [frameBits]
  | cons b frame ih =>
    cases n with
    | zero => simp [frameBits]
    | succ n =>
      have hn : 8 * (n + 1) = 8 + 8 * n := by omega
      have hcons (frame : List Byte) : frameBits (b :: frame) = msbs 8 b ++ frameBits frame :=
        List.flatMap_cons
      have hfirst : (msbs 8 b).take (8 + 8 * n) = msbs 8 b :=
        List.take_of_length_le (by rw [length_msbs]; omega)
      rw [List.take_succ_cons, hcons, hcons, hn, List.take_append, length_msbs,
        Nat.add_sub_cancel_left, ih, hfirst]

end Bytes

section Inheritance

variable {st : ParserState} {colour : Colour} {profile : Nat} {f : CodedFrame} {pp : PicParams}

/-- The arrays of the parser state have their lengths. -/
structure ParserState.Sized (st : ParserState) : Prop where
  refDeltas : st.prevLf.refDeltas.length = 4
  modeDeltas : st.prevLf.modeDeltas.length = 2

/-- Nothing is inherited that the parser does not keep as the standard does: the colours of an inter
frame are all zero; an error-resilient inter frame updates the deltas that are not at their
defaults; and where a frame with segmentation that is intra or error-resilient, or another frame
without, does not bring features, there were none. -/
structure CodedFrame.Keeps (st : ParserState) (colour : Colour) (f : CodedFrame) : Prop where
  colour : f.isInter = true → colour = {}
  refDeltas : f.isInter = true → f.errorResilient = true →
    Inherits f.lf.deltas.updates.1 st.prevLf.refDeltas defaultLf.refDeltas
  modeDeltas : f.isInter = true → f.errorResilient = true →
    Inherits f.lf.deltas.updates.2 st.prevLf.modeDeltas defaultLf.modeDeltas
  features : f.data = none → f.seg.isSome = f.isIndependent → st.prevSeg.Idle

def UncompressedHeader.Keeps (st : ParserState) (colour : Colour) (h : UncompressedHeader) : Prop :=
  ∀ f, h.body = .coded f → f.Keeps st colour

namespace CodedFrame

theorem length_updates (d : DeltaSyntax) : d.updates.1.length = 4 ∧ d.updates.2.length = 2 := by
  cases d with
  | disabled => exact ⟨rfl, rfl⟩
  | kept => exact ⟨rfl, rfl⟩
  | updated refs modes =>
    unfold DeltaSyntax.updates
    rw [List.length_map, List.length_map]
    exact ⟨Vector.length_toList, Vector.length_toList⟩

/-- The deltas start from the defaults unless the frame is an inter frame. -/
theorem isIntra_withKind (st : ParserState) (profile : Nat) (f : CodedFrame) (pp : PicParams) :
    (f.withKind st profile (f.opened pp)).isIntra = !f.isInter := by
  unfold withKind isInter
  cases hkind : f.kind with
  | key color size =>
    have hkey : f.isKey = true := by rw [isKey, hkind]
    have htype : (f.opened pp).frameType = 0 := by
      unfold opened
      rw [hkey]
      rfl
    unfold PicParams.isIntra PicParams.isKey withSizes ColorConfig.apply
    dsimp only
    rw [htype]
    rfl
  | intraOnly color refresh size =>
    have hflag : f.isIntraOnly = true := by rw [isIntraOnly, hkind]
    have hsame : (color.applyIntra profile (f.withReset (f.opened pp))).intraOnly = true := by
      unfold ColorConfig.applyIntra
      split
      · exact hflag
      · exact hflag
    unfold PicParams.isIntra withSizes
    dsimp only
    rw [hsame]
    exact Bool.or_true _
  | inter refresh refs size highPrecision interpFilter =>
    have hkey : f.isKey = false := by rw [isKey, hkind]
    have hflag : f.isIntraOnly = false := by rw [isIntraOnly, hkind]
    have htype : (f.opened pp).frameType = 1 := by
      unfold opened
      rw [hkey]
      rfl
    have hreset : (f.withReset (f.opened pp)).intraOnly = false := hflag
    have hresetType : (f.withReset (f.opened pp)).frameType = 1 := htype
    unfold PicParams.isIntra PicParams.isKey withSizes
    dsimp only
    rw [hreset, hresetType]
    rfl

/-- The deltas are those of the standard where the frame does not inherit others. -/
theorem deltas_iff (hst : st.Sized) :
    ((loopFilterParams st (!f.isInter) f.lf.read).refDeltas = (f.persistent st).refDeltas ↔
      (f.isInter = true → f.errorResilient = true →
        Inherits f.lf.deltas.updates.1 st.prevLf.refDeltas defaultLf.refDeltas)) ∧
    ((loopFilterParams st (!f.isInter) f.lf.read).modeDeltas = (f.persistent st).modeDeltas ↔
      (f.isInter = true → f.errorResilient = true →
        Inherits f.lf.deltas.updates.2 st.prevLf.modeDeltas defaultLf.modeDeltas)) := by
  obtain ⟨href, hmode⟩ := length_updates f.lf.deltas
  unfold loopFilterParams persistent isIndependent LoopFilterParams.apply LoopFilter.read
  cases f.isInter with
  | false => simp [defaultLf, pastIndependence]
  | true =>
    cases f.errorResilient with
    | false => simp [ParserState.persistent]
    | true =>
      simp only [Bool.not_true, Bool.or_true, if_true, Bool.false_eq_true, if_false, true_implies]
      exact ⟨updateDeltas_eq_iff hst.refDeltas.symm (href.trans hst.refDeltas.symm),
        updateDeltas_eq_iff hst.modeDeltas.symm (hmode.trans hst.modeDeltas.symm)⟩

/-- The features as well. -/
theorem features_iff :
    ((segmentationParams st (readOf f.seg)).absDelta = (f.persistent st).absDelta ∧
      (segmentationParams st (readOf f.seg)).features = (f.persistent st).features) ↔
      (f.data = none → f.seg.isSome = f.isIndependent → st.prevSeg.Idle) := by
  unfold segmentationParams persistent readOf data
  cases hseg : f.seg with
  | none =>
    cases hind : f.isIndependent with
    | false =>
      have hidle : (false = st.prevSeg.absDelta ∧ noFeatures = st.prevSeg.features) ↔
          st.prevSeg.Idle :=
        ⟨fun h => ⟨h.2.symm, h.1.symm⟩, fun h => ⟨h.2.symm, h.1.symm⟩⟩
      exact hidle.trans ⟨fun h _ _ => h, fun h => h rfl rfl⟩
    | true => simp [pastIndependence]
  | some seg =>
    cases hdata : seg.data with
    | some data => simp [hdata]
    | none =>
      cases hind : f.isIndependent with
      | false => simp [hdata, ParserState.persistent]
      | true => simp [hdata, pastIndependence, SegmentParams.Idle, and_comm]

/-- What the header says of the frame itself. -/
structure Framed (st : ParserState) (profile : Nat) (f : CodedFrame) (pp : PicParams) : Prop where
  sameProfile : pp.profile = profile
  shows : pp.showExistingFrame = false
  frameType : pp.frameType = if f.isKey then 0 else 1
  showFrame : pp.showFrame = f.showFrame
  errorResilient : pp.errorResilientMode = f.errorResilient
  intraOnly : pp.intraOnly = f.isIntraOnly
  reset : pp.resetFrameContext = if f.isKey || f.errorResilient then
    0 else f.resetFrameContext.toNat
  size : (pp.width, pp.height) = f.size st
  render : (pp.renderWidth, pp.renderHeight) = (f.render.map FrameSize.size).getD (f.size st)

theorem framed_result (st : ParserState) (profile : Nat) (f : CodedFrame) :
    f.Framed st profile (f.result st profile (.initial st profile)) := by
  have htype : (!f.isKey).toNat = if f.isKey then 0 else 1 := by
    cases f.isKey with
    | true => rfl
    | false => rfl
  have hreset (hkey : f.isKey = false) :
      (f.withReset (f.opened (PicParams.initial st profile))).resetFrameContext =
        if f.isKey || f.errorResilient then 0 else f.resetFrameContext.toNat := by
    rw [hkey, Bool.false_or]
    rfl
  unfold result withTrailer withKind
  cases hkind : f.kind with
  | key color size =>
    have hkey : f.isKey = true := by rw [isKey, hkind]
    have hintra : f.isIntraOnly = false := by rw [isIntraOnly, hkind]
    have hreset : (if f.isKey || f.errorResilient then 0 else f.resetFrameContext.toNat) = 0 := by
      rw [hkey, Bool.true_or, if_pos rfl]
    exact ⟨rfl, rfl, htype, rfl, rfl, hintra.symm, hreset.symm, rfl, rfl⟩
  | intraOnly color refresh size =>
    have hkey : f.isKey = false := by rw [isKey, hkind]
    dsimp only
    unfold ColorConfig.applyIntra
    by_cases hpos : 0 < profile
    · rw [if_pos hpos]
      exact ⟨rfl, rfl, htype, rfl, rfl, rfl, hreset hkey, rfl, rfl⟩
    · rw [if_neg hpos]
      exact ⟨rfl, rfl, htype, rfl, rfl, rfl, hreset hkey, rfl, rfl⟩
  | inter refresh refs size highPrecision interpFilter =>
    have hkey : f.isKey = false := by rw [isKey, hkind]
    exact ⟨rfl, rfl, htype, rfl, rfl, rfl, hreset hkey, rfl, rfl⟩

theorem carried_apply {color : ColorConfig} (pp : PicParams) {pp' : PicParams}
    (hpp : pp.subsamplingX = false ∧ pp.subsamplingY = false)
    (hdepth : pp'.bitDepth = (color.apply profile pp).bitDepth)
    (hcolour : pp'.colour = (color.apply profile pp).colour) : color.Carried profile pp' := by
  obtain ⟨hspace, hrange, hx, hy⟩ : pp'.colorSpace = _ ∧ pp'.colorRange = _ ∧ pp'.subsamplingX = _ ∧
      pp'.subsamplingY = _ := by
    simpa [PicParams.colour] using hcolour
  refine ⟨hdepth, hspace, hrange, fun hcolor hone => ?_, fun hcolor hone => ?_,
    fun hcolor hone => ?_⟩
  · rw [hx, hy]
    unfold ColorConfig.apply
    dsimp only
    rw [if_neg hcolor, if_pos hone, if_neg hcolor, if_pos hone]
  · rw [hx, hy]
    unfold ColorConfig.apply
    dsimp only
    rw [if_neg hcolor, if_neg hone, if_neg hcolor, if_neg hone]
  · rw [hx, hy]
    unfold ColorConfig.apply
    dsimp only
    rw [if_pos hcolor, if_pos hcolor, hpp.1, hpp.2]

/-- The fields of the type are as they are written; an inter frame has colours of zero. -/
theorem kindCarried_result :
    f.KindCarried st colour profile (f.result st profile (.initial st profile)) ↔
    (f.isInter = true → colour = {}) := by
  rw [KindCarried, isInter, result, withKind]
  cases hkind : f.kind with
  | key color size =>
    refine ⟨fun _ h => Bool.noConfusion h, fun _ => ⟨?_, rfl⟩⟩
    exact carried_apply (f.opened (PicParams.initial st profile)) ⟨rfl, rfl⟩ rfl rfl
  | intraOnly color refresh size =>
    refine ⟨fun _ h => Bool.noConfusion h, fun _ => ⟨?_, rfl⟩⟩
    by_cases hzero : profile = 0
    · have hcolour :
          color.applyIntra profile (f.withReset (f.opened (PicParams.initial st profile))) = _ :=
        if_neg (by omega)
      dsimp only
      rw [if_pos hzero, hcolour]
      exact ⟨rfl, rfl, rfl, rfl⟩
    · have hcolour :
          color.applyIntra profile (f.withReset (f.opened (PicParams.initial st profile))) = _ :=
        if_pos (by omega)
      dsimp only
      rw [if_neg hzero, hcolour]
      exact carried_apply (f.withReset (f.opened (PicParams.initial st profile))) ⟨rfl, rfl⟩ rfl rfl
  | inter refresh refs size highPrecision interpFilter =>
    refine ⟨fun h _ => h.2.1.symm, fun h => ⟨rfl, (h rfl).symm, rfl, rfl, rfl, rfl⟩⟩

theorem lfCarried_iff (hst : st.Sized) :
    f.LfCarried (f.persistent st) (loopFilterParams st (!f.isInter) f.lf.read) ↔
      (f.isInter = true → f.errorResilient = true →
        Inherits f.lf.deltas.updates.1 st.prevLf.refDeltas defaultLf.refDeltas) ∧
      (f.isInter = true → f.errorResilient = true →
        Inherits f.lf.deltas.updates.2 st.prevLf.modeDeltas defaultLf.modeDeltas) := by
  rw [← (deltas_iff hst).1, ← (deltas_iff hst).2]
  refine ⟨fun h => ⟨h.refDeltas, h.modeDeltas⟩, fun h => ⟨rfl, rfl, rfl, ?_, ?_, h.1, h.2⟩⟩
  · intro hkept
    unfold loopFilterParams LoopFilterParams.apply LoopFilter.read
    simp [hkept]
  · intro refs modes hupdated
    unfold loopFilterParams LoopFilterParams.apply LoopFilter.read
    simp [hupdated]

theorem segCarried_iff : f.SegCarried st (f.persistent st) (segmentationParams st (readOf f.seg)) ↔
    (f.data = none → f.seg.isSome = f.isIndependent → st.prevSeg.Idle) := by
  rw [← features_iff]
  refine ⟨fun h => ⟨h.absDelta, h.features⟩, fun h => ⟨?_, ?_, ?_, ?_, ?_, ?_, h.1, h.2⟩⟩
  all_goals unfold segmentationParams readOf
  · cases f.seg with
    | none => rfl
    | some seg => rfl
  · cases f.seg with
    | none => rfl
    | some seg => simp
  · cases f.seg with
    | none => rfl
    | some seg => simp only [Option.isSome_some, if_true, Option.isSome_map]
  · unfold data
    cases f.seg with
    | none => rfl
    | some seg => simp
  · intro seg map hseg hmap
    simp [hseg, hmap]
  · intro seg hseg hmap
    simp [hseg, hmap]

theorem carried_iff (hst : st.Sized) :
    f.Carried st colour profile (f.result st profile (.initial st profile)) ↔
    f.Keeps st colour := by
  have hframed := framed_result st profile f
  have hlf : (f.result st profile (.initial st profile)).lf =
      loopFilterParams st (!f.isInter) f.lf.read := by
    rw [← isIntra_withKind st profile f (.initial st profile)]
    rfl
  constructor
  · intro h
    have hlfCarried := h.lf
    rw [hlf, lfCarried_iff hst] at hlfCarried
    exact ⟨kindCarried_result.mp h.kind, hlfCarried.1, hlfCarried.2, segCarried_iff.mp h.seg⟩
  · intro h
    have hlfCarried := (lfCarried_iff hst).mpr ⟨h.refDeltas, h.modeDeltas⟩
    rw [← hlf] at hlfCarried
    exact {
      sameProfile := hframed.sameProfile
      shows := hframed.shows
      frameType := hframed.frameType
      showFrame := hframed.showFrame
      errorResilient := hframed.errorResilient
      intraOnly := hframed.intraOnly
      reset := hframed.reset
      kind := kindCarried_result.mpr h.colour
      size := hframed.size
      render := hframed.render
      refreshContext := rfl
      parallel := rfl
      context := rfl
      lf := hlfCarried
      quantizer := rfl
      yDc := rfl
      uvDc := rfl
      uvAc := rfl
      seg := segCarried_iff.mpr h.features
      tileCols := rfl
      tileRows := rfl
      headerSize := rfl }

end CodedFrame

end Inheritance

section RoundTrip

variable {st : ParserState} {colour : Colour} {h : UncompressedHeader}

namespace UncompressedHeader

theorem carried_iff (hst : st.Sized) : h.Carried st colour (h.result st) ↔ h.Keeps st colour := by
  obtain ⟨profile, body⟩ := h
  unfold Carried Keeps result
  cases body with
  | existing idx => exact ⟨fun _ f hf => HeaderBody.noConfusion hf, fun _ => ⟨rfl, rfl, rfl⟩⟩
  | coded f =>
    dsimp only
    rw [CodedFrame.carried_iff hst]
    constructor
    · rintro hkeeps _ ⟨⟩
      exact hkeeps
    · intro hkeeps
      exact hkeeps f rfl

theorem write_ne_nil (st : ParserState) (h : UncompressedHeader) : 0 < (h.write st).length := by
  unfold write
  rw [List.length_append, length_msbs]
  omega

/-- The header is accepted with any bytes behind it. -/
theorem parseHeader_bytes (hexpr : h.Expressible st) (rest : List Byte) :
    ∃ frameSize, parseHeader st (h.bytes st ++ rest) =
    some ⟨h.result st, (h.bytes st).length, frameSize⟩ := by
  obtain ⟨pad, hpad⟩ := frameBits_packBits (h.write st)
  have hpos := write_ne_nil st h
  have hlen : (h.bytes st).length = ((h.write st).length + 7) / 8 := length_packBits _
  have hbits : frameBits (h.bytes st ++ rest) =
      h.write st ++ (List.replicate pad false ++ frameBits rest) := by
    rw [← List.append_assoc, ← hpad]
    exact List.flatMap_append
  have hne : h.bytes st ++ rest ≠ [] := by
    intro hnil
    have hzero := congrArg List.length hnil
    rw [List.length_append, hlen, List.length_nil] at hzero
    omega
  have hrun := reads_header hexpr (List.replicate pad false ++ frameBits rest)
  rw [← hbits] at hrun
  have htotal : 8 * (h.bytes st ++ rest).length =
      (h.write st).length + (List.replicate pad false ++ frameBits rest).length := by
    rw [← length_frameBits, hbits, List.length_append]
  have hparse := parseHeader_eq st (h.bytes st ++ rest) _ _ hrun hne
  dsimp only at hparse
  have hsize :
      (8 * (h.bytes st ++ rest).length - (List.replicate pad false ++ frameBits rest).length + 7) /
      8 =
      (h.bytes st).length := by omega
  rw [hsize] at hparse
  exact ⟨_, hparse⟩

/-- A part of the header is not. -/
theorem parseHeader_cut (hexpr : h.Expressible st) {n : Nat} (hn : n < (h.bytes st).length) :
    parseHeader st ((h.bytes st).take n) = none := by
  obtain ⟨pad, hpad⟩ := frameBits_packBits (h.write st)
  have hlen : (h.bytes st).length = ((h.write st).length + 7) / 8 := length_packBits _
  by_cases hnil : (h.bytes st).take n = []
  · rw [hnil]
    rfl
  · have hbits : frameBits ((h.bytes st).take n) = (h.write st).take (8 * n) := by
      rw [frameBits_take, bytes, hpad, List.take_append_of_le_length (by omega)]
    have hwhole := reads_header hexpr []
    rw [List.append_nil] at hwhole
    have hfail :=
      run_cut (congrArg Prod.snd hwhole) ⟨(h.write st).drop (8 * n), List.take_append_drop _ _⟩
      (by rw [List.length_take]; omega)
    rw [← hbits] at hfail
    generalize hrun : (parseUncompressedHeader st).run BitCursor.answer
      { bits := frameBits ((h.bytes st).take n) } = run at hfail
    rw [parseHeader_eq st _ run.1 run.2 hrun hnil, hfail]
    rfl

end UncompressedHeader

/-- Every header that can be written is accepted as it was written, and no part of it is; its fields
are those that were written or inherited just where it keeps to what the parser inherits. -/
theorem round_trip_iff (st : ParserState) (hst : st.Sized) (colour : Colour)
    (h : UncompressedHeader) (hexpr : h.Expressible st) (rest : List Byte) :
    h.RoundTrip st colour rest ↔ h.Keeps st colour := by
  obtain ⟨frameSize, hparse⟩ := UncompressedHeader.parseHeader_bytes hexpr rest
  rw [← UncompressedHeader.carried_iff hst]
  constructor
  · rintro ⟨⟨r, hr, hcarried, -⟩, -⟩
    rw [hparse] at hr
    cases hr
    exact hcarried
  · intro hcarried
    exact ⟨⟨_, hparse, hcarried, rfl⟩, fun n hn => UncompressedHeader.parseHeader_cut hexpr hn⟩

theorem zero_lt_three : 0 < 3 := by decide

theorem one_lt_three : 1 < 3 := by decide

/-- A frame of 64x64 that updates no deltas and has no segmentation. -/
def plainFrame (errorResilient : Bool) (kind : FrameKind) : UncompressedHeader :=
  ⟨⟨0, zero_lt_three⟩, .coded {
    showFrame := true, errorResilient := errorResilient, resetFrameContext := 0, kind := kind,
    render := none
    refreshFrameContext := true, frameParallel := false, frameContextIdx := 0, lf := ⟨8, 0, .kept⟩
    baseQindex := 60, yDcDeltaQ := none, uvDcDeltaQ := none,
    uvAcDeltaQ := some ⟨3, true⟩, seg := none
    tileColsLog2 := 0, tileRowsLog2 := ⟨1, one_lt_three⟩, headerSize := 5 }⟩

def plainKey : UncompressedHeader := plainFrame false (.key ⟨2, false, false, false⟩ ⟨63, 63⟩)

theorem sized_start : ParserState.Sized {} := ⟨rfl, rfl⟩

theorem expressible_plainKey : plainKey.Expressible {} := by
  rintro _ ⟨⟩
  exact ⟨by decide, fun _ _ _ _ _ h => FrameKind.noConfusion h, by decide, by decide, by decide⟩

theorem key_frame_round_trips : plainKey.RoundTrip {} {} [0x84, 0x21] := by
  refine (round_trip_iff {} sized_start {} plainKey expressible_plainKey [0x84, 0x21]).mpr ?_
  rintro _ ⟨⟩
  exact ⟨by decide, fun h => Bool.noConfusion h, fun h => Bool.noConfusion h, fun _ _ => ⟨rfl, rfl⟩⟩

/-- A state after a frame that set the first delta to 2. -/
def deltaState : ParserState :=
  { refSize := fun _ => some (64, 64),
    prevLf := { modeRefDeltaEnabled := true, refDeltas := [2, 0, -1, -1] } }

def plainResilient : UncompressedHeader :=
  plainFrame true (.inter 0 ⟨#[{}, {}, {}], rfl⟩ (.ofRef ⟨0, zero_lt_three⟩) false none)

theorem expressible_plainResilient : plainResilient.Expressible deltaState := by
  rintro _ ⟨⟩
  exact ⟨by decide, fun _ _ _ _ _ _ => rfl, by decide, by decide, by decide⟩

/-- An error-resilient frame keeps the delta, which the standard resets. -/
theorem resilient_frame_inherits_deltas :
    plainResilient.Expressible deltaState ∧ ¬plainResilient.RoundTrip deltaState {} [] := by
  refine ⟨expressible_plainResilient, ?_⟩
  rintro ⟨⟨r, hr, hcarried, -⟩, -⟩
  obtain ⟨frameSize, hparse⟩ := UncompressedHeader.parseHeader_bytes expressible_plainResilient []
  rw [hparse] at hr
  cases hr
  have hno : ¬(plainResilient.result deltaState).lf.refDeltas = [1, 0, -1, -1] := by decide
  exact hno hcarried.lf.refDeltas

end RoundTrip

end Rkvdec.Vp9
