import Rkvdec.Dense.Image
import Rkvdec.Engine.SlidingWindow
import Rkvdec.Bitstream.H264
import Rkvdec.Bitstream.H265
import Rkvdec.Engine.Repack

/-! The register builders of H.264 and H.265, and that the driver programs the codec with what they
emit. -/
namespace Rkvdec.Dense

open Bitstream.H264 (hasFlag)
open Engine.H264 (DpbEntry)
open Repack (validateResolution)

inductive RegBuildStatus where
  | missingInput
  | tooManyRegs
  | unsupported
deriving DecidableEq

/-- The resolution-scaled threshold of reg032. -/
def timeoutThresh (pixels : Nat) : BitVec 32 :=
  if pixels ≤ 1920 * 1088 then 0x00EFFFFF
  else if pixels ≤ 3840 * 2176 then 0x02CFFFFF
  else 0x04FFFFFF

/-- The output strides, in bytes. -/
def lumaStride (codedWidth bitDepthMinus8 : Nat) : Nat :=
  ((codedWidth * (if bitDepthMinus8 = 2 then 10 else 8) + 7) / 8 + 15) / 16 * 16

/-- A builder: its checks, then its emissions. -/
def buildDenseRegs (refuses : Option RegBuildStatus) (emits : List Emit) :
    Except RegBuildStatus DenseOutput :=
  match refuses with
  | some status => .error status
  | none =>
    match emitAll emits with
    | none => .error .tooManyRegs
    | some out => .ok out

theorem buildDenseRegs_reaches {emits : List Emit} {bufs : List Buffer} {mmioLen swregBase : Nat}
    (h : WellEmitted emits) (hbacked : ∀ e ∈ emits, e.backed bufs = true)
    (hwindow : 278 * 4 + swregBase ≤ mmioLen) :
    ∃ out, buildDenseRegs none emits = .ok out ∧ ReachesCodec bufs mmioLen swregBase emits out := by
  obtain ⟨out, hout, hreach⟩ := emits_reach_codec h hbacked hwindow
  exact ⟨out, by simp [buildDenseRegs, hout], hreach⟩

/-- The statistic bank of both codecs. -/
def statEmits : List Emit :=
  [.plain (256 * 4) 0xB, .plain (257 * 4) 1, .plain (270 * 4) 0x311300FF, .plain (271 * 4) 0]

section H264

/-- `H264BufferRefs`; a buffer is named by its handle, 0 for none. -/
structure H264BufferRefs where
  bitstream : Nat
  bitstreamOffset : Nat
  bitstreamSize : BitVec 32
  outputFrame : Nat
  colmvCur : Nat
  errorRef : Nat
  rcb : Fin 10 → Nat
  rcbOffset : Fin 10 → Nat
  ppsTable : Nat
  rpsTable : Nat
  cabacInitTable : Nat
  scalingList : Nat
  refs : Fin 16 → Nat
  refColmv : Fin 16 → Nat
deriving Inhabited

/-- `frame_dims`. -/
def frameDims (sps : Bitstream.H264.Sps) : Nat × Nat :=
  ((sps.picWidthInMbsMinus1 + 1) * 16,
    (sps.picHeightInMapUnitsMinus1 + 1) * 16 *
      if hasFlag sps.flags Bitstream.H264.spsFlagFrameMbsOnly then 1 else 2)

/-- The checks of `H264BuildDenseRegs` before it emits a register. -/
def h264Refuses (parsed : Bitstream.H264.ParseResult) (bufs : H264BufferRefs) :
    Option RegBuildStatus :=
  let sps := parsed.sps
  if ¬ (parsed.hasSps ∧ parsed.hasPps ∧ parsed.hasSlice) then some .missingInput
  else if bufs.bitstream = 0 ∨ bufs.outputFrame = 0 then some .missingInput
  else if hasFlag parsed.pps.flags Bitstream.H264.ppsFlagEntropyCodingMode ∧
    bufs.cabacInitTable = 0 then
    some .unsupported
  else if sps.chromaFormatIdc ≠ 1 then some .unsupported
  else if sps.bitDepthLumaMinus8 ≠ sps.bitDepthChromaMinus8 then some .unsupported
  else if sps.bitDepthLumaMinus8 ≠ 0 ∧ sps.bitDepthLumaMinus8 ≠ 2 then some .unsupported
  else if validateResolution (frameDims sps).1 (frameDims sps).2 = false then some .unsupported
  else none

/-- The reference bits of one slot in reg099 to reg102. -/
def refNibble (e : DpbEntry) : BitVec 32 :=
  if e.valid = false then 0
  else
    (if e.fields &&& 1 ≠ 0 then 2 else 0) ||| (if e.fields &&& 2 ≠ 0 then 4 else 0) |||
      (if e.fields &&& 3 = 3 then 2 ||| 4 else 0) ||| if e.active then 8 else 0

/-- The references of four slots. -/
def refFlags (dpb : Fin 16 → DpbEntry) (word : Fin 4) : BitVec 32 :=
  (List.finRange 4).foldl (fun (v : BitVec 32) (sub : Fin 4) =>
    v ||| (refNibble (dpb ⟨word * 4 + sub, by omega⟩) &&& 0xFF) <<< (sub.val * 8)) 0

/-- The emissions of `H264BuildDenseRegs` in their order. A test of a handle before `EMIT_I` is the
one that `emit_iova` makes. -/
def h264Emits (parsed : Bitstream.H264.ParseResult) (dpb : Fin 16 → DpbEntry)
    (bufs : H264BufferRefs) :
    List Emit :=
  let sps := parsed.sps
  let dec := parsed.decode
  let isIdr := hasFlag dec.flags Bitstream.H264.decodeParamFlagIdrPic
  let (width, height) := frameDims sps
  let mbW := (width + 15) / 16
  let mbH := (height + 15) / 16
  let stride := lumaStride (mbW * 16) sps.bitDepthLumaMinus8
  let clearIntra := (List.finRange 16).any fun i =>
    (dpb i).valid && 0 < (dpb i).frameNum.toNat && (dpb i).frameNum.toNat < dec.frameNum
  let fill : BitVec 32 := if isIdr then 0x33333333 else 0
  List.flatten (α := Emit) [
    [.plain (9 * 4) 1, .plain (11 * 4) 0x01000062,
      .plain (12 * 4) (0x180 ||| if hasFlag sps.flags Bitstream.H264.spsFlagFrameMbsOnly then 2
      else 0), .plain (13 * 4) (0x00048201 ||| if isIdr then 0x01000000 else 0),
      .plain (14 * 4) 0, .plain (15 * 4) 0, .plain (16 * 4) ((bufs.bitstreamSize + 15) &&& ~~~15),
      .plain (17 * 4) 0x3FFF, .plain (18 * 4) (.ofNat 32 (stride / 16)),
      .plain (19 * 4) (.ofNat 32 (stride / 16)),
      .plain (20 * 4) (.ofNat 32 (stride * (mbH * 16) / 16)),
      .plain (21 * 4) (4 ||| if clearIntra then 0 else 2), .plain (24 * 4) 0xFFFFFFFF,
      .plain (25 * 4) 0x3FF3FFFF, .plain (26 * 4) 0x800FFFEF, .plain (28 * 4) 0,
      .plain (32 * 4) (timeoutThresh (width * height))],
    statEmits,
    [.plain (64 * 4) 0, .plain (65 * 4) (.ofInt 32 dec.topFieldOrderCnt),
      .plain (66 * 4) (.ofInt 32 dec.bottomFieldOrderCnt)],
    (List.finRange 16).flatMap fun i : Fin 16 =>
      [.plain (67 * 4 + (i * 2 + 0) * 4) (.ofInt 32 (dpb i).topFieldOrderCnt),
        .plain (67 * 4 + (i * 2 + 1) * 4) (.ofInt 32 (dpb i).bottomFieldOrderCnt)],
    (List.finRange 4).map fun word : Fin 4 => .plain (99 * 4 + word * 4) (refFlags dpb word),
    [.plain (112 * 4) 0, .iova (128 * 4) bufs.bitstream bufs.bitstreamOffset,
      .iova (129 * 4) bufs.bitstream bufs.bitstreamOffset, .iova (130 * 4) bufs.outputFrame 0,
      .iova (131 * 4) bufs.colmvCur 0, .iova (132 * 4) bufs.errorRef 0],
    (List.finRange 10).map fun i : Fin 10 => .iova (133 * 4 + i * 4) (bufs.rcb i)
      (bufs.rcbOffset i),
    [.iova (161 * 4) bufs.ppsTable 0, .iova (163 * 4) bufs.rpsTable 0,
      .iova (180 * 4) (if bufs.scalingList ≠ 0 then bufs.scalingList else bufs.outputFrame) 0,
      .iova (197 * 4) bufs.cabacInitTable 0],
    (List.finRange 16).flatMap fun i : Fin 16 =>
      [.iova (164 * 4 + i * 4) (if bufs.refs i ≠ 0 then bufs.refs i else bufs.errorRef) 0,
        .iova (181 * 4 + i * 4) (if bufs.refColmv i ≠ 0 then bufs.refColmv i else bufs.colmvCur) 0],
    [.plain (200 * 4) fill, .plain (201 * 4) fill, .plain (202 * 4) fill, .plain (203 * 4) fill,
      .plain (204 * 4) 0, .plain (kickRegIdx * 4) 1]]

def h264BuildDenseRegs (parsed : Bitstream.H264.ParseResult) (dpb : Fin 16 → DpbEntry)
    (bufs : H264BufferRefs) : Except RegBuildStatus DenseOutput :=
  buildDenseRegs (h264Refuses parsed bufs) (h264Emits parsed dpb bufs)

variable {parsed : Bitstream.H264.ParseResult} {dpb : Fin 16 → DpbEntry} {refs : H264BufferRefs}
  {bufs : List Buffer} {mmioLen swregBase : Nat}

theorem h264_wellEmitted : WellEmitted (h264Emits parsed dpb refs) where
  distinct := by
    have hregs : (h264Emits parsed dpb refs).map Emit.reg =
        (h264Emits {} (fun _ => {}) default).map Emit.reg := rfl
    rw [hregs]
    decide +kernel
  lands := List.all_eq_true.mp (show (h264Emits parsed dpb refs).all Emit.lands = true from rfl)
  safe := List.all_eq_true.mp (show (h264Emits parsed dpb refs).all Emit.safe = true from rfl)
  room := (show (h264Emits parsed dpb refs).countP Emit.isIova = 51 from rfl).trans_le (by decide)
  kick := ⟨1, by simp [h264Emits], by decide⟩

/-- For every access unit that `H264BuildDenseRegs` does not refuse and whose buffers are the
file's, the driver accepts the output, and the codec is programmed with every register as emitted,
the rest zero. -/
theorem h264_registers_reach_codec (haccept : h264Refuses parsed refs = none)
    (hbacked : ∀ e ∈ h264Emits parsed dpb refs, e.backed bufs = true)
    (hwindow : 278 * 4 + swregBase ≤ mmioLen) :
    ∃ out, h264BuildDenseRegs parsed dpb refs = .ok out ∧
      ReachesCodec bufs mmioLen swregBase (h264Emits parsed dpb refs) out := by
  rw [h264BuildDenseRegs, haccept]
  exact buildDenseRegs_reaches h264_wellEmitted hbacked hwindow

/-- A 1920x1088 picture without references, all of whose buffers are one. -/
def h264Picture : Bitstream.H264.ParseResult where
  hasSps := true
  hasPps := true
  hasSlice := true
  sps := { chromaFormatIdc := 1, picWidthInMbsMinus1 := 119, picHeightInMapUnitsMinus1 := 67,
           flags := 0x10 }

def h264PictureRefs : H264BufferRefs :=
  { (default : H264BufferRefs) with
    bitstream := 2, bitstreamOffset := 4, outputFrame := 2, errorRef := 2 }

theorem h264_registers_reach_codec_picture :
    ∃ out, h264BuildDenseRegs h264Picture (fun _ => {}) h264PictureRefs = .ok out ∧
      ReachesCodec oneBuffer 0x800 0x100
        (h264Emits h264Picture (fun _ => {}) h264PictureRefs) out :=
  h264_registers_reach_codec (by decide) (by decide +kernel) (by decide)

end H264

section H265

/-- `H265BufferRefs` as far as the builder reads it. -/
structure H265BufferRefs where
  bitstream : Nat
  bitstreamOffset : Nat
  bitstreamSize : BitVec 32
  outputFrame : Nat
  colmvCur : Nat
  errorRef : Nat
  rcb : Fin 10 → Nat
  rcbOffset : Fin 10 → Nat
  ppsTable : Nat
  rpsTable : Nat
  scanlist : Nat
  cabacInitTable : Nat
  refs : Fin 16 → Nat
  refColmv : Fin 16 → Nat
  refPoc : Fin 16 → Int
  refPocHigh : Fin 16 → BitVec 8
deriving Inhabited

def h265Sps (parsed : Bitstream.H265.ParseResult) : Bitstream.H265.Sps :=
  parsed.sps.getD parsed.activeSpsId.toNat {}

/-- The checks of `H265BuildDenseRegs` before it emits a register. -/
def h265Refuses (parsed : Bitstream.H265.ParseResult) (bufs : H265BufferRefs) :
    Option RegBuildStatus :=
  let sps := h265Sps parsed
  let pps := parsed.pps.getD parsed.activePpsId.toNat {}
  if parsed.hasSlice = false then some .missingInput
  else if parsed.activeSpsId < 0 ∨ parsed.activePpsId < 0 then some .missingInput
  else if bufs.bitstream = 0 ∨ bufs.outputFrame = 0 ∨ bufs.colmvCur = 0 then some .missingInput
  else if bufs.cabacInitTable = 0 then some .unsupported
  else if ¬ (sps.valid ∧ pps.valid) then some .missingInput
  else if sps.chromaFormatIdc ≠ 1 then some .unsupported
  else if sps.bitDepthLumaMinus8 ≠ sps.bitDepthChromaMinus8 then some .unsupported
  else if sps.bitDepthLumaMinus8 ≠ 0 ∧ sps.bitDepthLumaMinus8 ≠ 2 then some .unsupported
  else if validateResolution sps.picWidthInLumaSamples sps.picHeightInLumaSamples = false then
    some .unsupported
  else none

/-- `set_bits`. -/
def setBits (reg value : BitVec 32) (shift : Nat) (mask : BitVec 32) : BitVec 32 :=
  (reg &&& ~~~(mask <<< shift)) ||| ((value &&& mask) <<< shift)

/-- reg099: the slots in use, four to a byte. -/
def refValid (bufs : H265BufferRefs) : BitVec 32 :=
  (List.finRange 15).foldl (fun (reg : BitVec 32) (i : Fin 15) =>
    if bufs.refs (i.castLE (by decide)) ≠ 0 then reg ||| 1 <<< (i.val % 4 + i.val / 4 * 8)
    else reg) 0

/-- reg200 and reg201: the high bits of eight references. -/
def pocHighbits (bufs : H265BufferRefs) (isIdr : Bool) (half : Fin 2) : BitVec 32 :=
  (List.finRange 8).foldl (fun (reg : BitVec 32) (i : Fin 8) =>
    let idx : Fin 16 := ⟨half * 8 + i, by omega⟩
    let nib : BitVec 32 :=
      if idx = 15 then 0
      else if bufs.refs idx ≠ 0 then (bufs.refPocHigh idx).setWidth 32 &&& 0xF
      else if isIdr then 3 else 0
    setBits reg nib (i.val * 4) 0xF) 0

/-- The emissions of `H265BuildDenseRegs` in their order. -/
def h265Emits (parsed : Bitstream.H265.ParseResult) (bufs : H265BufferRefs) : List Emit :=
  let sps := h265Sps parsed
  let width := sps.picWidthInLumaSamples
  let height := sps.picHeightInLumaSamples
  let stride := lumaStride ((width + 15) / 16 * 16) sps.bitDepthLumaMinus8
  let fallback := if bufs.errorRef ≠ 0 then bufs.errorRef else bufs.outputFrame
  List.flatten (α := Emit) [
    [.plain (9 * 4) 0, .plain (11 * 4) 0x01000062,
      .plain (12 * 4) (0x83 ||| if sps.scalingListEnabledFlag ≠ 0 then 0x100 else 0),
      .plain (13 * 4) (0x00048201 ||| if parsed.isIdr then 0x01000000 else 0), .plain (14 * 4) 0,
      .plain (15 * 4) 0, .plain (16 * 4) (((bufs.bitstreamSize + 15) &&& ~~~15) + 64),
      .plain (17 * 4) 1, .plain (18 * 4) (.ofNat 32 (stride / 16)),
      .plain (19 * 4) (.ofNat 32 (stride / 16)),
      .plain (20 * 4) (.ofNat 32 (stride * ((height + 15) / 16 * 16) / 16)),
      .plain (21 * 4) (4 ||| if parsed.isIdr ∨ parsed.slice.sliceType = 2 then 2 else 0),
      .plain (24 * 4) 0xFFFFDFFF, .plain (25 * 4) 0x3FFBF9FF, .plain (26 * 4) 0x800FFFEF,
      .plain (32 * 4) (timeoutThresh (width * height)), .plain (64 * 4) 0,
      .plain (65 * 4) (.ofInt 32 parsed.poc), .plain (66 * 4) 0],
    (List.finRange 16).map fun i : Fin 16 =>
      .plain (67 * 4 + i * 4) (if bufs.refs i ≠ 0 then .ofInt 32 (bufs.refPoc i) else 0),
    [.plain (99 * 4) (refValid bufs), .plain (103 * 4) 0xFFFF,
      .iova (128 * 4) bufs.bitstream bufs.bitstreamOffset,
      .iova (129 * 4) bufs.bitstream bufs.bitstreamOffset, .iova (130 * 4) bufs.outputFrame 0,
      .iova (131 * 4) bufs.colmvCur 0, .iova (132 * 4) fallback 0],
    (List.finRange 10).map fun i : Fin 10 => .iova (133 * 4 + i * 4) (bufs.rcb i)
      (bufs.rcbOffset i),
    [.iova (161 * 4) bufs.ppsTable 0, .iova (163 * 4) bufs.rpsTable 0],
    (List.finRange 16).map fun i : Fin 16 =>
      .iova (164 * 4 + i * 4) (if bufs.refs i ≠ 0 then bufs.refs i else fallback) 0,
    [if bufs.scanlist ≠ 0 then .iova (180 * 4) bufs.scanlist 0 else .plain (180 * 4) 0],
    (List.finRange 16).map fun i : Fin 16 =>
      .iova (181 * 4 + i * 4) (if bufs.refColmv i ≠ 0 then bufs.refColmv i else bufs.colmvCur) 0,
    [.iova (197 * 4) bufs.cabacInitTable 0, .plain (200 * 4) (pocHighbits bufs parsed.isIdr 0),
      .plain (201 * 4) (pocHighbits bufs parsed.isIdr 1), .plain (202 * 4) 0, .plain (203 * 4) 0,
      .plain (204 * 4) (if parsed.poc < 0 then 0xF else 0)],
    statEmits,
    [.plain (kickRegIdx * 4) 1]]

def h265BuildDenseRegs (parsed : Bitstream.H265.ParseResult) (bufs : H265BufferRefs) :
    Except RegBuildStatus DenseOutput :=
  buildDenseRegs (h265Refuses parsed bufs) (h265Emits parsed bufs)

variable {parsed : Bitstream.H265.ParseResult} {refs : H265BufferRefs} {bufs : List Buffer}
  {mmioLen swregBase : Nat}

theorem h265_wellEmitted : WellEmitted (h265Emits parsed refs) := by
  have hall : (h265Emits parsed refs).map Emit.reg = (h265Emits {} default).map Emit.reg ∧
      (h265Emits parsed refs).all Emit.lands = true ∧ (h265Emits parsed refs).all Emit.safe = true ∧
      (h265Emits parsed refs).countP Emit.isIova ≤ maxDenseIovaSlots := by
    unfold h265Emits
    dsimp only
    by_cases hscan : refs.scanlist ≠ 0
    · rw [if_pos hscan]
      exact ⟨rfl, rfl, rfl, Nat.le_of_ble_eq_true rfl⟩
    · rw [if_neg hscan]
      exact ⟨rfl, rfl, rfl, Nat.le_of_ble_eq_true rfl⟩
  refine ⟨?_, List.all_eq_true.mp hall.2.1, List.all_eq_true.mp hall.2.2.1, hall.2.2.2, 1,
    ?_, by decide⟩
  · rw [hall.1]
    decide +kernel
  · simp [h265Emits]

/-- The same for `H265BuildDenseRegs`. -/
theorem h265_registers_reach_codec (haccept : h265Refuses parsed refs = none)
    (hbacked : ∀ e ∈ h265Emits parsed refs, e.backed bufs = true)
    (hwindow : 278 * 4 + swregBase ≤ mmioLen) :
    ∃ out, h265BuildDenseRegs parsed refs = .ok out ∧
      ReachesCodec bufs mmioLen swregBase (h265Emits parsed refs) out := by
  rw [h265BuildDenseRegs, haccept]
  exact buildDenseRegs_reaches h265_wellEmitted hbacked hwindow

/-- A 1920x1080 IDR picture, all of whose buffers are one. -/
def h265Picture : Bitstream.H265.ParseResult where
  hasSlice := true
  isIdr := true
  activeSpsId := 0
  activePpsId := 0
  sps := { valid := true, chromaFormatIdc := 1, picWidthInLumaSamples := 1920,
           picHeightInLumaSamples := 1080 } :: List.replicate 15 {}
  pps := { valid := true } :: List.replicate 63 {}

def h265PictureRefs : H265BufferRefs :=
  { (default : H265BufferRefs) with
    bitstream := 2, bitstreamOffset := 4, outputFrame := 2, colmvCur := 2, cabacInitTable := 2 }

theorem h265_registers_reach_codec_picture :
    ∃ out, h265BuildDenseRegs h265Picture h265PictureRefs = .ok out ∧
      ReachesCodec oneBuffer 0x800 0x100 (h265Emits h265Picture h265PictureRefs) out :=
  h265_registers_reach_codec (by decide) (by decide +kernel) (by decide)

end H265

end Rkvdec.Dense
