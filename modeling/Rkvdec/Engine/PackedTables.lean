import Rkvdec.Bitstream.H265

/-! The tables of `h265_packed_tables.cpp` that the codec reads its H.265 parameter sets from. -/
namespace Rkvdec.Engine.Tables

open Bitstream (Byte u8 u16)
open Bitstream.H265 (Vps Sps Pps ScalingList ParseResult)

section BitPacker

/-- `BitPacker` over a buffer of `cap` words that starts out zero. `data` are the words, the first
one in the low bits, and `pos` is `word_idx * 64 + bit_in_word`. -/
structure BitPacker where
  cap : Nat
  pos : Nat := 0
  data : Nat := 0

namespace BitPacker

/-- Bits behind the last word are lost. -/
def put (bp : BitPacker) (value nbits : Nat) : BitPacker :=
  if nbits = 0 ∨ bp.cap ≤ bp.pos / 64 then bp
  else
    { bp with
      data := (bp.data ||| (value % 2 ^ nbits) <<< bp.pos) % 2 ^ (64 * bp.cap)
      pos := bp.pos + nbits }

def skip (bp : BitPacker) (nbits : Nat) : BitPacker :=
  let total := bp.pos + nbits
  { bp with pos := if bp.cap < total / 64 then bp.cap * 64 + total % 64 else total }

/-- Pad to the next multiple of `nBits`, which is at most 64, in chunks of 32 bits. -/
def align (bp : BitPacker) (nBits : Nat) (fill : Bool) : BitPacker :=
  let pad := (nBits - bp.pos % nBits) % nBits
  let pattern := if fill then 2 ^ 64 - 1 else 0
  (bp.put pattern (min pad 32)).put pattern (pad - min pad 32)

/-- A row of fields with their widths. -/
def puts (bp : BitPacker) (fields : List (Nat × Nat)) : BitPacker :=
  fields.foldl (fun bp f => bp.put f.1 f.2) bp

def bytes (bp : BitPacker) : List Byte :=
  (List.range (8 * bp.cap)).map fun i => BitVec.ofNat 8 (bp.data / 2 ^ (8 * i))

end BitPacker

end BitPacker

section Sizes

def spsPpsSlotSize : Nat := 112
def spsPpsNumSlots : Nat := 64
def spsPpsUnitSize : Nat := spsPpsSlotSize * spsPpsNumSlots
def rpsSize : Nat := 400 * 8
def scalingListSize : Nat := 1360
def tableTailPad : Nat := 128

end Sizes

/-- The conversion of a signed field to `uint8_t`. -/
def toU8 (n : Int) : Nat := (n % 2 ^ 8).toNat

section PackPps

def spsFields (vps : Option Vps) (sps : Sps) : List (Nat × Nat) :=
  let pcm (n : Nat) : Nat := if sps.pcmEnabledFlag ≠ 0 then n else 0
  let dpbIdx := min sps.spsMaxSubLayersMinus1 (Bitstream.H265.maxSubLayers - 1)
  [((vps.map Vps.vpsId).getD 0, 4),
    (sps.spsId, 4),
    (sps.chromaFormatIdc, 2),
    (sps.picWidthInLumaSamples, 16),
    (sps.picHeightInLumaSamples, 16),
    (sps.bitDepthLumaMinus8 + 8, 4),
    (sps.bitDepthChromaMinus8 + 8, 4),
    (sps.log2MaxPicOrderCntLsbMinus4 + 4, 5),
    (sps.log2DiffMaxMinLumaCodingBlockSize, 2),
    (sps.log2MinLumaCodingBlockSizeMinus3 + 3, 3),
    (sps.log2MinLumaTransformBlockSizeMinus2 + 2, 3),
    (sps.log2DiffMaxMinLumaTransformBlockSize, 2),
    (sps.maxTransformHierarchyDepthInter, 3),
    (sps.maxTransformHierarchyDepthIntra, 3),
    (sps.scalingListEnabledFlag, 1),
    (sps.ampEnabledFlag, 1),
    (sps.sampleAdaptiveOffsetEnabledFlag, 1),
    (sps.pcmEnabledFlag, 1),
    (pcm (sps.pcmSampleBitDepthLumaMinus1 + 1), 4),
    (pcm (sps.pcmSampleBitDepthChromaMinus1 + 1), 4),
    (sps.pcmLoopFilterDisabledFlag, 1),
    (sps.log2DiffMaxMinPcmLumaCodingBlockSize, 3),
    (pcm (sps.log2MinPcmLumaCodingBlockSizeMinus3 + 3), 3),
    (sps.numShortTermRefPicSets, 7),
    (sps.longTermRefPicsPresentFlag, 1),
    (sps.numLongTermRefPicsSps, 6),
    (sps.spsTemporalMvpEnabledFlag, 1),
    (sps.strongIntraSmoothingEnabledFlag, 1),
    (0, 7),
    (sps.spsMaxDecPicBufferingMinus1.getD dpbIdx 0, 4),
    (0, 3)]

/-- The log2 of the quantisation group size, in 3 bits. -/
def log2Qg (sps : Sps) (pps : Pps) : Nat :=
  let qg : Int := sps.log2MinLumaCodingBlockSizeMinus3 + 3 + sps.log2DiffMaxMinLumaCodingBlockSize -
    pps.diffCuQpDeltaDepth
  if qg < 0 then 0 else if 7 < qg then 7 else qg.toNat

def ppsFields (sps : Sps) (pps : Pps) : List (Nat × Nat) :=
  let tiles (n : Nat) : Nat := if pps.tilesEnabledFlag ≠ 0 then n else 0
  [(pps.ppsId, 6),
    (pps.spsId, 4),
    (pps.dependentSliceSegmentsEnabledFlag, 1),
    (pps.outputFlagPresentFlag, 1),
    (pps.numExtraSliceHeaderBits, 13),
    (pps.signDataHidingEnabledFlag, 1),
    (pps.cabacInitPresentFlag, 1),
    (pps.numRefIdxL0DefaultActiveMinus1 + 1, 4),
    (pps.numRefIdxL1DefaultActiveMinus1 + 1, 4),
    (toU8 pps.initQpMinus26, 7),
    (pps.constrainedIntraPredFlag, 1),
    (pps.transformSkipEnabledFlag, 1),
    (pps.cuQpDeltaEnabledFlag, 1),
    (log2Qg sps pps, 3),
    (toU8 pps.ppsCbQpOffset, 5),
    (toU8 pps.ppsCrQpOffset, 5),
    (pps.ppsSliceChromaQpOffsetsPresentFlag, 1),
    (pps.weightedPredFlag, 1),
    (pps.weightedBipredFlag, 1),
    (pps.transquantBypassEnabledFlag, 1),
    (pps.tilesEnabledFlag, 1),
    (pps.entropyCodingSyncEnabledFlag, 1),
    (pps.ppsLoopFilterAcrossSlicesEnabledFlag, 1),
    (pps.loopFilterAcrossTilesEnabledFlag, 1),
    (pps.deblockingFilterOverrideEnabledFlag, 1),
    (pps.ppsDeblockingFilterDisabledFlag, 1),
    (toU8 pps.ppsBetaOffsetDiv2, 4),
    (toU8 pps.ppsTcOffsetDiv2, 4),
    (pps.listsModificationPresentFlag, 1),
    (pps.log2ParallelMergeLevelMinus2 + 2, 3),
    (pps.sliceSegmentHeaderExtensionPresentFlag, 1),
    (0, 3),
    (tiles (pps.numTileColumnsMinus1 + 1), 5),
    (tiles (pps.numTileRowsMinus1 + 1), 5),
    (0, 4)]

/-- The sizes in coding tree blocks of up to `size` tiles in one direction: one tile, or `n` of
uniform spacing. -/
def tileSizes (sps : Sps) (pps : Pps) (size samples n : Nat) : List Nat :=
  let maxCu :=
    2 ^ (sps.log2DiffMaxMinLumaCodingBlockSize + sps.log2MinLumaCodingBlockSizeMinus3 + 3)
  let ctbs := (samples + maxCu - 1) / maxCu
  (List.range size).map fun i =>
    if pps.tilesEnabledFlag = 0 then (if i = 0 then u16 ctbs else 0)
    else if i < n then u16 ((i + 1) * ctbs / n - i * ctbs / n)
    else 0

/-- `column_width` and `row_height`, less one where there is a tile. -/
def tileFields (sps : Sps) (pps : Pps) : List (Nat × Nat) :=
  (tileSizes sps pps 20 sps.picWidthInLumaSamples (pps.numTileColumnsMinus1 + 1) ++
    tileSizes sps pps 22 sps.picHeightInLumaSamples (pps.numTileRowsMinus1 + 1)).map
      fun v => (v - 1, 12)

def ppsPacket (vps : Option Vps) (sps : Sps) (pps : Pps) : BitPacker :=
  let bp : BitPacker := { cap := 14 }
  let bp := (bp.puts (spsFields vps sps)).align 32 true
  let bp := (bp.puts (ppsFields sps pps)).align 64 true
  let bp := bp.puts (tileFields sps pps)
  (bp.puts [(0, 32), (0, 32), (0, 32), (0, 6)]).align 64 true

/-- `H265PackPPS`: what is written to the front of the buffer; `none` is a buffer that is too
small. -/
def packPps (vps : Option Vps) (sps : Sps) (pps : Pps) (outSize : Nat) : Option (List Byte) :=
  if outSize < spsPpsUnitSize then none
  else some (List.replicate spsPpsNumSlots (ppsPacket vps sps pps).bytes).flatten

end PackPps

section PackRps

def longTermFields (bp : BitPacker) (sps : Option Sps) : BitPacker :=
  match sps with
  | none => bp.skip (32 * 32)
  | some sps =>
    if sps.longTermRefPicsPresentFlag ≠ 0 ∧ 0 < sps.numLongTermRefPicsSps then
      (List.range 32).foldl (fun bp i =>
        if i < sps.numLongTermRefPicsSps then
          ((bp.put (sps.ltRefPicPocLsbSps.getD i 0) 16).put
            (sps.usedByCurrPicLtSpsFlag.getD i 0) 1).skip 15
        else bp.skip 32) bp
    else bp.skip (32 * 32)

/-- The coded entries of a short-term set, at most 15. -/
def shortTermFields (rps : Bitstream.H265.ShortTermRps) : List (Nat × Nat) :=
  let neg := min rps.numNegativePics 15
  let pos := min rps.numPositivePics (15 - neg)
  let entry (i : Nat) : List (Nat × Nat) :=
    [((rps.deltaPoc.getD i 0 % 2 ^ 16).toNat, 16), (rps.usedByCurrPicFlag.getD i 0, 1)]
  [(rps.numNegativePics, 4), (rps.numPositivePics, 4)] ++
    (List.range (neg + pos)).flatMap entry ++
    (List.replicate (15 - (neg + pos)) [(0, 16), (0, 1)]).flatten

/-- The active SPS, when it is valid. -/
def activeValidSps (parsed : ParseResult) : Option Sps :=
  if 0 ≤ parsed.activeSpsId ∧ parsed.activeSpsId < Bitstream.H265.maxSps then
    let sps := parsed.sps.getD parsed.activeSpsId.toNat {}
    if sps.valid then some sps else none
  else none

/-- `H265PackRPS`. -/
def packRps (parsed : ParseResult) (outSize : Nat) : Option (List Byte) :=
  if outSize < rpsSize then none
  else
    let sps := activeValidSps parsed
    let bp := longTermFields { cap := 400 } sps
    let nStrps := min (min ((sps.map Sps.numShortTermRefPicSets).getD 0)
      Bitstream.H265.maxShortTermRps) 64
    let bp := (List.range 64).foldl (fun bp i =>
      let bp :=
        if i < nStrps then
          bp.puts (shortTermFields ((sps.map Sps.stRps).getD [] |>.getD i {}))
        else bp.skip 263
      (bp.align 64 false).skip 64) bp
    some bp.bytes

end PackRps

section PackScalingList

/-- A block of `dim * dim` coefficients, transposed. -/
def transpose (dim : Nat) (l : List Nat) : List Nat :=
  (List.range dim).flatMap fun i => (List.range dim).map fun k => l.getD (k * dim + i) 0

/-- The PPS list if there is one, else that of the SPS. -/
def activeScalingList (sps : Sps) (pps : Pps) : ScalingList :=
  if pps.ppsScalingListDataPresentFlag ≠ 0 then pps.scalingList else sps.scalingList

/-- `H265PackScalingList`: four groups of transposed matrices, the 4x4 ones once more as they are,
and the DC coefficients. -/
def packScalingList (sps : Sps) (pps : Pps) (outSize : Nat) : Option (List Byte) :=
  if outSize < scalingListSize then none
  else
    let sl := activeScalingList sps pps
    let blocks (dim n : Nat) (lists : List (List Nat)) : List Nat :=
      (List.range n).flatMap fun m => transpose dim (lists.getD m [])
    let factor0 := blocks 4 6 sl.scalingList4x4 ++ blocks 8 6 sl.scalingList8x8 ++
      blocks 8 6 sl.scalingList16x16 ++ blocks 8 2 sl.scalingList32x32 ++ List.replicate (4 * 64) 0
    let factor1 := (List.range 6).flatMap fun m =>
      transpose 4 (transpose 4 (sl.scalingList4x4.getD m []))
    let dc := (List.range 6).map (sl.scalingListDc16x16.getD · 0) ++
      (List.range 2).flatMap fun m => [sl.scalingListDc32x32.getD m 0, 0, 0]
    some ((factor0 ++ factor1 ++ dc ++ List.replicate 4 0).map (BitVec.ofNat 8))

end PackScalingList

end Rkvdec.Engine.Tables
