import Rkvdec.Bitstream.Mirroring
import Rkvdec.Engine.RpsTable
import Rkvdec.Lib.Cuts

/-! The unit of the H.265 parameter sets: what its fields decode to again, and the tiles they
give. -/
namespace Rkvdec.Engine.ParameterUnit

open Lib (field fields fields_append length_fields ofBytes signed signed_eq_iff share shares
  share_le sum_shares max_shares_eq_iff)
open Tables (BitPacker spsFields ppsFields tileFields tileSizes ppsPacket packPps log2Qg toU8
  spsPpsUnitSize spsPpsNumSlots)
open Rps (Clean Extends extends_puts extends_align Returns returns_pure returns_brU8)
open Bitstream (BitReader Parser Gives Mirrors Reports exec exec_bind_ok brU brUe brSe flag u8 u16)
open Bitstream.H265 (P ParseResult Vps Sps Pps parseVps parseSps parsePps brU8 brUe8)

section Slot

/-- A field of the slot: what it is to say, its width, and whether it is in two's complement. -/
structure SlotField where
  value : Int
  width : Nat
  signed : Bool := false

/-- The value of the field where the slot has `n`. -/
def SlotField.read (f : SlotField) (n : Nat) : Int := if f.signed then Lib.signed f.width n else n

/-- The value has room. -/
def SlotField.Fits (f : SlotField) : Prop :=
  if f.signed then -2 ^ (f.width - 1) ≤ f.value ∧ f.value < 2 ^ (f.width - 1) else 0 ≤ f.value ∧
    f.value < 2 ^ f.width

instance : DecidablePred SlotField.Fits :=
  fun f => inferInstanceAs (Decidable (if f.signed then _ else _))

def unsigned (f : Nat × Nat) : SlotField := ⟨f.1, f.2, false⟩

/-- The fields of the SPS section. -/
def spsSlot (vps : Option Vps) (sps : Sps) : List SlotField := (spsFields vps sps).map unsigned

/-- The fields of the PPS section, with the offsets signed and the size of the quantisation group as
it is. -/
def ppsSlot (sps : Sps) (pps : Pps) : List SlotField :=
  let tiles (n : Nat) : Nat := if pps.tilesEnabledFlag ≠ 0 then n else 0
  [⟨pps.ppsId, 6, false⟩,
    ⟨pps.spsId, 4, false⟩,
    ⟨pps.dependentSliceSegmentsEnabledFlag, 1, false⟩,
    ⟨pps.outputFlagPresentFlag, 1, false⟩,
    ⟨pps.numExtraSliceHeaderBits, 13, false⟩,
    ⟨pps.signDataHidingEnabledFlag, 1, false⟩,
    ⟨pps.cabacInitPresentFlag, 1, false⟩,
    ⟨pps.numRefIdxL0DefaultActiveMinus1 + 1, 4, false⟩,
    ⟨pps.numRefIdxL1DefaultActiveMinus1 + 1, 4, false⟩,
    ⟨pps.initQpMinus26, 7, true⟩,
    ⟨pps.constrainedIntraPredFlag, 1, false⟩,
    ⟨pps.transformSkipEnabledFlag, 1, false⟩,
    ⟨pps.cuQpDeltaEnabledFlag, 1, false⟩,
    ⟨(sps.log2MinLumaCodingBlockSizeMinus3 + 3 + sps.log2DiffMaxMinLumaCodingBlockSize : Int) -
      pps.diffCuQpDeltaDepth, 3, false⟩,
    ⟨pps.ppsCbQpOffset, 5, true⟩,
    ⟨pps.ppsCrQpOffset, 5, true⟩,
    ⟨pps.ppsSliceChromaQpOffsetsPresentFlag, 1, false⟩,
    ⟨pps.weightedPredFlag, 1, false⟩,
    ⟨pps.weightedBipredFlag, 1, false⟩,
    ⟨pps.transquantBypassEnabledFlag, 1, false⟩,
    ⟨pps.tilesEnabledFlag, 1, false⟩,
    ⟨pps.entropyCodingSyncEnabledFlag, 1, false⟩,
    ⟨pps.ppsLoopFilterAcrossSlicesEnabledFlag, 1, false⟩,
    ⟨pps.loopFilterAcrossTilesEnabledFlag, 1, false⟩,
    ⟨pps.deblockingFilterOverrideEnabledFlag, 1, false⟩,
    ⟨pps.ppsDeblockingFilterDisabledFlag, 1, false⟩,
    ⟨pps.ppsBetaOffsetDiv2, 4, true⟩,
    ⟨pps.ppsTcOffsetDiv2, 4, true⟩,
    ⟨pps.listsModificationPresentFlag, 1, false⟩,
    ⟨pps.log2ParallelMergeLevelMinus2 + 2, 3, false⟩,
    ⟨pps.sliceSegmentHeaderExtensionPresentFlag, 1, false⟩,
    ⟨0, 3, false⟩,
    ⟨tiles (pps.numTileColumnsMinus1 + 1), 5, false⟩,
    ⟨tiles (pps.numTileRowsMinus1 + 1), 5, false⟩,
    ⟨0, 4, false⟩]

/-- The values of fields that follow each other. -/
def readFields (d : Nat) : Nat → List SlotField → List Int
  | _, [] => []
  | pos, f :: fs => f.read (field d pos f.width) :: readFields d (pos + f.width) fs

/-- The sizes of tiles: each has 12 bits, for its size less one. -/
def decodeSizes (d pos count : Nat) : List Int :=
  (fields d pos (List.replicate count 12)).map fun n : Nat => (n : Int) + 1

end Slot

section Geometry

/-- How a PPS divides one direction of the picture: evenly, or with the sizes of all tiles but the
last one, each less one. -/
inductive Spacing where
  | uniform (count : Nat)
  | explicit (sizesMinus1 : List Nat)
deriving DecidableEq

/-- The tiles that a PPS codes. -/
structure TileSyntax where
  columns : Spacing := .uniform 1
  rows : Spacing := .uniform 1
deriving DecidableEq

def Spacing.count : Spacing → Nat
  | uniform count => count
  | explicit sizesMinus1 => sizesMinus1.length + 1

/-- `colWidth` and `rowHeight` of the standard in a direction of `w` coding tree blocks. -/
def Spacing.sizes (w : Nat) : Spacing → List Int
  | uniform count => (shares w count).map fun n : Nat => (n : Int)
  | explicit sizesMinus1 =>
    sizesMinus1.map (fun n : Nat => (n : Int) + 1) ++
      [(w : Int) - ((sizesMinus1.map (· + 1)).sum : Nat)]

/-- Each tile has a block, and together they have all. -/
def Tiles (w : Nat) (sizes : List Int) : Prop := (∀ n ∈ sizes, 1 ≤ n) ∧ sizes.sum = w

def readSizes : Nat → P (List Nat)
  | 0 => pure []
  | n + 1 => do
    let size ← brUe
    let sizes ← readSizes n
    pure (size :: sizes)

def readTiles : P TileSyntax := do
  let columnsMinus1 ← brUe
  let rowsMinus1 ← brUe
  let uniform ← brU8 1
  if uniform = 0 then
    let widths ← readSizes columnsMinus1
    let heights ← readSizes rowsMinus1
    pure ⟨.explicit widths, .explicit heights⟩
  else pure ⟨.uniform (columnsMinus1 + 1), .uniform (rowsMinus1 + 1)⟩

/-- The elements in front, which give `tiles_enabled_flag`. -/
def readTilesFlag : P Nat := do
  let _ ← brU8 1
  let _ ← brU8 1
  let _ ← brU8 3
  let _ ← brU8 1
  let _ ← brU8 1
  let _ ← brUe
  let _ ← brUe
  let _ ← brSe
  let _ ← brU8 1
  let _ ← brU8 1
  let cuQpDelta ← brU8 1
  let _ ← if cuQpDelta ≠ 0 then brUe else pure 0
  let _ ← brSe
  let _ ← brSe
  let _ ← brU8 1
  let _ ← brU8 1
  let _ ← brU8 1
  let _ ← brU8 1
  let tiles ← brU8 1
  let _ ← brU8 1
  pure tiles

/-- `pic_parameter_set_rbsp` up to its tiles. -/
def readTileSyntax : P TileSyntax := do
  let _ ← brUe
  let _ ← brUe
  let tiles ← readTilesFlag
  if tiles = 0 then pure {} else readTiles

end Geometry

section Property

/-- The VPS is what the parser has stored from some bits. -/
def AcceptsVps (vps : Vps) : Prop :=
  ∃ o br id o₁ br₁ o' br', exec (brU8 4) o br = ((.ok id, o₁), br₁) ∧
    exec parseVps o br = ((.ok (), o'), br') ∧
    o'.vps[id]? = some vps

def AcceptsSps (sps : Sps) : Prop :=
  ∃ o br o' br', exec parseSps o br = ((.ok (), o'), br') ∧ o'.sps[o'.activeSpsId.toNat]? = some sps

/-- A slot of the table that says what the sets and the tiles say. -/
structure SlotDecodes (vps : Option Vps) (sps : Sps) (pps : Pps) (tiles : TileSyntax)
    (slot : List (BitVec 8)) : Prop where
  spsSection : readFields (ofBytes slot) 0 (spsSlot vps sps) = (spsSlot vps sps).map SlotField.value
  ppsSection : readFields (ofBytes slot) 128 (ppsSlot sps pps) =
    (ppsSlot sps pps).map SlotField.value
  columns : decodeSizes (ofBytes slot) 256 tiles.columns.count =
    tiles.columns.sizes sps.picWidthInCtbsY
  rows : decodeSizes (ofBytes slot) 496 tiles.rows.count = tiles.rows.sizes sps.picHeightInCtbsY
  columnTiles : Tiles sps.picWidthInCtbsY (tiles.columns.sizes sps.picWidthInCtbsY)
  rowTiles : Tiles sps.picHeightInCtbsY (tiles.rows.sizes sps.picHeightInCtbsY)

/-- The unit is 64 times a slot of 112 bytes, which the packer fills to its end and which
decodes. -/
def UnitDecodes (vps : Option Vps) (sps : Sps) (pps : Pps) (tiles : TileSyntax)
    (outSize : Nat) : Prop :=
  ∃ slot, packPps vps sps pps outSize = some (List.replicate 64 slot).flatten ∧ slot.length = 112 ∧
    (ppsPacket vps sps pps).pos = 64 * 14 ∧ SlotDecodes vps sps pps tiles slot

/-- The values that the parser does not limit to what the slot has room for. -/
structure Representable (sps : Sps) (pps : Pps) : Prop where
  spsId : sps.spsId < 16
  chromaFormat : sps.chromaFormatIdc ≤ 3
  depthLuma : sps.bitDepthLumaMinus8 ≤ 7
  depthChroma : sps.bitDepthChromaMinus8 ≤ 7
  maxLsb : sps.log2MaxPicOrderCntLsbMinus4 ≤ 27
  minTransform : sps.log2MinLumaTransformBlockSizeMinus2 ≤ 5
  diffTransform : sps.log2DiffMaxMinLumaTransformBlockSize ≤ 3
  hierarchyInter : sps.maxTransformHierarchyDepthInter ≤ 7
  hierarchyIntra : sps.maxTransformHierarchyDepthIntra ≤ 7
  pcmLuma : sps.pcmEnabledFlag ≠ 0 → sps.pcmSampleBitDepthLumaMinus1 ≤ 14
  pcmChroma : sps.pcmEnabledFlag ≠ 0 → sps.pcmSampleBitDepthChromaMinus1 ≤ 14
  diffPcm : sps.log2DiffMaxMinPcmLumaCodingBlockSize ≤ 7
  minPcm : sps.pcmEnabledFlag ≠ 0 → sps.log2MinPcmLumaCodingBlockSizeMinus3 ≤ 4
  buffering : sps.spsMaxDecPicBufferingMinus1.getD sps.spsMaxSubLayersMinus1 0 ≤ 15
  ppsSpsId : pps.spsId < 16
  refIdxL0 : pps.numRefIdxL0DefaultActiveMinus1 ≤ 14
  refIdxL1 : pps.numRefIdxL1DefaultActiveMinus1 ≤ 14
  initQp : -64 ≤ pps.initQpMinus26 ∧ pps.initQpMinus26 ≤ 63
  quantGroup : pps.diffCuQpDeltaDepth ≤ sps.ctbLog2SizeY
  cbOffset : -16 ≤ pps.ppsCbQpOffset ∧ pps.ppsCbQpOffset ≤ 15
  crOffset : -16 ≤ pps.ppsCrQpOffset ∧ pps.ppsCrQpOffset ≤ 15
  betaOffset : -8 ≤ pps.ppsBetaOffsetDiv2 ∧ pps.ppsBetaOffsetDiv2 ≤ 7
  tcOffset : -8 ≤ pps.ppsTcOffsetDiv2 ∧ pps.ppsTcOffsetDiv2 ≤ 7
  mergeLevel : pps.log2ParallelMergeLevelMinus2 ≤ 5

/-- No more tiles than blocks, and sizes that are those of uniform spacing. -/
def Spacing.Even (w : Nat) : Spacing → Prop
  | uniform count => count ≤ w
  | explicit sizesMinus1 => sizesMinus1.length + 1 ≤ w ∧
    sizesMinus1.map (· + 1) = (List.range sizesMinus1.length).map (share w (sizesMinus1.length + 1))

instance (w : Nat) : DecidablePred (Spacing.Even w)
  | .uniform count => inferInstanceAs (Decidable (count ≤ w))
  | .explicit _ => inferInstanceAs (Decidable (_ ∧ _))

end Property

section Decoding

variable {d pos : Nat} {r : Nat × Nat} {f : SlotField} {rs : List (Nat × Nat)} {fs : List SlotField}

/-- What the packer puts gives the value back just if there is room for it. -/
structure Codes (r : Nat × Nat) (f : SlotField) : Prop where
  width : r.2 = f.width
  reads : f.read (r.1 % 2 ^ r.2) = f.value ↔ f.Fits

theorem codes_unsigned (v n : Nat) : Codes (v, n) ⟨v, n, false⟩ := by
  refine ⟨rfl, ?_⟩
  change ((v % 2 ^ n : Nat) : Int) = v ↔ 0 ≤ (v : Int) ∧ (v : Int) < 2 ^ n
  have hcast : (2 : Int) ^ n = ((2 ^ n : Nat) : Int) := by push_cast; rfl
  rw [hcast, Nat.cast_inj, Nat.cast_lt, Nat.mod_eq_iff_lt (Nat.two_pow_pos n).ne']
  exact ⟨fun h => ⟨Int.natCast_nonneg v, h⟩, fun h => h.2⟩

/-- The conversion to `uint8_t` keeps the lowest bits. -/
theorem codes_signed (x : Int) {n : Nat} (hpos : 0 < n) (hn : n ≤ 8) :
    Codes (toU8 x, n) ⟨x, n, true⟩ := by
  refine ⟨rfl, ?_⟩
  have hlow : toU8 x % 2 ^ n = (x % 2 ^ n).toNat := by
    have hcast : ((2 ^ n : Nat) : Int) = 2 ^ n := by push_cast; rfl
    have hdvd : (2 : Int) ^ n ∣ 2 ^ 8 := pow_dvd_pow 2 hn
    unfold toU8
    zify
    rw [Int.toNat_of_nonneg (Int.emod_nonneg x (by decide)),
      Int.toNat_of_nonneg (Int.emod_nonneg x (by positivity)), Int.emod_emod_of_dvd x hdvd]
  change signed n (toU8 x % 2 ^ n) = x ↔ -2 ^ (n - 1) ≤ x ∧ x < 2 ^ (n - 1)
  rw [hlow]
  exact signed_eq_iff hpos x

/-- The size of the quantisation group is put into range. -/
theorem codes_log2Qg {sps : Sps} {pps : Pps}
    (hctb : sps.log2MinLumaCodingBlockSizeMinus3 + 3 + sps.log2DiffMaxMinLumaCodingBlockSize ≤ 6) :
    Codes (log2Qg sps pps, 3)
      ⟨(sps.log2MinLumaCodingBlockSizeMinus3 + 3 + sps.log2DiffMaxMinLumaCodingBlockSize : Int) -
      pps.diffCuQpDeltaDepth, 3, false⟩ := by
  refine ⟨rfl, ?_⟩
  change ((log2Qg sps pps % 2 ^ 3 : Nat) : Int) = _ ↔ 0 ≤ _ ∧ _ < (2 : Int) ^ 3
  unfold log2Qg
  dsimp only
  split_ifs
  · omega
  · omega
  · omega

/-- Fields come back just if all of them have room. -/
theorem readFields_eq_iff (h : List.Forall₂ Codes rs fs)
    (hd : fields d pos (rs.map Prod.snd) = rs.map fun r => r.1 % 2 ^ r.2) :
    readFields d pos fs = fs.map SlotField.value ↔ ∀ f ∈ fs, f.Fits := by
  induction h generalizing pos with
  | nil => exact ⟨fun _ f hf => absurd hf List.not_mem_nil, fun _ => rfl⟩
  | @cons r f rs fs hr hrest ih =>
    rw [List.map_cons, List.map_cons, fields, List.cons.injEq] at hd
    obtain ⟨hfirst, hothers⟩ := hd
    rw [hr.width] at hfirst hothers
    rw [readFields, List.map_cons, List.cons.injEq, hfirst, ← hr.width, hr.reads, hr.width,
      ih hothers]
    exact List.forall_mem_cons.symm

theorem forall₂_unsigned (rs : List (Nat × Nat)) : List.Forall₂ Codes rs (rs.map unsigned) := by
  induction rs with
  | nil => exact .nil
  | cons r rs ih => exact .cons (codes_unsigned r.1 r.2) ih

theorem forall₂_ppsSlot {sps : Sps} {pps : Pps}
    (hctb : sps.log2MinLumaCodingBlockSizeMinus3 + 3 + sps.log2DiffMaxMinLumaCodingBlockSize ≤ 6) :
    List.Forall₂ Codes (ppsFields sps pps) (ppsSlot sps pps) := by
  have hpair {r : Nat × Nat} {f : SlotField} {rs : List (Nat × Nat)} {fs : List SlotField}
      (hr : Codes r f)
      (hrs : List.Forall₂ Codes rs fs) : List.Forall₂ Codes (r :: rs) (f :: fs) := .cons hr hrs
  have hflag (v n : Nat) : Codes (v, n) ⟨v, n, false⟩ := codes_unsigned v n
  unfold ppsFields ppsSlot
  refine hpair (hflag _ _)
    (hpair (hflag _ _) (hpair (hflag _ _) (hpair (hflag _ _) (hpair (hflag _ _) ?_))))
  refine hpair (hflag _ _) (hpair (hflag _ _) (hpair (hflag _ _) (hpair (hflag _ _) ?_)))
  refine hpair (codes_signed _ (by decide) (by decide))
    (hpair (hflag _ _) (hpair (hflag _ _) (hpair (hflag _ _) ?_)))
  refine hpair (codes_log2Qg hctb) (hpair (codes_signed _ (by decide) (by decide)) ?_)
  refine hpair (codes_signed _ (by decide) (by decide))
    (hpair (hflag _ _) (hpair (hflag _ _) (hpair (hflag _ _) ?_)))
  refine hpair (hflag _ _)
    (hpair (hflag _ _) (hpair (hflag _ _) (hpair (hflag _ _) (hpair (hflag _ _) ?_))))
  refine hpair (hflag _ _) (hpair (hflag _ _) (hpair (codes_signed _ (by decide) (by decide)) ?_))
  refine hpair (codes_signed _ (by decide) (by decide))
    (hpair (hflag _ _) (hpair (hflag _ _) (hpair (hflag _ _) ?_)))
  exact hpair (hflag 0 _) (hpair (hflag _ _) (hpair (hflag _ _) (hpair (hflag 0 _) .nil)))

end Decoding

section Packing

variable {vps : Option Vps} {sps : Sps} {pps : Pps}

theorem widths_spsFields (vps : Option Vps) (sps : Sps) : (spsFields vps sps).map Prod.snd =
    [4, 4, 2, 16, 16, 4, 4, 5, 2, 3, 3, 2, 3, 3, 1, 1, 1, 1, 4, 4, 1, 3, 3, 7, 1, 6, 1, 1, 7, 4,
    3] := rfl

theorem widths_ppsFields (sps : Sps) (pps : Pps) : (ppsFields sps pps).map Prod.snd =
    [6, 4, 1, 1, 13, 1, 1, 4, 4, 7, 1, 1, 1, 3, 5, 5, 1, 1, 1, 1, 1, 1, 1, 1, 1, 1, 4, 4, 1, 3, 1,
    3, 5, 5, 4] := rfl

theorem widths_tileFields (sps : Sps) (pps : Pps) :
    (tileFields sps pps).map Prod.snd = List.replicate 42 12 := by
  have hcount (size samples n : Nat) : (tileSizes sps pps size samples n).length = size := by
    rw [tileSizes, List.length_map, List.length_range]
  rw [tileFields, List.map_map]
  refine List.eq_replicate_iff.mpr ⟨?_, ?_⟩
  · rw [List.length_map, List.length_append, hcount, hcount]
  · intro w hw
    obtain ⟨v, -, rfl⟩ := List.mem_map.mp hw
    rfl

/-- The sections of a packet, which fills the 14 words. -/
theorem packet_sections (vps : Option Vps) (sps : Sps) (pps : Pps) :
    Clean (ppsPacket vps sps pps) ∧ (ppsPacket vps sps pps).cap = 14 ∧
    (ppsPacket vps sps pps).pos = 64 * 14 ∧
      fields (ppsPacket vps sps pps).data 0 ((spsFields vps sps).map Prod.snd) =
        (spsFields vps sps).map (fun r => r.1 % 2 ^ r.2) ∧
      fields (ppsPacket vps sps pps).data 128 ((ppsFields sps pps).map Prod.snd) =
        (ppsFields sps pps).map (fun r => r.1 % 2 ^ r.2) ∧
      fields (ppsPacket vps sps pps).data 256 (List.replicate 42 12) =
        (tileFields sps pps).map fun r => r.1 % 2 ^ r.2 := by
  have hspsSum : ((spsFields vps sps).map Prod.snd).sum = 120 := by
    rw [widths_spsFields]
    rfl
  have hppsSum : ((ppsFields sps pps).map Prod.snd).sum = 98 := by
    rw [widths_ppsFields]
    rfl
  have htileSum : (List.replicate 42 12).sum = 504 := by rw [List.sum_replicate]; rfl
  have hstart : Clean { cap := 14 } := ⟨Nat.one_pos, Nat.zero_le _⟩
  obtain ⟨h1, hsps⟩ := extends_puts hstart (spsFields vps sps) (by rw [hspsSum]; decide)
  rw [hspsSum] at h1
  have h2 := extends_align h1.clean (n := 32) (by rw [h1.pos, h1.cap]; decide) true
  rw [h1.pos] at h2
  have h12 := h1.trans h2
  obtain ⟨h3, hpps⟩ :=
    extends_puts h12.clean (ppsFields sps pps) (by rw [hppsSum, h12.pos, h12.cap]; decide)
  rw [hppsSum] at h3
  have h13 := h12.trans h3
  have h4 := extends_align h13.clean (n := 64) (by rw [h13.pos, h13.cap]; decide) true
  rw [h13.pos] at h4
  have h14 := h13.trans h4
  obtain ⟨h5, htile⟩ := extends_puts h14.clean (tileFields sps pps)
    (by rw [widths_tileFields, htileSum, h14.pos, h14.cap]; decide)
  rw [widths_tileFields] at h5 htile
  have h15 := h14.trans h5
  obtain ⟨h6, -⟩ :=
    extends_puts h15.clean [(0, 32), (0, 32), (0, 32), (0, 6)] (by rw [h15.pos, h15.cap]; decide)
  have h16 := h15.trans h6
  have h7 := extends_align h16.clean (n := 64) (by rw [h16.pos, h16.cap]; decide) true
  rw [h16.pos] at h7
  have h17 := h16.trans h7
  have htail := h6.trans h7
  have hmiddle := (h4.trans h5).trans htail
  have hrest := (h2.trans h3).trans hmiddle
  rw [h12.pos] at hpps
  rw [h14.pos] at htile
  refine ⟨h17.clean, h17.cap, h17.pos, ?_, ?_, ?_⟩
  · exact (hrest.fields (by rw [hspsSum, h1.pos])).trans hsps
  · exact (hmiddle.fields (by rw [hppsSum, h13.pos]; decide)).trans hpps
  · exact (htail.fields (by rw [htileSum, h15.pos]; decide)).trans htile

end Packing

section Sizes

variable {d pos size samples n w : Nat} {sps : Sps} {pps : Pps}

theorem fields_replicate (d pos : Nat) (hle : n ≤ size) :
    fields d pos (List.replicate n 12) = (fields d pos (List.replicate size 12)).take n := by
  obtain ⟨m, rfl⟩ := Nat.exists_eq_add_of_le hle
  have hlen : (fields d pos (List.replicate n 12)).length = n := by
    rw [length_fields, List.length_replicate]
  rw [List.replicate_add, fields_append, List.take_left' hlen]

/-- Without tiles there is one that has all blocks, as if they were shared among one. -/
theorem tileSizes_eq (hone : pps.tilesEnabledFlag = 0 → n = 1)
    (hw : w =
    (samples +
    2 ^ (sps.log2MinLumaCodingBlockSizeMinus3 + 3 + sps.log2DiffMaxMinLumaCodingBlockSize) - 1) /
      2 ^ (sps.log2MinLumaCodingBlockSizeMinus3 + 3 + sps.log2DiffMaxMinLumaCodingBlockSize))
        (hfew : w ≤ 2 ^ 12) :
    tileSizes sps pps size samples n = (List.range size).map fun i =>
    if i < n then share w n i else 0 := by
  have hlog : sps.log2DiffMaxMinLumaCodingBlockSize + sps.log2MinLumaCodingBlockSizeMinus3 + 3 =
      sps.log2MinLumaCodingBlockSizeMinus3 + 3 + sps.log2DiffMaxMinLumaCodingBlockSize := by omega
  unfold tileSizes
  rw [hlog]
  dsimp only
  rw [← hw]
  refine List.map_congr_left fun i _ => ?_
  by_cases htiles : pps.tilesEnabledFlag = 0
  · rw [if_pos htiles, hone htiles]
    by_cases hzero : i = 0
    · subst hzero
      have hshare : share w 1 0 = w := by
        unfold share
        omega
      rw [if_pos rfl, if_pos Nat.one_pos, hshare]
      exact Nat.mod_eq_of_lt (by omega)
    · rw [if_neg hzero, if_neg (by omega)]
  · rw [if_neg htiles]
    by_cases hi : i < n
    · have hle := share_le w hi
      rw [if_pos hi, if_pos hi]
      exact Nat.mod_eq_of_lt (by unfold share at hle; omega)
    · rw [if_neg hi, if_neg hi]

/-- The sizes in the slot are those of uniform spacing, and each is at least 1. -/
theorem decodeSizes_eq (hle : n ≤ size) (hfew : w ≤ 2 ^ 12)
    (htiles : tileSizes sps pps size samples n = (List.range size).map fun i =>
    if i < n then share w n i else 0)
    (hfields : fields d pos (List.replicate size 12) =
      (tileSizes sps pps size samples n).map fun v => (v - 1) % 2 ^ 12) :
    decodeSizes d pos n = (shares w n).map fun s : Nat => ((max s 1 : Nat) : Int) := by
  have hprefix : (List.range size).take n = List.range n := by
    rw [List.take_range, Nat.min_eq_left hle]
  unfold decodeSizes shares
  rw [fields_replicate d pos hle, hfields, htiles, ← List.map_take, ← List.map_take, hprefix,
    List.map_map, List.map_map, List.map_map]
  refine List.map_congr_left fun i hi => ?_
  rw [List.mem_range] at hi
  have hshare := share_le w hi
  simp only [Function.comp_apply, if_pos hi]
  omega

theorem sum_cast (l : List Nat) :
    (l.map fun m : Nat => (m : Int) + 1).sum = ((l.map (· + 1)).sum : Nat) := by
  induction l with
  | nil => rfl
  | cons m l ih =>
    rw [List.map_cons, List.sum_cons, ih, List.map_cons, List.sum_cons]
    push_cast
    ring

theorem sum_sizes (w : Nat) (spacing : Spacing) (hpos : 0 < spacing.count) :
    (spacing.sizes w).sum = w := by
  cases spacing with
  | uniform count =>
    have hcast (l : List Nat) : (l.map fun n : Nat => (n : Int)).sum = ((l.sum : Nat) : Int) := by
      induction l with
      | nil => rfl
      | cons v l ih => rw [List.map_cons, List.sum_cons, ih, List.sum_cons, Nat.cast_add]
    have htotal : (shares w count).sum = w := sum_shares w hpos
    rw [Spacing.sizes, hcast, htotal]
  | explicit ms =>
    rw [Spacing.sizes, List.sum_append, List.sum_singleton, sum_cast]
    omega

/-- What is coded is the uniform spacing. -/
theorem even_iff (w : Nat) (spacing : Spacing) : spacing.Even w ↔
    spacing.count ≤ w ∧ (shares w spacing.count).map (fun s : Nat => (s : Int)) =
    spacing.sizes w := by
  cases spacing with
  | uniform count => exact ⟨fun h => ⟨h, rfl⟩, fun h => h.1⟩
  | explicit ms =>
    refine and_congr_right fun _ => ?_
    have hsplit : (shares w (ms.length + 1)).map (fun s : Nat => (s : Int)) =
        ((List.range ms.length).map (share w (ms.length + 1))).map (fun s : Nat => (s : Int)) ++
          [(share w (ms.length + 1) ms.length : Int)] := by
      rw [shares, List.range_succ, List.map_append, List.map_append]
      rfl
    have hsizes : ms.map (fun m : Nat => (m : Int) + 1) = (ms.map (· + 1)).map fun s : Nat =>
        (s : Int) := by
      rw [List.map_map]
      exact List.map_congr_left fun m _ => rfl
    have hinj : Function.Injective fun s : Nat => (s : Int) := fun _ _ h => Int.ofNat.inj h
    rw [Spacing.count, Spacing.sizes, hsplit, hsizes]
    constructor
    · intro hsame
      have htotal : (shares w (ms.length + 1)).sum = w := sum_shares w (Nat.succ_pos ms.length)
      rw [shares, List.range_succ, List.map_append, List.sum_append, List.map_singleton,
        List.sum_singleton, ← hsame] at htotal
      rw [← hsame]
      congr 2
      omega
    · intro hsame
      have hlen : (((List.range ms.length).map (share w (ms.length + 1))).map fun s : Nat =>
          (s : Int)).length =
          ((ms.map (· + 1)).map fun s : Nat => (s : Int)).length := by
        simp only [List.length_map, List.length_range]
      exact ((List.map_injective_iff.mpr hinj) (List.append_inj_left hsame hlen)).symm

/-- The tiles of the slot are the coded ones, none empty, just for a spacing that is even. -/
theorem sizes_iff {spacing : Spacing} (hpos : 0 < spacing.count) {decoded : List Int}
    (hdecoded : decoded = (shares w spacing.count).map fun s : Nat => ((max s 1 : Nat) : Int)) :
    decoded = spacing.sizes w ∧ Tiles w (spacing.sizes w) ↔ spacing.Even w := by
  have hsum := sum_sizes w spacing hpos
  rw [even_iff, hdecoded, ← max_shares_eq_iff w hpos hsum]
  refine and_iff_left_of_imp fun hsame => ⟨fun n hn => ?_, hsum⟩
  rw [← hsame] at hn
  obtain ⟨s, -, rfl⟩ := List.mem_map.mp hn
  exact Nat.cast_le.mpr (Nat.le_max_right s 1)

end Sizes

section Bounds

theorem returns_u8 (n : Nat) : Returns (brU8 n) (· < 2 ^ n) := by
  intro s br a s' br' _ hexec
  cases hexec
  have hlt := Bitstream.H265.uLoop_lt n 0 br
  rw [Nat.zero_add, Nat.one_mul] at hlt
  exact Nat.lt_of_le_of_lt (Nat.mod_le _ _) hlt

/-- What the parser makes sure of in an SPS. -/
structure SpsBounds (sps : Sps) : Prop where
  spsId : sps.spsId < 32
  width : 0 < sps.picWidthInLumaSamples ∧ sps.picWidthInLumaSamples ≤ 8192
  height : 0 < sps.picHeightInLumaSamples ∧ sps.picHeightInLumaSamples ≤ 8192
  subLayers : sps.spsMaxSubLayersMinus1 < 7
  scalingList : sps.scalingListEnabledFlag ≤ 1
  amp : sps.ampEnabledFlag ≤ 1
  sao : sps.sampleAdaptiveOffsetEnabledFlag ≤ 1
  pcm : sps.pcmEnabledFlag ≤ 1
  pcmLoopFilter : sps.pcmLoopFilterDisabledFlag ≤ 1
  shortTerm : sps.numShortTermRefPicSets ≤ 64
  longTermPresent : sps.longTermRefPicsPresentFlag ≤ 1
  longTerm : sps.numLongTermRefPicsSps ≤ 32
  temporalMvp : sps.spsTemporalMvpEnabledFlag ≤ 1
  strongIntra : sps.strongIntraSmoothingEnabledFlag ≤ 1

/-- What it derives at the end. -/
structure SpsDerived (sps : Sps) : Prop extends SpsBounds sps where
  ctb : sps.log2MinLumaCodingBlockSizeMinus3 + 3 + sps.log2DiffMaxMinLumaCodingBlockSize ≤ 6
  ctbLog2 : sps.ctbLog2SizeY =
    sps.log2MinLumaCodingBlockSizeMinus3 + 3 + sps.log2DiffMaxMinLumaCodingBlockSize
  widthInCtbs : sps.picWidthInCtbsY = (sps.picWidthInLumaSamples +
    2 ^ (sps.log2MinLumaCodingBlockSizeMinus3 + 3 + sps.log2DiffMaxMinLumaCodingBlockSize) - 1) /
      2 ^ (sps.log2MinLumaCodingBlockSizeMinus3 + 3 + sps.log2DiffMaxMinLumaCodingBlockSize)
  heightInCtbs : sps.picHeightInCtbsY = (sps.picHeightInLumaSamples +
    2 ^ (sps.log2MinLumaCodingBlockSizeMinus3 + 3 + sps.log2DiffMaxMinLumaCodingBlockSize) - 1) /
      2 ^ (sps.log2MinLumaCodingBlockSizeMinus3 + 3 + sps.log2DiffMaxMinLumaCodingBlockSize)

/-- A picture of up to 8192 samples has between 1 and 1024 blocks. -/
theorem ctbs_range {samples k : Nat} (hpos : 0 < samples) (hle : samples ≤ 8192) (hk : 3 ≤ k)
    (hk' : k ≤ 6) :
    0 < (samples + 2 ^ k - 1) / 2 ^ k ∧ (samples + 2 ^ k - 1) / 2 ^ k ≤ 2 ^ 12 := by
  obtain rfl | rfl | rfl | rfl : k = 3 ∨ k = 4 ∨ k = 5 ∨ k = 6 := by omega
  · omega
  · omega
  · omega
  · omega

variable {tmp : Sps}

theorem bounds_parseSpsHead : Returns Bitstream.H265.parseSpsHead SpsBounds := by
  unfold Bitstream.H265.parseSpsHead
  refine .after _ fun _ => .after _ fun _ => .after _ fun _ => .guard fun hlayers => ?_
  refine .after _ fun _ => .after _ fun spsId => .guard fun hid => .after _ fun _ => ?_
  have hlayers' := not_le.mp hlayers
  have hid' : u8 spsId < 32 := Nat.lt_of_le_of_lt (Nat.mod_le _ _) (not_le.mp hid)
  refine .branch fun _ => .after _ fun width => .after _ fun height => .guard fun hsize =>
    returns_pure ?_
  exact {
    spsId := hid'
    width := ⟨by dsimp only; omega, by dsimp only; omega⟩
    height := ⟨by dsimp only; omega, by dsimp only; omega⟩
    subLayers := hlayers'
    scalingList := Nat.zero_le 1
    amp := Nat.zero_le 1
    sao := Nat.zero_le 1
    pcm := Nat.zero_le 1
    pcmLoopFilter := Nat.zero_le 1
    shortTerm := Nat.zero_le 64
    longTermPresent := Nat.zero_le 1
    longTerm := Nat.zero_le 32
    temporalMvp := Nat.zero_le 1
    strongIntra := Nat.zero_le 1 }

theorem bounds_parseConformanceWindow (h : SpsBounds tmp) :
    Returns (Bitstream.H265.parseConformanceWindow tmp) SpsBounds := by
  unfold Bitstream.H265.parseConformanceWindow
  refine .after _ fun _ => .cond (fun _ => returns_pure h) fun _ => ?_
  exact .after _ fun _ => .after _ fun _ => .after _ fun _ => .after _ fun _ =>
    returns_pure { h with }

theorem bounds_parseSpsOrdering (n i : Nat) (h : SpsBounds tmp) :
    Returns (Bitstream.H265.parseSpsOrdering n i tmp) SpsBounds := by
  induction n generalizing i tmp with
  | zero => exact returns_pure h
  | succ n ih =>
    unfold Bitstream.H265.parseSpsOrdering
    exact .after _ fun _ => .after _ fun _ => .after _ fun _ => ih _ { h with }

theorem bounds_parseSubLayerOrdering (h : SpsBounds tmp) :
    Returns (Bitstream.H265.parseSubLayerOrdering tmp) SpsBounds := by
  unfold Bitstream.H265.parseSubLayerOrdering
  refine .after _ fun _ => ?_
  dsimp only
  refine .bind (bounds_parseSpsOrdering _ _ { h with }) fun tmp htmp => returns_pure ?_
  split
  · exact { htmp with }
  · exact htmp

theorem bounds_parseBlockSizes (h : SpsBounds tmp) :
    Returns (Bitstream.H265.parseBlockSizes tmp) SpsBounds := by
  unfold Bitstream.H265.parseBlockSizes
  exact .after _ fun _ => .after _ fun _ => .after _ fun _ => .after _ fun _ => .after _ fun _ =>
    .after _ fun _ => returns_pure { h with }

theorem bounds_parseSpsScalingList (h : SpsBounds tmp) :
    Returns (Bitstream.H265.parseSpsScalingList tmp) SpsBounds := by
  unfold Bitstream.H265.parseSpsScalingList
  refine returns_brU8.bind fun enabled henabled => .cond (fun _ => returns_pure ?_) fun _ => ?_
  · exact { h with scalingList := henabled }
  · exact .after _ fun _ => .branch fun _ => returns_pure { h with scalingList := henabled }

theorem bounds_parsePcm (h : SpsBounds tmp) : Returns (Bitstream.H265.parsePcm tmp) SpsBounds := by
  unfold Bitstream.H265.parsePcm
  refine returns_brU8.bind fun enabled henabled => .cond (fun _ => returns_pure h) fun _ => ?_
  refine .after _ fun _ => .after _ fun _ => .after _ fun _ => .after _ fun _ => ?_
  exact returns_brU8.bind fun disabled hdisabled => returns_pure { h with
    pcm := henabled, pcmLoopFilter := hdisabled }

theorem bounds_parseRpsTable (n i : Nat) (h : SpsBounds tmp) :
    Returns (Bitstream.H265.parseRpsTable n i tmp) SpsBounds := by
  induction n generalizing i tmp with
  | zero => exact returns_pure h
  | succ n ih =>
    unfold Bitstream.H265.parseRpsTable
    exact .after _ fun _ => .after _ fun _ => ih _ { h with }

theorem bounds_parseLongTerm (h : SpsBounds tmp) :
    Returns (Bitstream.H265.parseLongTerm tmp) SpsBounds := by
  have hpics (n i : Nat) {tmp : Sps} (h : SpsBounds tmp) :
      Returns (Bitstream.H265.parseLtRefPics n i tmp) SpsBounds := by
    induction n generalizing i tmp with
    | zero => exact returns_pure h
    | succ n ih =>
      unfold Bitstream.H265.parseLtRefPics
      exact .after _ fun _ => .after _ fun _ => ih _ { h with }
  unfold Bitstream.H265.parseLongTerm
  refine returns_brU8.bind fun present hpresent => .cond (fun _ => returns_pure ?_) fun _ => ?_
  · exact { h with longTermPresent := hpresent }
  · exact .after _ fun _ => .guard fun hnum => hpics _ _ { h with
      longTermPresent := hpresent, longTerm := not_lt.mp hnum }

theorem derived_deriveCtbs (h : SpsBounds tmp) :
    Returns (Bitstream.H265.deriveCtbs tmp) SpsDerived := by
  unfold Bitstream.H265.deriveCtbs
  refine .guard fun hctb => returns_pure { h with
    ctb := ?_, ctbLog2 := ?_, widthInCtbs := rfl, heightInCtbs := rfl }
  · dsimp only
    omega
  · exact Nat.mod_eq_of_lt (by omega)

theorem derived_parseSpsFields : Returns Bitstream.H265.parseSpsFields SpsDerived := by
  unfold Bitstream.H265.parseSpsFields
  refine bounds_parseSpsHead.bind fun tmp h => (bounds_parseConformanceWindow h).bind
    fun tmp h => ?_
  refine .after _ fun _ => .after _ fun _ => .after _ fun _ => ?_
  dsimp only
  refine .bind (bounds_parseSubLayerOrdering { h with }) fun tmp h =>
    (bounds_parseBlockSizes h).bind fun tmp h => ?_
  refine (bounds_parseSpsScalingList h).bind fun tmp h => returns_brU8.bind fun amp hamp => ?_
  refine returns_brU8.bind fun sao hsao => ?_
  refine .bind (bounds_parsePcm { h with amp := hamp, sao := hsao }) fun tmp h => .after _ fun _ =>
    .guard fun hnum => ?_
  refine .bind (bounds_parseRpsTable _ _ { h with shortTerm := not_lt.mp hnum }) fun tmp h => ?_
  refine (bounds_parseLongTerm h).bind fun tmp h => returns_brU8.bind fun mvp hmvp => ?_
  exact returns_brU8.bind fun strong hstrong => derived_deriveCtbs { h with
    temporalMvp := hmvp, strongIntra := hstrong }

/-- What the parser makes sure of in a PPS. -/
structure PpsBounds (pps : Pps) : Prop where
  ppsId : pps.ppsId < 64
  dependent : pps.dependentSliceSegmentsEnabledFlag ≤ 1
  outputFlag : pps.outputFlagPresentFlag ≤ 1
  extraBits : pps.numExtraSliceHeaderBits < 8
  signHiding : pps.signDataHidingEnabledFlag ≤ 1
  cabacInit : pps.cabacInitPresentFlag ≤ 1
  constrainedIntra : pps.constrainedIntraPredFlag ≤ 1
  transformSkip : pps.transformSkipEnabledFlag ≤ 1
  cuQpDelta : pps.cuQpDeltaEnabledFlag ≤ 1
  chromaOffsets : pps.ppsSliceChromaQpOffsetsPresentFlag ≤ 1
  weighted : pps.weightedPredFlag ≤ 1
  weightedBi : pps.weightedBipredFlag ≤ 1
  bypass : pps.transquantBypassEnabledFlag ≤ 1
  tiles : pps.tilesEnabledFlag ≤ 1
  sync : pps.entropyCodingSyncEnabledFlag ≤ 1
  columns : pps.numTileColumnsMinus1 < 20
  rows : pps.numTileRowsMinus1 < 22
  single : pps.tilesEnabledFlag = 0 → pps.numTileColumnsMinus1 = 0 ∧ pps.numTileRowsMinus1 = 0
  acrossTiles : pps.loopFilterAcrossTilesEnabledFlag ≤ 1
  acrossSlices : pps.ppsLoopFilterAcrossSlicesEnabledFlag ≤ 1
  overrideEnabled : pps.deblockingFilterOverrideEnabledFlag ≤ 1
  deblockingDisabled : pps.ppsDeblockingFilterDisabledFlag ≤ 1
  listsModification : pps.listsModificationPresentFlag ≤ 1
  extension : pps.sliceSegmentHeaderExtensionPresentFlag ≤ 1

variable {pps : Pps}

theorem bounds_parsePpsHead {ppsId : Nat} (spsId : Nat) (hid : ppsId < 64) :
    Returns (Bitstream.H265.parsePpsHead ppsId spsId) PpsBounds := by
  have hid' : u8 ppsId < 64 := Nat.lt_of_le_of_lt (Nat.mod_le _ _) hid
  unfold Bitstream.H265.parsePpsHead
  refine returns_brU8.bind fun dependent hdependent =>
    returns_brU8.bind fun outputFlag houtputFlag => ?_
  refine (returns_u8 3).bind fun extraBits hextraBits =>
    returns_brU8.bind fun signHiding hsignHiding => ?_
  refine returns_brU8.bind fun cabacInit hcabacInit => .after _ fun _ => .after _ fun _ =>
    .after _ fun _ => ?_
  refine returns_brU8.bind fun intra hintra => returns_brU8.bind fun skip hskip =>
    returns_brU8.bind fun cuQp hcuQp => ?_
  refine .branch fun _ => .after _ fun _ => .after _ fun _ =>
    returns_brU8.bind fun chroma hchroma => ?_
  refine returns_brU8.bind fun weighted hweighted => returns_brU8.bind
    fun weightedBi hweightedBi => ?_
  refine returns_brU8.bind fun bypass hbypass => returns_brU8.bind fun tiles htiles => ?_
  refine returns_brU8.bind fun sync hsync => returns_pure ?_
  exact {
    ppsId := hid', dependent := hdependent, outputFlag := houtputFlag, extraBits := hextraBits
    signHiding := hsignHiding, cabacInit := hcabacInit, constrainedIntra := hintra,
    transformSkip := hskip
    cuQpDelta := hcuQp, chromaOffsets := hchroma, weighted := hweighted, weightedBi := hweightedBi
    bypass := hbypass, tiles := htiles, sync := hsync, columns := Nat.succ_pos 19,
    rows := Nat.succ_pos 21
    single := fun _ => ⟨rfl, rfl⟩, acrossTiles := Nat.le_refl 1, acrossSlices := Nat.zero_le 1
    overrideEnabled := Nat.zero_le 1, deblockingDisabled := Nat.zero_le 1,
    listsModification := Nat.zero_le 1
    extension := Nat.zero_le 1 }

/-- The bounds, and so many tiles. -/
structure Counted (c r : Nat) (pps : Pps) : Prop extends PpsBounds pps where
  sameColumns : pps.numTileColumnsMinus1 = c
  sameRows : pps.numTileRowsMinus1 = r

theorem counted_parsePpsDeblocking {c r : Nat} (h : Counted c r pps) :
    Returns (Bitstream.H265.parsePpsDeblocking pps) (Counted c r) := by
  unfold Bitstream.H265.parsePpsDeblocking
  refine .after _ fun _ => .cond (fun _ => returns_pure h) fun _ => ?_
  refine returns_brU8.bind fun override hoverride => returns_brU8.bind fun disabled hdisabled => ?_
  refine .cond (fun _ => returns_pure ?_) fun _ => .after _ fun _ => .after _ fun _ =>
    returns_pure ?_
  · exact { h with overrideEnabled := hoverride, deblockingDisabled := hdisabled }
  · exact { h with overrideEnabled := hoverride, deblockingDisabled := hdisabled }

/-- What follows the tiles. -/
theorem counted_ppsTail {tmp : Pps} (h : PpsBounds tmp) : Returns (do
    let acrossSlices ← brU8 1
    let tmp ← Bitstream.H265.parsePpsDeblocking { tmp with
        ppsLoopFilterAcrossSlicesEnabledFlag := acrossSlices }
    let scalingPresent ← brU8 1
    let sl ← if scalingPresent ≠ 0 then Bitstream.H265.parseScalingListData else pure {}
    let listsModification ← brU8 1
    let mergeLevel ← brUe8
    let extensionPresent ← brU8 1
    return { tmp with
      ppsScalingListDataPresentFlag := scalingPresent
      scalingList := sl
      listsModificationPresentFlag := listsModification
      log2ParallelMergeLevelMinus2 := mergeLevel
      sliceSegmentHeaderExtensionPresentFlag := extensionPresent })
        (Counted tmp.numTileColumnsMinus1 tmp.numTileRowsMinus1) := by
  refine returns_brU8.bind fun across hacross => ?_
  have hstart : Counted tmp.numTileColumnsMinus1 tmp.numTileRowsMinus1
      { tmp with ppsLoopFilterAcrossSlicesEnabledFlag := across } :=
    { h with acrossSlices := hacross, sameColumns := rfl, sameRows := rfl }
  refine (counted_parsePpsDeblocking hstart).bind fun tmp h => .after _ fun _ => .branch fun _ => ?_
  refine returns_brU8.bind fun lists hlists => .after _ fun _ =>
    returns_brU8.bind fun extension hextension => ?_
  exact returns_pure { h with listsModification := hlists, extension := hextension }

end Bounds

section Tiles

variable {K : ParseResult → Prop} {pps : Pps}

theorem mirrors_brU8 (n : Nat) : Mirrors K (brU8 n) (brU8 n) fun a b s => a = b ∧ K s := by
  refine Mirrors.bind (Bitstream.mirrors_brU n) fun a b => Bitstream.mirrors_pure ?_
  rintro s ⟨rfl, hs⟩
  exact ⟨rfl, hs⟩

/-- The parser narrows the number that the syntax has. -/
theorem mirrors_brUe8 : Mirrors K brUe8 (brUe : P Nat) fun _ _ s => K s :=
  Mirrors.bind Bitstream.mirrors_brUe fun _ _ => Bitstream.mirrors_pure fun _ h => h.2

theorem mirrors_parsePpsHead (ppsId spsId : Nat) :
    Mirrors (fun _ => True) (Bitstream.H265.parsePpsHead ppsId spsId) readTilesFlag
      fun tmp tiles _ => tmp.tilesEnabledFlag = tiles := by
  unfold Bitstream.H265.parsePpsHead readTilesFlag
  refine .bind_same (mirrors_brU8 1) fun _ => .bind_same (mirrors_brU8 1) fun _ => ?_
  refine .bind_same (mirrors_brU8 3) fun _ => .bind_same (mirrors_brU8 1) fun _ => ?_
  refine .bind_same (mirrors_brU8 1) fun _ => .bind mirrors_brUe8 fun _ _ =>
    .bind mirrors_brUe8 fun _ _ => ?_
  refine .bind_same Bitstream.mirrors_brSe fun _ => .bind_same (mirrors_brU8 1) fun _ => ?_
  refine .bind_same (mirrors_brU8 1) fun _ => .bind_same (mirrors_brU8 1) fun cuQpDelta => ?_
  have hnone : Mirrors (fun _ => True) (pure 0 : P Nat) (pure 0 : P Nat) fun _ _ _ => True :=
    Bitstream.mirrors_pure fun _ h => h
  refine .cond (fun _ => .bind mirrors_brUe8 fun _ _ => ?_) fun _ => .bind hnone fun _ _ => ?_
  all_goals
    refine .bind_same Bitstream.mirrors_brSe fun _ => .bind_same Bitstream.mirrors_brSe fun _ => ?_
    refine .bind_same (mirrors_brU8 1) fun _ => .bind_same (mirrors_brU8 1) fun _ => ?_
    refine .bind_same (mirrors_brU8 1) fun _ => .bind_same (mirrors_brU8 1) fun _ => ?_
    refine .bind_same (mirrors_brU8 1) fun tiles => .bind_same (mirrors_brU8 1) fun _ => ?_
    exact Bitstream.mirrors_pure fun _ _ => rfl

theorem mirrors_sizes (n : Nat) :
    Mirrors (fun _ => True) (Bitstream.skip n do let _ ← brUe : P Unit) (readSizes n)
      fun _ sizes _ => sizes.length = n := by
  induction n with
  | zero => exact Bitstream.mirrors_pure fun _ _ => rfl
  | succ n ih =>
    have hread : Mirrors (fun _ => True) (do let _ ← brUe : P Unit) (brUe : P Nat)
        fun _ _ _ => True :=
      Mirrors.pure_left Bitstream.mirrors_brUe fun _ _ _ _ => trivial
    refine Mirrors.bind hread fun _ size => ?_
    exact Mirrors.pure_right ih fun _ sizes _ h => congrArg (· + 1) h

/-- As many tiles are stored as are coded. -/
def Matches (pps : Pps) (tiles : TileSyntax) : Prop :=
  tiles.columns.count = pps.numTileColumnsMinus1 + 1 ∧ tiles.rows.count = pps.numTileRowsMinus1 + 1

theorem reports_parseTiles (h : PpsBounds pps) :
    Reports (fun _ => True) (Bitstream.H265.parseTiles pps)
      (if pps.tilesEnabledFlag = 0 then pure {} else readTiles)
      fun pps tiles _ => PpsBounds pps ∧ Matches pps tiles := by
  unfold Bitstream.H265.parseTiles readTiles
  refine Reports.cond (fun hno => ?_) fun htiles => ?_
  · obtain ⟨hcolumns, hrows⟩ := h.single hno
    have hmatches : Matches pps {} := by
      unfold Matches
      rw [hcolumns, hrows]
      exact ⟨rfl, rfl⟩
    exact (Bitstream.mirrors_pure fun _ _ => ⟨h, hmatches⟩).reports
  · refine .bind_same Bitstream.mirrors_brUe fun columns =>
      .bind_same Bitstream.mirrors_brUe fun rows => ?_
    refine Reports.cond_left (fun _ => Bitstream.reports_throw _) fun hfew =>
      .bind_same (mirrors_brU8 1) fun uniform => ?_
    have hcolumns : u8 columns = columns := Nat.mod_eq_of_lt (by omega)
    have hrows : u8 rows = rows := Nat.mod_eq_of_lt (by omega)
    have hlast : Returns (do
        let acrossTiles ← brU8 1
        pure { pps with
          numTileColumnsMinus1 := u8 columns
          numTileRowsMinus1 := u8 rows
          uniformSpacingFlag := uniform
          loopFilterAcrossTilesEnabledFlag := acrossTiles }) (Counted columns rows) := by
      refine returns_brU8.bind fun across hacross => returns_pure ?_
      rw [hcolumns, hrows]
      exact { h with
        columns := by dsimp only; omega
        rows := by dsimp only; omega
        single := fun hno => absurd hno htiles
        acrossTiles := hacross
        sameColumns := rfl
        sameRows := rfl }
    refine Reports.cond (fun _ => ?_) fun _ => ?_
    · rw [hcolumns, hrows] at hlast ⊢
      refine Reports.bind (mirrors_sizes columns) fun _ widths => .given fun hwidths => ?_
      refine Reports.bind (mirrors_sizes rows) fun _ heights => .given fun hheights => ?_
      refine Bitstream.reports_pure hlast fun pps _ hpps => ?_
      refine ⟨hpps.toPpsBounds, ?_, ?_⟩
      · rw [Spacing.count, hwidths, hpps.sameColumns]
      · rw [Spacing.count, hheights, hpps.sameRows]
    · refine Bitstream.reports_pure hlast fun pps _ hpps => ⟨hpps.toPpsBounds, ?_, ?_⟩
      · rw [Spacing.count, hpps.sameColumns]
      · rw [Spacing.count, hpps.sameRows]

/-- What is parsed after the tiles leaves their number. -/
theorem gives_counted {tmp : Pps} {tiles : TileSyntax} {p : P Pps}
    (h : PpsBounds tmp → Returns p (Counted tmp.numTileColumnsMinus1 tmp.numTileRowsMinus1)) :
    Gives (fun _ => PpsBounds tmp ∧ Matches tmp tiles) p fun pps _ => PpsBounds pps ∧
    Matches pps tiles := by
  intro s br a s' br' hs hexec
  obtain ⟨htmp, hcolumns, hrows⟩ := hs
  have hresult := h htmp s br a s' br' trivial hexec
  exact ⟨hresult.toPpsBounds, hcolumns.trans (by rw [hresult.sameColumns]),
    hrows.trans (by rw [hresult.sameRows])⟩

theorem reports_parsePpsFields :
    Reports (fun _ => True) Bitstream.H265.parsePpsFields readTileSyntax
    fun pps tiles _ => PpsBounds pps ∧ Matches pps tiles := by
  unfold Bitstream.H265.parsePpsFields readTileSyntax
  refine .bind_same Bitstream.mirrors_brUe fun ppsId =>
    Reports.cond_left (fun _ => Bitstream.reports_throw _) fun hid => ?_
  refine .bind_same Bitstream.mirrors_brUe fun spsId =>
    Reports.cond_left (fun _ => Bitstream.reports_throw _) fun _ => ?_
  refine Reports.get_bind fun o _ => Reports.cond_left
    (fun _ => Bitstream.reports_throw _) fun _ => ?_
  refine Reports.bind
    ((mirrors_parsePpsHead ppsId spsId).and_gives (bounds_parsePpsHead spsId (not_le.mp hid))) ?_
  refine fun tmp tilesFlag => .given fun hhead => ?_
  obtain ⟨rfl, hbounds⟩ := hhead
  refine Reports.gives (reports_parseTiles hbounds) fun tmp tiles => gives_counted fun htmp => ?_
  exact counted_ppsTail htmp

end Tiles

section Stored

variable {o o' : ParseResult} {br br' : BitReader} {vps : Vps} {sps : Sps} {pps : Pps}

/-- The number that the entry of a VPS has for itself. -/
def idAt (id : Nat) (o : ParseResult) : Option Nat := (o.vps[id]?).map Vps.vpsId

theorem keeps_setVps_id (id : Nat) {g : Vps → Vps} (hg : ∀ v, (g v).vpsId = v.vpsId) :
    Bitstream.Keeps (idAt id) (Bitstream.H265.setVps id g) := by
  refine .modify fun o => ?_
  unfold idAt
  rw [List.getElem?_modify_eq]
  cases o.vps[id]? with
  | none => rfl
  | some v => exact congrArg some (hg v)

theorem keeps_vpsOrdering_id (id n i : Nat) :
    Bitstream.Keeps (idAt id) (Bitstream.H265.parseVpsOrdering id n i) := by
  induction n generalizing i with
  | zero => exact Bitstream.keeps_pure ()
  | succ n ih =>
    refine Bitstream.H265.keeps_brUe8.bind fun _ => Bitstream.H265.keeps_brUe8.bind fun _ => ?_
    refine Bitstream.keeps_brUe.bind fun _ => .bind ?_ fun _ => ih _
    exact keeps_setVps_id id fun v => by dsimp only

theorem gives_abandon {Q : Unit → ParseResult → Prop} {K : ParseResult → Prop} {f : Unit → P Unit}
    (e : Bitstream.ParseError) : Gives K (throw e >>= f) Q := by
  intro s br a s' br' _ hexec
  rw [Bitstream.exec_bind, Bitstream.exec_throw] at hexec
  cases hexec

theorem gives_result {Q : Unit → ParseResult → Prop} {K : ParseResult → Prop} {p : P Unit}
    (hp : Gives K p Q) (hK : K o) (h : exec p o br = ((.ok (), o'), br')) : Q () o' :=
  hp o br () o' br' hK h

/-- The entry is started with its number, which nothing after that changes. -/
theorem vpsId_lt (h : AcceptsVps vps) : vps.vpsId < 16 := by
  obtain ⟨o, br, id, o₁, br₁, o', br', hid, hparse, hget⟩ := h
  have hlt : id < 16 := returns_u8 4 o br id o₁ br₁ trivial hid
  unfold parseVps at hparse
  rw [Bitstream.exec_bind_of_ok hid] at hparse
  have hstart (id : Nat) : Gives (fun _ => True) (Bitstream.H265.setVps id fun _ => { vpsId := id })
      fun _ o => ∀ n ∈ idAt id o, n = id := by
    refine Bitstream.gives_modify fun o _ n hn => ?_
    unfold idAt at hn
    rw [List.getElem?_modify_eq] at hn
    cases hold : o.vps[id]? with
    | none =>
      rw [hold] at hn
      cases hn
    | some v =>
      rw [hold] at hn
      exact (Option.some.inj hn).symm
  have hnum : ∀ n ∈ idAt id o', n = id := by
    refine gives_result (K := fun _ => True) (Q := fun _ o => ∀ n ∈ idAt id o, n = id) ?_
      trivial hparse
    refine .cond (fun _ => gives_abandon _) fun _ => .bind (hstart id) fun _ => ?_
    refine Bitstream.Keeps.gives ?_ (fun n => ∀ m ∈ n, m = id) fun _ h => h
    with_reducible repeat' first
      | assumption | exact keeps_vpsOrdering_id _ _ _ | refine keeps_setVps_id _ ?_
      | exact fun _ => rfl | refine .bind ?_ fun _ => ?_ | refine .cond ?_ fun _ => ?_
      | refine .skip ?_ _ | simp
  exact (hnum vps.vpsId (congrArg (Option.map Vps.vpsId) hget)).trans_lt hlt

/-- An accepted SPS is stored as it was derived. -/
theorem derived_of_accepts (h : AcceptsSps sps) : SpsDerived sps := by
  obtain ⟨o, br, o', br', hparse, hget⟩ := h
  obtain ⟨tmp, o₁, br₁, hfields, hrest⟩ := exec_bind_ok hparse
  obtain ⟨u, o₂, br₂, hcheck, hstore⟩ := exec_bind_ok hrest
  have hbounds := derived_parseSpsFields o br tmp o₁ br₁ trivial hfields
  cases hstore
  rw [Int.toNat_natCast, List.getElem?_set_self'] at hget
  obtain ⟨-, -, rfl⟩ := Option.map_eq_some_iff.mp hget
  exact { hbounds with }

/-- An accepted PPS has as many tiles as its bits say. -/
theorem matches_of_accepts (h : exec parsePps o br = ((.ok (), o'), br'))
    (hpps : o'.pps[o'.activePpsId.toNat]? = some pps) : ∃ tiles o₁ br₁,
      exec readTileSyntax o br = ((.ok tiles, o₁), br₁) ∧ PpsBounds pps ∧ Matches pps tiles := by
  obtain ⟨tmp, o₁, br₁, hfields, hrest⟩ := exec_bind_ok h
  obtain ⟨u, o₂, br₂, hcheck, hstore⟩ := exec_bind_ok hrest
  obtain ⟨tiles, o₃, br₃, hread, hbounds, hmatches⟩ :=
    reports_parsePpsFields o o br tmp o₁ br₁ trivial hfields
  cases hstore
  rw [Int.toNat_natCast, List.getElem?_set_self'] at hpps
  obtain ⟨-, -, rfl⟩ := Option.map_eq_some_iff.mp hpps
  exact ⟨tiles, o₃, br₃, hread, { hbounds with }, hmatches⟩

end Stored

section Fitting

variable {vps : Option Vps} {sps : Sps} {pps : Pps}

theorem fits_unsigned (v n : Nat) : SlotField.Fits ⟨v, n, false⟩ ↔ v < 2 ^ n := by
  change 0 ≤ (v : Int) ∧ (v : Int) < 2 ^ n ↔ v < 2 ^ n
  have hcast : (2 : Int) ^ n = ((2 ^ n : Nat) : Int) := by push_cast; rfl
  rw [hcast, Nat.cast_lt]
  exact ⟨fun h => h.2, fun h => ⟨Int.natCast_nonneg v, h⟩⟩

theorem spsFits_iff (hs : SpsDerived sps) (hv : ∀ v ∈ vps, v.vpsId < 16) :
    (∀ f ∈ spsSlot vps sps, f.Fits) ↔
    sps.spsId < 16 ∧ sps.chromaFormatIdc ≤ 3 ∧ sps.bitDepthLumaMinus8 ≤ 7 ∧
    sps.bitDepthChromaMinus8 ≤ 7 ∧
      sps.log2MaxPicOrderCntLsbMinus4 ≤ 27 ∧ sps.log2MinLumaTransformBlockSizeMinus2 ≤ 5 ∧
      sps.log2DiffMaxMinLumaTransformBlockSize ≤ 3 ∧ sps.maxTransformHierarchyDepthInter ≤ 7 ∧
      sps.maxTransformHierarchyDepthIntra ≤ 7 ∧
      (sps.pcmEnabledFlag ≠ 0 → sps.pcmSampleBitDepthLumaMinus1 ≤ 14) ∧
      (sps.pcmEnabledFlag ≠ 0 → sps.pcmSampleBitDepthChromaMinus1 ≤ 14) ∧
      sps.log2DiffMaxMinPcmLumaCodingBlockSize ≤ 7 ∧
      (sps.pcmEnabledFlag ≠ 0 → sps.log2MinPcmLumaCodingBlockSizeMinus3 ≤ 4) ∧
      sps.spsMaxDecPicBufferingMinus1.getD sps.spsMaxSubLayersMinus1 0 ≤ 15 := by
  have hid : (vps.map Vps.vpsId).getD 0 < 16 := by
    cases vps with
    | none => exact Nat.succ_pos 15
    | some v => exact hv v rfl
  have hlayer : min sps.spsMaxSubLayersMinus1 (Bitstream.H265.maxSubLayers - 1) =
      sps.spsMaxSubLayersMinus1 :=
    Nat.min_eq_left (Nat.le_of_lt_succ hs.subLayers)
  unfold spsSlot spsFields
  rw [hlayer]
  simp only [List.map_cons, List.map_nil, List.forall_mem_cons, List.not_mem_nil, false_implies,
    implies_true, and_true, unsigned, fits_unsigned]
  have := hs.width
  have := hs.height
  have := hs.scalingList
  have := hs.amp
  have := hs.sao
  have := hs.pcm
  have := hs.pcmLoopFilter
  have := hs.shortTerm
  have := hs.longTermPresent
  have := hs.longTerm
  have := hs.temporalMvp
  have := hs.strongIntra
  have := hs.ctb
  by_cases hpcm : sps.pcmEnabledFlag = 0
  · simp only [hpcm, ne_eq, not_true_eq_false, if_false, false_implies, true_and]
    omega
  · simp only [hpcm, ne_eq, not_false_eq_true, if_true, true_implies]
    omega

theorem ppsFits_iff (hs : SpsDerived sps) (hp : PpsBounds pps) : (∀ f ∈ ppsSlot sps pps, f.Fits) ↔
    pps.spsId < 16 ∧ pps.numRefIdxL0DefaultActiveMinus1 ≤ 14 ∧
    pps.numRefIdxL1DefaultActiveMinus1 ≤ 14 ∧
      (-64 ≤ pps.initQpMinus26 ∧ pps.initQpMinus26 ≤ 63) ∧
      pps.diffCuQpDeltaDepth ≤ sps.ctbLog2SizeY ∧
      (-16 ≤ pps.ppsCbQpOffset ∧ pps.ppsCbQpOffset ≤ 15) ∧
      (-16 ≤ pps.ppsCrQpOffset ∧ pps.ppsCrQpOffset ≤ 15) ∧
      (-8 ≤ pps.ppsBetaOffsetDiv2 ∧ pps.ppsBetaOffsetDiv2 ≤ 7) ∧
      (-8 ≤ pps.ppsTcOffsetDiv2 ∧ pps.ppsTcOffsetDiv2 ≤ 7) ∧
      pps.log2ParallelMergeLevelMinus2 ≤ 5 := by
  unfold ppsSlot
  simp only [List.forall_mem_cons, List.not_mem_nil, false_implies, implies_true, and_true,
    SlotField.Fits, Bool.false_eq_true, if_false, if_true, hs.ctbLog2]
  have := hp.ppsId
  have := hp.dependent
  have := hp.outputFlag
  have := hp.extraBits
  have := hp.signHiding
  have := hp.cabacInit
  have := hp.constrainedIntra
  have := hp.transformSkip
  have := hp.cuQpDelta
  have := hp.chromaOffsets
  have := hp.weighted
  have := hp.weightedBi
  have := hp.bypass
  have := hp.tiles
  have := hp.sync
  have := hp.columns
  have := hp.rows
  have := hp.acrossTiles
  have := hp.acrossSlices
  have := hp.overrideEnabled
  have := hp.deblockingDisabled
  have := hp.listsModification
  have := hp.extension
  have := hs.ctb
  by_cases htiles : pps.tilesEnabledFlag = 0
  · simp only [htiles, ne_eq, not_true_eq_false, if_false]
    omega
  · simp only [htiles, ne_eq, not_false_eq_true, if_true]
    omega

end Fitting

section Unit

variable {vps : Option Vps} {sps : Sps} {pps : Pps} {tiles : TileSyntax}

theorem representable_iff (hs : SpsDerived sps) (hp : PpsBounds pps)
    (hv : ∀ v ∈ vps, v.vpsId < 16) :
    ((∀ f ∈ spsSlot vps sps, f.Fits) ∧ ∀ f ∈ ppsSlot sps pps, f.Fits) ↔ Representable sps pps := by
  rw [spsFits_iff hs hv, ppsFits_iff hs hp]
  constructor
  · rintro ⟨⟨h1, h2, h3, h4, h5, h6, h7, h8, h9, h10, h11, h12, h13, h14⟩, h15, h16, h17, h18, h19,
      h20, h21, h22, h23, h24⟩
    exact ⟨h1, h2, h3, h4, h5, h6, h7, h8, h9, h10, h11, h12, h13, h14, h15, h16, h17, h18, h19,
      h20, h21, h22, h23, h24⟩
  · intro h
    exact ⟨⟨h.spsId, h.chromaFormat, h.depthLuma, h.depthChroma, h.maxLsb, h.minTransform,
      h.diffTransform,
      h.hierarchyInter, h.hierarchyIntra, h.pcmLuma, h.pcmChroma, h.diffPcm, h.minPcm,
      h.buffering⟩, h.ppsSpsId,
      h.refIdxL0, h.refIdxL1, h.initQp, h.quantGroup, h.cbOffset, h.crOffset, h.betaOffset,
      h.tcOffset, h.mergeLevel⟩

/-- The tiles of both directions are in the packet behind each other. -/
theorem packet_tiles (vps : Option Vps) (sps : Sps) (pps : Pps) :
    fields (ppsPacket vps sps pps).data 256 (List.replicate 20 12) =
        (tileSizes sps pps 20 sps.picWidthInLumaSamples (pps.numTileColumnsMinus1 + 1)).map
          (fun v => (v - 1) % 2 ^ 12) ∧
      fields (ppsPacket vps sps pps).data 496 (List.replicate 22 12) =
        (tileSizes sps pps 22 sps.picHeightInLumaSamples (pps.numTileRowsMinus1 + 1)).map fun v =>
        (v - 1) % 2 ^ 12 := by
  have htile := (packet_sections vps sps pps).2.2.2.2.2
  have hsplit : List.replicate 42 12 = List.replicate 20 12 ++ List.replicate 22 12 :=
    List.replicate_add 20 22 12
  rw [hsplit, fields_append, tileFields, List.map_map, List.map_append] at htile
  refine List.append_inj htile ?_
  rw [length_fields, List.length_replicate, List.length_map, tileSizes, List.length_map,
    List.length_range]

theorem slot_decodes_iff (hs : SpsDerived sps) (hp : PpsBounds pps) (hv : ∀ v ∈ vps, v.vpsId < 16)
    (hm : Matches pps tiles) : SlotDecodes vps sps pps tiles (ppsPacket vps sps pps).bytes ↔
      Representable sps pps ∧ tiles.columns.Even sps.picWidthInCtbsY ∧
      tiles.rows.Even sps.picHeightInCtbsY := by
  obtain ⟨hclean, -, -, hsps, hpps, -⟩ := packet_sections vps sps pps
  obtain ⟨hcolumnFields, hrowFields⟩ := packet_tiles vps sps pps
  have hlog := hs.ctb
  have hwidth :=
    ctbs_range hs.width.1 hs.width.2 (Nat.le_add_right_of_le (Nat.le_add_left 3 _)) hlog
  have hheight :=
    ctbs_range hs.height.1 hs.height.2 (Nat.le_add_right_of_le (Nat.le_add_left 3 _)) hlog
  rw [← hs.widthInCtbs] at hwidth
  rw [← hs.heightInCtbs] at hheight
  have hcolumnSizes :=
    decodeSizes_eq (show pps.numTileColumnsMinus1 + 1 ≤ 20 from hp.columns) hwidth.2
    (tileSizes_eq (fun hno => by rw [(hp.single hno).1]) hs.widthInCtbs hwidth.2) hcolumnFields
  have hrowSizes := decodeSizes_eq (show pps.numTileRowsMinus1 + 1 ≤ 22 from hp.rows) hheight.2
    (tileSizes_eq (fun hno => by rw [(hp.single hno).2]) hs.heightInCtbs hheight.2) hrowFields
  rw [← hm.1] at hcolumnSizes
  rw [← hm.2] at hrowSizes
  have hcolumns := sizes_iff (by rw [hm.1]; exact Nat.succ_pos _) hcolumnSizes
  have hrows := sizes_iff (by rw [hm.2]; exact Nat.succ_pos _) hrowSizes
  have hspsSection := readFields_eq_iff (forall₂_unsigned (spsFields vps sps)) hsps
  have hppsSection := readFields_eq_iff (forall₂_ppsSlot hlog) hpps
  rw [← representable_iff hs hp hv, ← hcolumns, ← hrows]
  constructor
  · intro h
    have hread := h.spsSection
    have hread' := h.ppsSection
    have hcol := h.columns
    have hrow := h.rows
    rw [hclean.ofBytes] at hread hread' hcol hrow
    exact ⟨⟨hspsSection.mp hread, hppsSection.mp hread'⟩, ⟨hcol, h.columnTiles⟩, hrow, h.rowTiles⟩
  · rintro ⟨⟨hfits, hfits'⟩, ⟨hcol, hcolumnTiles⟩, hrow, hrowTiles⟩
    constructor
    · rw [hclean.ofBytes]
      exact hspsSection.mpr hfits
    · rw [hclean.ofBytes]
      exact hppsSection.mpr hfits'
    · rw [hclean.ofBytes]
      exact hcol
    · rw [hclean.ofBytes]
      exact hrow
    · exact hcolumnTiles
    · exact hrowTiles

/-- All slots are the packet. -/
theorem unitDecodes_iff {outSize : Nat} (hout : spsPpsUnitSize ≤ outSize) :
    UnitDecodes vps sps pps tiles outSize ↔
    SlotDecodes vps sps pps tiles (ppsPacket vps sps pps).bytes := by
  obtain ⟨-, hcap, hpos, -⟩ := packet_sections vps sps pps
  have hlen : (ppsPacket vps sps pps).bytes.length = 112 := by
    rw [BitPacker.bytes, List.length_map, List.length_range, hcap]
  have hpack : packPps vps sps pps outSize =
      some (List.replicate 64 (ppsPacket vps sps pps).bytes).flatten :=
    if_neg (Nat.not_lt.mpr hout)
  constructor
  · rintro ⟨slot, hslot, hslotLen, -, hdecodes⟩
    have hflat := Option.some.inj (hpack.symm.trans hslot)
    rw [List.replicate_succ, List.flatten_cons, List.replicate_succ, List.flatten_cons] at hflat
    obtain ⟨rfl, -⟩ := List.append_inj hflat (hlen.trans hslotLen.symm)
    exact hdecodes
  · intro hdecodes
    exact ⟨_, hpack, hlen, hpos, hdecodes⟩

/-- The slots of the unit of accepted sets give back the values and the tiles just for values that
there is room for and tiles of uniform spacing, no more than blocks. -/
theorem unit_decodes_iff {o o' : ParseResult} {br br' : BitReader} {outSize : Nat}
    (hvps : ∀ v ∈ vps, AcceptsVps v) (hsps : AcceptsSps sps)
    (h : exec parsePps o br = ((.ok (), o'), br')) (hpps : o'.pps[o'.activePpsId.toNat]? = some pps)
    (hout : spsPpsUnitSize ≤ outSize) :
    ∃ tiles o₁ br₁, exec readTileSyntax o br = ((.ok tiles, o₁), br₁) ∧
      (UnitDecodes vps sps pps tiles outSize ↔
        Representable sps pps ∧ tiles.columns.Even sps.picWidthInCtbsY ∧
        tiles.rows.Even sps.picHeightInCtbsY) := by
  obtain ⟨tiles, o₁, br₁, hread, hbounds, hmatches⟩ := matches_of_accepts h hpps
  refine ⟨tiles, o₁, br₁, hread, ?_⟩
  rw [unitDecodes_iff hout]
  exact slot_decodes_iff (derived_of_accepts hsps) hbounds
    (fun v hv => vpsId_lt (hvps v hv)) hmatches

end Unit

section Examples

/-- A VPS, an SPS of 16 by 4 blocks, and two PPS with two columns of tiles: of 8 blocks each, or of
4 and 12. -/
def plainVps : BitReader :=
  .init [0x2c, 0x01, 0xff, 0xff, 0x01, 0x60, 0x00, 0x00, 0x00, 0x90, 0x00, 0x00, 0x00, 0x00, 0x00,
    0x1e, 0x97, 0x02, 0x40]

def plainSps : BitReader :=
  .init [0x21, 0x01, 0x60, 0x00, 0x00, 0x00, 0x90, 0x00, 0x00, 0x00, 0x00, 0x00, 0x1e, 0x48, 0x02,
    0x02, 0x04, 0x16, 0x59, 0x7a, 0xac, 0x20, 0x80]

def evenPps : BitReader := .init [0x22, 0x01, 0x9c, 0xa2, 0x90, 0x25, 0xe2, 0x80]

def explicitPps : BitReader := .init [0x22, 0x01, 0x9c, 0xa2, 0x90, 0x25, 0x13, 0x14]

def withPlainSps : ParseResult := (exec parseSps {} plainSps).1.2

def afterPps (br : BitReader) : ParseResult := (exec parsePps withPlainSps br).1.2

def plainTiles (br : BitReader) : Option TileSyntax :=
  (exec readTileSyntax withPlainSps br).1.1.toOption

/-- Where a parser accepts, it gives what it has then. -/
theorem exec_of_isOk {p : P Unit} {o : ParseResult} {br : BitReader}
    (h : (exec p o br).1.1.isOk = true) :
    exec p o br = ((.ok (), (exec p o br).1.2), (exec p o br).2) := by
  obtain ⟨u, o', br', hexec⟩ := Rps.exists_of_isOk h
  rw [hexec]

theorem accepts_plainSps : ∃ sps, withPlainSps.sps[withPlainSps.activeSpsId.toNat]? = some sps ∧
    AcceptsSps sps := by
  obtain ⟨sps, hsps⟩ := Option.isSome_iff_exists.mp
    (show (withPlainSps.sps[withPlainSps.activeSpsId.toNat]?).isSome = true by decide +kernel)
  exact ⟨sps, hsps, {}, plainSps, withPlainSps, _, exec_of_isOk (by decide +kernel), hsps⟩

/-- The theorem on the sets with even tiles. -/
theorem unit_decodes_iff_even : ∃ vps sps pps tiles, AcceptsVps vps ∧ AcceptsSps sps ∧
    (exec parsePps withPlainSps evenPps).1.1.isOk = true ∧
    (afterPps evenPps).pps[(afterPps evenPps).activePpsId.toNat]? = some pps ∧
    plainTiles evenPps = some tiles ∧ tiles.columns.sizes sps.picWidthInCtbsY = [8, 8] ∧
    UnitDecodes (some vps) sps pps tiles spsPpsUnitSize := by
  have hok : (exec parsePps withPlainSps evenPps).1.1.isOk = true := by decide +kernel
  obtain ⟨vps, hvps⟩ := Option.isSome_iff_exists.mp
    (show ((exec parseVps {} plainVps).1.2.vps[2]?).isSome = true by decide +kernel)
  obtain ⟨id, o₁, br₁, hid⟩ :=
    Rps.exists_of_isOk (r := exec (brU8 4) ({} : ParseResult) plainVps) (by decide +kernel)
  have hnum : (exec (brU8 4) ({} : ParseResult) plainVps).1.1.toOption = some 2 := by decide +kernel
  rw [hid] at hnum
  obtain rfl : id = 2 := Option.some.inj hnum
  have haccepts : AcceptsVps vps :=
    ⟨{}, plainVps, 2, o₁, br₁, _, _, hid, exec_of_isOk (by decide +kernel), hvps⟩
  obtain ⟨sps, hsps, hacceptsSps⟩ := accepts_plainSps
  obtain ⟨pps, hpps⟩ := Option.isSome_iff_exists.mp
    (show ((afterPps evenPps).pps[(afterPps evenPps).activePpsId.toNat]?).isSome =
      true by decide +kernel)
  have hfacts : ∀ vps ∈ (exec parseVps {} plainVps).1.2.vps[2]?,
      ∀ sps ∈ withPlainSps.sps[withPlainSps.activeSpsId.toNat]?,
      ∀ pps ∈ (afterPps evenPps).pps[(afterPps evenPps).activePpsId.toNat]?,
      ∀ tiles ∈ plainTiles evenPps,
      ((∀ f ∈ spsSlot (some vps) sps, f.Fits) ∧ ∀ f ∈ ppsSlot sps pps, f.Fits) ∧
        tiles.columns.Even sps.picWidthInCtbsY ∧ tiles.rows.Even sps.picHeightInCtbsY ∧
        tiles.columns.sizes sps.picWidthInCtbsY = [8, 8] := by decide +kernel
  have hexec : exec parsePps withPlainSps evenPps =
      ((.ok (), afterPps evenPps), (exec parsePps withPlainSps evenPps).2) :=
    exec_of_isOk hok
  have hall : ∀ v ∈ some vps, AcceptsVps v := fun v hv => Option.some.inj hv ▸ haccepts
  obtain ⟨tiles, o₂, br₂, htiles, hiff⟩ :=
    unit_decodes_iff hall hacceptsSps hexec hpps (Nat.le_refl spsPpsUnitSize)
  have hplain : plainTiles evenPps = some tiles := by
    unfold plainTiles
    rw [htiles]
    rfl
  obtain ⟨hfits, hcolumns, hrows, hsizes⟩ := hfacts vps hvps sps hsps pps hpps tiles hplain
  obtain ⟨-, -, -, -, hbounds, -⟩ := matches_of_accepts hexec hpps
  have hrepresentable := (representable_iff (derived_of_accepts hacceptsSps) hbounds
    fun v hv => vpsId_lt (hall v hv)).mp hfits
  exact ⟨vps, sps, pps, tiles, haccepts, hacceptsSps, hok, hpps, hplain, hsizes,
    hiff.mpr ⟨hrepresentable, hcolumns, hrows⟩⟩

/-- Columns of 4 and 12 blocks come back as two of 8. -/
theorem explicit_tiles_lost : ∃ sps pps tiles, AcceptsSps sps ∧
    (exec parsePps withPlainSps explicitPps).1.1.isOk = true ∧
    (afterPps explicitPps).pps[(afterPps explicitPps).activePpsId.toNat]? = some pps ∧
    plainTiles explicitPps = some tiles ∧ tiles.columns.sizes sps.picWidthInCtbsY = [4, 12] ∧
    decodeSizes (ofBytes (ppsPacket none sps pps).bytes) 256 2 = [8, 8] ∧
    ¬UnitDecodes none sps pps tiles spsPpsUnitSize := by
  obtain ⟨sps, hsps, hacceptsSps⟩ := accepts_plainSps
  obtain ⟨pps, hpps⟩ := Option.isSome_iff_exists.mp
    (show ((afterPps explicitPps).pps[(afterPps explicitPps).activePpsId.toNat]?).isSome =
      true by decide +kernel)
  obtain ⟨tiles, htiles⟩ :=
    Option.isSome_iff_exists.mp (show (plainTiles explicitPps).isSome = true by decide +kernel)
  have hfacts : ∀ sps ∈ withPlainSps.sps[withPlainSps.activeSpsId.toNat]?,
      ∀ pps ∈ (afterPps explicitPps).pps[(afterPps explicitPps).activePpsId.toNat]?,
      ∀ tiles ∈ plainTiles explicitPps,
      tiles.columns.count = 2 ∧ tiles.columns.sizes sps.picWidthInCtbsY = [4, 12] ∧
        decodeSizes (ofBytes (ppsPacket none sps pps).bytes) 256 2 = [8, 8] := by decide +kernel
  obtain ⟨hcount, hsizes, hdecoded⟩ := hfacts sps hsps pps hpps tiles htiles
  refine ⟨sps, pps, tiles, hacceptsSps, by decide +kernel, hpps, htiles, hsizes, hdecoded, ?_⟩
  rw [unitDecodes_iff le_rfl]
  intro hdecodes
  have hsame := hdecodes.columns
  rw [hcount, hdecoded, hsizes] at hsame
  exact absurd hsame (by decide)

end Examples

end Rkvdec.Engine.ParameterUnit
