import Mathlib.Tactic
import Mathlib.Data.Nat.Size
import Mathlib.Data.Nat.Digits.Lemmas
import Rkvdec.Av1.Obu
import Rkvdec.Bitstream.HeaderBits

/-! The tile table of a picture: the tiling in the frame header, the parse of the tile group in
`Av1HwKickPicture` and `Av1BuildTileInfo`. -/
namespace Rkvdec.Av1

open Bitstream (Byte)
open Headers (HeaderBits brU brBit)

/-- `br_uniform`, for a bound above 1. -/
def brUniform (n : Nat) : HeaderBits Nat := do
  let l := n.log2 + 1
  let m := 2 ^ l - n
  let v ← brU (l - 1)
  if v.toNat < m then pure v.toNat
  else do
    let b ← brU 1
    pure (v.toNat * 2 - m + b.toNat)

/-- `tile_log2`: the loop over `k`. -/
def tileLog2From (sz tgt : Nat) : Nat → Nat → Nat
  | 0, k => k
  | fuel + 1, k => if sz <<< k < tgt then tileLog2From sz tgt fuel (k + 1) else k

def tileLog2 (sz tgt : Nat) : Nat := tileLog2From sz tgt tgt 0

/-- What the engine reads of `tiling`. The starts have the end of the frame behind them. -/
structure Tiling where
  cols : Nat
  rows : Nat
  colStartSb : List Nat
  rowStartSb : List Nat
  nBytes : Nat
deriving DecidableEq, Repr

/-- Bits that say to go on. -/
def countLog2 (limit : Nat) : Nat → Nat → HeaderBits Nat
  | 0, k => pure k
  | fuel + 1, k =>
    if k < limit then do
      let more ← brBit
      if more then countLog2 limit fuel (k + 1) else pure k
    else pure k

/-- Tiles of one extent. -/
def uniformStarts (extent limit : Nat) : Nat → Nat → List Nat
  | 0, _ => []
  | fuel + 1, sb => if sb < limit then sb :: uniformStarts extent limit fuel (sb + extent) else []

/-- The extent of a tile that is coded. -/
def codedExtent (most : Nat) : HeaderBits Nat :=
  if 1 < most then do
    let v ← brUniform most
    pure (1 + v)
  else pure 1

/-- The variables of a loop over coded tiles when it is done: the starts of the tiles, the widest
extent and where the next tile would start. -/
structure CodedTiles where
  starts : List Nat
  widest : Nat
  reached : Nat

/-- Tiles of coded extents, at most as many as there is fuel. -/
def codedStarts (limit most : Nat) : Nat → Nat → Nat → HeaderBits CodedTiles
  | 0, sb, widest => pure ⟨[], widest, sb⟩
  | fuel + 1, sb, widest =>
    if sb < limit then do
      let w ← codedExtent (min (limit - sb) most)
      let rest ← codedStarts limit most fuel (sb + w) (max widest w)
      pure { rest with starts := sb :: rest.starts }
    else pure ⟨[], widest, sb⟩

def maxTileCols : Nat := 64
def maxTileRows : Nat := 64

/-- The starts, with the logarithms of their numbers, and where the two loops got to. -/
structure TileGrid where
  log2Cols : Nat
  log2Rows : Nat
  colStarts : List Nat
  rowStarts : List Nat
  colsReached : Nat
  rowsReached : Nat

def uniformGrid (sbw sbh minLog2Cols minLog2Tiles : Nat) : HeaderBits TileGrid := do
  let maxLog2Cols := tileLog2 1 (min sbw maxTileCols)
  let maxLog2Rows := tileLog2 1 (min sbh maxTileRows)
  let log2Cols ← countLog2 maxLog2Cols maxLog2Cols minLog2Cols
  let log2Rows ← countLog2 maxLog2Rows maxLog2Rows (minLog2Tiles - log2Cols)
  let tileW := 1 + (sbw - 1) >>> log2Cols
  let tileH := 1 + (sbh - 1) >>> log2Rows
  let colStarts := uniformStarts tileW sbw sbw 0
  let rowStarts := uniformStarts tileH sbh sbh 0
  pure
    { log2Cols := log2Cols
      log2Rows := log2Rows
      colStarts := colStarts
      rowStarts := rowStarts
      colsReached := colStarts.length * tileW
      rowsReached := rowStarts.length * tileH }

def codedGrid (sbw sbh maxTileWidthSb minLog2Tiles : Nat) : HeaderBits TileGrid := do
  let cols ← codedStarts sbw maxTileWidthSb maxTileCols 0 0
  let maxTa := if minLog2Tiles = 0 then sbw * sbh else (sbw * sbh) >>> (minLog2Tiles + 1)
  let maxTh := max (maxTa / max cols.widest 1) 1
  let rows ← codedStarts sbh maxTh maxTileRows 0 0
  pure
    { log2Cols := tileLog2 1 cols.starts.length
      log2Rows := tileLog2 1 rows.starts.length
      colStarts := cols.starts
      rowStarts := rows.starts
      colsReached := cols.reached
      rowsReached := rows.reached }

def tileGrid (uniform : Bool) (sbw sbh maxTileWidthSb minLog2Cols minLog2Tiles : Nat) :
    HeaderBits TileGrid :=
  if uniform then uniformGrid sbw sbh minLog2Cols minLog2Tiles
  else codedGrid sbw sbh maxTileWidthSb minLog2Tiles

/-- `context_update_tile_id` and `TileSizeBytes`; `none` when there is no such tile. -/
def tileSizeBytes (g : TileGrid) : HeaderBits (Option Nat) :=
  if g.log2Cols = 0 ∧ g.log2Rows = 0 then pure (some 0)
  else do
    let update ← brU (g.log2Cols + g.log2Rows)
    if g.colStarts.length * g.rowStarts.length ≤ update.toNat then pure none
    else do
      let n ← brU 2
      pure (some (n.toNat + 1))

/-- A frame's length in superblocks. -/
def sbCount (sb128 : Bool) (n : Nat) : Nat :=
  (n + (2 ^ (6 + sb128.toNat) - 1)) >>> (6 + sb128.toNat)

/-- `MAX_TILE_WIDTH` in superblocks. -/
def maxTileWidthSb (sb128 : Bool) : Nat := 4096 >>> (6 + sb128.toNat)

/-- `MAX_TILE_AREA` in superblocks. -/
def maxTileAreaSb (sb128 : Bool) : Nat := (4096 * 2304) >>> (2 * (6 + sb128.toNat))

/-- The tiles of a frame of the given size. -/
def parseGrid (sb128 : Bool) (width height : Nat) : HeaderBits TileGrid := do
  let uniform ← brBit
  let sbw := sbCount sb128 width
  let sbh := sbCount sb128 height
  let minLog2Cols := tileLog2 (maxTileWidthSb sb128) sbw
  let minLog2Tiles := max (tileLog2 (maxTileAreaSb sb128) (sbw * sbh)) minLog2Cols
  tileGrid uniform sbw sbh (maxTileWidthSb sb128) minLog2Cols minLog2Tiles

/-- The tiling in a frame header. -/
def parseTiling (sb128 : Bool) (width height : Nat) : HeaderBits (Option Tiling) := do
  let g ← parseGrid sb128 width height
  let nBytes ← tileSizeBytes g
  pure (nBytes.map fun nBytes =>
    { cols := g.colStarts.length
      rows := g.rowStarts.length
      colStartSb := g.colStarts ++ [sbCount sb128 width]
      rowStartSb := g.rowStarts ++ [sbCount sb128 height]
      nBytes := nBytes })

namespace Tiling

def count (t : Tiling) : Nat := t.cols * t.rows

/-- What the parser promises of a tiling. -/
structure Accepted (t : Tiling) : Prop where
  cols_pos : 0 < t.cols
  rows_pos : 0 < t.rows
  bytes_le : t.nBytes ≤ 4

theorem Accepted.count_pos {t : Tiling} (h : t.Accepted) : 0 < t.count :=
  Nat.mul_pos h.cols_pos h.rows_pos

end Tiling

section Parser

variable {σ : Type} {H : Lib.Prog.Handler Nat (fun n => BitVec n) σ} {s : σ}

theorem uniformStarts_pos {extent limit : Nat} (h : 0 < limit) :
    0 < (uniformStarts extent limit limit 0).length := by
  obtain ⟨fuel, rfl⟩ : ∃ f, limit = f + 1 := ⟨limit - 1, by omega⟩
  simp [uniformStarts]

theorem sbCount_pos {sb128 : Bool} {n : Nat} (h : 0 < n) : 0 < sbCount sb128 n := by
  have hpow : 0 < 2 ^ (6 + sb128.toNat) := Nat.two_pow_pos _
  rw [sbCount, Nat.shiftRight_eq_div_pow]
  exact Nat.div_pos (by omega) hpow

theorem codedStarts_pos {limit most fuel widest : Nat} (h : 0 < limit) :
    0 < ((codedStarts limit most (fuel + 1) 0 widest).run H s).1.starts.length := by
  unfold codedStarts
  rw [if_pos h]
  simp only [Lib.Prog.run_bind, Lib.Prog.run_pure, List.length_cons]
  omega

theorem tileGrid_pos {uniform : Bool} {sbw sbh maxTileWidthSb minLog2Cols minLog2Tiles : Nat}
    (hw : 0 < sbw) (hh : 0 < sbh) :
    let g := ((tileGrid uniform sbw sbh maxTileWidthSb minLog2Cols minLog2Tiles).run H s).1
    0 < g.colStarts.length ∧ 0 < g.rowStarts.length := by
  unfold tileGrid
  cases uniform with
  | true =>
    simp only [if_true, uniformGrid, Lib.Prog.run_bind, Lib.Prog.run_pure]
    exact ⟨uniformStarts_pos hw, uniformStarts_pos hh⟩
  | false =>
    simp only [Bool.false_eq_true, if_false, codedGrid, Lib.Prog.run_bind, Lib.Prog.run_pure]
    exact ⟨codedStarts_pos hw, codedStarts_pos hh⟩

theorem tileSizeBytes_le {g : TileGrid} {n : Nat} (h : ((tileSizeBytes g).run H s).1 = some n) :
    n ≤ 4 := by
  unfold tileSizeBytes at h
  split at h
  · cases h
    omega
  · simp only [Lib.Prog.run_bind] at h
    split at h
    · cases h
    · simp only [Lib.Prog.run_bind, Lib.Prog.run_pure, Option.some.injEq] at h
      have hlt := ((brU 2).run H ((brU (g.log2Cols + g.log2Rows)).run H s).2).1.isLt
      omega

/-- A tiling that the parser accepts, whatever the bits are. -/
theorem parseTiling_accepted {sb128 : Bool} {width height : Nat} {t : Tiling} (hw : 0 < width)
    (hh : 0 < height) (h : ((parseTiling sb128 width height).run H s).1 = some t) : t.Accepted := by
  simp only [parseTiling, parseGrid, Lib.Prog.run_bind, Lib.Prog.run_pure,
    Option.map_eq_some_iff] at h
  obtain ⟨n, hn, rfl⟩ := h
  obtain ⟨hcols, hrows⟩ := tileGrid_pos (sbCount_pos hw) (sbCount_pos hh)
  exact ⟨hcols, hrows, tileSizeBytes_le hn⟩

end Parser

/-- A part of the tile data, `[start, stop)`. -/
structure Window where
  start : Nat
  stop : Nat
deriving DecidableEq, Repr

/-- The bytes of a size field, lowest first. -/
def readSize (base cursor : Nat) : Nat → Nat → Nat → Scan Nat
  | 0, _, sz => pure sz
  | n + 1, b, sz => do
    let x ← byteAt (base + (cursor + b) % 2 ^ 32)
    readSize base cursor n (b + 1) (sz ||| x.toNat <<< (b * 8))

/-- The loop over the tiles, with 32-bit arithmetic; `none` where a size field is outside. -/
def tileLoop (base nBytes tileDataLen : Nat) : Nat → Nat → Scan (Option (List Window))
  | 0, _ => pure (some [])
  | 1, cursor => pure (some [⟨cursor, tileDataLen⟩])
  | n + 2, cursor =>
    if tileDataLen < (cursor + nBytes) % 2 ^ 32 then pure none
    else do
      let szMinus1 ← readSize base cursor nBytes 0 0
      let start := (cursor + nBytes) % 2 ^ 32
      let tileSize := (szMinus1 + 1) % 2 ^ 32
      let stop := (start + tileSize) % 2 ^ 32
      let rest ← tileLoop base nBytes tileDataLen (n + 1) stop
      pure (rest.map (⟨start, stop⟩ :: ·))

/-- The length of the tile group header with the given first byte. -/
def groupHeaderLen (first : Byte) (nTiles : Nat) : Nat :=
  if (first >>> 7) &&& 1 = 0 then 1 else (1 + 2 * (nTiles - 1).size + 7) / 8

def kMaxTiles : Nat := 512

/-- The tile offsets, unless the parse fails or there is nothing to parse. -/
def tileOffsets (t : Tiling) (base tileDataLen : Nat) : Scan (Option (List Window)) :=
  if 1 < t.count ∧ t.count ≤ kMaxTiles then do
    let first ← byteAt base
    tileLoop base t.nBytes tileDataLen t.count (groupHeaderLen first t.count)
  else pure none

/-- An entry of the table, 16 bytes: the fields that are not zero. -/
structure TileEntry where
  widthSb : BitVec 8
  heightSb : BitVec 8
  start : BitVec 32
  stop : BitVec 32
deriving DecidableEq, Repr

def TileEntry.window (x : TileEntry) : Window := ⟨x.start.toNat, x.stop.toNat⟩

/-- The extent of a tile along one axis. -/
def extentSb (starts : List Nat) (i : Nat) : BitVec 8 :=
  BitVec.ofNat 8 (starts.getD (i + 1) 0) - BitVec.ofNat 8 (starts.getD i 0)

def tileEntry (t : Tiling) (tileDataLen : Nat) (offsets : Option (List Window)) (col row : Nat) :
    TileEntry :=
  let w := (offsets.map fun ws => ws.getD (row * t.cols + col) ⟨0, 0⟩).getD ⟨0, tileDataLen⟩
  { widthSb := extentSb t.colStartSb col
    heightSb := extentSb t.rowStartSb row
    start := BitVec.ofNat 32 w.start
    stop := BitVec.ofNat 32 w.stop }

/-- `Av1BuildTileInfo`: the entries it writes, none when the table is too small for them. -/
def buildTileInfo (t : Tiling) (tileDataLen : Nat) (offsets : Option (List Window))
    (dstSize : Nat) :
    List TileEntry :=
  if dstSize < 16 ∨ dstSize < t.count * 16 then []
  else (List.range t.cols).flatMap fun col =>
    (List.range t.rows).map fun row => tileEntry t tileDataLen offsets col row

/-- The sizes that `Av1DecodeEngine_Init` allocates. -/
def bitstreamSize : Nat := 4 * 1024 * 1024
def tileInfoSize : Nat := 4096

/-- A kick that reaches the submit: the OBU fits the bitstream buffer, and its header was parsed
inside its payload. -/
structure TileKick where
  tiling : Tiling
  slice : List Byte
  frameTagSize : Nat
  accepted : tiling.Accepted
  header_le : frameTagSize ≤ slice.length
  slice_le : slice.length ≤ bitstreamSize

namespace TileKick

/-- The kick of a frame whose header the parser accepts, with the bits from its tiling on. -/
def ofHeader {sb128 : Bool} {width height : Nat} {bits : Headers.BitCursor} {tiling : Tiling}
    (hwidth : 0 < width) (hheight : 0 < height)
    (hparse : ((parseTiling sb128 width height).run Headers.BitCursor.answer bits).1 = some tiling)
    (slice : List Byte) (frameTagSize : Nat) (hheader : frameTagSize ≤ slice.length)
    (hslice : slice.length ≤ bitstreamSize) : TileKick where
  tiling := tiling
  slice := slice
  frameTagSize := frameTagSize
  accepted := parseTiling_accepted hwidth hheight hparse
  header_le := hheader
  slice_le := hslice

def tileDataLen (k : TileKick) : Nat := k.slice.length - k.frameTagSize

def parse (k : TileKick) : Scan (Option (List Window)) :=
  tileOffsets k.tiling k.frameTagSize k.tileDataLen

/-- The entries the kick writes. -/
def table (k : TileKick) : List TileEntry :=
  buildTileInfo k.tiling k.tileDataLen (exec k.slice k.parse) tileInfoSize

/-- The window of a tile, by its number in raster order; the table is in column order. -/
def window (k : TileKick) (id : Nat) : Option Window :=
  (k.table[id % k.tiling.cols * k.tiling.rows + id / k.tiling.cols]?).map TileEntry.window

/-- Every tile has a window in the tile data, they follow each other in raster order, and only bytes
of the payload were read. -/
structure Sound (k : TileKick) : Prop where
  window_some : ∀ id < k.tiling.count, ∃ w, k.window id = some w ∧ w.start ≤ w.stop ∧
    w.stop ≤ k.tileDataLen
  ordered : ∀ i j w w', i < j → j < k.tiling.count → k.window i = some w → k.window j = some w' →
    w.stop ≤ w'.start
  inBounds : InBounds k.slice k.parse

end TileKick

/-- The number in a size field of `n` bytes, lowest first. -/
def sizeField (slice : List Byte) (pos : Nat) : Nat → Nat
  | 0 => 0
  | n + 1 => (slice.getD pos 0).toNat + 256 * sizeField slice (pos + 1) n

/-- The size of a tile, as 32 bits hold it. -/
def tileSizeAt (slice : List Byte) (pos nBytes : Nat) : Nat :=
  (sizeField slice pos nBytes + 1) % 2 ^ 32

/-- From a position on there is room for the size fields and for their tiles. -/
def TilesFit (slice : List Byte) (base nBytes tileDataLen : Nat) : Nat → Nat → Prop
  | n + 2, cursor =>
    let stop := cursor + nBytes + tileSizeAt slice (base + cursor) nBytes
    stop ≤ tileDataLen ∧ TilesFit slice base nBytes tileDataLen (n + 1) stop
  | _, cursor => cursor ≤ tileDataLen

instance TilesFit.decidable (slice : List Byte) (base nBytes tileDataLen : Nat) :
    ∀ n cursor, Decidable (TilesFit slice base nBytes tileDataLen n cursor)
  | 0, cursor => inferInstanceAs (Decidable (cursor ≤ tileDataLen))
  | 1, cursor => inferInstanceAs (Decidable (cursor ≤ tileDataLen))
  | n + 2, cursor =>
    have := TilesFit.decidable slice base nBytes tileDataLen (n + 1)
      (cursor + nBytes + tileSizeAt slice (base + cursor) nBytes)
    inferInstanceAs (Decidable (_ ∧ TilesFit slice base nBytes tileDataLen (n + 1) _))

/-- The tile data holds what the tile group says, and the table has room for the tiles. -/
def TileKick.Fits (k : TileKick) : Prop :=
  k.tiling.count = 1 ∨ k.tiling.count * 16 ≤ tileInfoSize ∧
    TilesFit k.slice k.frameTagSize k.tiling.nBytes k.tileDataLen k.tiling.count
      (groupHeaderLen (k.slice.getD k.frameTagSize 0) k.tiling.count)

section Loop

variable {slice : List Byte} {base cursor nBytes len b sz n : Nat} {ws : List Window}

theorem readSize_eq (hsz : sz < 2 ^ (b * 8)) (hwrap : cursor + b + n ≤ 2 ^ 32) :
    exec slice (readSize base cursor n b sz) =
    sz + 2 ^ (b * 8) * sizeField slice (base + cursor + b) n := by
  induction n generalizing b sz with
  | zero => simp [readSize, sizeField]
  | succ n ih =>
    have hindex : base + (cursor + b) % 2 ^ 32 = base + cursor + b := by
      rw [Nat.mod_eq_of_lt (by omega), Nat.add_assoc]
    have hpow : 2 ^ ((b + 1) * 8) = 2 ^ (b * 8) * 256 := by rw [Nat.add_mul, Nat.pow_add]
    have hbyte := (slice.getD (base + cursor + b) 0).isLt
    have hnext : sz + (slice.getD (base + cursor + b) 0).toNat * 2 ^ (b * 8) <
        2 ^ ((b + 1) * 8) := by
      have hmul : (slice.getD (base + cursor + b) 0).toNat * 2 ^ (b * 8) ≤ 255 * 2 ^ (b * 8) :=
        Nat.mul_le_mul_right _ (by omega)
      rw [hpow]
      omega
    simp only [readSize, exec_bind, exec_byteAt, hindex, or_shift hsz]
    rw [ih hnext (by omega), hpow, sizeField]
    ring_nf

theorem exec_readSize (hn : nBytes ≤ 4) (hcursor : cursor + 4 < 2 ^ 32) :
    exec slice (readSize base cursor nBytes 0 0) = sizeField slice (base + cursor) nBytes := by
  rw [readSize_eq (by decide) (by omega)]
  simp

theorem inBounds_readSize (hwrap : cursor + b + n ≤ 2 ^ 32)
    (hend : base + cursor + b + n ≤ slice.length) :
    InBounds slice (readSize base cursor n b sz) := by
  induction n generalizing b sz with
  | zero => trivial
  | succ n ih =>
    simp only [readSize, inBounds_bind, inBounds_byteAt]
    refine ⟨?_, ih (by omega) (by omega)⟩
    rw [Nat.mod_eq_of_lt (by omega)]
    omega

/-- What the parse has to give. -/
def WellPlaced (len : Nat) (ws : List Window) : Prop :=
  (∀ w ∈ ws, w.start ≤ w.stop ∧ w.stop ≤ len) ∧ ws.Pairwise fun w w' => w.stop ≤ w'.start

/-- One turn of the loop, where the size field is inside. -/
theorem exec_tileLoop_succ (hn : nBytes ≤ 4) (hcursor : cursor + 4 < 2 ^ 32) :
    exec slice (tileLoop base nBytes len (n + 2) cursor) =
      if len < cursor + nBytes then none
      else
        let stop := (cursor + nBytes + tileSizeAt slice (base + cursor) nBytes) % 2 ^ 32
        (exec slice (tileLoop base nBytes len (n + 1) stop)).map
          (⟨cursor + nBytes, stop⟩ :: ·) := by
  have hstart : (cursor + nBytes) % 2 ^ 32 = cursor + nBytes := Nat.mod_eq_of_lt (by omega)
  simp only [tileLoop, exec_ite, exec_bind, exec_pure, exec_readSize hn hcursor, hstart, tileSizeAt]

theorem tileLoop_length (h : exec slice (tileLoop base nBytes len n cursor) = some ws) :
    ws.length = n := by
  induction n using Nat.twoStepInduction generalizing cursor ws with
  | zero =>
    cases h
    rfl
  | one =>
    cases h
    rfl
  | more n _ ih =>
    simp only [tileLoop, exec_ite, exec_bind, exec_pure] at h
    split at h
    · cases h
    · obtain ⟨rest, hrest, rfl⟩ := Option.map_eq_some_iff.mp h
      rw [List.length_cons, ih hrest]

/-- The offsets fit in 32 bits. -/
theorem tileLoop_lt (hlen : len < 2 ^ 32) (hcursor : cursor < 2 ^ 32)
    (h : exec slice (tileLoop base nBytes len n cursor) = some ws) :
    ∀ w ∈ ws, w.start < 2 ^ 32 ∧ w.stop < 2 ^ 32 := by
  induction n using Nat.twoStepInduction generalizing cursor ws with
  | zero =>
    cases h
    simp
  | one =>
    cases h
    simpa using ⟨hcursor, hlen⟩
  | more n _ ih =>
    simp only [tileLoop, exec_ite, exec_bind, exec_pure] at h
    split at h
    · cases h
    · obtain ⟨rest, hrest, rfl⟩ := Option.map_eq_some_iff.mp h
      intro w hw
      rcases List.mem_cons.mp hw with rfl | hw
      · exact ⟨Nat.mod_lt _ (by decide), Nat.mod_lt _ (by decide)⟩
      · exact ih (Nat.mod_lt _ (by decide)) hrest w hw

/-- Where there is room for the tiles, the loop gives their windows and stays inside. -/
theorem tileLoop_of_fit (hn : nBytes ≤ 4) (hlen : base + len ≤ slice.length)
    (hsmall : len + 4 < 2 ^ 32) (hfit : TilesFit slice base nBytes len (n + 1) cursor) :
    InBounds slice (tileLoop base nBytes len (n + 1) cursor) ∧
      ∃ ws, exec slice (tileLoop base nBytes len (n + 1) cursor) = some ws ∧ WellPlaced len ws ∧
        ∀ w ∈ ws, cursor ≤ w.start := by
  induction n generalizing cursor with
  | zero =>
    have hle : cursor ≤ len := hfit
    refine ⟨trivial, [⟨cursor, len⟩], rfl, ⟨?_, List.pairwise_singleton _ _⟩, ?_⟩
    · simpa using hle
    · simp
  | succ n ih =>
    obtain ⟨hstop, hrest⟩ := hfit
    generalize htile : tileSizeAt slice (base + cursor) nBytes = tile at hstop hrest
    obtain ⟨hbounds, ws, hws, ⟨hinside, hpair⟩, hfront⟩ := ih hrest
    have hmod : (cursor + nBytes + tile) % 2 ^ 32 = cursor + nBytes + tile :=
      Nat.mod_eq_of_lt (by omega)
    constructor
    · refine InBounds.ite (fun _ => trivial) (fun _ => ?_)
      have hstart : (cursor + nBytes) % 2 ^ 32 = cursor + nBytes := Nat.mod_eq_of_lt (by omega)
      simp only [inBounds_bind, inBounds_pure, and_true]
      refine ⟨inBounds_readSize (by omega) (by omega), ?_⟩
      rw [exec_readSize hn (by omega), hstart]
      change InBounds slice (tileLoop base nBytes len (n + 1)
        ((cursor + nBytes + tileSizeAt slice (base + cursor) nBytes) % 2 ^ 32))
      rw [htile, hmod]
      exact hbounds
    · refine ⟨⟨cursor + nBytes, cursor + nBytes + tile⟩ :: ws, ?_, ⟨?_, ?_⟩, ?_⟩
      · rw [exec_tileLoop_succ hn (by omega), if_neg (by omega), htile, hmod]
        simp only [hws, Option.map_some]
      · intro w hw
        rcases List.mem_cons.mp hw with rfl | hw
        · exact ⟨Nat.le_add_right _ _, hstop⟩
        · exact hinside w hw
      · exact List.pairwise_cons.mpr ⟨hfront, hpair⟩
      · intro w hw
        rcases List.mem_cons.mp hw with rfl | hw
        · exact Nat.le_add_right _ _
        · have := hfront w hw
          omega

/-- Windows that lie in the tile data leave room for their tiles: a stop that wraps around is before
its start. -/
theorem fit_of_tileLoop (hn : nBytes ≤ 4) (hsmall : len + 4 < 2 ^ 32)
    (hcursor : cursor + 4 < 2 ^ 32)
    (h : exec slice (tileLoop base nBytes len (n + 1) cursor) = some ws)
    (hinside : ∀ w ∈ ws, w.start ≤ w.stop ∧ w.stop ≤ len) :
    TilesFit slice base nBytes len (n + 1) cursor := by
  induction n generalizing cursor ws with
  | zero =>
    cases h
    exact (hinside _ (List.mem_singleton_self _)).1
  | succ n ih =>
    rw [exec_tileLoop_succ hn hcursor] at h
    split at h
    · cases h
    rename_i hfield
    obtain ⟨rest, hrest, rfl⟩ := Option.map_eq_some_iff.mp h
    obtain ⟨hle, hstop⟩ := hinside _ (List.mem_cons_self ..)
    have htile : tileSizeAt slice (base + cursor) nBytes < 2 ^ 32 := Nat.mod_lt _ (by decide)
    have hmod : (cursor + nBytes + tileSizeAt slice (base + cursor) nBytes) % 2 ^ 32 =
        cursor + nBytes + tileSizeAt slice (base + cursor) nBytes := by
      simp only at hle hstop
      omega
    rw [hmod] at hrest
    simp only [hmod] at hstop
    exact ⟨hstop, ih (by omega) hrest fun w hw => hinside w (List.mem_cons_of_mem _ hw)⟩

end Loop

section Table

variable {α : Type}

/-- The entries in column order. -/
theorem getElem?_columns {cols rows col row : Nat} (f : Nat → Nat → α) (hcol : col < cols)
    (hrow : row < rows) :
    ((List.range cols).flatMap fun c => (List.range rows).map fun r => f c r)[col * rows + row]? =
      some (f col row) := by
  induction cols with
  | zero => omega
  | succ cols ih =>
    rw [List.range_succ, List.flatMap_append]
    have hlength :
        ((List.range cols).flatMap fun c => (List.range rows).map fun r => f c r).length =
        cols * rows := by
      simp [List.length_flatMap]
    rcases Nat.lt_succ_iff_lt_or_eq.mp hcol with hlt | rfl
    · have hblock : (col + 1) * rows ≤ cols * rows := Nat.mul_le_mul_right _ hlt
      rw [Nat.add_mul, Nat.one_mul] at hblock
      rw [List.getElem?_append_left (by omega), ih hlt]
    · rw [List.getElem?_append_right (by omega), hlength, Nat.add_sub_cancel_left]
      simp [hrow]

variable {k : TileKick} {id : Nat}

namespace TileKick

/-- A table that is too small is left as it was. -/
theorem window_none (h : tileInfoSize < k.tiling.count * 16) : k.window id = none := by
  simp [window, table, buildTileInfo, h]

theorem window_eq (h : k.tiling.count * 16 ≤ tileInfoSize) (hid : id < k.tiling.count) :
    k.window id = some (tileEntry k.tiling k.tileDataLen (exec k.slice k.parse)
      (id % k.tiling.cols) (id / k.tiling.cols)).window := by
  have hcol : id % k.tiling.cols < k.tiling.cols := Nat.mod_lt _ k.accepted.cols_pos
  have hrow : id / k.tiling.cols < k.tiling.rows := Nat.div_lt_of_lt_mul hid
  have hsize : ¬ (tileInfoSize < 16 ∨ tileInfoSize < k.tiling.count * 16) := by
    rintro (hsmall | hsmall)
    · exact absurd hsmall (by decide)
    · omega
  rw [window, table, buildTileInfo, if_neg hsize, getElem?_columns _ hcol hrow, Option.map_some]

theorem tileDataLen_le (k : TileKick) : k.tileDataLen ≤ bitstreamSize :=
  (Nat.sub_le _ _).trans k.slice_le

/-- Without offsets every window is the whole tile data. -/
theorem window_of_none (h : k.tiling.count * 16 ≤ tileInfoSize)
    (hparse : exec k.slice k.parse = none) (hid : id < k.tiling.count) :
    k.window id = some ⟨0, k.tileDataLen⟩ := by
  have hlen := k.tileDataLen_le
  rw [window_eq h hid, hparse]
  simp only [tileEntry, TileEntry.window, Option.map_none, Option.getD_none, BitVec.toNat_ofNat]
  unfold bitstreamSize at hlen
  congr 2
  omega

/-- With offsets the windows are those. -/
theorem window_of_some {ws : List Window} (h : k.tiling.count * 16 ≤ tileInfoSize)
    (hparse : exec k.slice k.parse = some ws) (hlength : ws.length = k.tiling.count)
    (hlt : ∀ w ∈ ws, w.start < 2 ^ 32 ∧ w.stop < 2 ^ 32) (hid : id < k.tiling.count) :
    k.window id = ws[id]? := by
  have hraster : id / k.tiling.cols * k.tiling.cols + id % k.tiling.cols = id :=
    Nat.div_add_mod' _ _
  have hmem : ws[id]? = some (ws.get ⟨id, by omega⟩) := List.getElem?_eq_getElem (by omega)
  obtain ⟨hstart, hstop⟩ := hlt _ (List.get_mem ws ⟨id, by omega⟩)
  rw [window_eq h hid, hparse, hmem]
  simp only [tileEntry, TileEntry.window, Option.map_some, Option.getD_some, hraster,
    List.getD_eq_getElem?_getD, hmem, BitVec.toNat_ofNat, Nat.mod_eq_of_lt hstart,
    Nat.mod_eq_of_lt hstop]

/-- Where the group's first size field is. -/
def groupStart (k : TileKick) : Nat :=
  groupHeaderLen (k.slice.getD k.frameTagSize 0) k.tiling.count

theorem groupStart_le (h : k.tiling.count * 16 ≤ tileInfoSize) : k.groupStart ≤ 3 := by
  unfold groupStart groupHeaderLen
  split
  · omega
  · have hsize : (k.tiling.count - 1).size ≤ 8 :=
      Nat.size_le.mpr (by unfold tileInfoSize at h; omega)
    omega

section Parse

variable (h : k.tiling.count * 16 ≤ tileInfoSize) (hmany : 1 < k.tiling.count)
include h hmany

theorem parse_eq : k.parse = (do
    let first ← byteAt k.frameTagSize
    tileLoop k.frameTagSize k.tiling.nBytes k.tileDataLen k.tiling.count
      (groupHeaderLen first k.tiling.count)) := by
  unfold parse tileOffsets
  rw [if_pos ⟨hmany, by unfold tileInfoSize at h; unfold kMaxTiles; omega⟩]

theorem exec_parse : exec k.slice k.parse = exec k.slice
    (tileLoop k.frameTagSize k.tiling.nBytes k.tileDataLen k.tiling.count k.groupStart) := by
  rw [parse_eq h hmany, exec_bind, exec_byteAt]
  rfl

theorem inBounds_parse : InBounds k.slice k.parse ↔ k.frameTagSize < k.slice.length ∧
    InBounds k.slice
    (tileLoop k.frameTagSize k.tiling.nBytes k.tileDataLen k.tiling.count k.groupStart) := by
  rw [parse_eq h hmany, inBounds_bind, inBounds_byteAt, exec_byteAt]
  rfl

theorem parse_some {ws : List Window} (hparse : exec k.slice k.parse = some ws) :
    ws.length = k.tiling.count ∧ ∀ w ∈ ws, w.start < 2 ^ 32 ∧ w.stop < 2 ^ 32 := by
  rw [exec_parse h hmany] at hparse
  have hlen := k.tileDataLen_le
  have hstart := groupStart_le h
  unfold bitstreamSize at hlen
  exact ⟨tileLoop_length hparse, tileLoop_lt (by omega) (by omega) hparse⟩

/-- Where the table has room for the tiles, the windows are what the parse gave. -/
theorem sound_iff_parse : k.Sound ↔ InBounds k.slice k.parse ∧
    ∃ ws, exec k.slice k.parse = some ws ∧ WellPlaced k.tileDataLen ws := by
  constructor
  · rintro ⟨hsome, hordered, hbounds⟩
    refine ⟨hbounds, ?_⟩
    cases hparse : exec k.slice k.parse with
    | none =>
      -- two windows that are both the whole tile data
      have hempty : k.tileDataLen ≤ 0 := hordered 0 1 _ _ (by omega) hmany
        (window_of_none h hparse (by omega)) (window_of_none h hparse hmany)
      have hfirst := ((inBounds_parse h hmany).mp hbounds).1
      unfold tileDataLen at hempty
      omega
    | some ws =>
      obtain ⟨hlength, hlt⟩ := parse_some h hmany hparse
      refine ⟨ws, rfl, ?_, ?_⟩
      · intro w hw
        obtain ⟨i, hi, rfl⟩ := List.getElem_of_mem hw
        obtain ⟨w', hw', hle⟩ := hsome i (by omega)
        rw [window_of_some h hparse hlength hlt (by omega), List.getElem?_eq_getElem hi] at hw'
        cases hw'
        exact hle
      · rw [List.pairwise_iff_getElem]
        intro i j hi hj hij
        refine hordered i j _ _ hij (by omega) ?_ ?_
        · rw [window_of_some h hparse hlength hlt (by omega), List.getElem?_eq_getElem hi]
        · rw [window_of_some h hparse hlength hlt (by omega), List.getElem?_eq_getElem hj]
  · rintro ⟨hbounds, ws, hparse, hinside, hpair⟩
    obtain ⟨hlength, hlt⟩ := parse_some h hmany hparse
    refine ⟨?_, ?_, hbounds⟩
    · intro id hid
      have hi : id < ws.length := by omega
      refine ⟨ws[id], ?_, hinside _ (List.getElem_mem hi)⟩
      rw [window_of_some h hparse hlength hlt hid, List.getElem?_eq_getElem hi]
    · intro i j w w' hij hj hw hw'
      rw [window_of_some h hparse hlength hlt (by omega)] at hw
      rw [window_of_some h hparse hlength hlt hj] at hw'
      obtain ⟨hi, rfl⟩ := List.getElem?_eq_some_iff.mp hw
      obtain ⟨hj, rfl⟩ := List.getElem?_eq_some_iff.mp hw'
      exact List.pairwise_iff_getElem.mp hpair i j hi hj hij

theorem sound_iff_tilesFit : k.Sound ↔ TilesFit k.slice k.frameTagSize k.tiling.nBytes k.tileDataLen
    k.tiling.count k.groupStart := by
  have hlen := k.tileDataLen_le
  have hstart := groupStart_le h
  unfold bitstreamSize at hlen
  obtain ⟨n, hn⟩ : ∃ n, k.tiling.count = n + 1 := ⟨k.tiling.count - 1, by omega⟩
  rw [sound_iff_parse h hmany, exec_parse h hmany, inBounds_parse h hmany, hn]
  constructor
  · rintro ⟨-, ws, hws, hinside, -⟩
    exact fit_of_tileLoop k.accepted.bytes_le (by omega) (by omega) hws hinside
  · intro hfit
    have hdata : k.frameTagSize + k.tileDataLen ≤ k.slice.length := by
      have := k.header_le
      unfold tileDataLen
      omega
    obtain ⟨hbounds, ws, hws, hplaced, -⟩ :=
      tileLoop_of_fit k.accepted.bytes_le hdata (by omega) hfit
    have hpos : 0 < k.tileDataLen := by
      obtain ⟨m, rfl⟩ : ∃ m, n = m + 1 := ⟨n - 1, by omega⟩
      have hgroup : 1 ≤ k.groupStart := by
        unfold groupStart groupHeaderLen
        split <;> omega
      have := hfit.1
      omega
    unfold tileDataLen at hpos
    exact ⟨⟨by omega, hbounds⟩, ws, hws, hplaced⟩

end Parse

/-- A single tile is the whole tile data. -/
theorem sound_of_one (h : k.tiling.count = 1) : k.Sound := by
  have hsize : k.tiling.count * 16 ≤ tileInfoSize := by
    rw [h]
    decide
  have hparse : k.parse = pure none := by
    unfold parse tileOffsets
    rw [if_neg (by omega)]
  have hexec : exec k.slice k.parse = none := by rw [hparse]; rfl
  refine ⟨?_, ?_, by rw [hparse]; trivial⟩
  · intro id hid
    exact ⟨_, window_of_none hsize hexec hid, Nat.zero_le _, Nat.le_refl _⟩
  · intro i j _ _ hij hj
    omega

theorem sound_iff_fits (k : TileKick) : k.Sound ↔ k.Fits := by
  have hcount := k.accepted.count_pos
  by_cases hone : k.tiling.count = 1
  · exact iff_of_true (sound_of_one hone) (.inl hone)
  by_cases hsize : k.tiling.count * 16 ≤ tileInfoSize
  · rw [sound_iff_tilesFit hsize (by omega)]
    constructor
    · exact fun hfit => .inr ⟨hsize, hfit⟩
    · rintro (h | ⟨-, hfit⟩)
      · exact absurd h hone
      · exact hfit
  · refine iff_of_false ?_ ?_
    · rintro ⟨hsome, -, -⟩
      obtain ⟨w, hw, -⟩ := hsome 0 hcount
      rw [window_none (by omega)] at hw
      cases hw
    · rintro (h | ⟨h, -⟩)
      · exact hone h
      · exact hsize h

end TileKick

end Table

section Writer

/-- A number in `n` bytes, lowest first. -/
def leBytes : Nat → Nat → List Byte
  | 0, _ => []
  | n + 1, v => BitVec.ofNat 8 v :: leBytes n (v / 256)

/-- The tiles of a tile group: all but the last have their size before them. -/
def tileGroup (nBytes : Nat) : List (List Byte) → List Byte
  | [] => []
  | [last] => last
  | tile :: next :: rest =>
    leBytes nBytes (tile.length - 1) ++ (tile ++ tileGroup nBytes (next :: rest))

/-- The length of the header with flag 0; a single tile has none. -/
def writtenHeaderLen (tiles : List (List Byte)) : Nat := if tiles.length = 1 then 0 else 1

/-- `tile_group_obu()` of the standard, with `tile_start_and_end_present_flag` 0. -/
def tileGroupObu (nBytes : Nat) (tiles : List (List Byte)) : List Byte :=
  List.replicate (writtenHeaderLen tiles) 0 ++ tileGroup nBytes tiles

/-- The sizes fit their fields. -/
def Writable (nBytes : Nat) (tiles : List (List Byte)) : Prop :=
  ∀ tile ∈ tiles.dropLast, tile ≠ [] ∧ tile.length ≤ 256 ^ nBytes

/-- Where the writer puts the tiles, from a position on. -/
def tileWindows (nBytes : Nat) : Nat → List (List Byte) → List Window
  | _, [] => []
  | cursor, [last] => [⟨cursor, cursor + last.length⟩]
  | cursor, tile :: next :: rest =>
    let start := cursor + nBytes
    ⟨start, start + tile.length⟩ :: tileWindows nBytes (start + tile.length) (next :: rest)

/-- The bytes of a window. -/
def TileKick.bytes (k : TileKick) (w : Window) : List Byte :=
  (k.slice.drop (k.frameTagSize + w.start)).take (w.stop - w.start)

variable {slice : List Byte} {base cursor nBytes len v n : Nat} {tile : List Byte}
  {tiles : List (List Byte)} {k : TileKick}

theorem leBytes_length (n v : Nat) : (leBytes n v).length = n := by
  induction n generalizing v with
  | zero => rfl
  | succ n ih => rw [leBytes, List.length_cons, ih]

theorem sizeField_leBytes {pos : Nat} (h : leBytes n v <+: slice.drop pos) (hv : v < 256 ^ n) :
    sizeField slice pos n = v := by
  induction n generalizing pos v with
  | zero =>
    simp only [Nat.pow_zero, Nat.lt_one_iff] at hv
    rw [hv, sizeField]
  | succ n ih =>
    obtain ⟨-, hbyte, hrest⟩ := getD_of_front h
    have hquot : v / 256 < 256 ^ n := Nat.div_lt_of_lt_mul (by rwa [Nat.pow_succ'] at hv)
    rw [sizeField, hbyte, ih hrest hquot, BitVec.toNat_ofNat]
    omega

theorem tileLoop_written (hn : nBytes ≤ 4) (hlen : len = slice.length - base)
    (hsmall : len + 4 < 2 ^ 32) (hcursor : base + cursor ≤ slice.length) (hne : tiles ≠ [])
    (hw : Writable nBytes tiles) (h : slice.drop (base + cursor) = tileGroup nBytes tiles) :
    exec slice (tileLoop base nBytes len tiles.length cursor) =
      some (tileWindows nBytes cursor tiles) := by
  induction tiles generalizing cursor with
  | nil => exact absurd rfl hne
  | cons tile tiles ih =>
    have hlength := congrArg List.length h
    rw [List.length_drop] at hlength
    cases tiles with
    | nil =>
      simp only [tileGroup] at hlength
      simp only [List.length_singleton, tileLoop, exec_pure, tileWindows]
      congr 3
      omega
    | cons next rest =>
      obtain ⟨htile, hsize⟩ := hw tile (by simp)
      have hpos : 0 < tile.length := List.length_pos_iff.mpr htile
      simp only [tileGroup, List.length_append, leBytes_length] at hlength
      have hfield : sizeField slice (base + cursor) nBytes = tile.length - 1 :=
        sizeField_leBytes ⟨_, h.symm⟩ (by omega)
      have htileSize : tileSizeAt slice (base + cursor) nBytes = tile.length := by
        rw [tileSizeAt, hfield, Nat.sub_add_cancel hpos, Nat.mod_eq_of_lt (by omega)]
      have hmod : (cursor + nBytes + tile.length) % 2 ^ 32 = cursor + nBytes + tile.length :=
        Nat.mod_eq_of_lt (by omega)
      have hdrop : slice.drop (base + (cursor + nBytes + tile.length)) =
          tileGroup nBytes (next :: rest) := by
        have hskip : base + (cursor + nBytes + tile.length) =
            base + cursor + ((leBytes nBytes (tile.length - 1)).length + tile.length) := by
          rw [leBytes_length]
          omega
        rw [hskip, ← List.drop_drop, h, tileGroup, ← List.append_assoc, ← List.length_append,
          List.drop_left]
      have hrest := ih (by omega) (by simp) (fun t ht => hw t (List.mem_cons_of_mem _ ht)) hdrop
      rw [List.length_cons, List.length_cons, exec_tileLoop_succ hn (by omega), if_neg (by omega),
        htileSize, hmod]
      rw [List.length_cons] at hrest
      simp only [hrest, Option.map_some, tileWindows]

/-- The windows hold the tiles. -/
theorem tileWindows_bytes (h : slice.drop (base + cursor) = tileGroup nBytes tiles) :
    (tileWindows nBytes cursor tiles).map
    (fun w => (slice.drop (base + w.start)).take (w.stop - w.start)) =
      tiles := by
  induction tiles generalizing cursor with
  | nil => rfl
  | cons tile tiles ih =>
    cases tiles with
    | nil =>
      simp only [tileWindows, List.map_cons, List.map_nil, h, tileGroup, Nat.add_sub_cancel_left,
        List.take_length]
    | cons next rest =>
      have hfield : slice.drop (base + (cursor + nBytes)) =
          tile ++ tileGroup nBytes (next :: rest) := by
        have hskip : base + (cursor + nBytes) =
            base + cursor + (leBytes nBytes (tile.length - 1)).length := by
          rw [leBytes_length, Nat.add_assoc]
        rw [hskip, ← List.drop_drop, h, tileGroup, List.drop_left]
      have hdrop : slice.drop (base + (cursor + nBytes + tile.length)) =
          tileGroup nBytes (next :: rest) := by
        rw [← Nat.add_assoc, ← List.drop_drop, hfield, List.drop_left]
      rw [tileWindows, List.map_cons, ih hdrop, hfield, Nat.add_sub_cancel_left, List.take_left]

/-- The table of a tile group that is written has the tiles if it has room for them. -/
theorem window_written (hsize : k.tiling.count * 16 ≤ tileInfoSize)
    (hcount : tiles.length = k.tiling.count) (hw : Writable k.tiling.nBytes tiles)
    (h : k.slice.drop k.frameTagSize = tileGroupObu k.tiling.nBytes tiles) {id : Nat}
    (hid : id < k.tiling.count) :
    k.window id = (tileWindows k.tiling.nBytes (writtenHeaderLen tiles) tiles)[id]? := by
  have hlength := congrArg List.length h
  have hheader := k.header_le
  have hdata := k.tileDataLen_le
  unfold bitstreamSize at hdata
  rw [List.length_drop] at hlength
  by_cases hone : tiles.length = 1
  · obtain ⟨tile, rfl⟩ := List.length_eq_one_iff.mp hone
    have hparse : exec k.slice k.parse = none := by
      unfold TileKick.parse tileOffsets
      rw [if_neg (by omega)]
      rfl
    have hid0 : id = 0 := by omega
    have hall : k.tileDataLen = tile.length := by
      unfold TileKick.tileDataLen
      simpa [tileGroupObu, writtenHeaderLen, tileGroup] using hlength
    rw [TileKick.window_of_none hsize hparse hid, hall, hid0]
    simp [tileWindows, writtenHeaderLen]
  · have hobu : tileGroupObu k.tiling.nBytes tiles = 0 :: tileGroup k.tiling.nBytes tiles := by
      simp [tileGroupObu, writtenHeaderLen, hone]
    rw [hobu] at h hlength
    rw [List.length_cons] at hlength
    obtain ⟨-, hfirst, -⟩ := getD_of_front ⟨[], by rw [List.append_nil]; exact h.symm⟩
    have hstart : k.groupStart = 1 := by
      rw [TileKick.groupStart, hfirst]
      rfl
    have hdrop : k.slice.drop (k.frameTagSize + 1) = tileGroup k.tiling.nBytes tiles := by
      rw [← List.drop_drop, h]
      rfl
    have hne : tiles ≠ [] := by
      intro hnil
      rw [← hcount, hnil, List.length_nil] at hid
      omega
    have hloop :
        exec k.slice (tileLoop k.frameTagSize k.tiling.nBytes k.tileDataLen tiles.length 1) =
        some (tileWindows k.tiling.nBytes 1 tiles) :=
      tileLoop_written k.accepted.bytes_le rfl (by omega) (by omega) hne hw hdrop
    have hexec := TileKick.exec_parse hsize (by omega)
    rw [hstart, ← hcount, hloop] at hexec
    obtain ⟨hlen, hlt⟩ := TileKick.parse_some hsize (by omega) hexec
    rw [TileKick.window_of_some hsize hexec hlen hlt hid, writtenHeaderLen, if_neg hone]

end Writer

/-- The table of a kick is sound exactly when the tile group fits the tile data and the table; for a
tile group as the standard writes it, exactly when the table has room for the tiles are the windows
the ones written. -/
theorem tile_table_sound_iff (k : TileKick) :
    (k.Sound ↔ k.Fits) ∧
    ∀ tiles, tiles.length = k.tiling.count → Writable k.tiling.nBytes tiles →
      k.slice.drop k.frameTagSize = tileGroupObu k.tiling.nBytes tiles →
      let written := tileWindows k.tiling.nBytes (writtenHeaderLen tiles) tiles
      written.map k.bytes = tiles ∧
        ((∀ id < k.tiling.count, k.window id = written[id]?) ↔
        k.tiling.count * 16 ≤ tileInfoSize) := by
  refine ⟨k.sound_iff_fits, ?_⟩
  intro tiles hcount hw h written
  have hbytes : written.map k.bytes = tiles := by
    refine tileWindows_bytes ?_
    rw [← List.drop_drop, h, tileGroupObu]
    exact List.drop_left' (List.length_replicate ..)
  refine ⟨hbytes, ?_, ?_⟩
  · intro hexact
    by_contra hsize
    have hpos := k.accepted.count_pos
    have hnone := hexact 0 hpos
    have hlength : 0 < written.length := by
      rw [← List.length_map k.bytes, hbytes, hcount]
      exact hpos
    rw [TileKick.window_none (by omega), List.getElem?_eq_getElem hlength] at hnone
    cases hnone
  · exact fun hsize id hid => window_written hsize hcount hw h hid

/-- Two tiles of one row, their sizes in one byte. -/
def twoTiles : Tiling := ⟨2, 1, [0, 1, 2], [0, 1], 1⟩

/-- The header of a shown key frame of 128 by 64 that is coded without loss. The tiling starts in
its second byte. -/
def twoTilesHeader : List Byte := [0x10, 0xc0, 0x00, 0x00]

theorem parse_twoTiles : ((parseTiling false 128 64).run Headers.BitCursor.answer
    { bits := (twoTilesHeader.drop 1).flatMap fun b => (List.range 8).map b.getMsbD }).1 =
      some twoTiles := by
  decide +kernel

/-- The OBU_FRAME of such a frame, with its tile group. -/
def twoTilesObu (group : List Byte) : List Byte :=
  [0x32, BitVec.ofNat 8 (twoTilesHeader.length + group.length)] ++ twoTilesHeader ++ group

/-- A first tile of 256 bytes in a tile group of four. -/
def overlongTile : TileKick :=
  .ofHeader (by decide) (by decide) parse_twoTiles (twoTilesObu [0x00, 0xff, 0xaa, 0xbb]) 6
    (by decide) (by decide)

/-- Its window ends behind the tile data, and the last tile starts there. -/
theorem overlong_tile_window :
    overlongTile.window 0 = some ⟨2, 258⟩ ∧ overlongTile.window 1 = some ⟨258, 4⟩ ∧
      overlongTile.tileDataLen = 4 ∧ ¬ overlongTile.Sound := by
  refine ⟨by decide, by decide, by decide, ?_⟩
  rintro ⟨hsome, -, -⟩
  obtain ⟨w, hw, -, hstop⟩ := hsome 0 (by decide)
  rw [show overlongTile.window 0 = some ⟨2, 258⟩ by decide] at hw
  cases hw
  exact absurd hstop (by decide)

/-- The tiles `aa bb` and `cc` as the standard writes them. -/
def writtenTiles : TileKick :=
  .ofHeader (by decide) (by decide) parse_twoTiles (twoTilesObu [0x00, 0x01, 0xaa, 0xbb, 0xcc]) 6
    (by decide) (by decide)

theorem tile_table_sound_two : writtenTiles.Sound ∧ writtenTiles.window 0 = some ⟨2, 4⟩ ∧
    writtenTiles.window 1 = some ⟨4, 5⟩ := by
  have hiff := tile_table_sound_iff writtenTiles
  have hexact := ((hiff.2 [[0xaa, 0xbb], [0xcc]] (by decide) (by simp [Writable]; decide)
    (by decide)).2.mpr (by decide))
  exact ⟨hiff.1.mpr (.inr (by decide)), hexact 0 (by decide), hexact 1 (by decide)⟩

end Rkvdec.Av1
