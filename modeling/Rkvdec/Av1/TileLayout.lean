import Rkvdec.Lib.Cuts
import Rkvdec.Av1.TileInfo

/-! The tiling of a frame header cuts the frame into tiles. The uniform layout keeps the width of a
tile by its logarithms; the coded one does by the bound on each extent, unless a table is full
before the frame is covered. -/
namespace Rkvdec.Av1

open Headers (HeaderBits brU brBit)
open Lib (cuts partAt Covers)

section Logarithms

variable {sz tgt fuel k n : Nat}

theorem tileLog2From_spec (hsz : 0 < sz) (hfuel : tgt ≤ k + fuel) :
    tgt ≤ sz <<< tileLog2From sz tgt fuel k ∧ k ≤ tileLog2From sz tgt fuel k ∧
      ∀ j, k ≤ j → tgt ≤ sz <<< j → tileLog2From sz tgt fuel k ≤ j := by
  induction fuel generalizing k with
  | zero =>
    refine ⟨?_, Nat.le_refl k, fun j hj _ => hj⟩
    have hpow : k < 2 ^ k := Nat.lt_two_pow_self
    have hmul : 1 * 2 ^ k ≤ sz * 2 ^ k := Nat.mul_le_mul_right _ hsz
    rw [tileLog2From, Nat.shiftLeft_eq]
    omega
  | succ fuel ih =>
    rw [tileLog2From]
    split
    · rename_i hlt
      obtain ⟨hreach, hle, hleast⟩ := ih (k := k + 1) (by omega)
      refine ⟨hreach, by omega, fun j hj htgt => hleast j ?_ htgt⟩
      rcases Nat.eq_or_lt_of_le hj with rfl | hlt'
      · exact absurd htgt (by omega)
      · exact hlt'
    · exact ⟨by omega, Nat.le_refl k, fun j hj _ => hj⟩

/-- `tile_log2` is the least shift that reaches the target. -/
theorem le_tileLog2 (hsz : 0 < sz) : tgt ≤ sz <<< tileLog2 sz tgt :=
  (tileLog2From_spec hsz (Nat.le_add_left _ _)).1

theorem tileLog2_le (hsz : 0 < sz) (h : tgt ≤ sz <<< n) : tileLog2 sz tgt ≤ n :=
  (tileLog2From_spec hsz (Nat.le_add_left _ _)).2.2 n (Nat.zero_le n) h

end Logarithms

section Reads

variable {σ : Type} {H : Lib.Prog.Handler Nat (fun n => BitVec n) σ} {s : σ}
  {n limit fuel k most : Nat}

/-- `br_uniform` stays below its bound. -/
theorem brUniform_lt (h : 1 < n) : ((brUniform n).run H s).1 < n := by
  unfold brUniform
  simp only [Lib.Prog.run_bind]
  have hlow : 2 ^ n.log2 ≤ n := Nat.log2_self_le (by omega)
  have hhigh : n < 2 ^ (n.log2 + 1) := Nat.lt_log2_self
  have hpow : 2 ^ (n.log2 + 1) = 2 * 2 ^ n.log2 := by rw [Nat.pow_succ, Nat.mul_comm]
  have hv := ((brU (n.log2 + 1 - 1)).run H s).1.isLt
  rw [Nat.add_sub_cancel] at hv ⊢
  split
  · rename_i hless
    rw [Lib.Prog.run_pure]
    omega
  · have hbit := ((brU 1).run H ((brU n.log2).run H s).2).1.isLt
    simp only [Lib.Prog.run_bind, Lib.Prog.run_pure]
    omega

theorem codedExtent_bounds (h : 1 ≤ most) : 1 ≤ ((codedExtent most).run H s).1 ∧
    ((codedExtent most).run H s).1 ≤ most := by
  unfold codedExtent
  split
  · rename_i hmany
    have hlt := brUniform_lt (H := H) (s := s) hmany
    simp only [Lib.Prog.run_bind, Lib.Prog.run_pure]
    omega
  · rw [Lib.Prog.run_pure]
    exact ⟨Nat.le_refl 1, h⟩

/-- The logarithm only grows, up to its limit. -/
theorem countLog2_bounds (hfuel : limit ≤ k + fuel) : k ≤ ((countLog2 limit fuel k).run H s).1 ∧
    ((countLog2 limit fuel k).run H s).1 ≤ max k limit := by
  induction fuel generalizing k s with
  | zero =>
    rw [countLog2, Lib.Prog.run_pure]
    exact ⟨Nat.le_refl k, Nat.le_max_left k limit⟩
  | succ fuel ih =>
    rw [countLog2]
    split
    · rename_i hlt
      rw [Lib.Prog.run_bind]
      split
      · have hrest := ih (k := k + 1) (s := (brBit.run H s).2) (by omega : limit ≤ k + 1 + fuel)
        omega
      · rw [Lib.Prog.run_pure]
        exact ⟨Nat.le_refl k, Nat.le_max_left k limit⟩
    · rw [Lib.Prog.run_pure]
      exact ⟨Nat.le_refl k, Nat.le_max_left k limit⟩

end Reads

section Loops

variable {σ : Type} {H : Lib.Prog.Handler Nat (fun n => BitVec n) σ} {s : σ}
  {extent limit fuel sb most widest : Nat}

theorem uniformStarts_end (h : limit ≤ sb) : uniformStarts extent limit fuel sb = [] := by
  cases fuel with
  | zero => rfl
  | succ fuel => rw [uniformStarts, if_neg (by omega)]

/-- Parts of one length, the last of which may be shorter. -/
theorem uniformStarts_cuts (extent limit fuel sb : Nat) (hpos : 0 < extent) (hsb : sb < limit)
    (hfuel : limit ≤ sb + fuel) :
    ∃ ws, uniformStarts extent limit fuel sb ++ [limit] = cuts sb ws ∧
    (∀ w ∈ ws, 0 < w ∧ w ≤ extent) ∧
      sb + ws.sum = limit ∧ (ws.length - 1) * extent < limit - sb ∧ 0 < ws.length := by
  induction fuel generalizing sb with
  | zero => omega
  | succ fuel ih =>
    rw [uniformStarts, if_pos hsb]
    rcases Nat.lt_or_ge (sb + extent) limit with hmore | hend
    · obtain ⟨ws, hcuts, hbounds, hsum, hcount, hlength⟩ := ih (sb + extent) hmore (by omega)
      refine ⟨extent :: ws, ?_, ?_, ?_, ?_, Nat.succ_pos _⟩
      · rw [Lib.cuts_cons, ← hcuts]
        rfl
      · intro w hw
        rcases List.mem_cons.mp hw with rfl | hw
        · exact ⟨hpos, Nat.le_refl w⟩
        · exact hbounds w hw
      · rw [List.sum_cons]
        omega
      · obtain ⟨n, hn⟩ : ∃ n, ws.length = n + 1 := ⟨ws.length - 1, by omega⟩
        rw [List.length_cons, hn, Nat.add_sub_cancel]
        rw [hn, Nat.add_sub_cancel] at hcount
        rw [Nat.add_mul, Nat.one_mul]
        omega
    · rw [uniformStarts_end hend]
      refine ⟨[limit - sb], ?_, ?_, ?_, ?_, Nat.one_pos⟩
      · rw [Lib.cuts_cons, Nat.add_sub_cancel' hsb.le]
        rfl
      · intro w hw
        rw [List.mem_singleton.mp hw]
        omega
      · rw [List.sum_singleton]
        omega
      · rw [List.length_singleton, Nat.sub_self, Nat.zero_mul]
        omega

theorem codedStarts_end (h : limit ≤ sb) :
    (codedStarts limit most fuel sb widest).run H s = (⟨[], widest, sb⟩, s) := by
  cases fuel with
  | zero => rfl
  | succ fuel =>
    rw [codedStarts, if_neg (by omega)]
    rfl

/-- A part has the extent that is coded for it: there is room in the table behind it, or the coded
parts reach the end. -/
def Coded (limit room reached i : Nat) : Prop := i < room ∨ limit ≤ reached

/-- Parts of coded lengths; the one for the last bit of fuel takes what the coded ones leave. -/
theorem codedStarts_cuts (hmost : 1 ≤ most) (hsb : sb < limit) :
    let r := ((codedStarts limit most (fuel + 1) sb widest).run H s).1
    ∃ ws, r.starts ++ [limit] = cuts sb ws ∧ (∀ w ∈ ws, 0 < w) ∧ sb + ws.sum = limit ∧
      0 < ws.length ∧ ws.length ≤ fuel + 1 ∧ widest ≤ r.widest ∧ r.widest ≤ max widest most ∧
      ∀ i w, Coded limit fuel r.reached i → ws[i]? = some w → w ≤ most ∧ w ≤ r.widest := by
  induction fuel generalizing sb widest s with
  | zero =>
    have hextent := codedExtent_bounds (H := H) (s := s) (by omega : 1 ≤ min (limit - sb) most)
    rw [codedStarts, if_pos hsb]
    simp only [codedStarts, Lib.Prog.run_bind, Lib.Prog.run_pure]
    generalize (codedExtent (min (limit - sb) most)).run H s = r at hextent
    refine ⟨[limit - sb], ?_, ?_, ?_, Nat.one_pos, Nat.le_refl 1, Nat.le_max_left _ _, by omega, ?_⟩
    · rw [Lib.cuts_cons, Nat.add_sub_cancel' hsb.le]
      rfl
    · intro w hw
      rw [List.mem_singleton.mp hw]
      omega
    · rw [List.sum_singleton]
      omega
    · intro i w hcoded hw
      have hreached : limit ≤ sb + r.1 := hcoded.resolve_left (Nat.not_lt_zero i)
      have hmem : w ∈ [limit - sb] := List.mem_of_getElem? hw
      rw [List.mem_singleton.mp hmem]
      omega
  | succ fuel ih =>
    have hextent := codedExtent_bounds (H := H) (s := s) (by omega : 1 ≤ min (limit - sb) most)
    rw [codedStarts, if_pos hsb]
    simp only [Lib.Prog.run_bind, Lib.Prog.run_pure]
    generalize (codedExtent (min (limit - sb) most)).run H s = r at hextent
    rcases Nat.lt_or_ge (sb + r.1) limit with hmore | hend
    · obtain ⟨ws, hcuts, hpos, hsum, hlength, hcap, hwide, hwidest, hbounds⟩ :=
        @ih r.2 (sb + r.1) (max widest r.1) hmore
      refine ⟨r.1 :: ws, ?_, ?_, ?_, Nat.succ_pos _, Nat.succ_le_succ hcap, by omega, by omega, ?_⟩
      · rw [Lib.cuts_cons, ← hcuts]
        rfl
      · intro w hw
        rcases List.mem_cons.mp hw with rfl | hw
        · omega
        · exact hpos w hw
      · rw [List.sum_cons]
        omega
      · intro i w hcoded hw
        cases i with
        | zero =>
          obtain rfl : r.1 = w := Option.some.inj hw
          omega
        | succ i => exact hbounds i w (hcoded.imp_left Nat.lt_of_succ_lt_succ) hw
    · rw [codedStarts_end hend]
      dsimp only
      refine ⟨[r.1], ?_, ?_, ?_, Nat.one_pos, ?_, by omega, by omega, ?_⟩
      · have hlast : sb + r.1 = limit := by omega
        rw [Lib.cuts_cons, hlast]
        rfl
      · intro w hw
        rw [List.mem_singleton.mp hw]
        omega
      · rw [List.sum_singleton]
        omega
      · rw [List.length_singleton]
        omega
      · intro i w _ hw
        have hmem : w ∈ [r.1] := List.mem_of_getElem? hw
        rw [List.mem_singleton.mp hmem]
        omega

end Loops

/-- The starts of `n` tiles in one direction, with the end behind them in a table of 65 entries. -/
structure Laid (limit n : Nat) (starts : List Nat) : Prop where
  pos : 1 ≤ n
  most : n ≤ 64
  room : starts.length = n + 1
  covers : Covers limit starts

section Uniform

variable {σ : Type} {H : Lib.Prog.Handler Nat (fun n => BitVec n) σ} {s : σ}
  {limit k i j most area sbw sbh : Nat}

/-- The length of a uniform tile, and that it gives at most `2 ^ k` tiles. -/
theorem uniform_laid (hpos : 0 < limit) (hk : k ≤ 6) :
    Laid limit (uniformStarts (1 + (limit - 1) >>> k) limit limit 0).length
        (uniformStarts (1 + (limit - 1) >>> k) limit limit 0 ++ [limit]) ∧
      ∀ i < (uniformStarts (1 + (limit - 1) >>> k) limit limit 0).length,
        partAt (uniformStarts (1 + (limit - 1) >>> k) limit limit 0 ++ [limit]) i ≤
        1 + (limit - 1) / 2 ^ k := by
  rw [Nat.shiftRight_eq_div_pow]
  have hpow : 0 < 2 ^ k := Nat.two_pow_pos k
  have hmost : 2 ^ k ≤ 64 := Nat.pow_le_pow_right (n := 2) (by decide) hk
  have hreach : limit ≤ (1 + (limit - 1) / 2 ^ k) * 2 ^ k := by
    have hdiv := Nat.lt_mul_div_succ (limit - 1) hpow
    rw [Nat.mul_comm] at hdiv
    rw [Nat.add_comm 1]
    omega
  have hextent : 0 < 1 + (limit - 1) / 2 ^ k :=
    Nat.lt_of_lt_of_le Nat.one_pos (Nat.le_add_right _ _)
  obtain ⟨ws, hcuts, hbounds, hsum, hcount, hlength⟩ :=
    uniformStarts_cuts _ limit limit 0 hextent hpos (Nat.le_add_left _ _)
  generalize 1 + (limit - 1) / 2 ^ k = extent at hreach hextent hcuts hbounds hcount
  have hnumber : (uniformStarts extent limit limit 0).length = ws.length := by
    have hlen := congrArg List.length hcuts
    rw [List.length_append, List.length_singleton, Lib.length_cuts] at hlen
    omega
  rw [hcuts, hnumber]
  refine ⟨⟨hlength, ?_, Lib.length_cuts 0 ws,
    Lib.covers_cuts (fun w hw => (hbounds w hw).1) (by omega)⟩, fun i hi => ?_⟩
  · have hless : (ws.length - 1) * extent < 2 ^ k * extent := by
      rw [Nat.mul_comm (2 ^ k)]
      omega
    have hfew := Nat.lt_of_mul_lt_mul_right hless
    omega
  · rw [Lib.partAt_cuts 0 (List.getElem?_eq_getElem hi)]
    exact (hbounds _ (List.getElem_mem hi)).2

/-- A tile whose logarithms reach the area is within it before its lengths are rounded up. -/
theorem uniform_area {kw kh w h : Nat} (hw : 0 < sbw) (hh : 0 < sbh)
    (hreach : sbw * sbh ≤ area <<< (kw + kh)) (hwidth : w ≤ 1 + (sbw - 1) / 2 ^ kw)
    (hheight : h ≤ 1 + (sbh - 1) / 2 ^ kh) : (w - 1) * (h - 1) < area := by
  have hparts : (w - 1) * (h - 1) ≤ (sbw - 1) / 2 ^ kw * ((sbh - 1) / 2 ^ kh) :=
    Nat.mul_le_mul (Nat.sub_le_iff_le_add'.mpr hwidth) (Nat.sub_le_iff_le_add'.mpr hheight)
  have hless : (sbw - 1) / 2 ^ kw * ((sbh - 1) / 2 ^ kh) * 2 ^ (kw + kh) <
      area * 2 ^ (kw + kh) := by
    calc (sbw - 1) / 2 ^ kw * ((sbh - 1) / 2 ^ kh) * 2 ^ (kw + kh)
        = ((sbw - 1) / 2 ^ kw * 2 ^ kw) * ((sbh - 1) / 2 ^ kh * 2 ^ kh) := by rw [Nat.pow_add]; ring
      _ ≤ (sbw - 1) * (sbh - 1) :=
          Nat.mul_le_mul (Nat.div_mul_le_self _ _) (Nat.div_mul_le_self _ _)
      _ ≤ (sbw - 1) * sbh := Nat.mul_le_mul_left _ (Nat.sub_le _ _)
      _ < sbw * sbh := Nat.mul_lt_mul_of_pos_right (Nat.sub_lt hw Nat.one_pos) hh
      _ ≤ area * 2 ^ (kw + kh) := by rwa [Nat.shiftLeft_eq] at hreach
  exact hparts.trans_lt (Nat.lt_of_mul_lt_mul_right hless)

end Uniform

section Coded

variable {σ : Type} {H : Lib.Prog.Handler Nat (fun n => BitVec n) σ} {s : σ}
  {limit most widest : Nat}

/-- The tiles of a coded layout. -/
theorem coded_laid (hpos : 0 < limit) (hmost : 1 ≤ most) :
    let r := ((codedStarts limit most 64 0 0).run H s).1
    Laid limit r.starts.length (r.starts ++ [limit]) ∧ r.widest ≤ most ∧
      ∀ i < r.starts.length, Coded limit 63 r.reached i →
        partAt (r.starts ++ [limit]) i ≤ most ∧ partAt (r.starts ++ [limit]) i ≤ r.widest := by
  intro r
  have hcoded : ∃ ws, r.starts ++ [limit] = cuts 0 ws ∧ (∀ w ∈ ws, 0 < w) ∧ 0 + ws.sum = limit ∧
      0 < ws.length ∧ ws.length ≤ 63 + 1 ∧ 0 ≤ r.widest ∧ r.widest ≤ max 0 most ∧
      ∀ i w, Coded limit 63 r.reached i → ws[i]? = some w → w ≤ most ∧ w ≤ r.widest :=
    codedStarts_cuts hmost hpos
  obtain ⟨ws, hcuts, hbounds, hsum, hlength, hcap, -, hwidest, hwidths⟩ := hcoded
  have hnumber : r.starts.length = ws.length := by
    have hlen := congrArg List.length hcuts
    rw [List.length_append, List.length_singleton, Lib.length_cuts] at hlen
    omega
  rw [hcuts, hnumber]
  refine ⟨⟨hlength, hcap, Lib.length_cuts 0 ws, Lib.covers_cuts hbounds (by omega)⟩, by omega, ?_⟩
  intro i hi hcoded
  have hw := List.getElem?_eq_getElem hi
  rw [Lib.partAt_cuts 0 hw]
  exact hwidths i _ hcoded hw

end Coded

section Frame

variable {σ : Type} {H : Lib.Prog.Handler Nat (fun n => BitVec n) σ} {s : σ} {sb128 : Bool}
  {n width height : Nat}

/-- A frame is at most 16 tiles of full width long. -/
theorem sbCount_le (h : n ≤ 65536) : sbCount sb128 n ≤ 16 * maxTileWidthSb sb128 := by
  unfold sbCount maxTileWidthSb
  rw [Nat.shiftRight_eq_div_pow, Nat.shiftRight_eq_div_pow]
  cases sb128 with
  | false =>
    change (n + 63) / 64 ≤ 16 * (4096 / 64)
    omega
  | true =>
    change (n + 127) / 128 ≤ 16 * (4096 / 128)
    omega

/-- The largest frame needs 32 full areas for a column of full width. -/
theorem column_area (sb128 : Bool) :
    maxTileWidthSb sb128 * (16 * maxTileWidthSb sb128) ≤ maxTileAreaSb sb128 * 2 ^ 5 := by
  cases sb128 with
  | false => decide
  | true => decide

theorem width_le_area (sb128 : Bool) : maxTileWidthSb sb128 ≤ maxTileAreaSb sb128 := by
  cases sb128 with
  | false => decide
  | true => decide

theorem maxTileWidthSb_pos (sb128 : Bool) : 0 < maxTileWidthSb sb128 := by
  cases sb128 with
  | false => decide
  | true => decide

/-- With the tiles of a uniform layout no wider than they may be, five more halvings reach the
area. -/
theorem minLog2Tiles_le {sbw sbh k : Nat} (hreach : sbw ≤ maxTileWidthSb sb128 <<< k)
    (hsbh : sbh ≤ 16 * maxTileWidthSb sb128) :
    tileLog2 (maxTileAreaSb sb128) (sbw * sbh) ≤ 5 + k := by
  refine tileLog2_le (Nat.lt_of_lt_of_le (maxTileWidthSb_pos sb128) (width_le_area sb128)) ?_
  rw [Nat.shiftLeft_eq] at hreach ⊢
  calc sbw * sbh ≤ (maxTileWidthSb sb128 * 2 ^ k) * (16 * maxTileWidthSb sb128) :=
          Nat.mul_le_mul hreach hsbh
    _ = maxTileWidthSb sb128 * (16 * maxTileWidthSb sb128) * 2 ^ k := by ring
    _ ≤ maxTileAreaSb sb128 * 2 ^ 5 * 2 ^ k := Nat.mul_le_mul_right _ (column_area sb128)
    _ = maxTileAreaSb sb128 * 2 ^ (5 + k) := by rw [Nat.pow_add]; ring

end Frame

/-- What a tiling is: both directions are cut into 1 to 64 tiles that cover the frame. A uniform
tile is no wider than it may be, and its area is within the limit before its lengths are rounded up.
A coded tile is within both limits, unless it is the 64th in its direction and the coded ones do not
cover the frame: then it takes what is left. -/
structure TileLayout (sb128 uniform : Bool) (width height : Nat) (g : TileGrid) (t : Tiling) :
    Prop where
  cols : Laid (sbCount sb128 width) t.cols t.colStartSb
  rows : Laid (sbCount sb128 height) t.rows t.rowStartSb
  uniformWidth : uniform = true → ∀ i < t.cols, partAt t.colStartSb i ≤ maxTileWidthSb sb128
  uniformArea : uniform = true → ∀ i < t.cols, ∀ j < t.rows,
    (partAt t.colStartSb i - 1) * (partAt t.rowStartSb j - 1) < maxTileAreaSb sb128
  codedWidth : uniform = false → ∀ i < t.cols, Coded (sbCount sb128 width) 63 g.colsReached i →
    partAt t.colStartSb i ≤ maxTileWidthSb sb128
  codedArea : uniform = false → ∀ i < t.cols, ∀ j < t.rows,
    Coded (sbCount sb128 width) 63 g.colsReached i →
    Coded (sbCount sb128 height) 63 g.rowsReached j →
    partAt t.colStartSb i * partAt t.rowStartSb j ≤ maxTileAreaSb sb128

section Layout

variable {σ : Type} {H : Lib.Prog.Handler Nat (fun n => BitVec n) σ} {s : σ} {sb128 : Bool}
  {width height : Nat} {t : Tiling}

theorem uniformGrid_layout (hw : 0 < width) (hh : 0 < height) (hwidth : width ≤ 65536)
    (hheight : height ≤ 65536) {nBytes : Nat} :
    let sbw := sbCount sb128 width
    let sbh := sbCount sb128 height
    let minLog2Cols := tileLog2 (maxTileWidthSb sb128) sbw
    let minLog2Tiles := max (tileLog2 (maxTileAreaSb sb128) (sbw * sbh)) minLog2Cols
    let g := ((uniformGrid sbw sbh minLog2Cols minLog2Tiles).run H s).1
    TileLayout sb128 true width height g
      ⟨g.colStarts.length, g.rowStarts.length, g.colStarts ++ [sbw], g.rowStarts ++ [sbh],
        nBytes⟩ := by
  intro sbw sbh minLog2Cols minLog2Tiles g
  have hsbw : 0 < sbw := sbCount_pos hw
  have hsbh : 0 < sbh := sbCount_pos hh
  have hwide : sbw ≤ 16 * maxTileWidthSb sb128 := sbCount_le hwidth
  have hhigh : sbh ≤ 16 * maxTileWidthSb sb128 := sbCount_le hheight
  have hmaxw := maxTileWidthSb_pos sb128
  have hmin : minLog2Cols ≤ 6 := by
    refine tileLog2_le hmaxw ?_
    rw [Nat.shiftLeft_eq]
    omega
  have hmaxCols : tileLog2 1 (min sbw maxTileCols) ≤ 6 :=
    tileLog2_le Nat.one_pos (Nat.min_le_right _ _)
  have hmaxRows : tileLog2 1 (min sbh maxTileRows) ≤ 6 :=
    tileLog2_le Nat.one_pos (Nat.min_le_right _ _)
  have hcols := countLog2_bounds (H := H) (s := s) (k := minLog2Cols)
    (Nat.le_add_left (tileLog2 1 (min sbw maxTileCols)) minLog2Cols)
  simp only [g, uniformGrid, Lib.Prog.run_bind, Lib.Prog.run_pure]
  generalize (countLog2 (tileLog2 1 (min sbw maxTileCols)) (tileLog2 1 (min sbw maxTileCols))
    minLog2Cols).run H s = c at hcols
  have hrows := countLog2_bounds (H := H) (s := c.2) (k := minLog2Tiles - c.1)
    (Nat.le_add_left (tileLog2 1 (min sbh maxTileRows)) (minLog2Tiles - c.1))
  generalize (countLog2 (tileLog2 1 (min sbh maxTileRows)) (tileLog2 1 (min sbh maxTileRows))
    (minLog2Tiles - c.1)).run H c.2 = r
    at hrows
  have hreach : sbw ≤ maxTileWidthSb sb128 <<< c.1 := by
    refine (le_tileLog2 hmaxw).trans ?_
    rw [Nat.shiftLeft_eq, Nat.shiftLeft_eq]
    exact Nat.mul_le_mul_left _ (Nat.pow_le_pow_right (by decide) hcols.1)
  have htiles : minLog2Tiles ≤ 5 + c.1 := max_le (minLog2Tiles_le hreach hhigh) (by omega)
  have harea : sbw * sbh ≤ maxTileAreaSb sb128 <<< (c.1 + r.1) := by
    refine (le_tileLog2 (hmaxw.trans_le (width_le_area sb128))).trans ?_
    rw [Nat.shiftLeft_eq, Nat.shiftLeft_eq]
    have hlog : tileLog2 (maxTileAreaSb sb128) (sbw * sbh) ≤ minLog2Tiles := Nat.le_max_left _ _
    exact Nat.mul_le_mul_left _ (Nat.pow_le_pow_right (by decide) (by omega))
  obtain ⟨hlaidCols, hwidths⟩ := uniform_laid hsbw (by omega : c.1 ≤ 6)
  obtain ⟨hlaidRows, hheights⟩ := uniform_laid hsbh (by omega : r.1 ≤ 6)
  refine ⟨hlaidCols, hlaidRows, fun _ i hi => ?_, fun _ i hi j hj => ?_,
    fun h => Bool.noConfusion h, fun h => Bool.noConfusion h⟩
  · refine (hwidths i hi).trans ?_
    have hfit : (sbw - 1) / 2 ^ c.1 < maxTileWidthSb sb128 := by
      rw [Nat.div_lt_iff_lt_mul (Nat.two_pow_pos _)]
      rw [Nat.shiftLeft_eq] at hreach
      omega
    omega
  · exact uniform_area hsbw hsbh harea (hwidths i hi) (hheights j hj)

theorem codedGrid_layout (hw : 0 < width) (hh : 0 < height) {nBytes : Nat} :
    let sbw := sbCount sb128 width
    let sbh := sbCount sb128 height
    let minLog2Cols := tileLog2 (maxTileWidthSb sb128) sbw
    let minLog2Tiles := max (tileLog2 (maxTileAreaSb sb128) (sbw * sbh)) minLog2Cols
    let g := ((codedGrid sbw sbh (maxTileWidthSb sb128) minLog2Tiles).run H s).1
    TileLayout sb128 false width height g
      ⟨g.colStarts.length, g.rowStarts.length, g.colStarts ++ [sbw], g.rowStarts ++ [sbh],
        nBytes⟩ := by
  intro sbw sbh minLog2Cols minLog2Tiles g
  have hsbw : 0 < sbw := sbCount_pos hw
  have hsbh : 0 < sbh := sbCount_pos hh
  have hmaxw := maxTileWidthSb_pos sb128
  have hmaxa := width_le_area sb128
  have hlog : tileLog2 (maxTileAreaSb sb128) (sbw * sbh) ≤ minLog2Tiles := Nat.le_max_left _ _
  obtain ⟨hlaidCols, hwidest, hwidths⟩ := coded_laid (H := H) (s := s) hsbw hmaxw
  simp only [g, codedGrid, Lib.Prog.run_bind, Lib.Prog.run_pure, maxTileCols, maxTileRows]
  generalize (codedStarts sbw (maxTileWidthSb sb128) 64 0 0).run H s = c
    at hlaidCols hwidest hwidths
  have hta : (if minLog2Tiles = 0 then sbw * sbh else (sbw * sbh) >>> (minLog2Tiles + 1)) ≤
      maxTileAreaSb sb128 := by
    have hreach : sbw * sbh ≤ maxTileAreaSb sb128 * 2 ^ minLog2Tiles := by
      refine (le_tileLog2 (hmaxw.trans_le hmaxa)).trans ?_
      rw [Nat.shiftLeft_eq]
      exact Nat.mul_le_mul_left _ (Nat.pow_le_pow_right (by decide) hlog)
    split
    · rename_i hzero
      rwa [hzero, Nat.pow_zero, Nat.mul_one] at hreach
    · rw [Nat.shiftRight_eq_div_pow]
      refine Nat.div_le_of_le_mul (hreach.trans ?_)
      rw [Nat.mul_comm]
      exact Nat.mul_le_mul_right _ (Nat.pow_le_pow_right (by decide) (Nat.le_succ _))
  generalize (if minLog2Tiles = 0 then sbw * sbh else (sbw * sbh) >>> (minLog2Tiles + 1)) = ta
    at hta
  obtain ⟨hlaidRows, -, hheights⟩ :=
    coded_laid (H := H) (s := c.2) hsbh (Nat.le_max_right (ta / max c.1.widest 1) 1)
  refine ⟨hlaidCols, hlaidRows, fun h => Bool.noConfusion h, fun h => Bool.noConfusion h,
    fun _ i hi hlast => (hwidths i hi hlast).1,
    fun _ i hi j hj hcol hrow => ?_⟩
  have hwidth := (hwidths i hi hcol).2
  have hheight := (hheights j hj hrow).1
  calc partAt (c.1.starts ++ [sbw]) i * partAt _ j ≤ max c.1.widest 1 * max
          (ta / max c.1.widest 1) 1 :=
        Nat.mul_le_mul (hwidth.trans (Nat.le_max_left _ _)) hheight
    _ ≤ maxTileAreaSb sb128 := by
        rcases Nat.le_total (ta / max c.1.widest 1) 1 with hone | hmore
        · rw [Nat.max_eq_right hone, Nat.mul_one]
          omega
        · rw [Nat.max_eq_left hmore]
          exact (Nat.mul_div_le ta _).trans hta

end Layout

/-- The tiling of every frame header that the parser accepts is a partition of the frame into tiles
within the limits; what the code does not check is the area of a uniform tile that is rounded up,
and the length of a 64th tile that takes what is left. -/
theorem tile_layout {σ : Type} (H : Lib.Prog.Handler Nat (fun n => BitVec n) σ) (s : σ)
    (sb128 : Bool) (width height : Nat) (hw : 0 < width ∧ width ≤ 65536)
    (hh : 0 < height ∧ height ≤ 65536) (t : Tiling)
    (h : ((parseTiling sb128 width height).run H s).1 = some t) :
    TileLayout sb128 (brBit.run H s).1 width height
      ((parseGrid sb128 width height).run H s).1 t := by
  simp only [parseTiling, parseGrid, Lib.Prog.run_bind, Lib.Prog.run_pure,
    Option.map_eq_some_iff] at h ⊢
  obtain ⟨n, -, rfl⟩ := h
  cases huniform : (brBit.run H s).1 with
  | true => exact uniformGrid_layout hw.1 hh.1 hw.2 hh.2
  | false => exact codedGrid_layout hw.1 hh.1

/-- 63 by 73 superblocks in two uniform tiles. -/
def roundedBits : Headers.BitCursor := { bits := [true, false, false, false, false, false] }

def roundedTiling : Tiling := ⟨1, 2, [0, 63], [0, 37, 73], 1⟩

theorem parse_rounded : ((parseTiling false 4032 4672).run Headers.BitCursor.answer roundedBits).1 =
    some roundedTiling := by
  decide +kernel

/-- 200 superblocks in columns of one superblock. -/
def cappedBits : Headers.BitCursor := { bits := List.replicate 400 false }

def cappedTiling : Tiling := ⟨64, 1, List.range 64 ++ [200], [0, 1], 1⟩

theorem parse_capped : ((parseTiling false 12800 64).run Headers.BitCursor.answer cappedBits).1 =
    some cappedTiling := by
  decide +kernel

/-- The first uniform tile is over the area, and the 64th coded column is over the width. -/
theorem tile_limits_exceeded :
    ((parseTiling false 4032 4672).run Headers.BitCursor.answer roundedBits).1 =
    some roundedTiling ∧
      maxTileAreaSb false < partAt roundedTiling.colStartSb 0 * partAt roundedTiling.rowStartSb 0 ∧
      ((parseTiling false 12800 64).run Headers.BitCursor.answer cappedBits).1 = some cappedTiling ∧
      maxTileWidthSb false < partAt cappedTiling.colStartSb 63 :=
  ⟨parse_rounded, by decide, parse_capped, by decide⟩

theorem tile_layout_rounded : TileLayout false true 4032 4672
    ((parseGrid false 4032 4672).run Headers.BitCursor.answer roundedBits).1 roundedTiling :=
  tile_layout Headers.BitCursor.answer roundedBits false 4032 4672 ⟨by decide, by decide⟩
    ⟨by decide, by decide⟩ roundedTiling parse_rounded

end Rkvdec.Av1
