import Rkvdec.Bitstream.BitReader
import Rkvdec.Engine.Repack
import Rkvdec.Lib.Cuts

/-! `RepackCodecOutputToNV12orP010`: rows of ten-bit samples, four in five bytes, are taken apart,
and rows of bytes are cropped. -/
namespace Rkvdec.Repack

open Bitstream
open Lib (length_flatMap_range getElem?_flatMap_range)

section Model

/-- `CodecOutputStride`. -/
def codecOutputStride (codedW bitDepth : Nat) : Nat :=
  ((codedW * bitDepth + 7) % 2 ^ 32 / 8 + 15) % 2 ^ 32 / 16 * 16

/-- Bytes of the source; `none` is a read past its end. -/
def readBytes (src : List Byte) (off n : Nat) : Option (List Byte) :=
  if n = 0 ∨ off + n ≤ src.length then some ((src.drop off).take n) else none

/-- The four samples of a group. -/
def groupSamples (s : List Byte) : List Nat :=
  [(s.getD 0 0).toNat + (s.getD 1 0).toNat % 2 ^ 2 * 2 ^ 8,
    (s.getD 1 0).toNat / 2 ^ 2 + (s.getD 2 0).toNat % 2 ^ 4 * 2 ^ 6,
    (s.getD 2 0).toNat / 2 ^ 4 + (s.getD 3 0).toNat % 2 ^ 6 * 2 ^ 4,
    (s.getD 3 0).toNat / 2 ^ 6 + (s.getD 4 0).toNat * 2 ^ 2]

/-- `samp`: what is left over when the samples are no multiple of four. -/
def tailSamples (s : List Byte) : List Nat := (groupSamples s).take 3 ++ [0]

/-- What the turns `i`, `i + 1` and so on make, one after the other. -/
def gather {β : Type} (f : Nat → Option (List β)) : Nat → Nat → Option (List β)
  | 0, _ => some []
  | n + 1, i =>
    match f i with
    | none => none
    | some first => (gather f n (i + 1)).map (first ++ ·)

/-- `unpack_row`, from offset `row` of the source. -/
def unpackRow (src : List Byte) (row samples : Nat) : Option (List Nat) :=
  let groups := samples / 4
  let tail := samples - groups * 4
  match gather (fun g => (readBytes src (row + g * 5 % 2 ^ 32) 5).map groupSamples) groups 0 with
  | none => none
  | some full =>
    if tail = 0 then some full
    else (readBytes src (row + groups * 5 % 2 ^ 32) 4).map fun s =>
      full ++ (tailSamples s).take tail

/-- A `uint16_t` in memory. -/
def word16 (v : Nat) : List Byte := [BitVec.ofNat 8 v, BitVec.ofNat 8 (v / 2 ^ 8)]

/-- Bytes stored from an offset on; `none` is a write past the end. -/
def writeAt (dst : List Byte) (off : Nat) (bytes : List Byte) : Option (List Byte) :=
  if off + bytes.length ≤ dst.length then
    some (dst.take off ++ bytes ++ dst.drop (off + bytes.length))
  else none

/-- The loop over `n` rows from row `r` on. -/
def copyRows (row : Nat → Option (List Byte)) (dstOff : Nat → Nat) :
    Nat → Nat → List Byte → Option (List Byte)
  | 0, _, dst => some dst
  | n + 1, r, dst =>
    match row r with
    | none => none
    | some bytes =>
      match writeAt dst (dstOff r) bytes with
      | none => none
      | some dst => copyRows row dstOff n (r + 1) dst

/-- `std::vector::resize`. -/
def resize (out : List Byte) (n : Nat) : List Byte :=
  out.take n ++ List.replicate (n - out.length) 0

/-- The bytes of a row in P010. -/
def p010Row (samples : List Nat) : List Byte := samples.flatMap fun s => word16 (s * 2 ^ 6 % 2 ^ 16)

/-- `RepackCodecOutputToNV12orP010`, with `out` what the vector holds before; `none` is an access
outside the source or the vector. -/
def repack (src : List Byte) (stride heightPad width height bitDepth : Nat) (out : List Byte) :
    Option (List Byte) :=
  let srcUv := stride * heightPad
  if bitDepth = 8 then
    let yDisp := width * height % 2 ^ 32
    let uvDisp := width * (height / 2) % 2 ^ 32
    (copyRows (fun r => readBytes src (r * stride % 2 ^ 32) width)
      (fun r => r * width % 2 ^ 32) height 0
      (resize out ((yDisp + uvDisp) % 2 ^ 32))).bind
    (copyRows (fun r => readBytes src (srcUv + r * stride % 2 ^ 32) width)
      (fun r => yDisp + r * width % 2 ^ 32) (height / 2) 0)
  else
    let dstStride := width * 2 % 2 ^ 32
    let yDisp := dstStride * height % 2 ^ 32
    let uvDisp := dstStride * (height / 2) % 2 ^ 32
    (copyRows (fun r => (unpackRow src (r * stride % 2 ^ 32) width).map p010Row)
      (fun r => 2 * (r * width % 2 ^ 32)) height 0 (resize out ((yDisp + uvDisp) % 2 ^ 32))).bind
    (copyRows (fun r => (unpackRow src (srcUv + r * stride % 2 ^ 32) width).map p010Row)
      (fun r => yDisp + 2 * (r * width % 2 ^ 32)) (height / 2) 0)

end Model

section Rows

variable {β : Type} {f : Nat → Option (List β)} {dst : List Byte}
  {row : Nat → Option (List Byte)} {dstOff : Nat → Nat}
  {i k n r len : Nat}

theorem gather_eq (g : Nat → List β) (h : ∀ i, k ≤ i → i < k + n → f i = some (g i)) :
    gather f n k = some ((List.range' k n).flatMap g) := by
  induction n generalizing k with
  | zero => rfl
  | succ n ih =>
    rw [gather, h k le_rfl (by omega), ih fun i hlo hhi => h i (by omega) (by omega)]
    rfl

theorem gather_isSome (h : (gather f n k).isSome) (hlo : k ≤ i) (hhi : i < k + n) :
    (f i).isSome := by
  induction n generalizing k with
  | zero => omega
  | succ n ih =>
    rw [gather] at h
    cases hfirst : f k with
    | none =>
      rw [hfirst] at h
      cases h
    | some first =>
      rw [hfirst] at h
      rcases Nat.eq_or_lt_of_le hlo with rfl | hlt
      · rw [hfirst]
        rfl
      · exact ih (by simpa using h) hlt (by omega)

theorem length_writeAt {bytes out : List Byte} (h : writeAt dst off bytes = some out) :
    out.length = dst.length := by
  unfold writeAt at h
  split at h
  · cases h
    simp only [List.length_append, List.length_take, List.length_drop]
    omega
  · cases h

/-- The rows are there, and the vector keeps its size. -/
theorem copyRows_some {out : List Byte} (h : copyRows row dstOff n r dst = some out) :
    out.length = dst.length ∧ ∀ i, r ≤ i → i < r + n → (row i).isSome := by
  induction n generalizing r dst with
  | zero =>
    cases h
    refine ⟨rfl, ?_⟩
    intro i hlo hhi
    omega
  | succ n ih =>
    rw [copyRows] at h
    split at h
    · cases h
    · rename_i bytes hrow
      split at h
      · cases h
      · rename_i dst' hwrite
        obtain ⟨hlen, hrows⟩ := ih h
        refine ⟨hlen.trans (length_writeAt hwrite), ?_⟩
        intro i hlo hhi
        rcases Nat.eq_or_lt_of_le hlo with rfl | hlt
        · rw [hrow]
          rfl
        · exact hrows i hlt (by omega)

/-- Rows of one length go side by side. -/
theorem copyRows_eq (base : Nat) (rowOf : Nat → List Byte)
    (hrow : ∀ i, r ≤ i → i < r + n → row i = some (rowOf i) ∧ (rowOf i).length = len)
    (hoff : ∀ i, r ≤ i → i < r + n → dstOff i = base + i * len)
    (hroom : base + (r + n) * len ≤ dst.length) :
    copyRows row dstOff n r dst =
    some (dst.take (base + r * len) ++ (List.range' r n).flatMap rowOf ++
      dst.drop (base + (r + n) * len)) := by
  induction n generalizing r dst with
  | zero =>
    rw [copyRows, List.range'_zero, List.flatMap_nil, List.append_nil, Nat.add_zero,
      List.take_append_drop]
  | succ n ih =>
    obtain ⟨hhere, hlen⟩ := hrow r le_rfl (by omega)
    have hsplit : base + (r + (n + 1)) * len = base + (r + 1) * len + n * len := by ring
    have hnext : base + (r + 1) * len = base + r * len + len := by ring
    have hwrite : writeAt dst (dstOff r) (rowOf r) =
        some (dst.take (base + r * len) ++ rowOf r ++ dst.drop (base + (r + 1) * len)) := by
      rw [writeAt, hoff r le_rfl (by omega), hlen, ← hnext]
      exact if_pos (by omega)
    have htaken : (dst.take (base + r * len) ++ rowOf r).length = base + (r + 1) * len := by
      rw [List.length_append, List.length_take, hlen]
      omega
    rw [copyRows, hhere]
    dsimp only
    rw [hwrite]
    dsimp only
    rw [ih (fun i hlo hhi => hrow i (by omega) (by omega))
      (fun i hlo hhi => hoff i (by omega) (by omega))]
    · rw [List.take_append_of_le_length htaken.ge, List.take_of_length_le htaken.le]
      have hdrop : (dst.take (base + r * len) ++ rowOf r ++ dst.drop (base + (r + 1) * len)).drop
          (base + (r + 1 + n) * len) = dst.drop (base + (r + (n + 1)) * len) := by
        rw [List.drop_append, List.drop_of_length_le (by rw [htaken]; nlinarith), List.nil_append,
          htaken, List.drop_drop]
        congr 1
        have : (r + 1 + n) * len = (r + 1) * len + n * len := by ring
        omega
      rw [hdrop, List.range'_succ, List.flatMap_cons]
      simp only [List.append_assoc]
    · have hlong : (r + 1 + n) * len = (r + (n + 1)) * len := by ring
      rw [List.length_append, htaken, List.length_drop, hlong]
      omega

end Rows

section Samples

variable {src : List Byte} {row width g n i : Nat}

/-- Sample `k` of a row: ten bits from bit `10 * k` on, low bits first. -/
def sampleAt (src : List Byte) (row k : Nat) : Nat :=
  ((src.getD (row + 10 * k / 8) 0).toNat + 2 ^ 8 * (src.getD (row + 10 * k / 8 + 1) 0).toNat) /
    2 ^ (10 * k % 8) % 2 ^ 10

theorem sampleAt_lt (src : List Byte) (row k : Nat) : sampleAt src row k < 2 ^ 10 :=
  Nat.mod_lt _ (by decide)

theorem sampleAt_eq (src : List Byte) (row g : Nat) {i : Nat} (hi : i < 4) :
    sampleAt src row (4 * g + i) =
      ((src.getD (row + g * 5 + i) 0).toNat + 2 ^ 8 * (src.getD (row + g * 5 + (i + 1)) 0).toNat) /
        2 ^ (2 * i) % 2 ^ 10 := by
  have hbyte : row + 10 * (4 * g + i) / 8 = row + g * 5 + i := by omega
  have hshift : 10 * (4 * g + i) % 8 = 2 * i := by omega
  rw [sampleAt, hbyte, hshift, Nat.add_assoc (row + g * 5)]

theorem getD_window (hi : i < n) : ((src.drop row).take n).getD i 0 = src.getD (row + i) 0 := by
  rw [List.getD_eq_getElem?_getD, List.getD_eq_getElem?_getD, List.getElem?_take_of_lt hi,
    List.getElem?_drop]

/-- The masks and shifts of a group cut its samples out. -/
theorem groupSamples_window (src : List Byte) (row g : Nat) :
    groupSamples ((src.drop (row + g * 5)).take 5) =
      (List.range 4).map fun i => sampleAt src row (4 * g + i) := by
  have hrange : List.range 4 = [0, 1, 2, 3] := rfl
  rw [groupSamples, getD_window (by decide : 0 < 5), getD_window (by decide : 1 < 5),
    getD_window (by decide : 2 < 5), getD_window (by decide : 3 < 5),
    getD_window (by decide : 4 < 5), hrange, List.map_cons, List.map_cons, List.map_cons,
    List.map_cons, List.map_nil, sampleAt_eq src row g (by decide : 0 < 4),
    sampleAt_eq src row g (by decide : 1 < 4), sampleAt_eq src row g (by decide : 2 < 4),
    sampleAt_eq src row g (by decide : 3 < 4)]
  simp only [Nat.reduceAdd, Nat.reduceMul]
  have h₀ := (src.getD (row + g * 5 + 0) 0).isLt
  have h₁ := (src.getD (row + g * 5 + 1) 0).isLt
  have h₂ := (src.getD (row + g * 5 + 2) 0).isLt
  have h₃ := (src.getD (row + g * 5 + 3) 0).isLt
  have h₄ := (src.getD (row + g * 5 + 4) 0).isLt
  congr 1
  · omega
  congr 1
  · omega
  congr 1
  · omega
  congr 1
  omega

/-- The samples left over need three bytes. -/
theorem tailSamples_window (src : List Byte) (row g : Nat) {tail : Nat} (htail : tail < 4) :
    (tailSamples ((src.drop (row + g * 5)).take 4)).take tail =
      (List.range tail).map fun i => sampleAt src row (4 * g + i) := by
  have hthree : (groupSamples ((src.drop (row + g * 5)).take 4)).take 3 =
      (List.range 3).map fun i => sampleAt src row (4 * g + i) := by
    have hgroup := congrArg (List.take 3) (groupSamples_window src row g)
    rw [← List.map_take] at hgroup
    refine Eq.trans ?_ hgroup
    simp only [groupSamples, List.take_succ_cons, List.take_zero, getD_window (by decide : 0 < 4),
      getD_window (by decide : 1 < 4), getD_window (by decide : 2 < 4),
      getD_window (by decide : 3 < 4), getD_window (by decide : 0 < 5),
      getD_window (by decide : 1 < 5), getD_window (by decide : 2 < 5),
      getD_window (by decide : 3 < 5)]
  have hlen : tail ≤ ((List.range 3).map fun i => sampleAt src row (4 * g + i)).length := by
    rw [List.length_map, List.length_range]
    omega
  rw [tailSamples, hthree, List.take_append_of_le_length hlen, ← List.map_take, List.take_range,
    Nat.min_eq_left (by omega)]

/-- Groups of four make a row. -/
theorem flatMap_groups {β : Type} (f : Nat → β) (n : Nat) :
    (List.range' 0 n).flatMap (fun g => (List.range 4).map fun i => f (4 * g + i)) =
      (List.range (4 * n)).map f := by
  rw [← List.range_eq_range']
  induction n with
  | zero => rfl
  | succ n ih =>
    have hrange : List.range (n + 1) = List.range n ++ [n] := List.range_succ
    have hgroup : List.range (4 * n + 4) = List.range (4 * n) ++ (List.range 4).map (4 * n + ·) :=
      List.range_add
    rw [hrange, List.flatMap_append, ih, List.flatMap_singleton, Nat.mul_succ, hgroup,
      List.map_append, List.map_map]
    rfl

/-- A row that is read without leaving the source. -/
theorem unpackRow_eq (hwrap : 5 * (width / 4) < 2 ^ 32)
    (hfits : width = 0 ∨ row + rowBytes width 10 ≤ src.length) :
    unpackRow src row width = some ((List.range width).map (sampleAt src row)) := by
  have hbytes : rowBytes width 10 = 5 * (width / 4) + if width % 4 = 0 then 0 else 4 := rfl
  have hgroups : gather (fun g => (readBytes src (row + g * 5 % 2 ^ 32) 5).map groupSamples)
      (width / 4) 0 =
      some ((List.range (4 * (width / 4))).map (sampleAt src row)) := by
    rw [gather_eq fun g => (List.range 4).map fun i => sampleAt src row (4 * g + i), flatMap_groups]
    intro g _ hg
    have hmod : g * 5 % 2 ^ 32 = g * 5 := Nat.mod_eq_of_lt (by omega)
    have hread : row + g * 5 + 5 ≤ src.length := by
      rcases hfits with rfl | hfits
      · omega
      · omega
    rw [hmod, readBytes, if_pos (.inr hread), Option.map_some, groupSamples_window]
  have htail : width - width / 4 * 4 = width % 4 := by omega
  have hwidth : width = 4 * (width / 4) + width % 4 := by omega
  rw [unpackRow, hgroups, htail]
  dsimp only
  by_cases hzero : width % 4 = 0
  · rw [if_pos hzero]
    have hfull : 4 * (width / 4) = width := by omega
    rw [hfull]
  · have hmod : width / 4 * 5 % 2 ^ 32 = width / 4 * 5 := Nat.mod_eq_of_lt (by omega)
    rw [if_neg hzero] at hbytes
    have hread : row + width / 4 * 5 + 4 ≤ src.length := by
      rcases hfits with rfl | hfits
      · omega
      · omega
    rw [if_neg hzero, hmod, readBytes, if_pos (.inr hread), Option.map_some,
      tailSamples_window src row (width / 4) (Nat.mod_lt _ (by decide))]
    congr 1
    conv_rhs => rw [hwidth]
    rw [List.range_add, List.map_append, List.map_map]
    rfl

/-- A row of some samples is only read if it lies in the source. -/
theorem fits_of_unpackRow (hwrap : 5 * (width / 4) < 2 ^ 32) (hwidth : 0 < width)
    (h : (unpackRow src row width).isSome) : row + rowBytes width 10 ≤ src.length := by
  have hbytes : rowBytes width 10 = 5 * (width / 4) + if width % 4 = 0 then 0 else 4 := rfl
  have hread {off n : Nat} (hn : 0 < n) (hsome : (readBytes src off n).isSome) :
      off + n ≤ src.length := by
    unfold readBytes at hsome
    split at hsome
    · rename_i hor
      omega
    · cases hsome
  rw [unpackRow] at h
  split at h
  · cases h
  · rename_i full hgroups
    have htail : width - width / 4 * 4 = width % 4 := by omega
    rw [htail] at h
    by_cases hzero : width % 4 = 0
    · rw [if_pos hzero] at hbytes
      have hlast :=
        gather_isSome (i := width / 4 - 1) (by rw [hgroups]; rfl) (Nat.zero_le _) (by omega)
      have hmod : (width / 4 - 1) * 5 % 2 ^ 32 = (width / 4 - 1) * 5 := Nat.mod_eq_of_lt (by omega)
      rw [Option.isSome_map, hmod] at hlast
      have := hread (by decide) hlast
      omega
    · rw [if_neg hzero] at hbytes h
      have hmod : width / 4 * 5 % 2 ^ 32 = width / 4 * 5 := Nat.mod_eq_of_lt (by omega)
      rw [Option.isSome_map, hmod] at h
      have := hread (by decide) h
      omega

end Samples

section Frames

variable {stride heightPad width height : Nat} {src out : List Byte}

/-- A frame of ten-bit samples in P010. -/
def p010Frame (width height : Nat) (luma chroma : Nat → Nat → Nat) : List Byte :=
  (List.range height).flatMap (fun r => (List.range width).flatMap fun k =>
    word16 (luma r k * 2 ^ 6)) ++
    (List.range (height / 2)).flatMap fun r =>
      (List.range width).flatMap fun k => word16 (chroma r k * 2 ^ 6)

/-- The rows of a frame of bytes, without what pads them. -/
def croppedFrame (src : List Byte) (stride heightPad width height : Nat) : List Byte :=
  (List.range height).flatMap (fun r => (src.drop (r * stride)).take width) ++
    (List.range (height / 2)).flatMap fun r =>
    (src.drop (stride * heightPad + r * stride)).take width

/-- The source holds a plane of samples, packed, its rows from `base` on. -/
def HoldsPlane (src : List Byte) (base stride rows width : Nat) (plane : Nat → Nat → Nat) : Prop :=
  ∀ r < rows, ∀ k < width, sampleAt src (base + r * stride) k = plane r k

/-- What is promised of a source with three halves of a luma plane. An access outside of it gives
`none`. -/
structure RepacksExactly (stride heightPad width height : Nat) : Prop where
  ten : ∀ (src out : List Byte) (luma chroma : Nat → Nat → Nat),
    src.length = stride * heightPad * 3 / 2 → HoldsPlane src 0 stride height width luma →
    HoldsPlane src (stride * heightPad) stride (height / 2) width chroma →
    repack src stride heightPad width height 10 out = some (p010Frame width height luma chroma)
  eight : ∀ src out : List Byte, src.length = stride * heightPad * 3 / 2 →
    repack src stride heightPad width height 8 out =
    some (croppedFrame src stride heightPad width height)

/-- No product of 32 bits wraps, and the chroma rows, with what is read of the last one, have room
in half of a luma plane. -/
structure Fits (stride heightPad width height : Nat) : Prop where
  rows : (height - 1) * stride < 2 ^ 32
  size : 3 * width * height < 2 ^ 32
  room : (height / 2 - 1) * stride + rowBytes width 10 ≤ stride * heightPad / 2

theorem length_resize (out : List Byte) (n : Nat) : (resize out n).length = n := by
  rw [resize, List.length_append, List.length_take, List.length_replicate]
  omega

theorem length_samples (width : Nat) (plane : Nat → Nat) :
    ((List.range width).flatMap fun k => word16 (plane k * 2 ^ 6)).length = width * 2 :=
  length_flatMap_range fun _ _ => rfl

theorem length_p010Frame (width height : Nat) (luma chroma : Nat → Nat → Nat) :
    (p010Frame width height luma chroma).length = height * (width * 2) + height / 2 *
    (width * 2) := by
  rw [p010Frame, List.length_append, length_flatMap_range fun _ _ => length_samples _ _,
    length_flatMap_range fun _ _ => length_samples _ _]

/-- Ten bits and six zeros are sixteen bits. -/
theorem p010Row_samples (src : List Byte) (row width : Nat) :
    p010Row ((List.range width).map (sampleAt src row)) =
      (List.range width).flatMap fun k => word16 (sampleAt src row k * 2 ^ 6) := by
  rw [p010Row, List.flatMap_map]
  congr 1
  funext k
  have := sampleAt_lt src row k
  rw [Nat.mod_eq_of_lt (by omega)]

/-- Two planes of rows, one behind the other, fill the vector. -/
theorem copyRows_planes {lumaRow chromaRow : Nat → Option (List Byte)}
    {lumaOf chromaOf : Nat → List Byte} {lumaOff chromaOff : Nat → Nat} {rows half len : Nat}
    {dst : List Byte} (hluma : ∀ r < rows, lumaRow r = some (lumaOf r) ∧ (lumaOf r).length = len)
    (hchroma : ∀ r < half, chromaRow r = some (chromaOf r) ∧ (chromaOf r).length = len)
    (hlumaOff : ∀ r < rows, lumaOff r = r * len)
    (hchromaOff : ∀ r < half, chromaOff r = rows * len + r * len)
    (hdst : dst.length = rows * len + half * len) :
    (copyRows lumaRow lumaOff rows 0 dst).bind (copyRows chromaRow chromaOff half 0) =
      some ((List.range rows).flatMap lumaOf ++ (List.range half).flatMap chromaOf) := by
  have hroom : 0 + (0 + rows) * len ≤ dst.length := by
    rw [Nat.zero_add, Nat.zero_add, hdst]
    exact Nat.le_add_right _ _
  have hfirst : copyRows lumaRow lumaOff rows 0 dst =
      some ((List.range rows).flatMap lumaOf ++ dst.drop (rows * len)) := by
    rw [copyRows_eq 0 lumaOf (fun i _ hi => hluma i (by omega))
      (fun i _ hi => by rw [hlumaOff i (by omega), Nat.zero_add]) hroom, ← List.range_eq_range']
    simp
  have hlen : ((List.range rows).flatMap lumaOf).length = rows * len :=
    length_flatMap_range fun r hr => (hluma r hr).2
  have htaken : ((List.range rows).flatMap lumaOf ++ dst.drop (rows * len)).take
      (rows * len + 0 * len) =
      (List.range rows).flatMap lumaOf := by
    rw [Nat.zero_mul, Nat.add_zero, ← hlen, List.take_left]
  have hdropped : ((List.range rows).flatMap lumaOf ++ dst.drop (rows * len)).drop
      (rows * len + (0 + half) * len) = [] := by
    refine List.drop_of_length_le ?_
    rw [List.length_append, hlen, List.length_drop, Nat.zero_add]
    omega
  rw [hfirst, Option.bind_some,
    copyRows_eq (rows * len) chromaOf (fun i _ hi => hchroma i (by omega))
      (fun i _ hi => hchromaOff i (by omega)) ?_, ← List.range_eq_range', htaken, hdropped,
        List.append_nil]
  rw [List.length_append, hlen, List.length_drop, Nat.zero_add]
  omega

/-- What the ten-bit path makes when no row leaves the source and the result is no longer than 32
bits say. -/
theorem repack_ten (heven : height % 2 = 0) (hsize : 3 * width * height < 2 ^ 32)
    (hluma : ∀ r < height, width = 0 ∨ r * stride % 2 ^ 32 + rowBytes width 10 ≤ src.length)
    (hchroma : ∀ r < height / 2,
      width = 0 ∨ stride * heightPad + r * stride % 2 ^ 32 + rowBytes width 10 ≤ src.length) :
    repack src stride heightPad width height 10 out = some (p010Frame width height
      (fun r k => sampleAt src (r * stride % 2 ^ 32) k)
      fun r k => sampleAt src (stride * heightPad + r * stride % 2 ^ 32) k) := by
  obtain ⟨half, rfl⟩ : ∃ m, height = 2 * m := ⟨height / 2, by omega⟩
  have hhalf : 2 * half / 2 = half := by omega
  have harea : 3 * width * (2 * half) = 6 * (width * half) := by ring
  have hpos : 0 < half → width ≤ width * half := fun h => Nat.le_mul_of_pos_right _ h
  have hrow {r : Nat} (hr : r < 2 * half) : r * width ≤ 2 * (width * half) := by nlinarith
  have hluma₂ : width * 2 * (2 * half) = 4 * (width * half) := by ring
  have hchroma₂ : width * 2 * half = 2 * (width * half) := by ring
  have hlines : width * 2 % 2 ^ 32 * (2 * half) % 2 ^ 32 = 2 * half * (width * 2) ∧
      width * 2 % 2 ^ 32 * half % 2 ^ 32 = half * (width * 2) := by
    rcases Nat.eq_zero_or_pos half with rfl | hsome
    · simp
    · have := hpos hsome
      have hwidth : width * 2 % 2 ^ 32 = width * 2 := Nat.mod_eq_of_lt (by omega)
      rw [hwidth, Nat.mul_comm (2 * half), Nat.mul_comm half, hluma₂, hchroma₂,
        Nat.mod_eq_of_lt (by omega), Nat.mod_eq_of_lt (by omega)]
      exact ⟨rfl, rfl⟩
  have htotal : (2 * half * (width * 2) + half * (width * 2)) % 2 ^ 32 =
      2 * half * (width * 2) + half * (width * 2) := by
    rw [Nat.mul_comm (2 * half), Nat.mul_comm half, hluma₂, hchroma₂]
    exact Nat.mod_eq_of_lt (by omega)
  have hwrap (hsome : 0 < half) : 5 * (width / 4) < 2 ^ 32 := by
    have := hpos hsome
    omega
  have hoff {r : Nat} (hr : r < 2 * half) : 2 * (r * width % 2 ^ 32) = r * (width * 2) := by
    have := hrow hr
    rw [Nat.mod_eq_of_lt (by omega)]
    ring
  have height : ¬(10 : Nat) = 8 := by decide
  rw [repack, if_neg height]
  dsimp only
  rw [hhalf, hlines.1, hlines.2, htotal, p010Frame, hhalf]
  refine copyRows_planes ?_ ?_ ?_ ?_ (length_resize _ _)
  · intro r hr
    rw [unpackRow_eq (hwrap (by omega)) (hluma r hr), Option.map_some, p010Row_samples]
    exact ⟨rfl, length_samples _ _⟩
  · intro r hr
    rw [unpackRow_eq (hwrap (by omega)) (hchroma r (by omega)), Option.map_some, p010Row_samples]
    exact ⟨rfl, length_samples _ _⟩
  · intro r hr
    exact hoff hr
  · intro r hr
    rw [hoff (by omega)]

/-- What the eight-bit path makes. -/
theorem repack_eight (heven : height % 2 = 0) (hsize : 3 * width * height < 2 ^ 32)
    (hluma : ∀ r < height, width = 0 ∨ r * stride < 2 ^ 32 ∧ r * stride + width ≤ src.length)
    (hchroma : ∀ r < height / 2, width = 0 ∨
      r * stride < 2 ^ 32 ∧ stride * heightPad + r * stride + width ≤ src.length) :
    repack src stride heightPad width height 8 out =
      some (croppedFrame src stride heightPad width height) := by
  obtain ⟨half, rfl⟩ : ∃ m, height = 2 * m := ⟨height / 2, by omega⟩
  have hhalf : 2 * half / 2 = half := by omega
  have harea : 3 * width * (2 * half) = 6 * (width * half) := by ring
  have hrow {r : Nat} (hr : r < 2 * half) : r * width ≤ 2 * (width * half) := by nlinarith
  have hluma₂ : width * (2 * half) = 2 * (width * half) := by ring
  have hlines : width * (2 * half) % 2 ^ 32 = 2 * half * width ∧
      width * half % 2 ^ 32 = half * width := by
    rw [Nat.mul_comm (2 * half), Nat.mul_comm half, hluma₂, Nat.mod_eq_of_lt (by omega),
      Nat.mod_eq_of_lt (by omega)]
    exact ⟨rfl, rfl⟩
  have htotal : (2 * half * width + half * width) % 2 ^ 32 = 2 * half * width + half * width := by
    rw [Nat.mul_comm (2 * half), Nat.mul_comm half, hluma₂]
    exact Nat.mod_eq_of_lt (by omega)
  have hoff {r : Nat} (hr : r < 2 * half) : r * width % 2 ^ 32 = r * width :=
    Nat.mod_eq_of_lt (by have := hrow hr; omega)
  have hread {base off : Nat} (hfits : width = 0 ∨ off < 2 ^ 32 ∧ base + off + width ≤ src.length) :
      readBytes src (base + off % 2 ^ 32) width = some ((src.drop (base + off)).take width) ∧
        ((src.drop (base + off)).take width).length = width := by
    rcases hfits with rfl | ⟨hoff, hfits⟩
    · rw [readBytes, if_pos (.inl rfl), List.take_zero, List.take_zero]
      exact ⟨rfl, rfl⟩
    · rw [Nat.mod_eq_of_lt hoff]
      refine ⟨if_pos (.inr hfits), ?_⟩
      rw [List.length_take, List.length_drop]
      omega
  rw [repack, if_pos rfl]
  dsimp only
  rw [hhalf, hlines.1, hlines.2, htotal, croppedFrame, hhalf]
  refine copyRows_planes ?_ ?_ ?_ ?_ (length_resize _ _)
  · intro r hr
    have hrow := @hread 0 (r * stride) (by simpa using hluma r hr)
    simpa using hrow
  · intro r hr
    exact hread (hchroma r (by omega))
  · intro r hr
    exact hoff hr
  · intro r hr
    rw [hoff (by omega)]

theorem p010Frame_congr {luma chroma luma' chroma' : Nat → Nat → Nat}
    (hluma : ∀ r < height, ∀ k < width, luma r k = luma' r k)
    (hchroma : ∀ r < height / 2, ∀ k < width, chroma r k = chroma' r k) :
    p010Frame width height luma chroma = p010Frame width height luma' chroma' := by
  have hrows {n : Nat} {plane plane' : Nat → Nat → Nat}
      (h : ∀ r < n, ∀ k < width, plane r k = plane' r k) :
      (List.range n).flatMap (fun r => (List.range width).flatMap fun k =>
      word16 (plane r k * 2 ^ 6)) =
        (List.range n).flatMap fun r => (List.range width).flatMap fun k =>
        word16 (plane' r k * 2 ^ 6) := by
    refine List.flatMap_congr fun r hr => List.flatMap_congr fun k hk => ?_
    rw [h r (List.mem_range.mp hr) k (List.mem_range.mp hk)]
  rw [p010Frame, hrows hluma, hrows hchroma]
  rfl

/-- The rows that a conversion which succeeds has read. -/
theorem rows_of_repack_ten {frame : List Byte} (heven : height % 2 = 0) (hwidth : 0 < width)
    (hwrap : 5 * (width / 4) < 2 ^ 32)
    (h : repack src stride heightPad width height 10 out = some frame) :
    (∀ r < height, r * stride % 2 ^ 32 + rowBytes width 10 ≤ src.length) ∧
      ∀ r < height / 2, stride * heightPad + r * stride % 2 ^ 32 + rowBytes width 10 ≤
      src.length := by
  have height : ¬(10 : Nat) = 8 := by decide
  rw [repack, if_neg height] at h
  obtain ⟨dst, hfirst, hsecond⟩ := Option.bind_eq_some_iff.mp h
  constructor
  · intro r hr
    have hrow := (copyRows_some hfirst).2 r (Nat.zero_le r) (by omega)
    rw [Option.isSome_map] at hrow
    exact fits_of_unpackRow hwrap hwidth hrow
  · intro r hr
    have hrow := (copyRows_some hsecond).2 r (Nat.zero_le r) (by omega)
    rw [Option.isSome_map] at hrow
    exact fits_of_unpackRow hwrap hwidth hrow

/-- The result is no longer than 32 bits say. -/
theorem length_of_repack_ten {frame : List Byte}
    (h : repack src stride heightPad width height 10 out = some frame) : frame.length < 2 ^ 32 := by
  have height : ¬(10 : Nat) = 8 := by decide
  rw [repack, if_neg height] at h
  obtain ⟨dst, hfirst, hsecond⟩ := Option.bind_eq_some_iff.mp h
  rw [(copyRows_some hsecond).1, (copyRows_some hfirst).1, length_resize]
  exact Nat.mod_lt _ (by decide)

end Frames

section Exact

variable {stride heightPad width height : Nat}

theorem sampleAt_zeros (n row k : Nat) : sampleAt (List.replicate n 0) row k = 0 := by
  have hbyte (i : Nat) : (List.replicate n (0 : Byte)).getD i 0 = 0 := by
    rw [List.getD_eq_getElem?_getD, List.getElem?_replicate]
    split
    · rfl
    · rfl
  rw [sampleAt, hbyte, hbyte]
  simp

/-- One byte that is not zero is the first sample of the row that starts there, and of no row
before. -/
theorem sampleAt_one {n place row : Nat} (hat : place < n) :
    sampleAt ((List.replicate n 0).set place 1) place 0 = 1 ∧
      (row + 1 < place → sampleAt ((List.replicate n 0).set place 1) row 0 = 0) := by
  have hbyte (i : Nat) : ((List.replicate n (0 : Byte)).set place 1).getD i 0 =
      if place = i then 1 else 0 := by
    rw [List.getD_eq_getElem?_getD, List.getElem?_set, List.length_replicate,
      List.getElem?_replicate]
    by_cases heq : place = i
    · rw [if_pos heq, if_pos hat, if_pos heq]
      rfl
    · rw [if_neg heq, if_neg heq]
      split
      · rfl
      · rfl
  constructor
  · rw [sampleAt, hbyte, hbyte, if_pos (by omega), if_neg (by omega)]
    decide
  · intro hrow
    rw [sampleAt, hbyte, hbyte, if_neg (by omega), if_neg (by omega)]
    decide

/-- The size of a result with rows and columns fits in 32 bits. -/
theorem RepacksExactly.size (h : RepacksExactly stride heightPad width height)
    (heven : height % 2 = 0) :
    3 * width * height < 2 ^ 32 := by
  have hzeros :=
    h.ten (List.replicate (stride * heightPad * 3 / 2) 0) [] (fun _ _ => 0) (fun _ _ => 0)
    List.length_replicate (fun _ _ _ _ => sampleAt_zeros _ _ _)
      (fun _ _ _ _ => sampleAt_zeros _ _ _)
  have hlen := length_of_repack_ten hzeros
  obtain ⟨half, rfl⟩ : ∃ m, height = 2 * m := ⟨height / 2, by omega⟩
  have hhalf : 2 * half / 2 = half := by omega
  have hproduct : 2 * half * (width * 2) + half * (width * 2) = 3 * width * (2 * half) := by ring
  rwa [length_p010Frame, hhalf, hproduct] at hlen

/-- The offset of the last luma row fits in 32 bits: another row is read there otherwise. -/
theorem RepacksExactly.rows (h : RepacksExactly stride heightPad width height)
    (heven : height % 2 = 0) (hpad : height ≤ heightPad) (hwidth : 0 < width)
    (hheight : 0 < height) :
    (height - 1) * stride < 2 ^ 32 := by
  by_contra hwrapped
  have hsize := h.size heven
  have hwrap : 5 * (width / 4) < 2 ^ 32 := by
    have : width ≤ width * height := Nat.le_mul_of_pos_right _ hheight
    have : 3 * width * height = 3 * (width * height) := Nat.mul_assoc 3 width height
    omega
  have hplane : height * stride ≤ stride * heightPad := by
    rw [Nat.mul_comm]
    exact Nat.mul_le_mul_left _ hpad
  have hlast : (height - 1) * stride + stride = height * stride := by
    rw [← Nat.add_one_mul]
    congr 1
    omega
  have hstride : 0 < stride := by
    refine Nat.pos_of_ne_zero ?_
    rintro rfl
    simp at hwrapped
  -- the source is zero but for the first byte of the last luma row
  generalize hn : stride * heightPad * 3 / 2 = n at h
  have hat : (height - 1) * stride < n := by omega
  generalize hsrc : (List.replicate n (0 : Byte)).set ((height - 1) * stride) 1 = src
  have hlen : src.length = n := by rw [← hsrc, List.length_set, List.length_replicate]
  have hexact := h.ten src [] (fun r k => sampleAt src (0 + r * stride) k)
    (fun r k => sampleAt src (stride * heightPad + r * stride) k) (by rw [hlen, hn])
    (fun _ _ _ _ => rfl) (fun _ _ _ _ => rfl)
  obtain ⟨hluma, hchroma⟩ := rows_of_repack_ten heven hwidth hwrap hexact
  rw [repack_ten heven hsize (fun r hr => .inr (hluma r hr)) (fun r hr => .inr (hchroma r hr)),
    Option.some_inj] at hexact
  -- its first sample is one in the frame that is promised, and zero in the one that is made
  have hfirst (luma chroma : Nat → Nat → Nat) :
      (p010Frame width height luma chroma)[(height - 1) * (width * 2) + 0]? =
        some (BitVec.ofNat 8 (luma (height - 1) 0 * 2 ^ 6)) := by
    have hinside : (height - 1) * (width * 2) + 0 < height * (width * 2) := by nlinarith
    obtain ⟨w, rfl⟩ : ∃ w, width = w + 1 := ⟨width - 1, by omega⟩
    rw [p010Frame, List.getElem?_append_left (by
      rwa [length_flatMap_range fun _ _ => length_samples _ _]),
      getElem?_flatMap_range (fun _ _ => length_samples _ _) (by omega) (by omega),
      List.range_succ_eq_map, List.flatMap_cons]
    rfl
  have hsame := congrArg (·[(height - 1) * (width * 2) + 0]?) hexact
  have hbyte := (hfirst _ _).symm.trans (hsame.trans (hfirst _ _))
  have hmod : (height - 1) * stride % 2 ^ 32 + 1 < (height - 1) * stride := by omega
  obtain ⟨hone, hzero⟩ := @sampleAt_one n _ ((height - 1) * stride % 2 ^ 32) hat
  rw [hsrc] at hone hzero
  rw [Nat.zero_add, hone, hzero hmod] at hbyte
  exact absurd hbyte (by decide)

/-- Within 32 bits there is always room, unless two samples are left over in a row that ends with
them and the planes have no padding: the four bytes that are read for the two are one more than they
have. -/
theorem room_iff (hwidth : width % 2 = 0) (hheight : height % 2 = 0) (hpos : 0 < height)
    (hpad : height ≤ heightPad) (hstride : codecOutputStride width 10 ≤ stride)
    (hbits : 10 * width + 22 < 2 ^ 32) :
    (height / 2 - 1) * stride + rowBytes width 10 ≤ stride * heightPad / 2 ↔
      ¬(width % 4 = 2 ∧ stride = 5 * (width / 4) + 3 ∧ heightPad = height) := by
  obtain ⟨half, rfl⟩ : ∃ m, height = 2 * (m + 1) := ⟨height / 2 - 1, by omega⟩
  have hhalf : 2 * (half + 1) / 2 - 1 = half := by omega
  have hbytes : rowBytes width 10 = 5 * (width / 4) + if width % 4 = 0 then 0 else 4 := rfl
  have hcoded : codecOutputStride width 10 = ((width * 10 + 7) / 8 + 15) / 16 * 16 := by
    rw [codecOutputStride, Nat.mod_eq_of_lt (by omega : width * 10 + 7 < 2 ^ 32),
      Nat.mod_eq_of_lt (by omega)]
  rw [hcoded] at hstride
  obtain ⟨extra, rfl⟩ : ∃ m, heightPad = 2 * (half + 1) + m :=
    ⟨heightPad - 2 * (half + 1), by omega⟩
  have hplane : stride * (2 * (half + 1) + extra) =
      2 * (half * stride + stride) + stride * extra := by ring
  have hroom : stride * (2 * (half + 1) + extra) / 2 =
      half * stride + stride + stride * extra / 2 := by
    rw [hplane]
    omega
  rw [hhalf, hroom, hbytes]
  by_cases hfull : width % 4 = 0
  · rw [if_pos hfull]
    omega
  · rw [if_neg hfull]
    rcases Nat.eq_zero_or_pos extra with rfl | hextra
    · rw [Nat.mul_zero]
      omega
    · have : stride * 1 ≤ stride * extra := Nat.mul_le_mul_left _ hextra
      omega

/-- Frames without rows or columns need no source, and all others are made where they fit. -/
theorem repacksExactly_of_fits (hheight : height % 2 = 0) (hpad : height ≤ heightPad)
    (h : width = 0 ∨ height = 0 ∨ Fits stride heightPad width height) :
    RepacksExactly stride heightPad width height := by
  have hsize : 3 * width * height < 2 ^ 32 := by
    rcases h with rfl | rfl | hfits
    · simp
    · simp
    · exact hfits.size
  have hcount : width ≤ rowBytes width 10 := by
    have hbytes : rowBytes width 10 = 5 * (width / 4) + if width % 4 = 0 then 0 else 4 := rfl
    split at hbytes
    · omega
    · omega
  -- each row, where its offset does not wrap, and where it ends
  have hrow {r : Nat} (hr : r < height) : width = 0 ∨ r * stride < 2 ^ 32 ∧
      r * stride + rowBytes width 10 ≤ stride * heightPad * 3 / 2 := by
    rcases h with rfl | rfl | hfits
    · exact .inl rfl
    · omega
    · have hup : r * stride ≤ (height - 1) * stride := Nat.mul_le_mul_right _ (by omega)
      have hplane : (height - 1) * stride ≤ stride * heightPad := by
        rw [Nat.mul_comm]
        exact Nat.mul_le_mul_left _ (by omega)
      have hroom := hfits.room
      have := hfits.rows
      exact .inr ⟨by omega, by omega⟩
  have hchromaRow {r : Nat} (hr : r < height / 2) : width = 0 ∨ r * stride < 2 ^ 32 ∧
      stride * heightPad + r * stride + rowBytes width 10 ≤ stride * heightPad * 3 / 2 := by
    rcases h with rfl | rfl | hfits
    · exact .inl rfl
    · omega
    · have hup : r * stride ≤ (height / 2 - 1) * stride := Nat.mul_le_mul_right _ (by omega)
      have hlast : (height / 2 - 1) * stride ≤ (height - 1) * stride :=
        Nat.mul_le_mul_right _ (by omega)
      have hroom := hfits.room
      have := hfits.rows
      exact .inr ⟨by omega, by omega⟩
  constructor
  · intro src out luma chroma hlen hluma hchroma
    rw [repack_ten hheight hsize ?_ ?_]
    · congr 1
      refine p010Frame_congr ?_ ?_
      · intro r hr k hk
        obtain ⟨hoff, -⟩ := (hrow hr).resolve_left (by omega)
        rw [Nat.mod_eq_of_lt hoff, ← hluma r hr k hk, Nat.zero_add]
      · intro r hr k hk
        obtain ⟨hoff, -⟩ := (hchromaRow hr).resolve_left (by omega)
        rw [Nat.mod_eq_of_lt hoff, ← hchroma r hr k hk]
    · intro r hr
      refine (hrow hr).imp_right ?_
      rintro ⟨hoff, hend⟩
      rwa [Nat.mod_eq_of_lt hoff, hlen]
    · intro r hr
      refine (hchromaRow hr).imp_right ?_
      rintro ⟨hoff, hend⟩
      rwa [Nat.mod_eq_of_lt hoff, hlen]
  · intro src out hlen
    refine repack_eight hheight hsize ?_ ?_
    · intro r hr
      refine (hrow hr).imp_right ?_
      rintro ⟨hoff, hend⟩
      exact ⟨hoff, by omega⟩
    · intro r hr
      refine (hchromaRow hr).imp_right ?_
      rintro ⟨hoff, hend⟩
      exact ⟨hoff, by omega⟩

/-- Samples come out as they were packed, and no byte outside the source is read, exactly where a
frame fits: where the sizes and offsets stay within 32 bits, and the planes have a byte of padding
if a row ends with two samples and nothing behind them. -/
theorem repack_exact_iff (stride heightPad width height : Nat) (hwidth : width % 2 = 0)
    (hheight : height % 2 = 0) (hpad : height ≤ heightPad)
    (hstride : codecOutputStride width 10 ≤ stride) :
    (RepacksExactly stride heightPad width height ↔
      width = 0 ∨ height = 0 ∨ Fits stride heightPad width height) ∧
    (10 * width + 22 < 2 ^ 32 → 0 < height →
      ((height / 2 - 1) * stride + rowBytes width 10 ≤ stride * heightPad / 2 ↔
        ¬(width % 4 = 2 ∧ stride = 5 * (width / 4) + 3 ∧ heightPad = height))) := by
  refine ⟨⟨?_, repacksExactly_of_fits hheight hpad⟩, fun hbits hpos =>
    room_iff hwidth hheight hpos hpad hstride hbits⟩
  intro h
  rcases Nat.eq_zero_or_pos width with rfl | hcols
  · exact .inl rfl
  rcases Nat.eq_zero_or_pos height with rfl | hrows
  · exact .inr (.inl rfl)
  have hsize := h.size hheight
  have hoffset := h.rows hheight hpad hcols hrows
  have hwrap : 5 * (width / 4) < 2 ^ 32 := by
    have : width ≤ width * height := Nat.le_mul_of_pos_right _ hrows
    have : 3 * width * height = 3 * (width * height) := Nat.mul_assoc 3 width height
    omega
  refine .inr (.inr ⟨hoffset, hsize, ?_⟩)
  have hzeros :=
    h.ten (List.replicate (stride * heightPad * 3 / 2) 0) [] (fun _ _ => 0) (fun _ _ => 0)
    List.length_replicate (fun _ _ _ _ => sampleAt_zeros _ _ _)
      (fun _ _ _ _ => sampleAt_zeros _ _ _)
  have hlast := (rows_of_repack_ten hheight hcols hwrap hzeros).2 (height / 2 - 1) (by omega)
  have hup : (height / 2 - 1) * stride ≤ (height - 1) * stride := Nat.mul_le_mul_right _ (by omega)
  rw [Nat.mod_eq_of_lt (by omega), List.length_replicate] at hlast
  omega

theorem four_columns_exact : RepacksExactly 16 2 4 2 :=
  (repack_exact_iff 16 2 4 2 (by decide) (by decide) (by decide) (by decide)).1.mpr
    (.inr (.inr ⟨by decide, by decide, by decide⟩))

/-- Rows of 38 samples fill a stride of 48 bytes, and byte 144 of 144 is read. -/
theorem last_row_overread :
    38 % 2 = 0 ∧ 2 % 2 = 0 ∧ codecOutputStride 38 10 ≤ 48 ∧
      repack (List.replicate 144 0) 48 2 38 2 10 [] = none ∧ ¬RepacksExactly 48 2 38 2 := by
  have hread : repack (List.replicate 144 0) 48 2 38 2 10 [] = none := by decide +kernel
  refine ⟨by decide, by decide, by decide, hread, ?_⟩
  intro h
  have hzeros := h.ten (List.replicate 144 0) [] (fun _ _ => 0) (fun _ _ => 0)
    List.length_replicate (fun _ _ _ _ => sampleAt_zeros _ _ _)
      (fun _ _ _ _ => sampleAt_zeros _ _ _)
  rw [hread] at hzeros
  cases hzeros

end Exact

end Rkvdec.Repack
