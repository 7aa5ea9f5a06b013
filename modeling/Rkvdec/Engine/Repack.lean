import Mathlib.Tactic
import Rkvdec.Lib.Region

/-! The resolution gate of the register builders, and which bytes `RepackCodecOutputToNV12orP010`
reads and makes. -/
namespace Rkvdec.Repack

/-- `RkmppValidateResolution`. -/
def validateResolution (w h : Nat) : Bool :=
  decide (w ≠ 0 ∧ h ≠ 0 ∧ w ≤ 8192 ∧ h ≤ 8192 ∧ w % 2 = 0 ∧ h % 2 = 0)

/-- How much of a row is read. Ten bits come in groups of four samples in five bytes, and what is
left over reads four bytes. -/
def rowBytes (width bitDepth : Nat) : Nat :=
  if bitDepth = 8 then width else 5 * (width / 4) + if width % 4 = 0 then 0 else 4

/-- The rows that are read, luma before chroma. -/
def rows (stride heightPad width height bitDepth : Nat) : List Region :=
  ((List.range height).map fun r => ⟨r * stride % 2 ^ 32, rowBytes width bitDepth⟩) ++
    (List.range (height / 2)).map fun r =>
      ⟨stride * heightPad + r * stride % 2 ^ 32, rowBytes width bitDepth⟩

/-- The size of the result. -/
def yuvBytes (width height bitDepth : Nat) : Nat :=
  let rowLen := if bitDepth = 8 then width else width * 2 % 2 ^ 32
  (rowLen * height % 2 ^ 32 + rowLen * (height / 2) % 2 ^ 32) % 2 ^ 32

/-- One past the last byte that is read, in a frame with chroma rows. -/
def readEnd (stride heightPad width height bitDepth : Nat) : Nat :=
  stride * heightPad + (height / 2 - 1) * stride + rowBytes width bitDepth

variable {stride heightPad width height bitDepth size : Nat}

/-- All rows end by the end of the last one. -/
theorem rows_inside_iff (hrows : 2 ≤ height) (hpad : height ≤ heightPad)
    (hwrap : height * stride < 2 ^ 32) :
    (∀ row ∈ rows stride heightPad width height bitDepth, row.stop ≤ size) ↔
      readEnd stride heightPad width height bitDepth ≤ size := by
  have hmod : ∀ r, r ≤ height → r * stride % 2 ^ 32 = r * stride := by
    intro r hr
    exact Nat.mod_eq_of_lt (Nat.lt_of_le_of_lt (Nat.mul_le_mul_right _ hr) hwrap)
  have hplane : height * stride ≤ stride * heightPad := by
    rw [Nat.mul_comm]
    exact Nat.mul_le_mul_left _ hpad
  constructor
  · intro h
    have hlast :=
      h ⟨stride * heightPad + (height / 2 - 1) * stride % 2 ^ 32, rowBytes width bitDepth⟩
      (List.mem_append_right _ (List.mem_map_of_mem (List.mem_range.mpr (by omega))))
    rw [hmod _ (by omega)] at hlast
    exact hlast
  · intro hend row hrow
    unfold readEnd at hend
    rcases List.mem_append.mp hrow with hrow | hrow
    · obtain ⟨r, hr, rfl⟩ := List.mem_map.mp hrow
      have hr := List.mem_range.mp hr
      have hle : r * stride ≤ height * stride := Nat.mul_le_mul_right _ (by omega)
      simp only [Region.stop, hmod r (by omega)]
      omega
    · obtain ⟨r, hr, rfl⟩ := List.mem_map.mp hrow
      have hr := List.mem_range.mp hr
      have hle : r * stride ≤ (height / 2 - 1) * stride := Nat.mul_le_mul_right _ (by omega)
      simp only [Region.stop, hmod r (by omega)]
      omega

end Rkvdec.Repack
