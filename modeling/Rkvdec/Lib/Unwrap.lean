import Mathlib.Data.Int.ModEq
import Mathlib.Tactic

/-! Numbers of which only the remainder is sent: recovered from the one before, when they are within
half a period of it on either side, or less than a period ahead. -/
namespace Rkvdec.Lib

variable {M a x r : Int}

/-- `x` is within half a period of `a`, the upper end included. -/
def Near (M a x : Int) : Prop := -M < 2 * (x - a) ∧ 2 * (x - a) ≤ M

instance : Decidable (Near M a x) := inferInstanceAs (Decidable (_ ∧ _))

/-- `x` is not behind `a`, and less than a period ahead. -/
def AheadOf (M a x : Int) : Prop := a ≤ x ∧ x < a + M

instance : Decidable (AheadOf M a x) := inferInstanceAs (Decidable (_ ∧ _))

theorem near_self (hM : 0 < M) : Near M a a := by
  unfold Near
  omega

theorem aheadOf_self (hM : 0 < M) : AheadOf M a a := by
  unfold AheadOf
  omega

/-- The part above the remainder: from the two parts of the number before and the remainder `r`. -/
def nextMsb (M msb lsb r : Int) : Int :=
  if r < lsb ∧ M ≤ 2 * (lsb - r) then msb + M
  else if lsb < r ∧ M < 2 * (r - lsb) then msb - M
  else msb

/-- The same for numbers that do not decrease. -/
def nextOffset (M offset last r : Int) : Int := if r < last then offset + M else offset

theorem dvd_nextMsb {msb lsb : Int} (h : M ∣ msb) : M ∣ nextMsb M msb lsb r := by
  unfold nextMsb
  split_ifs
  · exact dvd_add h dvd_rfl
  · exact dvd_sub h dvd_rfl
  · exact h

theorem dvd_nextOffset {offset last : Int} (h : M ∣ offset) : M ∣ nextOffset M offset last r := by
  unfold nextOffset
  split_ifs
  · exact dvd_add h dvd_rfl
  · exact h

/-- The parts above the remainders differ by a number of periods. -/
theorem sub_emod_sub (M a x : Int) : ∃ q, x - x % M = a - a % M + M * q := by
  refine ⟨x / M - a / M, ?_⟩
  have hx := Int.emod_add_mul_ediv x M
  have ha := Int.emod_add_mul_ediv a M
  rw [mul_sub]
  omega

/-- A number and its remainder, when the part above it is given. -/
theorem split_of_dvd {m : Int} (hdvd : M ∣ m) (hr : 0 ≤ r) (hlt : r < M) :
    (m + r) % M = r ∧ m + r - (m + r) % M = m := by
  have hmod : (m + r) % M = r := by
    rw [Int.add_emod, Int.emod_eq_zero_of_dvd hdvd, zero_add, Int.emod_emod_of_dvd _ dvd_rfl,
      Int.emod_eq_of_lt hr hlt]
  exact ⟨hmod, by rw [hmod, add_sub_cancel_right]⟩

/-- Exactly the numbers within half a period are recovered. -/
theorem nextMsb_iff (hM : 0 < M) :
    nextMsb M (a - a % M) (a % M) (x % M) = x - x % M ↔ Near M a x := by
  obtain ⟨q, hq⟩ := sub_emod_sub M a x
  have hx := Int.emod_nonneg x hM.ne'
  have hx' := Int.emod_lt_of_pos x hM
  have ha := Int.emod_nonneg a hM.ne'
  have ha' := Int.emod_lt_of_pos a hM
  unfold nextMsb Near
  rcases lt_trichotomy q 0 with hneg | rfl | hpos
  · rcases (show q ≤ -1 by omega).lt_or_eq with hfar | rfl
    · have hle : M * q ≤ M * (-2) := mul_le_mul_of_nonneg_left (by omega) hM.le
      split_ifs <;> omega
    · split_ifs <;> omega
  · split_ifs <;> omega
  · rcases (show 1 ≤ q by omega).lt_or_eq with hfar | rfl
    · have hle : M * 2 ≤ M * q := mul_le_mul_of_nonneg_left (by omega) hM.le
      split_ifs <;> omega
    · split_ifs <;> omega

theorem nextOffset_iff (hM : 0 < M) :
    nextOffset M (a - a % M) (a % M) (x % M) = x - x % M ↔ AheadOf M a x := by
  obtain ⟨q, hq⟩ := sub_emod_sub M a x
  have hx := Int.emod_nonneg x hM.ne'
  have hx' := Int.emod_lt_of_pos x hM
  have ha := Int.emod_nonneg a hM.ne'
  have ha' := Int.emod_lt_of_pos a hM
  unfold nextOffset AheadOf
  rcases lt_trichotomy q 0 with hneg | rfl | hpos
  · have hle : M * q ≤ M * (-1) := mul_le_mul_of_nonneg_left (by omega) hM.le
    split_ifs <;> omega
  · split_ifs <;> omega
  · rcases (show 1 ≤ q by omega).lt_or_eq with hfar | rfl
    · have hle : M * 2 ≤ M * q := mul_le_mul_of_nonneg_left (by omega) hM.le
      split_ifs <;> omega
    · split_ifs <;> omega

end Rkvdec.Lib
