import Mathlib.Data.BitVec
import Mathlib.Logic.Function.Basic
import Mathlib.Tactic

/-! Bitmaps stored as an array of 64-bit words, read and written one bit at a time. -/

/-- A bitmap: word `w` holds the bits `64 * w` to `64 * w + 63`. -/
@[ext] structure Bitmap where
  word : Nat → BitVec 64

namespace Bitmap

variable {bm bm' : Bitmap} {i j n base : Nat}

def zero : Bitmap := ⟨fun _ => 0⟩

/-- Bit `i` is bit `i % 64` of word `i / 64`. -/
def test (bm : Bitmap) (i : Nat) : Bool :=
  (bm.word (i / 64)).getLsbD (i % 64)

def set (bm : Bitmap) (i : Nat) : Bitmap :=
  ⟨Function.update bm.word (i / 64) (bm.word (i / 64) ||| (1#64 <<< (i % 64)))⟩

def clear (bm : Bitmap) (i : Nat) : Bitmap :=
  ⟨Function.update bm.word (i / 64) (bm.word (i / 64) &&& ~~~(1#64 <<< (i % 64)))⟩

/-- Set `n` consecutive bits, lowest first. -/
def setRange (bm : Bitmap) (base : Nat) : Nat → Bitmap
  | 0 => bm
  | n + 1 => (setRange bm base n).set (base + n)

/-- Clear `n` consecutive bits, lowest first. -/
def clearRange (bm : Bitmap) (base : Nat) : Nat → Bitmap
  | 0 => bm
  | n + 1 => (clearRange bm base n).clear (base + n)

@[simp] theorem test_zero : zero.test i = false := by
  simp [test, zero]

/-- Only bit `b` of `1 <<< b` is set, as long as `b` is inside the word. -/
theorem getLsbD_one_shiftLeft {a b : Nat} (hb : b < 64) :
    (1#64 <<< b).getLsbD a = decide (a = b) := by
  have hone : ∀ k, (1#64).getLsbD k = decide (k = 0) := by
    intro k
    simp
  rw [BitVec.getLsbD_shiftLeft, hone]
  by_cases h : a = b
  · subst h
    simp [hb]
  · by_cases hab : a < b
    · simp [h, hab]
    · have : ¬ a - b = 0 := by omega
      simp [h, this]

@[simp] theorem test_set : (bm.set i).test j = (decide (j = i) || bm.test j) := by
  have hi := getLsbD_one_shiftLeft (a := j % 64) (Nat.mod_lt i (by decide : 0 < 64))
  by_cases hw : j / 64 = i / 64
  · have hiff : j = i ↔ j % 64 = i % 64 := by omega
    simp only [test, set, hw, Function.update_self, BitVec.getLsbD_or, hi, hiff]
    exact Bool.or_comm _ _
  · have hne : j ≠ i := fun h => hw (by rw [h])
    simp [test, set, Function.update_of_ne hw, hne]

@[simp] theorem test_clear : (bm.clear i).test j = (!decide (j = i) && bm.test j) := by
  have hi := getLsbD_one_shiftLeft (a := j % 64) (Nat.mod_lt i (by decide : 0 < 64))
  have hj : j % 64 < 64 := Nat.mod_lt j (by decide)
  by_cases hw : j / 64 = i / 64
  · have hiff : j = i ↔ j % 64 = i % 64 := by omega
    simp only [test, clear, hw, Function.update_self, BitVec.getLsbD_and, BitVec.getLsbD_not,
      hi, hiff, hj, decide_true, Bool.true_and]
    exact Bool.and_comm _ _
  · have hne : j ≠ i := fun h => hw (by rw [h])
    simp [test, clear, Function.update_of_ne hw, hne]

theorem test_setRange : (bm.setRange base n).test j =
    (decide (base ≤ j ∧ j < base + n) || bm.test j) := by
  induction n with
  | zero =>
    have hno : ¬ (base ≤ j ∧ j < base + 0) := by omega
    rw [decide_eq_false hno, setRange, Bool.false_or]
  | succ n ih =>
    have hiff : (base ≤ j ∧ j < base + (n + 1)) ↔ j = base + n ∨ (base ≤ j ∧ j < base + n) := by
      omega
    rw [setRange, test_set, ih, ← Bool.or_assoc, decide_eq_decide.mpr hiff, Bool.decide_or]

theorem test_clearRange : (bm.clearRange base n).test j =
    (!decide (base ≤ j ∧ j < base + n) && bm.test j) := by
  induction n with
  | zero =>
    have hno : ¬ (base ≤ j ∧ j < base + 0) := by omega
    rw [decide_eq_false hno, clearRange, Bool.not_false, Bool.true_and]
  | succ n ih =>
    have hiff : (base ≤ j ∧ j < base + (n + 1)) ↔ j = base + n ∨ (base ≤ j ∧ j < base + n) := by
      omega
    rw [clearRange, test_clear, ih, ← Bool.and_assoc, decide_eq_decide.mpr hiff, Bool.decide_or,
      Bool.not_or]

/-- Two bitmaps with the same bits are the same words. -/
theorem ext_test (h : ∀ i, bm.test i = bm'.test i) : bm = bm' := by
  ext1
  funext w
  apply BitVec.eq_of_getLsbD_eq
  intro b hb
  have hw := h (64 * w + b)
  have hdiv : (64 * w + b) / 64 = w := by omega
  have hmod : (64 * w + b) % 64 = b := by omega
  simpa [test, hdiv, hmod] using hw

/-- The bits set in `bm` are exactly those `P` names. -/
def Marks (bm : Bitmap) (P : Nat → Prop) : Prop :=
  ∀ i, bm.test i = true ↔ P i

/-- Setting a clear range and clearing it again gives the same words back. -/
theorem clearRange_setRange (h : ∀ k, base ≤ k → k < base + n → bm.test k = false) :
    (bm.setRange base n).clearRange base n = bm := by
  apply ext_test
  intro k
  rw [test_clearRange, test_setRange]
  by_cases hk : base ≤ k ∧ k < base + n
  · simp [hk, h k hk.1 hk.2]
  · simp [hk]

theorem clear_set (h : bm.test i = false) : (bm.set i).clear i = bm := by
  apply ext_test
  intro k
  rw [test_clear, test_set]
  by_cases hk : k = i
  · subst hk
    simp [h]
  · simp [hk]

end Bitmap
