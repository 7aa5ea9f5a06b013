import Mathlib.Tactic

/-! Numbers as bits, the most significant first, and the Exp-Golomb code of a number. -/
namespace Rkvdec.Lib

/-- The lowest `n` bits of `v`. -/
def bitsOf (n v : Nat) : List Bool := (List.range n).map fun i => v.testBit (n - 1 - i)

/-- The bits read behind those of `acc`. -/
def readBits (acc : Nat) (bits : List Bool) : Nat := bits.foldl (fun v b => 2 * v + b.toNat) acc

/-- As many zeros as there are bits behind the first one of `v + 1`, then `v + 1`. -/
def golomb (v : Nat) : List Bool :=
  List.replicate (v + 1).log2 false ++ bitsOf ((v + 1).log2 + 1) (v + 1)

/-- The signed numbers in the order 0, 1, -1, 2, -2, .. -/
def signedRank (k : Int) : Nat := if 0 < k then 2 * k.toNat - 1 else 2 * (-k).toNat

section Bits

variable {n v : Nat}

@[simp] theorem length_bitsOf (n v : Nat) : (bitsOf n v).length = n := by
  rw [bitsOf, List.length_map, List.length_range]

theorem bitsOf_succ (n v : Nat) : bitsOf (n + 1) v = v.testBit n :: bitsOf n v := by
  unfold bitsOf
  rw [List.range_succ_eq_map, List.map_cons, List.map_map]
  congr 1
  refine List.map_congr_left fun i _ => ?_
  have hpos : n + 1 - 1 - (i + 1) = n - 1 - i := by omega
  rw [Function.comp_apply, hpos]

/-- The bits above the lowest `n` do not show. -/
theorem bitsOf_mod (n v : Nat) : bitsOf n (v % 2 ^ n) = bitsOf n v := by
  unfold bitsOf
  refine List.map_congr_left fun i hi => ?_
  rw [List.mem_range] at hi
  rw [Nat.testBit_mod_two_pow, decide_eq_true (by omega), Bool.true_and]

theorem readBits_bitsOf (acc n v : Nat) : readBits acc (bitsOf n v) = acc * 2 ^ n + v % 2 ^ n := by
  induction n generalizing acc with
  | zero =>
    rw [Nat.pow_zero, Nat.mod_one, Nat.mul_one]
    rfl
  | succ n ih =>
    have hstep : readBits acc (bitsOf (n + 1) v) =
        readBits (2 * acc + (v.testBit n).toNat) (bitsOf n v) := by
      rw [bitsOf_succ]
      rfl
    have hbit : v % 2 ^ (n + 1) = v % 2 ^ n + 2 ^ n * (v.testBit n).toNat := by
      rw [Nat.toNat_testBit]
      exact Nat.mod_pow_succ
    rw [hstep, ih, hbit]
    ring

theorem le_readBits (acc : Nat) (bits : List Bool) : acc ≤ readBits acc bits := by
  induction bits generalizing acc with
  | nil => exact Nat.le_refl acc
  | cons b bits ih =>
    have hrest := ih (2 * acc + b.toNat)
    rw [readBits, List.foldl_cons]
    rw [readBits] at hrest
    omega

/-- A number of at most `n` bits comes back. -/
theorem readBits_of_lt (hv : v < 2 ^ n) : readBits 0 (bitsOf n v) = v := by
  rw [readBits_bitsOf, Nat.zero_mul, Nat.zero_add, Nat.mod_eq_of_lt hv]

/-- The bits read last are the lowest ones. -/
theorem readBits_div (acc : Nat) (bits : List Bool) :
    readBits acc bits / 2 ^ bits.length = acc := by
  induction bits generalizing acc with
  | nil => exact Nat.div_one acc
  | cons b bits ih =>
    have hrest := ih (2 * acc + b.toNat)
    have hstep : readBits acc (b :: bits) = readBits (2 * acc + b.toNat) bits := rfl
    have hbit : b.toNat ≤ 1 := Bool.toNat_le b
    rw [hstep, List.length_cons, Nat.pow_succ, ← Nat.div_div_eq_div_mul, hrest]
    omega

/-- Bits that are read come back. -/
theorem bitsOf_readBits (acc : Nat) (bits : List Bool) :
    bitsOf bits.length (readBits acc bits) = bits := by
  induction bits generalizing acc with
  | nil => rfl
  | cons b bits ih =>
    have hstep : readBits acc (b :: bits) = readBits (2 * acc + b.toNat) bits := rfl
    have hfirst : (readBits (2 * acc + b.toNat) bits).testBit bits.length = b := by
      rw [Nat.testBit_eq_decide_div_mod_eq, readBits_div]
      cases b with
      | false => simp
      | true => simp [Nat.add_mod]
    rw [List.length_cons, bitsOf_succ, hstep, hfirst, ih]

end Bits

section Golomb

variable {v : Nat}

/-- The zeros, the marker and the suffix. -/
theorem golomb_eq (v : Nat) : golomb v =
    List.replicate (v + 1).log2 false ++ true :: bitsOf (v + 1).log2
      (v + 1 - 2 ^ (v + 1).log2) := by
  have hlow : 2 ^ (v + 1).log2 ≤ v + 1 := Nat.log2_self_le (by omega)
  have hhigh : v + 1 < 2 ^ ((v + 1).log2 + 1) := Nat.lt_log2_self
  generalize hk : (v + 1).log2 = k at hlow hhigh
  have hmarker : (v + 1).testBit k = true := by
    rw [Nat.testBit_eq_decide_div_mod_eq, decide_eq_true_iff]
    have hquot : (v + 1) / 2 ^ k = 1 := by
      rw [Nat.div_eq_iff (by positivity)]
      rw [Nat.pow_succ] at hhigh
      omega
    rw [hquot]
  have hsuffix : (v + 1) % 2 ^ k = v + 1 - 2 ^ k := by
    rw [Nat.mod_eq_sub_mod hlow, Nat.mod_eq_of_lt]
    rw [Nat.pow_succ] at hhigh
    omega
  rw [golomb, hk, bitsOf_succ, hmarker, ← hsuffix, bitsOf_mod]

theorem length_golomb (v : Nat) : (golomb v).length = 2 * (v + 1).log2 + 1 := by
  rw [golomb, List.length_append, List.length_replicate, length_bitsOf]
  omega

theorem golomb_ne_nil (v : Nat) : golomb v ≠ [] := by
  intro hnil
  have hlength := length_golomb v
  rw [hnil, List.length_nil] at hlength
  omega

/-- The suffix fits behind its zeros. -/
theorem suffix_lt (v : Nat) : v + 1 - 2 ^ (v + 1).log2 < 2 ^ (v + 1).log2 := by
  have hhigh : v + 1 < 2 ^ ((v + 1).log2 + 1) := Nat.lt_log2_self
  have hpos : 0 < 2 ^ (v + 1).log2 := by positivity
  rw [Nat.pow_succ] at hhigh
  omega

/-- The number again from its zeros and its suffix. -/
theorem zeros_add_suffix (v : Nat) : 2 ^ (v + 1).log2 - 1 + (v + 1 - 2 ^ (v + 1).log2) = v := by
  have hlow : 2 ^ (v + 1).log2 ≤ v + 1 := Nat.log2_self_le (by omega)
  have hpos : 0 < 2 ^ (v + 1).log2 := by positivity
  omega

end Golomb

end Rkvdec.Lib
