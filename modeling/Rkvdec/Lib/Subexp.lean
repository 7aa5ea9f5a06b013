import Rkvdec.Lib.Golomb

/-! Truncated binary codes, subexponential codes, and numbers counted by their distance from a
reference. -/
namespace Rkvdec.Lib

section Truncated

variable {n v : Nat}

/-- How many of `n` numbers have a short code. -/
def shortCodes (n : Nat) : Nat := 2 ^ (n.log2 + 1) - n

/-- The code of `v` among `n` numbers, in `n.log2` bits or in one more. -/
def truncated (n v : Nat) : List Bool :=
  if v < shortCodes n then bitsOf n.log2 v
  else bitsOf n.log2 ((v + shortCodes n) / 2) ++ [(v + shortCodes n).testBit 0]

theorem pow_log2_le (hn : 0 < n) : 2 ^ n.log2 ≤ n := Nat.log2_self_le (by omega)

theorem lt_pow_log2 (n : Nat) : n < 2 * 2 ^ n.log2 := by
  have hlt := Nat.lt_log2_self (n := n)
  rwa [Nat.pow_succ, Nat.mul_comm] at hlt

theorem shortCodes_add (hn : 0 < n) : shortCodes n + n = 2 * 2 ^ n.log2 := by
  have hlow := pow_log2_le hn
  have hhigh := lt_pow_log2 n
  rw [shortCodes, Nat.pow_succ, Nat.mul_comm]
  omega

/-- A short code fits its bits. -/
theorem short_lt (hn : 0 < n) (hshort : v < shortCodes n) : v < 2 ^ n.log2 := by
  have hsum := shortCodes_add hn
  have hlow := pow_log2_le hn
  omega

/-- The first bits of a long code fit, and are not a short code. -/
theorem long_code (hn : 0 < n) (hv : v < n) (hlong : ¬v < shortCodes n) :
    (v + shortCodes n) / 2 < 2 ^ n.log2 ∧ ¬(v + shortCodes n) / 2 < shortCodes n := by
  have hsum := shortCodes_add hn
  omega

theorem long_value (v m : Nat) : 2 * ((v + m) / 2) + ((v + m).testBit 0).toNat = v + m := by
  rw [Nat.testBit_zero]
  by_cases hodd : (v + m) % 2 = 1
  · rw [decide_eq_true hodd, Bool.toNat_true]
    omega
  · rw [decide_eq_false hodd, Bool.toNat_false]
    omega

end Truncated

section Recentred

variable {n r v : Nat}

/-- The numbers in the order `r`, `r - 1`, `r + 1`, `r - 2`, .. while both sides last. -/
def recenter (r v : Nat) : Nat :=
  if 2 * r < v then v else if r ≤ v then 2 * (v - r) else 2 * (r - v) - 1

def unrecenter (r d : Nat) : Nat :=
  if 2 * r < d then d else if d % 2 = 1 then r - (d + 1) / 2 else r + d / 2

theorem unrecenter_recenter (r v : Nat) : unrecenter r (recenter r v) = v := by
  unfold unrecenter recenter
  split_ifs <;> omega

theorem recenter_lt (hr : 2 * r ≤ n) (hv : v < n) : recenter r v < n := by
  unfold recenter
  split_ifs <;> omega

/-- Among `numSyms` numbers, from the end that is closer to the reference. -/
def recenterWithin (numSyms r v : Nat) : Nat :=
  if 2 * r ≤ numSyms then recenter r v else recenter (numSyms - 1 - r) (numSyms - 1 - v)

theorem recenterWithin_lt (hv : v < n) : recenterWithin n r v < n := by
  unfold recenterWithin
  split
  · exact recenter_lt ‹_› hv
  · exact recenter_lt (by omega) (by omega)

end Recentred

section Subexp

/-- The bits of interval `i`: the first two intervals have `2 ^ k` numbers, each further one twice
as many. -/
def subexpBits (k i : Nat) : Nat := if i = 0 then k else k + i - 1

/-- The code of `v` from interval `i` on, which starts at `mk`; the last numbers share a truncated
binary code. -/
def subexp (numSyms k i mk v : Nat) : List Bool :=
  if numSyms ≤ mk + 3 * 2 ^ subexpBits k i then truncated (numSyms - mk) (v - mk)
  else if v < mk + 2 ^ subexpBits k i then [false] ++ bitsOf (subexpBits k i) (v - mk)
  else [true] ++ subexp numSyms k (i + 1) (mk + 2 ^ subexpBits k i) v
termination_by numSyms - mk
decreasing_by
  have hpos := Nat.two_pow_pos (subexpBits k i)
  omega

end Subexp

end Rkvdec.Lib
