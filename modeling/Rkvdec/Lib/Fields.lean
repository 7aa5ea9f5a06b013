import Mathlib.Tactic

/-! Numbers as rows of bit fields, the first one in the low bits, and as bytes. -/
namespace Rkvdec.Lib

variable {d pos n k : Nat}

/-- The field of `n` bits at a position. -/
def field (d pos n : Nat) : Nat := d / 2 ^ pos % 2 ^ n

/-- A field only depends on the bits below its end. -/
theorem field_mod (h : pos + n ≤ k) : field (d % 2 ^ k) pos n = field d pos n := by
  obtain ⟨e, rfl⟩ := Nat.exists_eq_add_of_le h
  unfold field
  rw [Nat.add_assoc, Nat.pow_add, Nat.mod_mul_right_div_self,
    Nat.mod_mod_of_dvd _ (Nat.pow_dvd_pow 2 (Nat.le_add_right n e))]

/-- What is put on top of a number is its field there. -/
theorem field_top (h : d < 2 ^ pos) (v : Nat) : field (d + v * 2 ^ pos) pos n = v % 2 ^ n := by
  unfold field
  rw [Nat.add_mul_div_right _ _ (Nat.two_pow_pos pos), Nat.div_eq_of_lt h, Nat.zero_add]

/-- Fields of these widths that follow each other. -/
def fields (d : Nat) : Nat → List Nat → List Nat
  | _, [] => []
  | pos, n :: ns => field d pos n :: fields d (pos + n) ns

theorem fields_mod {ns : List Nat} (h : pos + ns.sum ≤ k) :
    fields (d % 2 ^ k) pos ns = fields d pos ns := by
  induction ns generalizing pos with
  | nil => rfl
  | cons n ns ih =>
    rw [List.sum_cons] at h
    rw [fields, fields, field_mod (by omega), ih (by omega)]

theorem fields_append (d pos : Nat) (ns ms : List Nat) :
    fields d pos (ns ++ ms) = fields d pos ns ++ fields d (pos + ns.sum) ms := by
  induction ns generalizing pos with
  | nil => rfl
  | cons n ns ih =>
    rw [List.cons_append, fields, ih, fields, List.sum_cons, List.cons_append, Nat.add_assoc]

theorem length_fields (d pos : Nat) (ns : List Nat) : (fields d pos ns).length = ns.length := by
  induction ns generalizing pos with
  | nil => rfl
  | cons n ns ih => rw [fields, List.length_cons, ih, List.length_cons]

/-- The two's complement in `n` bits. -/
def signed (n v : Nat) : Int := if v < 2 ^ (n - 1) then v else v - 2 ^ n

/-- It gives back just the numbers that it has room for. -/
theorem signed_eq_iff (hn : 0 < n) (x : Int) :
    signed n (x % 2 ^ n).toNat = x ↔ -2 ^ (n - 1) ≤ x ∧ x < 2 ^ (n - 1) := by
  obtain ⟨m, rfl⟩ : ∃ m, n = m + 1 := ⟨n - 1, by omega⟩
  have hpow : (2 : Int) ^ (m + 1) = 2 * 2 ^ m := by rw [pow_succ, Int.mul_comm]
  have hpos : (0 : Int) < 2 ^ m := pow_pos (by decide) m
  have hlow := Int.emod_nonneg x (b := 2 ^ (m + 1)) (by omega)
  have hhigh := Int.emod_lt_of_pos x (b := 2 ^ (m + 1)) (by omega)
  have hdiv := Int.emod_add_mul_ediv x (2 ^ (m + 1))
  have hcast : (((2 : Nat) ^ m : Nat) : Int) = 2 ^ m := by push_cast; rfl
  unfold signed
  rw [Nat.add_sub_cancel]
  generalize hr : x % 2 ^ (m + 1) = r at hlow hhigh hdiv
  generalize hq : x / 2 ^ (m + 1) = q at hdiv
  rw [hpow] at hhigh hdiv ⊢
  generalize hp : (2 : Int) ^ m = p at *
  have htoNat : (r.toNat : Int) = r := Int.toNat_of_nonneg hlow
  have hcond : r.toNat < 2 ^ m ↔ r < p := by omega
  rw [if_congr hcond rfl rfl, htoNat]
  split
  · constructor
    · intro hx
      omega
    · rintro ⟨h1, h2⟩
      have hzero : q = 0 := by nlinarith
      rw [hzero] at hdiv
      omega
  · constructor
    · intro hx
      omega
    · rintro ⟨h1, h2⟩
      have hone : q = -1 := by nlinarith
      rw [hone] at hdiv
      omega

/-- A number from its bytes. -/
def ofBytes (bytes : List (BitVec 8)) : Nat := bytes.foldr (fun b n => b.toNat + 2 ^ 8 * n) 0

theorem testBit_ofBytes (bytes : List (BitVec 8)) (i : Nat) :
    (ofBytes bytes).testBit i = (bytes.getD (i / 8) 0).getLsbD (i % 8) := by
  induction bytes generalizing i with
  | nil =>
    change (0 : Nat).testBit i = (0 : BitVec 8).getLsbD (i % 8)
    rw [Nat.zero_testBit]
    exact BitVec.getLsbD_zero.symm
  | cons b bytes ih =>
    have hsplit : ofBytes (b :: bytes) = 2 ^ 8 * ofBytes bytes + b.toNat := Nat.add_comm _ _
    rw [hsplit, Nat.testBit_two_pow_mul_add _ b.isLt]
    by_cases hi : i < 8
    · rw [if_pos hi, Nat.div_eq_of_lt hi, Nat.mod_eq_of_lt hi]
      rfl
    · have hdiv : i / 8 = (i - 8) / 8 + 1 := by omega
      have hmod : i % 8 = (i - 8) % 8 := by omega
      rw [if_neg hi, ih, hdiv, hmod]
      rfl

theorem ofBytes_bytes (d n : Nat) :
    ofBytes ((List.range n).map fun i => BitVec.ofNat 8 (d / 2 ^ (8 * i))) = d % 2 ^ (8 * n) := by
  induction n generalizing d with
  | zero => exact (Nat.mod_one d).symm
  | succ n ih =>
    have hrest : (List.range n).map ((fun i => BitVec.ofNat 8 (d / 2 ^ (8 * i))) ∘ Nat.succ) =
        (List.range n).map fun i => BitVec.ofNat 8 (d / 2 ^ 8 / 2 ^ (8 * i)) := by
      apply List.map_congr_left
      intro i _
      rw [Function.comp_apply, Nat.div_div_eq_div_mul, ← Nat.pow_add, Nat.mul_succ, Nat.add_comm]
    have hpow : 2 ^ (8 * (n + 1)) = 2 ^ 8 * 2 ^ (8 * n) := by
      rw [← Nat.pow_add, Nat.mul_succ, Nat.add_comm]
    have hfirst : (BitVec.ofNat 8 (d / 2 ^ (8 * 0))).toNat = d % 2 ^ 8 := by
      rw [BitVec.toNat_ofNat, Nat.mul_zero, Nat.pow_zero, Nat.div_one]
    rw [List.range_succ_eq_map, List.map_cons, List.map_map, hrest]
    change (BitVec.ofNat 8 (d / 2 ^ (8 * 0))).toNat + 2 ^ 8 * ofBytes _ = _
    rw [ih, hfirst, hpow, Nat.mod_mul]

end Rkvdec.Lib
