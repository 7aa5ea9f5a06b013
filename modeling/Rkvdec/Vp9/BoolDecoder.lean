import Mathlib.Tactic
import Rkvdec.Bitstream.BitReader

/-! The boolean decoder of the VP9 compressed header. It loads its bits by sixteens and brings its
range up only when it needs to; bit by bit it is the decoder of the standard, and it undoes the
encoder. -/
namespace Rkvdec.Vp9.Boolean

open Bitstream

section Model

/-- `kNormShift`: how far a range is from 128. -/
def kNormShift : List Nat :=
  [0, 7] ++ List.replicate 2 6 ++ List.replicate 4 5 ++ List.replicate 8 4 ++ List.replicate 16 3 ++
    List.replicate 32 2 ++ List.replicate 64 1 ++ List.replicate 128 0

def byteAt (buf : List Byte) (i : Nat) : Nat := (buf.getD i 0).toNat

/-- `rb24` -/
def rb24 (buf : List Byte) (pos avail : Nat) : Nat :=
  (if 1 ≤ avail then byteAt buf pos * 2 ^ 16 else 0) +
    (if 2 ≤ avail then byteAt buf (pos + 1) * 2 ^ 8 else 0) +
    if 3 ≤ avail then byteAt buf (pos + 2) else 0

/-- `rb16` -/
def rb16 (buf : List Byte) (pos avail : Nat) : Nat :=
  (if 1 ≤ avail then byteAt buf pos * 2 ^ 8 else 0) + if 2 ≤ avail then byteAt buf (pos + 1) else 0

structure BoolDecoder where
  buf : List Byte
  pos : Nat
  value : Nat
  range : Nat
  bitsLeft : Int
  error : Bool

/-- The refill of `decode_bool`: the position, the value and the bits that are left. -/
def refill (buf : List Byte) (pos value : Nat) (bitsLeft : Int) : Nat × Nat × Int :=
  if 0 ≤ bitsLeft ∧ pos < buf.length then
    let avail := buf.length - pos
    (pos + (if 2 ≤ avail then 2 else avail),
      value ||| rb16 buf pos avail * 2 ^ bitsLeft.toNat % 2 ^ 32, bitsLeft - 16)
  else (pos, value, bitsLeft)

def decodeBool (d : BoolDecoder) (prob : Nat) : Nat × BoolDecoder :=
  if d.error then (0, d)
  else
    let shift := kNormShift.getD (d.range % 2 ^ 8) 0
    let range := d.range * 2 ^ shift % 2 ^ 32
    let loaded := refill d.buf d.pos (d.value * 2 ^ shift % 2 ^ 32) (d.bitsLeft + shift)
    let split := 1 + (range - 1) * prob / 2 ^ 8
    let lowShift := split * 2 ^ 16
    if lowShift ≤ loaded.2.1 then
      (1, { d with
        pos := loaded.1, value := loaded.2.1 - lowShift, range := range - split,
        bitsLeft := loaded.2.2 })
    else (0, { d with pos := loaded.1, value := loaded.2.1, range := split,
                      bitsLeft := loaded.2.2 })

/-- `BoolDecoder::init`, up to the marker bit. -/
def boolStart (buf : List Byte) : BoolDecoder :=
  if buf.length < 3 then
    { buf := buf
      pos := buf.length
      value := (if 1 ≤ buf.length then byteAt buf 0 * 2 ^ 16 else 0) +
        if 2 ≤ buf.length then byteAt buf 1 * 2 ^ 8 else 0
      range := 255
      bitsLeft := -16
      error := true }
  else
    { buf := buf, pos := 3, value := rb24 buf 0 buf.length, range := 255, bitsLeft := -16,
      error := false }

/-- `BoolDecoder::init`, which takes the marker bit off. -/
def boolInit (buf : List Byte) : BoolDecoder :=
  let first := decodeBool (boolStart buf) 128
  if first.1 ≠ 0 then { first.2 with error := true } else first.2

/-- Booleans one after the other, each with its probability. -/
def decodeBools (d : BoolDecoder) : List Nat → List Nat
  | [] => []
  | prob :: probs =>
    let next := decodeBool d prob
    next.1 :: decodeBools next.2 probs

end Model

section Standard

/-- Bit `i` of a buffer, the high bit of a byte first. Behind the buffer come zeros. -/
def bitAt (buf : List Byte) (i : Nat) : Nat := byteAt buf (i / 8) / 2 ^ (7 - i % 8) % 2

/-- The decoder of the standard: its value, its range and the position of the next bit. -/
structure StandardDecoder where
  value : Nat
  range : Nat
  pos : Nat

/-- A range below 128 is doubled until it is 128 at least. -/
def renormalise {σ : Type} (range : σ → Nat) (double : σ → σ) : Nat → σ → σ
  | 0, s => s
  | turns + 1, s => if range s < 128 then renormalise range double turns (double s) else s

/-- With the range the value is doubled, and a bit taken in. -/
def StandardDecoder.double (bit : Nat → Nat) (s : StandardDecoder) : StandardDecoder :=
  { value := 2 * s.value + bit s.pos, range := 2 * s.range, pos := s.pos + 1 }

/-- The range is 1 at least, so it is doubled seven times at most. -/
def StandardDecoder.renorm (bit : Nat → Nat) (s : StandardDecoder) : StandardDecoder :=
  renormalise StandardDecoder.range (StandardDecoder.double bit) 7 s

/-- A boolean decides which part of the range is kept. -/
def StandardDecoder.choose (s : StandardDecoder) (prob : Nat) : Nat × StandardDecoder :=
  let split := 1 + (s.range - 1) * prob / 2 ^ 8
  if s.value < split then (0, { s with range := split })
  else (1, { s with value := s.value - split, range := s.range - split })

/-- `read_bool` -/
def StandardDecoder.readBool (bit : Nat → Nat) (s : StandardDecoder) (prob : Nat) :
    Nat × StandardDecoder :=
  ((s.choose prob).1, (s.choose prob).2.renorm bit)

/-- `init_bool`, up to the marker bit. -/
def standardStart (buf : List Byte) : StandardDecoder :=
  { value := byteAt buf 0, range := 255, pos := 8 }

def standardInit (buf : List Byte) : StandardDecoder :=
  ((standardStart buf).readBool (bitAt buf) 128).2

def readBools (bit : Nat → Nat) (s : StandardDecoder) : List Nat → List Nat
  | [] => []
  | prob :: probs => (s.readBool bit prob).1 :: readBools bit (s.readBool bit prob).2 probs

end Standard

section Bits

variable {bit bit' : Nat → Nat} {n m k : Nat}

/-- The number that `m` bits from position `n` on are. -/
def bitsFrom (bit : Nat → Nat) : Nat → Nat → Nat
  | _, 0 => 0
  | n, m + 1 => bit n * 2 ^ m + bitsFrom bit (n + 1) m

theorem bitsFrom_add (bit : Nat → Nat) (n m k : Nat) :
    bitsFrom bit n (m + k) = bitsFrom bit n m * 2 ^ k + bitsFrom bit (n + m) k := by
  induction m generalizing n with
  | zero => simp [bitsFrom]
  | succ m ih =>
    have hshift : n + 1 + m = n + (m + 1) := by omega
    rw [Nat.succ_add, bitsFrom, bitsFrom, ih, hshift, pow_add]
    ring

theorem bitsFrom_lt (h : ∀ i, bit i < 2) (n m : Nat) : bitsFrom bit n m < 2 ^ m := by
  induction m generalizing n with
  | zero => simp [bitsFrom]
  | succ m ih =>
    have hhead := h n
    have htail := ih (n + 1)
    rw [bitsFrom, pow_succ]
    nlinarith

theorem bitsFrom_congr (h : ∀ i, n ≤ i → i < n + m → bit i = bit' i) :
    bitsFrom bit n m = bitsFrom bit' n m := by
  induction m generalizing n with
  | zero => rfl
  | succ m ih =>
    rw [bitsFrom, bitsFrom, h n le_rfl (by omega), ih fun i hlo hhi => h i (by omega) (by omega)]

theorem bitsFrom_zero (h : ∀ i, n ≤ i → i < n + m → bit i = 0) : bitsFrom bit n m = 0 := by
  induction m generalizing n with
  | zero => rfl
  | succ m ih =>
    rw [bitsFrom, h n le_rfl (by omega), ih fun i hlo hhi => h i (by omega) (by omega)]
    simp

end Bits

section Window

variable {buf : List Byte} {pos n i s v r turns : Nat} {bitsLeft : Int}

/-- The table brings a range up to 128 at least, and no further than needed. -/
theorem kNormShift_spec (hlow : 1 ≤ r) (hhigh : r ≤ 255) :
    kNormShift.getD r 0 ≤ 7 ∧ 128 ≤ r * 2 ^ kNormShift.getD r 0 ∧
    r * 2 ^ kNormShift.getD r 0 ≤ 255 := by
  have htable : ∀ p ∈ kNormShift.zipIdx, 1 ≤ p.2 →
      p.1 ≤ 7 ∧ 128 ≤ p.2 * 2 ^ p.1 ∧ p.2 * 2 ^ p.1 ≤ 255 := by
    decide +kernel
  have hlen : kNormShift.length = 256 := by decide +kernel
  have hentry : kNormShift[r]? = some (kNormShift.getD r 0) := by
    rw [List.getD_eq_getElem?_getD, List.getElem?_eq_getElem (by omega), Option.getD_some]
  exact htable (kNormShift.getD r 0, r) (List.mem_zipIdx_iff_getElem?.mpr hentry) hlow

/-- The doublings at once. -/
theorem renorm_eq (bit : Nat → Nat) (hturns : s ≤ turns) (hfull : 128 ≤ r * 2 ^ s)
    (hrange : r * 2 ^ s ≤ 255) :
    renormalise StandardDecoder.range (StandardDecoder.double bit) turns ⟨v, r, n⟩ =
      ⟨v * 2 ^ s + bitsFrom bit n s, r * 2 ^ s, n + s⟩ := by
  induction s generalizing turns v r n with
  | zero =>
    rw [pow_zero, Nat.mul_one] at hfull
    rw [pow_zero, Nat.mul_one, Nat.mul_one, bitsFrom]
    cases turns with
    | zero => rfl
    | succ turns => exact if_neg (by dsimp only; omega)
  | succ s ih =>
    obtain ⟨turns, rfl⟩ : ∃ m, turns = m + 1 := ⟨turns - 1, by omega⟩
    have hdouble : 2 * r * 2 ^ s = r * 2 ^ (s + 1) := by ring
    have hsmall : r < 128 := by
      have : 2 * r * 1 ≤ 2 * r * 2 ^ s := Nat.mul_le_mul_left _ Nat.one_le_two_pow
      omega
    have hshift : n + 1 + s = n + (s + 1) := by omega
    have hvalue : (2 * v + bit n) * 2 ^ s + bitsFrom bit (n + 1) s =
        v * 2 ^ (s + 1) + bitsFrom bit n (s + 1) := by
      rw [bitsFrom]
      ring
    rw [renormalise, if_pos hsmall, StandardDecoder.double,
      ih (by omega) (by rwa [hdouble]) (by rwa [hdouble]), hdouble, hshift, hvalue]

theorem byteAt_lt (buf : List Byte) (i : Nat) : byteAt buf i < 2 ^ 8 := (buf.getD i 0).isLt

theorem byteAt_of_le (h : buf.length ≤ i) : byteAt buf i = 0 := by
  rw [byteAt, List.getD_eq_getElem?_getD, List.getElem?_eq_none h]
  rfl

theorem bitAt_lt (buf : List Byte) (i : Nat) : bitAt buf i < 2 := Nat.mod_lt _ (by decide)

theorem bitAt_of_le (h : 8 * buf.length ≤ i) : bitAt buf i = 0 := by
  rw [bitAt, byteAt_of_le (by omega), Nat.zero_div]

/-- The bits of a number, the high one first. -/
theorem bitsFrom_digits {bit : Nat → Nat} {x m : Nat}
    (h : ∀ j < m, bit (n + j) = x / 2 ^ (m - 1 - j) % 2) :
    bitsFrom bit n m = x % 2 ^ m := by
  induction m generalizing n with
  | zero => rw [bitsFrom, pow_zero, Nat.mod_one]
  | succ m ih =>
    have hhead : bit n = x / 2 ^ m % 2 := h 0 (Nat.succ_pos m)
    have htail : bitsFrom bit (n + 1) m = x % 2 ^ m := by
      refine ih fun j hj => ?_
      have hplace : n + 1 + j = n + (j + 1) := by omega
      have hshift : m + 1 - 1 - (j + 1) = m - 1 - j := by omega
      rw [hplace, h (j + 1) (by omega), hshift]
    rw [bitsFrom, hhead, htail, Nat.mod_pow_succ]
    ring

/-- Eight bits are a byte. -/
theorem bitsFrom_byte (buf : List Byte) (i : Nat) :
    bitsFrom (bitAt buf) (8 * i) 8 = byteAt buf i := by
  rw [bitsFrom_digits fun j hj => ?_, Nat.mod_eq_of_lt (byteAt_lt buf i)]
  have hbyte : (8 * i + j) / 8 = i := by omega
  have hplace : (8 * i + j) % 8 = j := by omega
  rw [bitAt, hbyte, hplace]

/-- The bits that are loaded when the position is `pos`. -/
def loaded (buf : List Byte) (pos i : Nat) : Nat := if i < 8 * pos then bitAt buf i else 0

theorem loaded_lt (buf : List Byte) (pos i : Nat) : loaded buf pos i < 2 := by
  unfold loaded
  split
  · exact bitAt_lt buf i
  · decide

/-- At the end of the buffer the zeros behind it are loaded as well. -/
theorem loaded_end (h : buf.length ≤ pos) (i : Nat) : loaded buf pos i = bitAt buf i := by
  unfold loaded
  split
  · rfl
  · exact (bitAt_of_le (by omega)).symm

theorem bitsFrom_loaded (h : 8 * pos ≤ n) (m : Nat) : bitsFrom (loaded buf pos) n m = 0 :=
  bitsFrom_zero fun _ hlow _ => if_neg (by omega)

/-- What a refill loads are the next sixteen bits. -/
theorem rb16_eq (hpos : pos < buf.length) :
    rb16 buf pos (buf.length - pos) = bitsFrom (bitAt buf) (8 * pos) 16 := by
  have hsplit : bitsFrom (bitAt buf) (8 * pos) (8 + 8) =
      byteAt buf pos * 2 ^ 8 + byteAt buf (pos + 1) := by
    rw [bitsFrom_add, bitsFrom_byte, ← Nat.mul_succ, bitsFrom_byte]
  have hlast : (if 2 ≤ buf.length - pos then byteAt buf (pos + 1) else 0) =
      byteAt buf (pos + 1) := by
    split
    · rfl
    · exact (byteAt_of_le (by omega)).symm
  rw [rb16, if_pos (by omega), hsplit, hlast]

/-- The state the next boolean is read from: `v` is the window of the standard, before the range
comes up, and `n` the position of the bit behind it. -/
structure Window (d : BoolDecoder) (v n : Nat) : Prop where
  ok : d.error = false
  low : 1 ≤ d.range
  high : d.range ≤ 255
  inside : v < d.range
  value : d.value = v * 2 ^ 16 + bitsFrom (loaded d.buf d.pos) n 16
  pos : d.pos ≤ d.buf.length
  ahead : 8 * d.pos ≤ n + 16
  left : d.pos < d.buf.length → -16 ≤ d.bitsLeft ∧ d.bitsLeft < 0 ∧
    (n : Int) = 8 * d.pos + d.bitsLeft

/-- After the shift and the refill the upper bits are the window of the standard, and the sixteen
below are what is loaded of the bits behind it. -/
theorem refill_spec (hpos : pos ≤ buf.length) (hahead : 8 * pos ≤ n + 16) (hs : s ≤ 7)
    (hleft : pos < buf.length → -16 ≤ bitsLeft ∧ bitsLeft < 0 ∧ (n : Int) = 8 * pos + bitsLeft) :
    ∃ pos' bitsLeft', refill buf pos (v * 2 ^ (s + 16) + bitsFrom (loaded buf pos) n (s + 16))
      (bitsLeft + s) =
        (pos', (v * 2 ^ s + bitsFrom (bitAt buf) n s) * 2 ^ 16 + bitsFrom
          (loaded buf pos') (n + s) 16,
          bitsLeft') ∧
      pos' ≤ buf.length ∧ 8 * pos' ≤ n + s + 16 ∧
      (pos' < buf.length → -16 ≤ bitsLeft' ∧ bitsLeft' < 0 ∧
      ((n + s : Nat) : Int) = 8 * pos' + bitsLeft') := by
  -- the window of the standard needs the bits below `n + s` only
  have hwindow {pos' : Nat} (hin : pos' < buf.length → n + s ≤ 8 * pos') :
      v * 2 ^ (s + 16) + bitsFrom (loaded buf pos') n (s + 16) =
        (v * 2 ^ s + bitsFrom (bitAt buf) n s) * 2 ^ 16 + bitsFrom (loaded buf pos')
          (n + s) 16 := by
    have hbits : bitsFrom (loaded buf pos') n s = bitsFrom (bitAt buf) n s := by
      refine bitsFrom_congr ?_
      intro i hlo hhi
      rcases Nat.lt_or_ge pos' buf.length with hlt | hend
      · exact if_pos (by have := hin hlt; omega)
      · exact loaded_end hend i
    rw [bitsFrom_add, hbits, pow_add]
    ring
  by_cases hrefill : 0 ≤ bitsLeft + s ∧ pos < buf.length
  · obtain ⟨hlo, hneg, hn⟩ := hleft hrefill.2
    obtain ⟨a, ha⟩ : ∃ a : Nat, n + a = 8 * pos := ⟨8 * pos - n, by omega⟩
    obtain ⟨b, hb⟩ : ∃ b : Nat, n + s = 8 * pos + b := ⟨n + s - 8 * pos, by omega⟩
    have hsum : s + 16 = a + (16 + b) := by omega
    have hbits : bitsLeft + s = (b : Int) := by omega
    generalize hpos' : pos + (if 2 ≤ buf.length - pos then 2 else buf.length - pos) = pos'
    have hcases : pos' = pos + 2 ∧ pos + 2 ≤ buf.length ∨ pos' = pos + 1 ∧
        pos + 1 = buf.length := by
      split at hpos'
      · omega
      · omega
    have hnew {i : Nat} (hi : i < 8 * pos + 16) : loaded buf pos' i = bitAt buf i := by
      rcases hcases with ⟨rfl, -⟩ | ⟨rfl, hend⟩
      · exact if_pos (by omega)
      · exact loaded_end hend.ge i
    -- what was loaded, and what is loaded now, both in front of the same place
    have hold : bitsFrom (loaded buf pos) n (s + 16) = bitsFrom (bitAt buf) n a * 2 ^ (16 + b) := by
      have hbefore : bitsFrom (loaded buf pos) n a = bitsFrom (bitAt buf) n a :=
        bitsFrom_congr fun i _ hhi => if_pos (by omega)
      rw [hsum, bitsFrom_add, ha, hbefore, bitsFrom_loaded le_rfl, Nat.add_zero]
    have hfresh : bitsFrom (loaded buf pos') n (s + 16) =
        bitsFrom (bitAt buf) n a * 2 ^ (16 + b) + rb16 buf pos (buf.length - pos) * 2 ^ b := by
      have hbefore : bitsFrom (loaded buf pos') n a = bitsFrom (bitAt buf) n a :=
        bitsFrom_congr fun i _ hhi => hnew (by omega)
      have hnext : bitsFrom (loaded buf pos') (8 * pos) 16 = bitsFrom (bitAt buf) (8 * pos) 16 :=
        bitsFrom_congr fun i _ hhi => hnew (by omega)
      rw [hsum, bitsFrom_add, ha, bitsFrom_add, rb16_eq hrefill.2, hbefore, hnext,
        bitsFrom_loaded (by omega), Nat.add_zero]
    have hload : rb16 buf pos (buf.length - pos) < 2 ^ 16 := by
      rw [rb16_eq hrefill.2]
      exact bitsFrom_lt (bitAt_lt buf) _ _
    have hfits : rb16 buf pos (buf.length - pos) * 2 ^ b < 2 ^ (16 + b) := by
      rw [pow_add]
      exact Nat.mul_lt_mul_of_pos_right hload (Nat.two_pow_pos b)
    have hword : 2 ^ (16 + b) ≤ 2 ^ 32 := Nat.pow_le_pow_right (by decide) (by omega)
    have hupper : v * 2 ^ (s + 16) + bitsFrom (loaded buf pos) n (s + 16) =
        2 ^ (16 + b) * (v * 2 ^ a + bitsFrom (bitAt buf) n a) := by
      rw [hold, hsum, pow_add]
      ring
    refine ⟨pos', bitsLeft + s - 16, ?_, by omega, by omega, by omega⟩
    rw [refill, if_pos hrefill]
    dsimp only
    rw [hpos', hbits, Int.toNat_natCast, Nat.mod_eq_of_lt (Nat.lt_of_lt_of_le hfits hword), hupper,
      ← Nat.two_pow_add_eq_or_of_lt hfits, ← hupper, hold, Nat.add_assoc, ← hfresh,
      hwindow (by omega)]
  · refine ⟨pos, bitsLeft + s, ?_, hpos, by omega, ?_⟩
    · rw [refill, if_neg hrefill, hwindow]
      intro hlt
      have := hleft hlt
      omega
    · intro hlt
      have := hleft hlt
      omega

end Window

section Simulation

variable {d : BoolDecoder} {s : StandardDecoder} {buf : List Byte} {v n prob : Nat}

/-- The decoder of the standard is further on: it has brought the range up already. -/
def Tracks (d : BoolDecoder) (s : StandardDecoder) : Prop :=
  ∃ v n, Window d v n ∧ s = StandardDecoder.renorm (bitAt d.buf) ⟨v, d.range, n⟩

/-- A boolean is the same in both, and both choose the same part. -/
theorem decodeBool_window (h : Window d v n) (hprob : prob < 2 ^ 8) :
    ∃ v' n', Window (decodeBool d prob).2 v' n' ∧ (decodeBool d prob).2.buf = d.buf ∧
      (StandardDecoder.renorm (bitAt d.buf) ⟨v, d.range, n⟩).choose prob =
        ((decodeBool d prob).1, ⟨v', (decodeBool d prob).2.range, n'⟩) := by
  obtain ⟨hturns, hfull, hrange⟩ := kNormShift_spec h.low h.high
  have hbyte : d.range % 2 ^ 8 = d.range := Nat.mod_eq_of_lt (Nat.lt_succ_of_le h.high)
  generalize hshift : kNormShift.getD d.range 0 = shift at hturns hfull hrange
  have hrange' : d.range * 2 ^ shift % 2 ^ 32 = d.range * 2 ^ shift := Nat.mod_eq_of_lt (by omega)
  have htail := bitsFrom_lt (loaded_lt d.buf d.pos) n 16
  have hvalue : d.value * 2 ^ shift % 2 ^ 32 =
      v * 2 ^ (shift + 16) + bitsFrom (loaded d.buf d.pos) n (shift + 16) := by
    have hbound : d.value * 2 ^ shift < 2 ^ 32 := by
      have hlt : d.value < d.range * 2 ^ 16 := by
        have := h.inside
        rw [h.value]
        omega
      calc d.value * 2 ^ shift < d.range * 2 ^ 16 * 2 ^ shift :=
            Nat.mul_lt_mul_of_pos_right hlt (Nat.two_pow_pos shift)
        _ = d.range * 2 ^ shift * 2 ^ 16 := by ring
        _ ≤ 255 * 2 ^ 16 := Nat.mul_le_mul_right _ hrange
        _ ≤ 2 ^ 32 := by decide
    rw [Nat.mod_eq_of_lt hbound, Nat.add_comm shift 16, bitsFrom_add, bitsFrom_loaded h.ahead,
      h.value, pow_add]
    ring
  obtain ⟨pos', bitsLeft', hrefill, hpos, hahead, hleft⟩ :=
    refill_spec (v := v) h.pos h.ahead hturns h.left
  have hlow := bitsFrom_lt (loaded_lt d.buf pos') (n + shift) 16
  have hinside : v * 2 ^ shift + bitsFrom (bitAt d.buf) n shift < d.range * 2 ^ shift := by
    have hbits := bitsFrom_lt (bitAt_lt d.buf) n shift
    have hstep : (v + 1) * 2 ^ shift ≤ d.range * 2 ^ shift := Nat.mul_le_mul_right _ h.inside
    rw [Nat.add_one_mul] at hstep
    omega
  rw [StandardDecoder.renorm, renorm_eq (bitAt d.buf) hturns hfull hrange]
  generalize hv : v * 2 ^ shift + bitsFrom (bitAt d.buf) n shift = v' at hinside hrefill
  generalize hr : d.range * 2 ^ shift = range at hfull hrange hrange' hinside
  -- the upper part is never empty
  have hsplit : 1 + (range - 1) * prob / 2 ^ 8 < range := by
    have hprod : (range - 1) * prob ≤ (range - 1) * 255 :=
      Nat.mul_le_mul_left _ (Nat.le_of_lt_succ hprob)
    omega
  have hdecode : decodeBool d prob =
      if 1 + (range - 1) * prob / 2 ^ 8 ≤ v' then
        (1, ⟨d.buf, pos', v' * 2 ^ 16 + bitsFrom (loaded d.buf pos') (n + shift) 16 -
          (1 + (range - 1) * prob / 2 ^ 8) * 2 ^ 16, range - (1 + (range - 1) * prob / 2 ^ 8),
          bitsLeft', false⟩)
      else (0, ⟨d.buf, pos', v' * 2 ^ 16 + bitsFrom (loaded d.buf pos') (n + shift) 16,
        1 + (range - 1) * prob / 2 ^ 8, bitsLeft', false⟩) := by
    rw [decodeBool, h.ok, if_neg Bool.false_ne_true]
    dsimp only
    rw [hbyte, hshift, hr, hrange', hvalue, hrefill]
    dsimp only
    by_cases hupper : 1 + (range - 1) * prob / 2 ^ 8 ≤ v'
    · rw [if_pos hupper, if_pos (by omega)]
    · rw [if_neg hupper, if_neg (by omega)]
  rw [hdecode]
  by_cases hupper : 1 + (range - 1) * prob / 2 ^ 8 ≤ v'
  · rw [if_pos hupper]
    refine ⟨v' - (1 + (range - 1) * prob / 2 ^ 8), n + shift,
      ⟨rfl, ?_, ?_, ?_, ?_, hpos, hahead, hleft⟩, rfl, ?_⟩
    · exact Nat.sub_pos_of_lt hsplit
    · dsimp only
      omega
    · dsimp only
      omega
    · dsimp only
      omega
    · exact if_neg (Nat.not_lt.mpr hupper)
  · rw [if_neg hupper]
    refine ⟨v', n + shift, ⟨rfl, ?_, ?_, ?_, rfl, hpos, hahead, hleft⟩, rfl, ?_⟩
    · exact Nat.le_add_right 1 _
    · dsimp only
      omega
    · exact Nat.not_le.mp hupper
    · exact if_pos (Nat.not_le.mp hupper)

theorem decodeBool_tracks (h : Tracks d s) (hprob : prob < 2 ^ 8) :
    (decodeBool d prob).1 = (s.readBool (bitAt d.buf) prob).1 ∧ (decodeBool d prob).2.buf = d.buf ∧
      Tracks (decodeBool d prob).2 (s.readBool (bitAt d.buf) prob).2 := by
  obtain ⟨v, n, hwindow, rfl⟩ := h
  obtain ⟨v', n', hnext, hbuf, hchoose⟩ := decodeBool_window hwindow hprob
  rw [StandardDecoder.readBool, hchoose]
  exact ⟨rfl, hbuf, v', n', hnext, by rw [hbuf]⟩

theorem decodeBools_eq {probs : List Nat} (h : Tracks d s) (hprobs : ∀ prob ∈ probs, prob < 2 ^ 8) :
    decodeBools d probs = readBools (bitAt d.buf) s probs := by
  induction probs generalizing d s with
  | nil => rfl
  | cons prob probs ih =>
    obtain ⟨hbit, hbuf, hnext⟩ := decodeBool_tracks h (hprobs prob List.mem_cons_self)
    have hrest := ih hnext fun p hp => hprobs p (List.mem_cons_of_mem _ hp)
    rw [hbuf] at hrest
    rw [decodeBools, readBools, ← hrest, ← hbit]

end Simulation

section Start

variable {d : BoolDecoder} {buf : List Byte}

theorem decodeBools_error {probs : List Nat} (h : d.error = true) :
    decodeBools d probs = probs.map fun _ => 0 := by
  induction probs with
  | nil => rfl
  | cons prob probs ih =>
    have hstep : decodeBool d prob = (0, d) := by rw [decodeBool, if_pos h]
    rw [decodeBools, hstep, ih, List.map_cons]

theorem rb24_eq (h : 3 ≤ buf.length) :
    rb24 buf 0 buf.length = byteAt buf 0 * 2 ^ 16 + bitsFrom (loaded buf 3) 8 16 := by
  have hbits : bitsFrom (loaded buf 3) 8 (8 + 8) = byteAt buf 1 * 2 ^ 8 + byteAt buf 2 := by
    have hloaded : bitsFrom (loaded buf 3) 8 (8 + 8) = bitsFrom (bitAt buf) (8 * 1) (8 + 8) :=
      bitsFrom_congr fun i _ hhi => if_pos (by omega)
    rw [hloaded, bitsFrom_add, bitsFrom_byte, ← Nat.mul_succ, bitsFrom_byte]
  rw [rb24, if_pos (by omega), if_pos (by omega), if_pos h, hbits, Nat.add_assoc]

theorem boolStart_of_le (h : 3 ≤ buf.length) :
    boolStart buf =
    ⟨buf, 3, byteAt buf 0 * 2 ^ 16 + bitsFrom (loaded buf 3) 8 16, 255, -16, false⟩ := by
  rw [boolStart, if_neg (Nat.not_lt.mpr h), rb24_eq h]

/-- With a marker bit of zero both start together. -/
theorem boolInit_tracks (hlen : 3 ≤ buf.length) (hmarker : byteAt buf 0 < 128) :
    Tracks (boolInit buf) (standardInit buf) ∧ (boolInit buf).buf = buf := by
  have hstart : Window (boolStart buf) (byteAt buf 0) 8 := by
    rw [boolStart_of_le hlen]
    have hlow : 1 ≤ 255 := by decide
    have hahead : 8 * 3 ≤ 8 + 16 := by decide
    have hleft : (-16 : Int) ≤ -16 ∧ (-16 : Int) < 0 ∧
        ((8 : Nat) : Int) = 8 * (3 : Nat) + -16 := by decide
    exact ⟨rfl, hlow, le_rfl, Nat.lt_trans hmarker (by decide : 128 < 255), rfl, hlen, hahead,
      fun _ => hleft⟩
  have hrange : (boolStart buf).range = 255 := by rw [boolStart_of_le hlen]
  have hbuf : (boolStart buf).buf = buf := by rw [boolStart_of_le hlen]
  have hfull : (standardStart buf).renorm (bitAt (boolStart buf).buf) = standardStart buf := by
    rw [StandardDecoder.renorm, renormalise]
    exact if_neg (by decide : ¬255 < 128)
  have htracks : Tracks (boolStart buf) (standardStart buf) := by
    refine ⟨byteAt buf 0, 8, hstart, ?_⟩
    rw [hrange]
    exact hfull.symm
  obtain ⟨hbit, hsame, hnext⟩ := decodeBool_tracks htracks (by decide : 128 < 2 ^ 8)
  have hzero : (decodeBool (boolStart buf) 128).1 = 0 := by
    rw [hbit, StandardDecoder.readBool, StandardDecoder.choose, standardStart]
    dsimp only
    rw [if_pos (by omega)]
  rw [hbuf] at hsame hnext
  rw [boolInit]
  dsimp only
  rw [if_neg (by rw [hzero]; decide)]
  exact ⟨hnext, hsame⟩

/-- The first boolean is one in the upper half. -/
theorem decodeBool_upper (hok : d.error = false) (hrange : d.range = 255) (hleft : d.bitsLeft = -16)
    (hbound : d.value < 2 ^ 24) (hupper : 128 * 2 ^ 16 ≤ d.value) : (decodeBool d 128).1 = 1 := by
  have hshift : kNormShift.getD (255 % 2 ^ 8) 0 = 0 := by decide +kernel
  have hrefill : refill d.buf d.pos (d.value * 2 ^ 0 % 2 ^ 32) (-16 + ((0 : Nat) : Int)) =
      (d.pos, d.value * 2 ^ 0 % 2 ^ 32, -16 + ((0 : Nat) : Int)) := if_neg (by omega)
  rw [decodeBool, hok, if_neg Bool.false_ne_true, hrange, hleft, hshift]
  dsimp only
  rw [hrefill]
  dsimp only
  rw [if_pos (by omega)]

/-- A buffer that is too short, or with a marker bit of one, is refused. -/
theorem boolInit_error (h : ¬(3 ≤ buf.length ∧ byteAt buf 0 < 128)) :
    (boolInit buf).error = true := by
  rw [boolInit]
  dsimp only
  by_cases hlen : 3 ≤ buf.length
  · have hmarker : 128 ≤ byteAt buf 0 := by
      by_contra hlt
      exact h ⟨hlen, by omega⟩
    have hlow := byteAt_lt buf 0
    have htail := bitsFrom_lt (loaded_lt buf 3) 8 16
    have hvalue : (boolStart buf).value = byteAt buf 0 * 2 ^ 16 + bitsFrom (loaded buf 3) 8 16 := by
      rw [boolStart_of_le hlen]
    have hone : (decodeBool (boolStart buf) 128).1 = 1 := by
      refine decodeBool_upper ?_ ?_ ?_ (by omega) (by omega)
      · rw [boolStart_of_le hlen]
      · rw [boolStart_of_le hlen]
      · rw [boolStart_of_le hlen]
    rw [if_pos (by rw [hone]; decide)]
  · have herror : (boolStart buf).error = true := by rw [boolStart, if_pos (by omega)]
    have hstep : decodeBool (boolStart buf) 128 = (0, boolStart buf) := by
      rw [decodeBool, if_pos herror]
    have hzero : ¬(0 : Nat) ≠ 0 := by decide
    rw [hstep]
    dsimp only
    rw [if_neg hzero]
    exact herror

end Start

end Rkvdec.Vp9.Boolean
