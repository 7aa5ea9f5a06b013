import Rkvdec.Lib.Subexp
import Rkvdec.Av1.Obu
import Rkvdec.Av1.SequenceRoundTrip

/-! The variable-length codes of the AV1 parser, over the reader with the shift register, and that
each code of the standard is read back. -/
namespace Rkvdec.Av1.Codes

open Bitstream (u32 i32)
open Headers (BitCursor bitsToNat)
open Lib (golomb bitsOf truncated shortCodes recenter recenterWithin unrecenter subexp subexpBits)
open Vp9 (BitReader frameBits msbs)

section Readers

/-- The functions of the parser that take the reader by reference. -/
abbrev Reader (α : Type) := StateM BitReader α

/-- `br_u`. -/
def brU (n : Nat) : Reader Nat := fun r => ((r.answer n).1.toNat, (r.answer n).2)

def brBit : Reader Nat := brU 1

/-- `r.error = true`. -/
def latch : Reader Unit := modify fun r => { r with error := true }

/-- The turns that `br_leb128` has left, from byte `i` on. -/
def leb128Loop : Nat → Nat → Nat → Reader Nat
  | 0, _, val => pure val
  | left + 1, i, val => do
    let byte ← brU 8
    let val := val ||| (byte &&& 0x7f) <<< (i * 7)
    if byte &&& 0x80 = 0 then pure val else leb128Loop left (i + 1) val

def brLeb128 : Reader Nat := do
  let val ← leb128Loop 8 0 0
  if 2 ^ 32 - 1 < val then
    latch
    pure 0
  else pure val

/-- The loop of `br_uvlc`; `none` is the return with `UINT32_MAX`. Its 32nd turn ends it. -/
def uvlcLoop : Nat → Nat → Reader (Option Nat)
  | 0, _ => pure none
  | left + 1, leading => do
    if (← brBit) = 0 then
      if leading + 1 = 32 then
        latch
        pure none
      else uvlcLoop left (leading + 1)
    else pure (some leading)

def brUvlc : Reader Nat := do
  match ← uvlcLoop 32 0 with
  | none => pure (2 ^ 32 - 1)
  | some 0 => pure 0
  | some leading => do
    let suffix ← brU leading
    pure (u32 (2 ^ leading - 1 + suffix))

/-- `for (tmp = n; tmp > 1; tmp >>= 1) l++`. -/
def halvings (n : Nat) : Nat := if 1 < n then halvings (n / 2) + 1 else 0

/-- The difference of two `uint32_t`. -/
def sub32 (a b : Nat) : Nat := u32 (a + (2 ^ 32 - b))

def brUniform (n : Nat) : Reader Nat := do
  if n ≤ 1 then
    latch
    pure 0
  else
    let l := halvings n + 1
    let m := sub32 (u32 (2 ^ l)) n
    let v ← brU (l - 1)
    if v < m then pure v
    else
      let bit ← brBit
      pure (u32 (sub32 (u32 (2 * v)) m + bit))

/-- The loop of `br_subexp_u`, which has no bound; `none` if `turns` turns do not end it. -/
def subexpLoop (n : Nat) : Nat → Nat → Nat → Reader (Option Nat)
  | 0, _, _ => pure none
  | turns + 1, i, v => do
    let b := if i ≠ 0 then 3 + i - 1 else 3
    if n < u32 (v + u32 (3 * u32 (2 ^ b))) then
      let x ← brUniform (u32 (sub32 n v + 1))
      pure (some (u32 (v + x)))
    else
      if (← brBit) = 0 then
        let x ← brU b
        pure (some (u32 (v + x)))
      else subexpLoop n turns (i + 1) (u32 (v + u32 (2 ^ b)))

def invRecenter (r v : Nat) : Nat :=
  if u32 (2 * r) < v then v
  else if v % 2 = 1 then sub32 r (u32 (v + 1) / 2)
  else u32 (r + v / 2)

def brSubexpU (turns ref n : Nat) : Reader (Option Nat) := do
  let v ← subexpLoop n turns 0 0
  pure (v.map fun v => if u32 (ref * 2) ≤ n then invRecenter ref v
    else sub32 n (invRecenter (sub32 n ref) v))

/-- `br_subexp`; the reference is made a `uint32_t` and the result an `int32_t`. -/
def brSubexp (turns : Nat) (ref : Int) (n : Nat) : Reader (Option Int) := do
  let x ← brSubexpU turns ((ref + 2 ^ n) % 2 ^ 32).toNat (u32 (2 * 2 ^ n))
  pure (x.map fun x : Nat => i32 (i32 x - 2 ^ n))

end Readers

section Rules

variable {α β : Type} {p q : Reader α} {f : α → Reader β} {w w' : List Bool} {a : α} {b : β}

/-- Wherever the bits `w` are next, the reader takes just them, gives `a` and sets no error. -/
def Takes (p : Reader α) (w : List Bool) (a : α) : Prop :=
  ∀ frame r rest, BitReader.Shows frame r ⟨w ++ rest, false⟩ → ∃ r', p r = (a, r') ∧
    BitReader.Shows frame r' ⟨rest, false⟩

theorem takes_pure (a : α) : Takes (pure a) [] a := fun _ r _ h => ⟨r, rfl, h⟩

theorem Takes.bind (hp : Takes p w a) (hf : Takes (f a) w' b) : Takes (p >>= f) (w ++ w') b := by
  intro frame r rest h
  rw [List.append_assoc] at h
  obtain ⟨r', hfirst, h'⟩ := hp frame r (w' ++ rest) h
  obtain ⟨r'', hrest, h''⟩ := hf frame r' rest h'
  refine ⟨r'', ?_, h''⟩
  rw [← hrest]
  exact congrArg (fun x : α × BitReader => f x.1 x.2) hfirst

theorem Takes.last {g : α → β} (hp : Takes p w a) : Takes (p >>= fun a => pure (g a)) w (g a) := by
  have hread := hp.bind (f := fun a => pure (g a)) (takes_pure (g a))
  rwa [List.append_nil] at hread

theorem Takes.pos {c : Prop} [Decidable c] (hc : c) (hp : Takes p w a) :
    Takes (if c then p else q) w a := by
  rwa [if_pos hc]

theorem Takes.neg {c : Prop} [Decidable c] (hc : ¬c) (hq : Takes q w a) :
    Takes (if c then p else q) w a := by
  rwa [if_neg hc]

theorem takes_brU {n v : Nat} (hn : n ≤ 32) (hv : v < 2 ^ n) : Takes (brU n) (bitsOf n v) v := by
  intro frame r rest h
  obtain ⟨hvalue, hshows⟩ := BitReader.shows_answer h hn
  have hread := Vp9.reads_brU (BitVec.ofNat n v) rest
  rw [msbs_ofNat] at hread
  have hcursor : BitCursor.answer n ⟨bitsOf n v ++ rest, false⟩ =
      (BitVec.ofNat n v, ⟨rest, false⟩) := hread
  rw [hcursor] at hvalue hshows
  refine ⟨_, ?_, hshows⟩
  have htoNat : (BitVec.ofNat n v).toNat = v := by rw [BitVec.toNat_ofNat, Nat.mod_eq_of_lt hv]
  rw [brU, hvalue, htoNat]

theorem takes_brBit (bit : Bool) : Takes brBit [bit] bit.toNat := by
  cases bit with
  | false => exact takes_brU (n := 1) (v := 0) (by decide) (by decide)
  | true => exact takes_brU (n := 1) (v := 1) (by decide) (by decide)

end Rules

section Leb128

theorem low_seven (byte : Nat) : byte &&& 0x7f = byte % 128 := Nat.and_two_pow_sub_one_eq_mod byte 7

theorem eighth_bit : ∀ byte < 256, (byte &&& 0x80 = 0 ↔ byte < 128) := by decide +kernel

/-- One byte of the loop. -/
theorem takes_leb128_byte {left i val byte result : Nat} {w : List Bool} (hbyte : byte < 256)
    (hval : val < 2 ^ (i * 7))
    (hlast : byte < 128 → w = [] ∧ val + byte % 128 * 2 ^ (i * 7) = result)
    (hmore : 128 ≤ byte → Takes (leb128Loop left (i + 1) (val + byte % 128 * 2 ^ (i * 7))) w
    result) :
    Takes (leb128Loop (left + 1) i val) (bitsOf 8 byte ++ w) result := by
  refine (takes_brU (by decide) hbyte).bind ?_
  rw [low_seven, or_shift hval]
  by_cases hsmall : byte < 128
  · obtain ⟨rfl, rfl⟩ := hlast hsmall
    exact .pos ((eighth_bit byte hbyte).mpr hsmall) (takes_pure _)
  · exact .neg (fun hzero => hsmall ((eighth_bit byte hbyte).mp hzero)) (hmore (by omega))

theorem frameBits_cons (v : Nat) (bytes : List Bitstream.Byte) :
    frameBits (BitVec.ofNat 8 v :: bytes) = bitsOf 8 v ++ frameBits bytes := by
  rw [frameBits, List.flatMap_cons, msbs_ofNat]
  rfl

theorem takes_leb128Loop {left i val k v : Nat} (hv : v < 2 ^ (7 * (k + 1)))
    (hval : val < 2 ^ (i * 7)) (hk : k < left) :
    Takes (leb128Loop left i val) (frameBits (lebBytes (k + 1) v)) (val + v * 2 ^ (i * 7)) := by
  induction k generalizing left i val v with
  | zero =>
    obtain ⟨left, rfl⟩ : ∃ n, left = n + 1 := ⟨left - 1, by omega⟩
    have hsmall : v < 128 := hv
    have hbyte : v % 128 % 128 = v := by omega
    rw [lebBytes, frameBits_cons]
    refine takes_leb128_byte (by omega) hval (fun _ => ⟨rfl, ?_⟩) fun hlarge => ?_
    · rw [hbyte]
    · omega
  | succ k ih =>
    obtain ⟨left, rfl⟩ : ∃ n, left = n + 1 := ⟨left - 1, by omega⟩
    have hlow : (v % 128 + 128) % 128 = v % 128 := by omega
    have hpow : 2 ^ ((i + 1) * 7) = 2 ^ (i * 7) * 128 := by
      rw [Nat.add_mul, Nat.pow_add]
    have hquot : v / 128 < 2 ^ (7 * (k + 1)) := by
      rw [Nat.div_lt_iff_lt_mul (by omega)]
      calc v < 2 ^ (7 * (k + 1 + 1)) := hv
        _ = 2 ^ (7 * (k + 1)) * 128 := by rw [Nat.mul_add 7 (k + 1) 1, Nat.pow_add]
    have hnext : val + v % 128 * 2 ^ (i * 7) < 2 ^ ((i + 1) * 7) := by
      have hmul : v % 128 * 2 ^ (i * 7) ≤ 127 * 2 ^ (i * 7) := Nat.mul_le_mul_right _ (by omega)
      rw [hpow]
      omega
    have hsum : val + v % 128 * 2 ^ (i * 7) + v / 128 * 2 ^ ((i + 1) * 7) =
        val + v * 2 ^ (i * 7) := by
      calc val + v % 128 * 2 ^ (i * 7) + v / 128 * 2 ^ ((i + 1) * 7)
          = val + (v % 128 + 128 * (v / 128)) * 2 ^ (i * 7) := by rw [hpow]; ring
        _ = val + v * 2 ^ (i * 7) := by rw [Nat.mod_add_div]
    rw [lebBytes, frameBits_cons]
    refine takes_leb128_byte (by omega) hval (fun hsmall => ?_) fun _ => ?_
    · omega
    · rw [hlow, ← hsum]
      exact ih hquot hnext (by omega)

theorem takes_brLeb128 {k v : Nat} (hk : k < 8) (hv : v < 2 ^ 32) (hfits : v < 2 ^ (7 * (k + 1))) :
    Takes brLeb128 (frameBits (lebBytes (k + 1) v)) v := by
  have hloop : Takes (leb128Loop 8 0 0) _ _ := takes_leb128Loop hfits (by decide) hk
  rw [Nat.zero_mul, Nat.pow_zero, Nat.mul_one, Nat.zero_add] at hloop
  have hread :=
    hloop.bind (f := fun val => if 2 ^ 32 - 1 < val then latch >>= fun _ => pure 0 else pure val)
    (.neg (by omega) (takes_pure v))
  rwa [List.append_nil] at hread

end Leb128

section Uvlc

theorem takes_uvlcLoop {left leading k : Nat} (hk : k < left) (hfew : leading + k < 32) :
    Takes (uvlcLoop left leading) (List.replicate k false ++ [true]) (some (leading + k)) := by
  induction k generalizing left leading with
  | zero =>
    obtain ⟨left, rfl⟩ : ∃ n, left = n + 1 := ⟨left - 1, by omega⟩
    exact (takes_brBit true).bind (takes_pure _)
  | succ k ih =>
    obtain ⟨left, rfl⟩ : ∃ n, left = n + 1 := ⟨left - 1, by omega⟩
    have hcount : leading + 1 + k = leading + (k + 1) := by omega
    have hrest : Takes (uvlcLoop left (leading + 1)) _ _ := ih (by omega) (by omega)
    rw [hcount] at hrest
    exact (takes_brBit false).bind (.pos rfl (.neg (by omega) hrest))

theorem takes_brUvlc {v : Nat} (hv : v < 2 ^ 32 - 1) : Takes brUvlc (golomb v) v := by
  have hfew : (v + 1).log2 < 32 := log2_lt (by omega)
  have hsum := Lib.zeros_add_suffix v
  have hsuffix := Lib.suffix_lt v
  have hsplit : golomb v = (List.replicate (v + 1).log2 false ++ [true]) ++
      bitsOf (v + 1).log2 (v + 1 - 2 ^ (v + 1).log2) := by
    rw [Lib.golomb_eq, List.append_assoc]
    rfl
  rw [hsplit]
  generalize (v + 1).log2 = k at hfew hsum hsuffix
  have hzeros : Takes (uvlcLoop 32 0) _ _ := takes_uvlcLoop hfew (by omega : 0 + k < 32)
  rw [Nat.zero_add] at hzeros
  refine hzeros.bind ?_
  cases k with
  | zero =>
    have hzero : v = 0 := by omega
    rw [hzero]
    exact takes_pure 0
  | succ k =>
    have hvalue : u32 (2 ^ (k + 1) - 1 + (v + 1 - 2 ^ (k + 1))) = v := by
      rw [hsum]
      exact Nat.mod_eq_of_lt (by omega)
    have hread :=
      (takes_brU (by omega) hsuffix).last (g := fun suffix => u32 (2 ^ (k + 1) - 1 + suffix))
    rwa [hvalue] at hread

end Uvlc

section Uniform

variable {n v : Nat}

theorem halvings_eq (n : Nat) : halvings n = n.log2 := by
  induction n using Nat.strongRecOn with
  | ind n ih =>
    rw [halvings, Nat.log2_def]
    by_cases hn : 1 < n
    · rw [if_pos hn, if_pos (show 2 ≤ n from hn), ih (n / 2) (by omega)]
    · rw [if_neg hn, if_neg (show ¬2 ≤ n from hn)]

theorem sub32_eq {a b : Nat} (hb : b ≤ a) (ha : a < 2 ^ 32) : sub32 a b = a - b := by
  unfold sub32 u32
  omega

theorem u32_eq {a : Nat} (ha : a < 2 ^ 32) : u32 a = a := Nat.mod_eq_of_lt ha

/-- The numbers of `br_uniform` fit their 32 bits. -/
theorem uniform_short (hn : 1 < n) (hlt : n < 2 ^ 31) :
    n.log2 < 31 ∧ 2 ^ n.log2 ≤ 2 ^ 30 ∧ sub32 (u32 (2 ^ (halvings n + 1))) n = shortCodes n := by
  have hlog : n.log2 < 31 := (Nat.log2_lt (by omega)).mpr hlt
  have hsum := Lib.shortCodes_add (n := n) (by omega)
  have hpow : 2 ^ (n.log2 + 1) < 2 ^ 32 := Nat.pow_lt_pow_right (by decide) (by omega)
  have htwice : 2 ^ (n.log2 + 1) = 2 * 2 ^ n.log2 := by rw [Nat.pow_succ, Nat.mul_comm]
  refine ⟨hlog, Nat.pow_le_pow_right (by decide) (by omega), ?_⟩
  rw [halvings_eq, u32_eq hpow, sub32_eq (by omega) hpow]
  rfl

theorem takes_brUniform (hn : 1 < n) (hlt : n < 2 ^ 31) (hv : v < n) :
    Takes (brUniform n) (truncated n v) v := by
  obtain ⟨hlog, hpow, hshortCodes⟩ := uniform_short hn hlt
  have hsum := Lib.shortCodes_add (n := n) (by omega)
  unfold brUniform truncated
  refine .neg (by omega) ?_
  simp only [hshortCodes]
  rw [halvings_eq, Nat.add_sub_cancel]
  by_cases hshort : v < shortCodes n
  · rw [if_pos hshort]
    rw [← List.append_nil (bitsOf n.log2 v)]
    exact (takes_brU (by omega) (Lib.short_lt (by omega) hshort)).bind (.pos hshort (takes_pure v))
  · obtain ⟨hfront, hlong⟩ := Lib.long_code (by omega) hv hshort
    have hvalue := Lib.long_value v (shortCodes n)
    rw [if_neg hshort]
    refine (takes_brU (by omega) hfront).bind (.neg hlong ?_)
    have hbit := (takes_brBit ((v + shortCodes n).testBit 0)).last
      (g := fun bit => u32 (sub32 (u32 (2 * ((v + shortCodes n) / 2))) (shortCodes n) + bit))
    have hresult : u32 (sub32 (u32 (2 * ((v + shortCodes n) / 2))) (shortCodes n) +
        ((v + shortCodes n).testBit 0).toNat) = v := by
      have htwice : u32 (2 * ((v + shortCodes n) / 2)) = 2 * ((v + shortCodes n) / 2) :=
        u32_eq (by omega)
      rw [htwice, sub32_eq (by omega) (by omega)]
      exact (u32_eq (by omega)).trans (by omega)
    rwa [hresult] at hbit

end Uniform

section Subexp

variable {n ref v : Nat}

/-- Where the loop of `br_subexp_u` is: interval `i` starts at `mk`, and all before it ended below
`n`. -/
structure AtInterval (n i mk : Nat) : Prop where
  start : mk = if i = 0 then 0 else 2 ^ subexpBits 3 i
  inside : 2 * mk ≤ n

theorem width_eq (i : Nat) : (if i ≠ 0 then 3 + i - 1 else 3) = subexpBits 3 i := by
  unfold subexpBits
  by_cases hi : i = 0
  · rw [if_pos hi, if_neg (not_not.mpr hi)]
  · rw [if_neg hi, if_pos hi]

theorem subexpBits_succ {i : Nat} (hi : i ≠ 0) : subexpBits 3 (i + 1) = subexpBits 3 i + 1 := by
  unfold subexpBits
  rw [if_neg (Nat.succ_ne_zero i), if_neg hi]
  omega

theorem AtInterval.pos {i mk : Nat} (h : AtInterval n i mk) (hi : i ≠ 0) :
    mk = 2 ^ subexpBits 3 i := by
  rw [h.start, if_neg hi]

/-- An interval is at least as long as what is before it, so that 32 bits hold its end. -/
theorem AtInterval.fits {i mk : Nat} (h : AtInterval n i mk) (hn : n < 2 ^ 31) :
    mk + 3 * 2 ^ subexpBits 3 i < 2 ^ 32 ∧ subexpBits 3 i < 30 ∧ i < 28 := by
  have hinside := h.inside
  by_cases hi : i = 0
  · have hstart := h.start
    rw [if_pos hi] at hstart
    subst hi hstart
    decide
  · have hstart := h.pos hi
    have hpow : 2 ^ subexpBits 3 i < 2 ^ 30 := by omega
    have hbits : subexpBits 3 i < 30 := (Nat.pow_lt_pow_iff_right (by decide)).mp hpow
    refine ⟨by omega, hbits, ?_⟩
    rw [subexpBits, if_neg hi] at hbits
    omega

theorem AtInterval.next {i mk : Nat} (h : AtInterval n i mk)
    (hmore : ¬n < mk + 3 * 2 ^ subexpBits 3 i) :
    AtInterval n (i + 1) (mk + 2 ^ subexpBits 3 i) := by
  by_cases hi : i = 0
  · have hstart := h.start
    rw [if_pos hi] at hstart
    subst hi hstart
    have hfirst : (2 : Nat) ^ subexpBits 3 0 = 8 := rfl
    rw [hfirst] at hmore ⊢
    exact ⟨rfl, by omega⟩
  · have hstart := h.pos hi
    refine ⟨?_, by omega⟩
    rw [if_neg (Nat.succ_ne_zero i), subexpBits_succ hi, Nat.pow_succ, hstart]
    omega

/-- What the loop computes at an interval does not wrap. -/
theorem AtInterval.ends {i mk : Nat} (h : AtInterval n i mk) (hn : n < 2 ^ 31) :
    u32 (mk + u32 (3 * u32 (2 ^ subexpBits 3 i))) = mk + 3 * 2 ^ subexpBits 3 i ∧
      u32 (mk + u32 (2 ^ subexpBits 3 i)) = mk + 2 ^ subexpBits 3 i ∧
      u32 (sub32 n mk + 1) = n + 1 - mk := by
  have hfits := (h.fits hn).1
  have hinside := h.inside
  have hpow : u32 (2 ^ subexpBits 3 i) = 2 ^ subexpBits 3 i := u32_eq (by omega)
  have hthree : u32 (3 * 2 ^ subexpBits 3 i) = 3 * 2 ^ subexpBits 3 i := u32_eq (by omega)
  have hrest : sub32 n mk = n - mk := sub32_eq (by omega) (by omega)
  rw [hpow, hthree, hrest]
  refine ⟨u32_eq hfits, u32_eq (by omega), ?_⟩
  exact (u32_eq (by omega)).trans (by omega)

theorem takes_subexpLoop {turns i mk : Nat} (hpos : 0 < n) (hlt : n + 1 < 2 ^ 31)
    (h : AtInterval n i mk) (hlow : mk ≤ v) (hv : v ≤ n) (hturns : 29 ≤ i + turns) :
    Takes (subexpLoop n turns i mk) (subexp (n + 1) 3 i mk v) (some v) := by
  have hn : n < 2 ^ 31 := by omega
  induction turns generalizing i mk with
  | zero =>
    have hfew := (h.fits hn).2.2
    omega
  | succ turns ih =>
    obtain ⟨hend, hnext, hrest⟩ := h.ends hn
    have hinside := h.inside
    have hbits := (h.fits hn).2.1
    rw [subexp]
    unfold subexpLoop
    simp only [width_eq, hend, hnext, hrest]
    by_cases hlast : n < mk + 3 * 2 ^ subexpBits 3 i
    · rw [if_pos hlast, if_pos (by omega)]
      have hread :=
        (takes_brUniform (n := n + 1 - mk) (v := v - mk) (by omega) (by omega) (by omega)).last
        (g := fun x => some (u32 (mk + x)))
      have hvalue : u32 (mk + (v - mk)) = v := (u32_eq (by omega)).trans (by omega)
      rwa [hvalue] at hread
    · rw [if_neg hlast, if_neg (by omega)]
      by_cases hhere : v < mk + 2 ^ subexpBits 3 i
      · rw [if_pos hhere]
        have hread := (takes_brU (n := subexpBits 3 i) (v := v - mk) (by omega) (by omega)).last
          (g := fun x => some (u32 (mk + x)))
        have hvalue : u32 (mk + (v - mk)) = v := (u32_eq (by omega)).trans (by omega)
        rw [hvalue] at hread
        exact (takes_brBit false).bind (.pos rfl hread)
      · rw [if_neg hhere]
        exact (takes_brBit true).bind (.neg (by decide) (ih (h.next hlast) (by omega) (by omega)))

/-- The loop ends whatever the bits are, and also when there are none. -/
theorem ends_subexpLoop {turns i mk : Nat} (hn : n < 2 ^ 31) (h : AtInterval n i mk)
    (hturns : 29 ≤ i + turns) (r : BitReader) : (subexpLoop n turns i mk r).1.isSome = true := by
  induction turns generalizing i mk r with
  | zero =>
    have hfew := (h.fits hn).2.2
    omega
  | succ turns ih =>
    obtain ⟨hend, hnext, -⟩ := h.ends hn
    unfold subexpLoop
    simp only [width_eq, hend, hnext]
    by_cases hlast : n < mk + 3 * 2 ^ subexpBits 3 i
    · rw [if_pos hlast]
      rfl
    · rw [if_neg hlast]
      change ((if (brBit r).1 = 0 then _ else _ : Reader (Option Nat)) (brBit r).2).1.isSome = true
      split
      · rfl
      · exact ih (h.next hlast) (by omega) _

theorem atInterval_start (n : Nat) : AtInterval n 0 0 := ⟨rfl, Nat.zero_le n⟩

theorem invRecenter_eq {r d : Nat} (hr : r < 2 ^ 31) (hd : d < 2 ^ 31) :
    invRecenter r d = unrecenter r d := by
  have htwice : u32 (2 * r) = 2 * r := u32_eq (by omega)
  have hodd : u32 (d + 1) = d + 1 := u32_eq (by omega)
  have hsum : u32 (r + d / 2) = r + d / 2 := u32_eq (by omega)
  unfold invRecenter unrecenter
  rw [htwice, hodd, hsum]
  split_ifs with hfar hd
  · rfl
  · exact sub32_eq (by omega) (by omega)
  · rfl

/-- What the code makes of a number it has read. With `n` even it takes the same side as the
encoder. -/
theorem recentred_back (heven : n % 2 = 0) (hn : n < 2 ^ 30) (href : ref ≤ n) (hv : v ≤ n) :
    (if u32 (ref * 2) ≤ n then invRecenter ref (recenterWithin (n + 1) ref v)
      else sub32 n (invRecenter (sub32 n ref) (recenterWithin (n + 1) ref v))) = v := by
  have hcoded : recenterWithin (n + 1) ref v < n + 1 := Lib.recenterWithin_lt (by omega)
  have htwice : u32 (ref * 2) = ref * 2 := u32_eq (by omega)
  have hrest : sub32 n ref = n - ref := sub32_eq href (by omega)
  rw [htwice, hrest]
  by_cases hside : ref * 2 ≤ n
  · rw [if_pos hside, invRecenter_eq (by omega) (by omega), recenterWithin, if_pos (by omega),
      Lib.unrecenter_recenter]
  · rw [if_neg hside, invRecenter_eq (by omega) (by omega), recenterWithin, if_neg (by omega),
      Nat.add_sub_cancel, Lib.unrecenter_recenter, sub32_eq (by omega) (by omega)]
    omega

/-- One number of the `n + 1` from 0 on, near a reference among them. -/
theorem takes_brSubexpU {turns : Nat} (heven : n % 2 = 0) (hpos : 0 < n) (hn : n < 2 ^ 30)
    (hturns : 29 ≤ turns) (href : ref ≤ n) (hv : v ≤ n) :
    Takes (brSubexpU turns ref n) (subexp (n + 1) 3 0 0 (recenterWithin (n + 1) ref v))
      (some v) := by
  have hcoded : recenterWithin (n + 1) ref v < n + 1 := Lib.recenterWithin_lt (by omega)
  have hloop : Takes (subexpLoop n turns 0 0) _ _ :=
    takes_subexpLoop hpos (by omega) (atInterval_start n) (Nat.zero_le _)
      (Nat.le_of_lt_succ hcoded) (by omega)
  have hread := hloop.last (g := Option.map fun d =>
    if u32 (ref * 2) ≤ n then invRecenter ref d else sub32 n (invRecenter (sub32 n ref) d))
  rw [Option.map_some, recentred_back heven hn href hv] at hread
  exact hread

theorem i32_small {k : Int} (hlow : -65536 ≤ k) (hhigh : k ≤ 65536) : i32 k = k :=
  Int.bmod_eq_of_le_mul_two (by omega) (by omega)

/-- The number leaves the code shifted up by `half` and is shifted back as an `int32_t`. -/
theorem signed_back {half : Nat} {v : Int} (hhalf : half ≤ 32768) (hv : -half ≤ v ∧ v ≤ half) :
    i32 (i32 ((v + half).toNat : Nat) - half) = v := by
  have hnat : (((v + half).toNat : Nat) : Int) = v + half := Int.toNat_of_nonneg (by omega)
  have hshifted : i32 (v + half) = v + half := i32_small (by omega) (by omega)
  rw [hnat, hshifted, Int.add_sub_cancel]
  exact i32_small (by omega) (by omega)

/-- The standard's code of a number of `-2 ^ n` to `2 ^ n` near the reference `ref`. -/
def signedSubexp (n : Nat) (ref v : Int) : List Bool :=
  subexp (2 * 2 ^ n + 1) 3 0 0
    (recenterWithin (2 * 2 ^ n + 1) (ref + 2 ^ n).toNat (v + 2 ^ n).toNat)

theorem takes_brSubexp {turns n : Nat} {ref v : Int} (hn : n ≤ 15) (hturns : 29 ≤ turns)
    (href : -2 ^ n ≤ ref ∧ ref ≤ 2 ^ n) (hv : -2 ^ n ≤ v ∧ v ≤ 2 ^ n) :
    Takes (brSubexp turns ref n) (signedSubexp n ref v) (some v) := by
  have hpow : (2 : Nat) ^ n ≤ 32768 := Nat.pow_le_pow_right (by decide) hn
  have hone : 0 < 2 ^ n := Nat.two_pow_pos n
  have hcast : (2 : Int) ^ n = ((2 ^ n : Nat) : Int) := by norm_cast
  rw [hcast] at href hv
  unfold brSubexp signedSubexp
  rw [hcast]
  generalize (2 : Nat) ^ n = half at hpow hone href hv
  have hstart : ((ref + half) % 2 ^ 32).toNat = (ref + half).toNat := by omega
  have hrange : u32 (2 * half) = 2 * half := u32_eq (by omega)
  rw [hstart, hrange]
  have htaken : Takes (brSubexpU turns (ref + half).toNat (2 * half)) _ (some (v + half).toNat) :=
    takes_brSubexpU (by omega) (by omega) (by omega) hturns (by omega) (by omega)
  have hread := htaken.last (g := Option.map fun x : Nat => i32 (i32 x - half))
  have hvalue : i32 (i32 ((v + half).toNat : Nat) - half) = v := signed_back hpow hv
  rw [Option.map_some, hvalue] at hread
  exact hread

theorem ends_brSubexp {turns n : Nat} (hn : n ≤ 15) (hturns : 29 ≤ turns) (ref : Int)
    (r : BitReader) :
    (brSubexp turns ref n r).1.isSome = true := by
  have hpow : (2 : Nat) ^ n ≤ 2 ^ 15 := Nat.pow_le_pow_right (by decide) hn
  have hrange : u32 (2 * 2 ^ n) = 2 * 2 ^ n := u32_eq (by omega)
  have hends :=
    ends_subexpLoop (n := 2 * 2 ^ n) (by omega) (atInterval_start _) (by omega : 29 ≤ 0 + turns) r
  change (Option.map _ (Option.map _ (subexpLoop (u32 (2 * 2 ^ n)) turns 0 0 r).1)).isSome = true
  rw [hrange, Option.isSome_map, Option.isSome_map]
  exact hends

end Subexp

section Inverted

variable {frame : List Bitstream.Byte} {r : BitReader} {rest : List Bool}

/-- The reader stands in front of `w` and `rest`, and has not failed. -/
def Ahead (frame : List Bitstream.Byte) (r : BitReader) (w rest : List Bool) : Prop :=
  BitReader.Shows frame r ⟨w ++ rest, false⟩

/-- `p` returns `a` and leaves the reader in front of `rest`. -/
def Consumes {α : Type} (p : Reader α) (frame : List Bitstream.Byte) (r : BitReader)
    (rest : List Bool) (a : α) : Prop :=
  ∃ r', p r = (a, r') ∧ Ahead frame r' [] rest

theorem ahead_start {w : List Bool} (h : frameBits frame = w ++ rest) :
    Ahead frame { buf := frame } w rest := by
  unfold Ahead
  rw [← h]
  exact BitReader.shows_start frame

/-- Each code of the standard is read back, in front of any bits, and the loop of `br_subexp_u` ends
on any bits. -/
theorem codes_inverted (frame : List Bitstream.Byte) (r : BitReader) (rest : List Bool) :
    (∀ size v, 1 ≤ size → size ≤ 8 → v < 2 ^ 32 → v < 2 ^ (7 * size) →
    Ahead frame r (frameBits (lebBytes size v)) rest →
      Consumes brLeb128 frame r rest v) ∧
    (∀ v, v < 2 ^ 32 - 1 → Ahead frame r (golomb v) rest → Consumes brUvlc frame r rest v) ∧
    (∀ n v, 1 < n → n < 2 ^ 31 → v < n → Ahead frame r (truncated n v) rest →
    Consumes (brUniform n) frame r rest v) ∧
    (∀ n ref v turns, n ≤ 15 → -2 ^ n ≤ ref ∧ ref ≤ 2 ^ n → -2 ^ n ≤ v ∧ v ≤ 2 ^ n → 29 ≤ turns →
      Ahead frame r (signedSubexp n ref v) rest →
      Consumes (brSubexp turns ref n) frame r rest (some v)) ∧
    ∀ n ref turns, n ≤ 15 → 29 ≤ turns → (brSubexp turns ref n r).1.isSome = true := by
  refine ⟨?_, ?_, ?_, ?_, ?_⟩
  · intro size v hpos hsize hv hfits hahead
    obtain ⟨k, rfl⟩ : ∃ k, size = k + 1 := ⟨size - 1, by omega⟩
    exact takes_brLeb128 hsize hv hfits frame r rest hahead
  · intro v hv hahead
    exact takes_brUvlc hv frame r rest hahead
  · intro n v hn hlt hv hahead
    exact takes_brUniform hn hlt hv frame r rest hahead
  · intro n ref v turns hn href hv hturns hahead
    exact takes_brSubexp hn hturns href hv frame r rest hahead
  · intro n ref turns hn hturns
    exact ends_brSubexp hn hturns ref r

/-- A code of each kind, at the start of a frame of its own. -/
theorem codes_inverted_at_start :
    Consumes brLeb128 [0x85, 0x00] { buf := [0x85, 0x00] } [] 5 ∧
    Consumes brUvlc [0x2f] { buf := [0x2f] } [true, true, true] 4 ∧
    Consumes (brUniform 5) [0xe0] { buf := [0xe0] } [false, false, false, false, false] 4 ∧
    Consumes (brSubexp 29 (-2) 3) [0xda] { buf := [0xda] } [true, false, true, false] (some 5) ∧
    (brSubexp 29 (-2) 3 { buf := [] }).1.isSome = true := by
  refine ⟨?_, ?_, ?_, ?_, ?_⟩
  · exact (codes_inverted [0x85, 0x00] { buf := [0x85, 0x00] } []).1 2 5 (by decide) (by decide)
      (by decide) (by decide)
      (ahead_start (by decide))
  · exact (codes_inverted [0x2f] { buf := [0x2f] } [true, true, true]).2.1 4 (by decide)
      (ahead_start (by decide))
  · exact (codes_inverted [0xe0] { buf := [0xe0] } [false, false, false, false, false]).2.2.1 5 4
      (by decide) (by decide)
      (by decide) (ahead_start (by decide))
  · exact (codes_inverted [0xda] { buf := [0xda] } [true, false, true, false]).2.2.2.1 3 (-2) 5 29
      (by decide) (by decide)
      (by decide) (by decide) (ahead_start (by decide +kernel))
  · exact (codes_inverted [] { buf := [] } []).2.2.2.2 3 (-2) 29 (by decide) (by decide)

end Inverted

end Rkvdec.Av1.Codes
