import Rkvdec.Vp9.BoolDecoder

/-! The encoder that belongs to the boolean decoder, and that the decoder undoes it. Both follow one
interval, which every boolean narrows. -/
namespace Rkvdec.Vp9.Boolean

open Bitstream

section Encoder

/-- The encoder of the standard: its bytes, the last one first, the range, the bottom of the
interval in 32 bits, and the shifts before the next byte. -/
structure BoolEncoder where
  output : List Byte
  range : Nat
  bottom : Nat
  bitCount : Nat

/-- A carry goes to the last byte that is not 255. -/
def addOne : List Byte → List Byte
  | [] => []
  | b :: output => if b = 255 then 0 :: addOne output else (b + 1) :: output

/-- The top bit of the bottom is a carry. -/
def BoolEncoder.double (e : BoolEncoder) : BoolEncoder :=
  let output := if e.bottom / 2 ^ 31 % 2 = 1 then addOne e.output else e.output
  let bottom := 2 * e.bottom % 2 ^ 32
  if e.bitCount = 1 then
    { output := BitVec.ofNat 8 (bottom / 2 ^ 24) :: output
      range := 2 * e.range
      bottom := bottom % 2 ^ 24
      bitCount := 8 }
  else { output := output, range := 2 * e.range, bottom := bottom, bitCount := e.bitCount - 1 }

def BoolEncoder.choose (e : BoolEncoder) (prob : Nat) (bit : Bool) : BoolEncoder :=
  let split := 1 + (e.range - 1) * prob / 2 ^ 8
  if bit then { e with bottom := (e.bottom + split) % 2 ^ 32, range := e.range - split }
  else { e with range := split }

/-- `write_bool` -/
def BoolEncoder.writeBool (e : BoolEncoder) (pair : Nat × Bool) : BoolEncoder :=
  renormalise BoolEncoder.range BoolEncoder.double 7 (e.choose pair.1 pair.2)

/-- `flush_bool_encoder`: what is left goes out in four bytes. -/
def BoolEncoder.flush (e : BoolEncoder) : List Byte :=
  let output := if e.bottom / 2 ^ (32 - e.bitCount) % 2 = 1 then addOne e.output else e.output
  let v := e.bottom * 2 ^ e.bitCount % 2 ^ 32
  output.reverse ++ [BitVec.ofNat 8 (v / 2 ^ 24), BitVec.ofNat 8 (v / 2 ^ 16),
    BitVec.ofNat 8 (v / 2 ^ 8), BitVec.ofNat 8 v]

def encoderStart : BoolEncoder := { output := [], range := 255, bottom := 0, bitCount := 24 }

/-- The buffer of some booleans with their probabilities, behind a marker bit of zero. -/
def encode (pairs : List (Nat × Bool)) : List Byte :=
  (((128, false) :: pairs).foldl BoolEncoder.writeBool encoderStart).flush

end Encoder

section Interval

/-- The interval that is left after some booleans: its bottom and its length, both in units of which
`2 ^ (k + 8)` make one. -/
structure Interval where
  low : Nat
  range : Nat
  k : Nat

def Interval.double (i : Interval) : Interval :=
  { low := 2 * i.low, range := 2 * i.range, k := i.k + 1 }

/-- A boolean of zero keeps the lower part, one of one the upper. -/
def Interval.choose (i : Interval) (prob : Nat) (bit : Bool) : Interval :=
  let split := 1 + (i.range - 1) * prob / 2 ^ 8
  if bit then { i with low := i.low + split, range := i.range - split }
  else { i with range := split }

def Interval.next (i : Interval) (pair : Nat × Bool) : Interval :=
  renormalise Interval.range Interval.double 7 (i.choose pair.1 pair.2)

def Interval.start : Interval := { low := 0, range := 255, k := 0 }

/-- `j` lies in `i`, in finer units. -/
def Interval.Inside (j i : Interval) : Prop :=
  ∃ n, j.k = i.k + n ∧ i.low * 2 ^ n ≤ j.low ∧ j.low + j.range ≤ (i.low + i.range) * 2 ^ n

variable {σ τ : Type} {range : σ → Nat} {range' : τ → Nat} {double : σ → σ} {double' : τ → τ}
  {R : σ → τ → Prop} {s : σ} {t : τ} {i j k : Interval} {pair : Nat × Bool} {turns : Nat}

/-- Two states that follow each other are brought up together. -/
theorem renormalise_rel (hrange : ∀ s t, R s t → range s = range' t)
    (hdouble : ∀ s t, R s t → range s < 128 → R (double s) (double' t)) (h : R s t) :
    R (renormalise range double turns s) (renormalise range' double' turns t) := by
  induction turns generalizing s t with
  | zero => exact h
  | succ turns ih =>
    rw [renormalise, renormalise, ← hrange s t h]
    by_cases hsmall : range s < 128
    · rw [if_pos hsmall, if_pos hsmall]
      exact ih (hdouble s t h hsmall)
    · rw [if_neg hsmall, if_neg hsmall]
      exact h

/-- What a doubling keeps is kept. -/
theorem renormalise_inv {P : σ → Prop}
    (hdouble : ∀ s, P s → range s < 128 → P (double s)) (h : P s) :
    P (renormalise range double turns s) := by
  induction turns generalizing s with
  | zero => exact h
  | succ turns ih =>
    rw [renormalise]
    split
    · rename_i hsmall
      exact ih (hdouble s h hsmall)
    · exact h

/-- From a range of one to 255 seven doublings reach 128, and none goes past 255. -/
theorem renormalise_range (hdouble : ∀ s, range (double s) = 2 * range s)
    (hlow : 128 ≤ range s * 2 ^ turns) (hhigh : range s ≤ 255) :
    128 ≤ range (renormalise range double turns s) ∧
    range (renormalise range double turns s) ≤ 255 := by
  induction turns generalizing s with
  | zero =>
    rw [pow_zero, Nat.mul_one] at hlow
    exact ⟨hlow, hhigh⟩
  | succ turns ih =>
    rw [renormalise]
    split
    · have hnext : range (double s) * 2 ^ turns = range s * 2 ^ (turns + 1) := by
        rw [hdouble]
        ring
      have := hdouble s
      exact ih (by rwa [hnext]) (by omega)
    · exact ⟨by omega, hhigh⟩

/-- The range between two booleans. -/
def Interval.Full (i : Interval) : Prop := 128 ≤ i.range ∧ i.range ≤ 255

theorem Interval.Inside.refl (i : Interval) : i.Inside i := ⟨0, rfl, by omega, by omega⟩

theorem Interval.Inside.trans (hjk : j.Inside k) (hij : i.Inside j) : i.Inside k := by
  obtain ⟨m, hk, hlow, hhigh⟩ := hjk
  obtain ⟨n, hk', hlow', hhigh'⟩ := hij
  refine ⟨m + n, by omega, ?_, ?_⟩
  · calc k.low * 2 ^ (m + n) = k.low * 2 ^ m * 2 ^ n := by ring
      _ ≤ j.low * 2 ^ n := Nat.mul_le_mul_right _ hlow
      _ ≤ i.low := hlow'
  · calc i.low + i.range ≤ (j.low + j.range) * 2 ^ n := hhigh'
      _ ≤ (k.low + k.range) * 2 ^ m * 2 ^ n := Nat.mul_le_mul_right _ hhigh
      _ = (k.low + k.range) * 2 ^ (m + n) := by ring

/-- Neither part is empty. -/
theorem Interval.split_lt (h : i.Full) {prob : Nat} (hprob : prob < 2 ^ 8) :
    1 + (i.range - 1) * prob / 2 ^ 8 < i.range := by
  have hprod : (i.range - 1) * prob ≤ (i.range - 1) * 255 :=
    Nat.mul_le_mul_left _ (Nat.le_of_lt_succ hprob)
  have := h.1
  omega

theorem Interval.choose_spec (h : i.Full) (hprob : pair.1 < 2 ^ 8) :
    (i.choose pair.1 pair.2).Inside i ∧ 1 ≤ (i.choose pair.1 pair.2).range ∧
      (i.choose pair.1 pair.2).range ≤ 255 := by
  have hsplit := split_lt h hprob
  have := h.2
  unfold choose
  dsimp only
  split
  · exact ⟨⟨0, rfl, by dsimp only; omega, by dsimp only; omega⟩, by dsimp only; omega,
      by dsimp only; omega⟩
  · exact ⟨⟨0, rfl, by dsimp only; omega, by dsimp only; omega⟩, by dsimp only; omega,
      by dsimp only; omega⟩

/-- A boolean narrows the interval to the part that it chooses. -/
theorem Interval.next_spec (h : i.Full) (hprob : pair.1 < 2 ^ 8) :
    (i.next pair).Full ∧ (i.next pair).Inside (i.choose pair.1 pair.2) := by
  obtain ⟨-, hlow, hhigh⟩ := choose_spec h hprob
  refine ⟨renormalise_range (fun _ => rfl) (by omega) hhigh, ?_⟩
  refine renormalise_inv (P := fun (j : Interval) => j.Inside (i.choose pair.1 pair.2)) ?_
    (Inside.refl _)
  rintro j ⟨n, hk, hbottom, htop⟩ -
  refine ⟨n + 1, congrArg (· + 1) hk, ?_, ?_⟩
  · rw [pow_succ, ← Nat.mul_assoc, Nat.mul_comm _ 2]
    exact Nat.mul_le_mul_left _ hbottom
  · have : (j.double).low + (j.double).range = 2 * (j.low + j.range) :=
      (Nat.mul_add 2 j.low j.range).symm
    rw [this, pow_succ, ← Nat.mul_assoc, Nat.mul_comm _ 2]
    exact Nat.mul_le_mul_left _ htop

theorem Interval.foldl_spec {pairs : List (Nat × Bool)} (h : i.Full)
    (hprobs : ∀ p ∈ pairs, p.1 < 2 ^ 8) :
    (pairs.foldl Interval.next i).Full ∧ (pairs.foldl Interval.next i).Inside i := by
  induction pairs generalizing i with
  | nil => exact ⟨h, Inside.refl i⟩
  | cons pair pairs ih =>
    have hprob := hprobs pair List.mem_cons_self
    obtain ⟨hfull, hinside⟩ := next_spec h hprob
    obtain ⟨hlast, hrest⟩ := ih hfull fun p hp => hprobs p (List.mem_cons_of_mem _ hp)
    exact ⟨hlast, (choose_spec h hprob).1.trans (hinside.trans hrest)⟩

end Interval

section Reading

variable {bit : Nat → Nat} {s : StandardDecoder} {i j : Interval} {pair : Nat × Bool} {n : Nat}

/-- The bits that are read so far, as a number, lie in the interval. -/
def Contains (bit : Nat → Nat) (i : Interval) : Prop :=
  i.low ≤ bitsFrom bit 0 (i.k + 8) ∧ bitsFrom bit 0 (i.k + 8) < i.low + i.range

/-- The window of the decoder is what these bits are above the bottom of the interval. -/
structure Follows (bit : Nat → Nat) (s : StandardDecoder) (i : Interval) : Prop where
  range : s.range = i.range
  pos : s.pos = i.k + 8
  value : s.value + i.low = bitsFrom bit 0 (i.k + 8)

theorem Contains.of_inside (hbit : ∀ n, bit n < 2) (hinside : j.Inside i) (h : Contains bit j) :
    Contains bit i := by
  obtain ⟨n, hk, hlow, hhigh⟩ := hinside
  have hlen : j.k + 8 = i.k + 8 + n := by omega
  obtain ⟨hbottom, htop⟩ := h
  have htail := bitsFrom_lt hbit (0 + (i.k + 8)) n
  rw [hlen, bitsFrom_add] at hbottom htop
  constructor
  · by_contra hlt
    have hup : (bitsFrom bit 0 (i.k + 8) + 1) * 2 ^ n ≤ i.low * 2 ^ n :=
      Nat.mul_le_mul_right _ (by omega)
    rw [Nat.add_one_mul] at hup
    omega
  · by_contra hge
    have hup : (i.low + i.range) * 2 ^ n ≤ bitsFrom bit 0 (i.k + 8) * 2 ^ n :=
      Nat.mul_le_mul_right _ (by omega)
    omega

theorem Follows.choose (h : Follows bit s i) (hpart : Contains bit (i.choose pair.1 pair.2)) :
    (s.choose pair.1).1 = pair.2.toNat ∧
    Follows bit (s.choose pair.1).2 (i.choose pair.1 pair.2) := by
  obtain ⟨hbottom, htop⟩ := hpart
  have hvalue := h.value
  unfold Interval.choose at hbottom htop ⊢
  unfold StandardDecoder.choose
  dsimp only at hbottom htop ⊢
  rw [h.range]
  cases hbit : pair.2 with
  | false =>
    rw [hbit, if_neg Bool.false_ne_true] at hbottom htop
    dsimp only at hbottom htop
    rw [if_neg Bool.false_ne_true, if_pos (by omega)]
    exact ⟨rfl, rfl, h.pos, hvalue⟩
  | true =>
    rw [hbit, if_pos rfl] at hbottom htop
    dsimp only at hbottom htop
    rw [if_pos rfl, if_neg (by omega)]
    exact ⟨rfl, rfl, h.pos, by dsimp only; omega⟩

theorem Follows.renorm (h : Follows bit s i) :
    Follows bit (s.renorm bit) (renormalise Interval.range Interval.double 7 i) := by
  refine renormalise_rel (fun _ _ h => h.range) ?_ h
  intro s i h _
  refine ⟨congrArg (2 * ·) h.range, congrArg (· + 1) h.pos, ?_⟩
  have hnext : bitsFrom bit 0 (i.k + 8 + 1) =
      bitsFrom bit 0 (i.k + 8) * 2 ^ 1 + bitsFrom bit (0 + (i.k + 8)) 1 :=
    bitsFrom_add bit 0 (i.k + 8) 1
  have hlast : bitsFrom bit (0 + (i.k + 8)) 1 = bit s.pos := by
    rw [bitsFrom, bitsFrom, Nat.zero_add, h.pos, pow_zero, Nat.mul_one, Nat.add_zero]
  have hvalue := h.value
  have hgoal : 2 * s.value + bit s.pos + 2 * i.low = bitsFrom bit 0 (i.k + 8 + 1) := by
    rw [hnext, hlast]
    omega
  have hplace : i.k + 1 + 8 = i.k + 8 + 1 := by omega
  rw [← hplace] at hgoal
  exact hgoal

/-- A decoder that follows an interval reads the booleans that narrow it, if its bits lie in what is
left. -/
theorem readBools_eq {pairs : List (Nat × Bool)} (hbit : ∀ n, bit n < 2) (h : Follows bit s i)
    (hfull : i.Full) (hprobs : ∀ p ∈ pairs, p.1 < 2 ^ 8)
    (hlast : Contains bit (pairs.foldl Interval.next i)) :
    readBools bit s (pairs.map Prod.fst) = pairs.map fun p => p.2.toNat := by
  induction pairs generalizing s i with
  | nil => rfl
  | cons pair pairs ih =>
    have hrest := fun p hp => hprobs p (List.mem_cons_of_mem _ hp)
    obtain ⟨hnext, hinside⟩ := Interval.next_spec hfull (hprobs pair List.mem_cons_self)
    have hpart := hlast.of_inside hbit (hinside.trans (Interval.foldl_spec hnext hrest).2)
    obtain ⟨hfirst, hfollows⟩ := h.choose hpart
    rw [List.map_cons, List.map_cons, readBools, StandardDecoder.readBool]
    dsimp only
    rw [hfirst, ih hfollows.renorm hnext hrest hlast]

end Reading

section Writing

variable {e : BoolEncoder} {i : Interval} {output : List Byte} {pair : Nat × Bool}

/-- The number that the bytes are, the last one first. -/
def number (output : List Byte) : Nat := output.foldr (fun b n => n * 2 ^ 8 + b.toNat) 0

@[simp] theorem number_cons (b : Byte) (output : List Byte) :
    number (b :: output) = number output * 2 ^ 8 + b.toNat := rfl

theorem number_append (first rest : List Byte) :
    number (first ++ rest) = number rest * 2 ^ (8 * first.length) + number first := by
  induction first with
  | nil => simp [number]
  | cons b first ih =>
    rw [List.cons_append, number_cons, ih, number_cons, List.length_cons, Nat.mul_succ, pow_add]
    ring

/-- A carry is an addition, unless all bytes are 255. -/
theorem number_addOne (h : number output + 1 < 2 ^ (8 * output.length)) :
    number (addOne output) = number output + 1 ∧ (addOne output).length = output.length := by
  induction output with
  | nil => exact absurd h (by decide)
  | cons b output ih =>
    rw [number_cons, List.length_cons, Nat.mul_succ, pow_add] at h
    have hlast : (255 : Byte).toNat = 255 := by decide
    rw [addOne]
    split
    · rename_i hfull
      have htop : b.toNat = 255 := by rw [hfull, hlast]
      have hzero : (0 : Byte).toNat = 0 := rfl
      obtain ⟨hnumber, hlen⟩ := ih (by omega)
      rw [number_cons, number_cons, hnumber, htop, hzero, List.length_cons, List.length_cons, hlen]
      exact ⟨by omega, rfl⟩
    · rename_i hmore
      have hlt : b.toNat + 1 < 2 ^ 8 := by
        have hne : b.toNat ≠ 255 := by
          intro htop
          exact hmore (BitVec.eq_of_toNat_eq (htop.trans hlast.symm))
        have := b.isLt
        omega
      have hnext : (b + 1).toNat = b.toNat + 1 := by
        rw [BitVec.toNat_add]
        exact Nat.mod_eq_of_lt hlt
      rw [number_cons, number_cons, hnext, List.length_cons, List.length_cons]
      exact ⟨(Nat.add_assoc _ _ _).symm, rfl⟩

/-- The bytes that are out and the bottom are the bottom of the interval. One bit of the 32 is kept
for a carry. -/
structure Holds (e : BoolEncoder) (i : Interval) : Prop where
  range : e.range = i.range
  low : i.low = number e.output * 2 ^ (32 - e.bitCount) + e.bottom
  room : e.bottom + e.range ≤ 2 ^ (33 - e.bitCount)
  pos : 1 ≤ e.bitCount
  count : e.bitCount ≤ 24
  k : e.bitCount + i.k = 24 + 8 * e.output.length
  top : i.low + i.range ≤ 2 ^ (i.k + 8)

theorem Holds.start : Holds encoderStart Interval.start :=
  ⟨rfl, rfl, by decide, by decide, by decide, rfl, by decide⟩

/-- The carry of a bottom goes into the bytes, which have room for it. -/
theorem Holds.carry (h : Holds e i) (hrange : 1 ≤ e.range) {output : List Byte}
    (houtput : (if e.bottom / 2 ^ (32 - e.bitCount) % 2 = 1 then addOne e.output else e.output) =
    output) :
    output.length = e.output.length ∧
      i.low = number output * 2 ^ (32 - e.bitCount) + e.bottom % 2 ^ (32 - e.bitCount) := by
  obtain ⟨m, hm⟩ : ∃ m, 32 - e.bitCount = m := ⟨_, rfl⟩
  have hlow := h.low
  have htop := h.top
  have hroom := h.room
  have hpow : 2 ^ (33 - e.bitCount) = 2 * 2 ^ m := by
    have := h.count
    rw [← pow_succ', ← hm]
    congr 1
    omega
  have hbits : 2 ^ (i.k + 8) = 2 ^ (8 * e.output.length) * 2 ^ m := by
    have := h.count
    have := h.k
    rw [← pow_add]
    congr 1
    omega
  have hpos : 0 < 2 ^ m := Nat.two_pow_pos m
  rw [hm] at houtput hlow ⊢
  rw [hpow] at hroom
  by_cases hcarry : 2 ^ m ≤ e.bottom
  · have hone : e.bottom / 2 ^ m = 1 := Nat.div_eq_of_lt_le (by omega) (by omega)
    have hrest : e.bottom % 2 ^ m = e.bottom - 2 ^ m := by
      rw [Nat.mod_eq_sub_mod hcarry, Nat.mod_eq_of_lt (by omega)]
    have hfits : number e.output + 1 < 2 ^ (8 * e.output.length) := by
      generalize 2 ^ (8 * e.output.length) = bytes at hbits ⊢
      by_contra hge
      have hup : bytes * 2 ^ m ≤ (number e.output + 1) * 2 ^ m := Nat.mul_le_mul_right _ (by omega)
      rw [Nat.add_one_mul] at hup
      have := h.range
      omega
    obtain ⟨hnumber, hlen⟩ := number_addOne hfits
    rw [hone, if_pos (by decide)] at houtput
    subst houtput
    refine ⟨hlen, ?_⟩
    rw [hnumber, hrest, Nat.add_one_mul]
    omega
  · have hzero : e.bottom / 2 ^ m = 0 := Nat.div_eq_of_lt (by omega)
    rw [hzero, if_neg (by decide)] at houtput
    subst houtput
    refine ⟨rfl, ?_⟩
    rw [Nat.mod_eq_of_lt (by omega)]
    exact hlow

theorem Holds.choose (h : Holds e i) (hfull : i.Full) (hprob : pair.1 < 2 ^ 8) :
    Holds (e.choose pair.1 pair.2) (i.choose pair.1 pair.2) := by
  obtain ⟨hrange, hlow, hroom, hpos, hcount, hk, htop⟩ := h
  have hsplit := Interval.split_lt hfull hprob
  have hword : 2 ^ (33 - e.bitCount) ≤ 2 ^ 32 := Nat.pow_le_pow_right (by decide) (by omega)
  rw [hrange] at hroom
  unfold BoolEncoder.choose Interval.choose
  dsimp only
  rw [hrange]
  generalize 1 + (i.range - 1) * pair.1 / 2 ^ 8 = split at hsplit ⊢
  cases pair.2 with
  | false =>
    rw [if_neg Bool.false_ne_true, if_neg Bool.false_ne_true]
    exact ⟨rfl, hlow, by dsimp only; omega, hpos, hcount, hk, by dsimp only; omega⟩
  | true =>
    have hsum : (e.bottom + split) % 2 ^ 32 = e.bottom + split := Nat.mod_eq_of_lt (by omega)
    rw [if_pos rfl, if_pos rfl, hsum]
    exact ⟨rfl, by dsimp only; omega, by dsimp only; omega, hpos, hcount, hk, by dsimp only; omega⟩

/-- A shift keeps the bottom of the interval, where the top byte goes out as well as where it does
not. -/
theorem Holds.double (h : Holds e i) (hpos : 1 ≤ e.range) (hsmall : e.range < 128) :
    Holds e.double i.double := by
  have htop : 2 * i.low + 2 * i.range ≤ 2 ^ (i.k + 1 + 8) := by
    have := h.top
    have hnext : 2 ^ (i.k + 1 + 8) = 2 * 2 ^ (i.k + 8) := by ring
    omega
  unfold BoolEncoder.double
  dsimp only
  by_cases hlast : e.bitCount = 1
  · obtain ⟨output, houtput⟩ :
        ∃ output, (if e.bottom / 2 ^ 31 % 2 = 1 then addOne e.output else e.output) =
        output := ⟨_, rfl⟩
    obtain ⟨hlen, hlow⟩ := @Holds.carry e i h hpos output (by rw [hlast]; exact houtput)
    rw [hlast] at hlow
    have hk := h.k
    rw [hlast] at hk
    rw [if_pos hlast, houtput]
    have hword : 2 * e.bottom % 2 ^ 32 / 2 ^ 24 < 2 ^ 8 := by omega
    refine ⟨congrArg (2 * ·) h.range, ?_, ?_, (by decide : 1 ≤ 8), (by decide : 8 ≤ 24), ?_, htop⟩
    · dsimp only
      rw [number_cons, BitVec.toNat_ofNat, Nat.mod_eq_of_lt hword]
      have hdouble : i.double.low = 2 * i.low := rfl
      omega
    · dsimp only
      omega
    · have hdouble : i.double.k = i.k + 1 := rfl
      rw [hdouble, List.length_cons, hlen]
      dsimp only
      omega
  · have hroom := h.room
    have hcount := h.count
    have hpos' := h.pos
    have hhalf : 2 ^ (33 - e.bitCount) ≤ 2 ^ 31 := Nat.pow_le_pow_right (by decide) (by omega)
    have hnone : e.bottom / 2 ^ 31 % 2 = 0 := by omega
    have hword : 2 * e.bottom % 2 ^ 32 = 2 * e.bottom := Nat.mod_eq_of_lt (by omega)
    rw [hnone, if_neg hlast, if_neg (by decide : ¬(0 : Nat) = 1), hword]
    refine ⟨congrArg (2 * ·) h.range, ?_, ?_, by dsimp only; omega, by dsimp only; omega, ?_, htop⟩
    · have hdouble : i.double.low = 2 * i.low := rfl
      have hexp : 32 - (e.bitCount - 1) = 32 - e.bitCount + 1 := by omega
      dsimp only
      rw [hdouble, h.low, hexp, pow_succ]
      ring
    · have hexp : 33 - (e.bitCount - 1) = 33 - e.bitCount + 1 := by omega
      dsimp only
      rw [hexp, pow_succ]
      omega
    · have hdouble : i.double.k = i.k + 1 := rfl
      have := h.k
      dsimp only
      omega

theorem Holds.writeBool (h : Holds e i) (hfull : i.Full) (hprob : pair.1 < 2 ^ 8) :
    Holds (e.writeBool pair) (i.next pair) := by
  obtain ⟨-, hlow, -⟩ := Interval.choose_spec hfull hprob
  have hpart := h.choose hfull hprob
  have hrel : Holds (e.choose pair.1 pair.2) (i.choose pair.1 pair.2) ∧
      1 ≤ (e.choose pair.1 pair.2).range :=
    ⟨hpart, hpart.range ▸ hlow⟩
  refine (renormalise_rel (R := fun (e : BoolEncoder) (i : Interval) => Holds e i ∧ 1 ≤ e.range)
    ?_ ?_ hrel).1
  · rintro e i ⟨h, -⟩
    exact h.range
  · rintro e i ⟨h, hpos⟩ hsmall
    have hrange := (h.double hpos hsmall).range
    have hnext : i.double.range = 2 * i.range := rfl
    have := h.range
    exact ⟨h.double hpos hsmall, by omega⟩

theorem Holds.foldl {pairs : List (Nat × Bool)} (h : Holds e i) (hfull : i.Full)
    (hprobs : ∀ p ∈ pairs, p.1 < 2 ^ 8) :
    Holds (pairs.foldl BoolEncoder.writeBool e) (pairs.foldl Interval.next i) := by
  induction pairs generalizing e i with
  | nil => exact h
  | cons pair pairs ih =>
    have hprob := hprobs pair List.mem_cons_self
    exact ih (h.writeBool hfull hprob) (Interval.next_spec hfull hprob).1 fun p hp =>
      hprobs p (List.mem_cons_of_mem _ hp)

/-- A buffer as bits is its bytes as a number. -/
theorem bitsFrom_take (buf : List Byte) {n : Nat} (h : n ≤ buf.length) :
    bitsFrom (bitAt buf) 0 (8 * n) = number (buf.take n).reverse := by
  induction n with
  | zero => rfl
  | succ n ih =>
    have hbyte : buf.take (n + 1) = buf.take n ++ [buf.getD n 0] := by
      rw [List.take_add_one, List.getElem?_eq_getElem h, List.getD_eq_getElem?_getD,
        List.getElem?_eq_getElem h]
      rfl
    rw [Nat.mul_succ, bitsFrom_add, ih (by omega), Nat.zero_add, bitsFrom_byte, hbyte,
      List.reverse_append, List.reverse_singleton, List.singleton_append, number_cons]
    rfl

/-- What is flushed is the bottom of the interval, in 32 bits more than are out. -/
theorem Holds.flush (h : Holds e i) (hpos : 1 ≤ e.range) :
    number e.flush.reverse = i.low * 2 ^ e.bitCount ∧
    8 * e.flush.length = i.k + 8 + e.bitCount := by
  obtain ⟨output, houtput⟩ : ∃ output,
      (if e.bottom / 2 ^ (32 - e.bitCount) % 2 = 1 then addOne e.output else e.output) =
      output := ⟨_, rfl⟩
  obtain ⟨hlen, hlow⟩ := h.carry hpos houtput
  have hk := h.k
  have hcount := h.count
  have hword : e.bottom * 2 ^ e.bitCount % 2 ^ 32 =
      e.bottom % 2 ^ (32 - e.bitCount) * 2 ^ e.bitCount := by
    have hpow : (2 : Nat) ^ 32 = 2 ^ (32 - e.bitCount) * 2 ^ e.bitCount := by
      rw [← pow_add]
      congr 1
      omega
    rw [hpow, Nat.mul_mod_mul_right]
  have hflush : e.flush = output.reverse ++
      [BitVec.ofNat 8 (e.bottom * 2 ^ e.bitCount % 2 ^ 32 / 2 ^ 24),
        BitVec.ofNat 8 (e.bottom * 2 ^ e.bitCount % 2 ^ 32 / 2 ^ 16),
        BitVec.ofNat 8 (e.bottom * 2 ^ e.bitCount % 2 ^ 32 / 2 ^ 8),
        BitVec.ofNat 8 (e.bottom * 2 ^ e.bitCount % 2 ^ 32)] := by
    rw [BoolEncoder.flush, houtput]
  have hbytes (v : Nat) (hv : v < 2 ^ 32) :
      number [BitVec.ofNat 8 v, BitVec.ofNat 8 (v / 2 ^ 8), BitVec.ofNat 8 (v / 2 ^ 16),
      BitVec.ofNat 8 (v / 2 ^ 24)] =
        v := by
    simp only [number, List.foldr_cons, List.foldr_nil, BitVec.toNat_ofNat]
    omega
  have hreverse : e.flush.reverse =
      [BitVec.ofNat 8 (e.bottom * 2 ^ e.bitCount % 2 ^ 32),
        BitVec.ofNat 8 (e.bottom * 2 ^ e.bitCount % 2 ^ 32 / 2 ^ 8),
        BitVec.ofNat 8 (e.bottom * 2 ^ e.bitCount % 2 ^ 32 / 2 ^ 16),
        BitVec.ofNat 8 (e.bottom * 2 ^ e.bitCount % 2 ^ 32 / 2 ^ 24)] ++ output := by
    rw [hflush, List.reverse_append, List.reverse_reverse]
    rfl
  constructor
  · have hpow : (2 : Nat) ^ 32 = 2 ^ (32 - e.bitCount) * 2 ^ e.bitCount := by
      rw [← pow_add]
      congr 1
      omega
    have hwidth : 8 * [BitVec.ofNat 8 (e.bottom * 2 ^ e.bitCount % 2 ^ 32),
        BitVec.ofNat 8 (e.bottom * 2 ^ e.bitCount % 2 ^ 32 / 2 ^ 8),
        BitVec.ofNat 8 (e.bottom * 2 ^ e.bitCount % 2 ^ 32 / 2 ^ 16),
        BitVec.ofNat 8 (e.bottom * 2 ^ e.bitCount % 2 ^ 32 / 2 ^ 24)].length = 32 := rfl
    rw [hreverse, number_append, hbytes _ (Nat.mod_lt _ (by decide)), hwidth, hword, hlow, hpow]
    ring
  · rw [hflush, List.length_append, List.length_reverse, hlen]
    simp only [List.length_cons, List.length_nil]
    omega

/-- The bits that are flushed are in the interval. -/
theorem Holds.contains (h : Holds e i) (hpos : 1 ≤ e.range) : Contains (bitAt e.flush) i := by
  obtain ⟨hnumber, hlen⟩ := h.flush hpos
  have hbits := bitsFrom_take e.flush le_rfl
  have htail := bitsFrom_lt (bitAt_lt e.flush) (0 + (i.k + 8)) e.bitCount
  rw [List.take_length, hnumber, hlen, bitsFrom_add] at hbits
  have hequal : bitsFrom (bitAt e.flush) 0 (i.k + 8) = i.low := by
    have hupper := Nat.add_mul_div_right (bitsFrom (bitAt e.flush) (0 + (i.k + 8)) e.bitCount)
      (bitsFrom (bitAt e.flush) 0 (i.k + 8)) (Nat.two_pow_pos e.bitCount)
    rw [Nat.add_comm, hbits, Nat.mul_div_cancel _ (Nat.two_pow_pos _),
      Nat.div_eq_of_lt htail] at hupper
    omega
  have := h.range
  exact ⟨hequal.ge, by omega⟩

end Writing

section RoundTrip

variable {pairs : List (Nat × Bool)}

theorem Interval.full_start : Interval.start.Full := ⟨by decide, by decide⟩

theorem follows_start (buf : List Byte) : Follows (bitAt buf) (standardStart buf) Interval.start :=
  ⟨rfl, rfl, (bitsFrom_byte buf 0).symm⟩

/-- The decoder of the standard undoes the encoder. -/
theorem readBools_encode (hprobs : ∀ p ∈ pairs, p.1 < 2 ^ 8) :
    readBools (bitAt (encode pairs)) (standardStart (encode pairs)) (128 :: pairs.map Prod.fst) =
      0 :: pairs.map fun p => p.2.toNat := by
  have hall : ∀ p ∈ (128, false) :: pairs, p.1 < 2 ^ 8 := by
    intro p hp
    rcases List.mem_cons.mp hp with rfl | hp
    · decide
    · exact hprobs p hp
  have hholds := Holds.start.foldl Interval.full_start hall
  have hfull := (Interval.foldl_spec Interval.full_start hall).1
  have hpos : 1 ≤ (((128, false) :: pairs).foldl BoolEncoder.writeBool encoderStart).range := by
    rw [hholds.range]
    exact Nat.le_trans (by decide) hfull.1
  exact readBools_eq (bitAt_lt _) (follows_start _) Interval.full_start hall (hholds.contains hpos)

/-- What is encoded is long enough, and its marker bit is zero. -/
theorem encode_accepted (hprobs : ∀ p ∈ pairs, p.1 < 2 ^ 8) :
    3 ≤ (encode pairs).length ∧ byteAt (encode pairs) 0 < 128 := by
  constructor
  · rw [encode, BoolEncoder.flush, List.length_append]
    simp only [List.length_cons]
    omega
  · have hmarker := (List.cons_eq_cons.mp (readBools_encode hprobs)).1
    by_contra hone
    rw [StandardDecoder.readBool, StandardDecoder.choose, standardStart] at hmarker
    dsimp only at hmarker
    rw [if_neg (by omega)] at hmarker
    cases hmarker

/-- On a buffer of three bytes with a marker bit of zero the decoder returns what the decoder of the
standard does, which goes on with zeros behind the buffer. Any other buffer is refused and gives
zeros. What the encoder writes comes back. -/
theorem decodes_as_standard (buf : List Byte) (probs : List Nat) (pairs : List (Nat × Bool))
    (hprobs : ∀ prob ∈ probs, 1 ≤ prob ∧ prob < 2 ^ 8)
    (hpairs : ∀ p ∈ pairs, 1 ≤ p.1 ∧ p.1 < 2 ^ 8) :
    (3 ≤ buf.length ∧ byteAt buf 0 < 128 →
      decodeBools (boolInit buf) probs = readBools (bitAt buf) (standardInit buf) probs) ∧
    (¬(3 ≤ buf.length ∧ byteAt buf 0 < 128) →
      (boolInit buf).error = true ∧ decodeBools (boolInit buf) probs = probs.map fun _ => 0) ∧
    decodeBools (boolInit (encode pairs)) (pairs.map Prod.fst) = pairs.map fun p => p.2.toNat := by
  refine ⟨?_, ?_, ?_⟩
  · rintro ⟨hlen, hmarker⟩
    obtain ⟨htracks, hbuf⟩ := boolInit_tracks hlen hmarker
    rw [decodeBools_eq htracks fun prob hp => (hprobs prob hp).2, hbuf]
  · intro hrefused
    have herror := boolInit_error hrefused
    exact ⟨herror, decodeBools_error herror⟩
  · have hbound : ∀ p ∈ pairs, p.1 < 2 ^ 8 := fun p hp => (hpairs p hp).2
    obtain ⟨hlen, hmarker⟩ := encode_accepted hbound
    obtain ⟨htracks, hbuf⟩ := boolInit_tracks hlen hmarker
    have hread := (List.cons_eq_cons.mp (readBools_encode hbound)).2
    have hmap : ∀ prob ∈ pairs.map Prod.fst, prob < 2 ^ 8 := by
      intro prob hprob
      obtain ⟨p, hp, rfl⟩ := List.mem_map.mp hprob
      exact hbound p hp
    rw [decodeBools_eq htracks hmap, hbuf]
    exact hread

/-- Six bytes, so that the value is refilled twice, and what twenty pairs encode to. -/
theorem six_bytes_decode :
    decodeBools (boolInit [0x35, 0xa7, 0x1c, 0x99, 0x40, 0xee])
        (List.replicate 6 [128, 3, 250]).flatten =
      [0, 1, 0, 1, 1, 0, 1, 1, 0, 0, 1, 0, 1, 1, 0, 1, 1, 0] ∧
    decodeBools (boolInit [0x40, 0xfa, 0xf2, 0xef, 0x2b, 0xbc, 0xae, 0xc2, 0x00])
        (List.replicate 4 [128, 3, 250, 1, 77]).flatten =
      (List.replicate 4 [1, 0, 1, 1, 0]).flatten := by
  obtain ⟨hread, -, hback⟩ := decodes_as_standard [0x35, 0xa7, 0x1c, 0x99, 0x40, 0xee]
    (List.replicate 6 [128, 3, 250]).flatten
    (List.replicate 4 [(128, true), (3, false), (250, true), (1, true), (77, false)]).flatten
    (by decide) (by decide)
  constructor
  · exact (hread ⟨by decide, by decide⟩).trans (by decide +kernel)
  · have hencoded : encode
        (List.replicate 4 [(128, true), (3, false), (250, true), (1, true), (77, false)]).flatten =
          [0x40, 0xfa, 0xf2, 0xef, 0x2b, 0xbc, 0xae, 0xc2, 0x00] := by
      decide +kernel
    rw [hencoded] at hback
    exact hback

/-- Two bytes hold fifteen bits for the standard, and nothing for the decoder. -/
theorem two_bytes_refused :
    ¬∀ (buf : List Byte) (probs : List Nat), (∀ prob ∈ probs, 1 ≤ prob ∧ prob < 2 ^ 8) →
      decodeBools (boolInit buf) probs = readBools (bitAt buf) (standardInit buf) probs := by
  intro h
  exact absurd (h [0x7f, 0xff] [128] (by decide)) (by decide +kernel)

end RoundTrip

end Rkvdec.Vp9.Boolean
