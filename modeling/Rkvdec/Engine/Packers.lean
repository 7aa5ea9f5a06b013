import Mathlib.Tactic
import Mathlib.Data.Nat.Bitwise
import Rkvdec.Engine.PackedTables
import Rkvdec.Lib.Fields

/-! The bit packers that write the tables, word by word: each one concatenates its fields, the
lowest bit first, and leaves what is behind its buffer. -/
namespace Rkvdec.Engine.Packers

open Bitstream (Byte)

/-- `BitPacker` and `ProbBitPacker`. `data` are the words from the start of the buffer on, and the
buffer is the first `cap` of them. -/
structure BitPacker where
  data : Nat → BitVec 64
  cap : Nat
  wordIdx : Nat := 0
  bitInWord : Nat := 0

namespace BitPacker

/-- `data[i] |= v`. -/
def orWord (bp : BitPacker) (i : Nat) (v : BitVec 64) : BitPacker :=
  { bp with data := Function.update bp.data i (bp.data i ||| v) }

/-- `put`, which is the same in all of them. -/
def put (bp : BitPacker) (value : BitVec 64) (nbits : Nat) : BitPacker :=
  if nbits = 0 then bp
  else
    let mask : BitVec 64 := if nbits = 64 then BitVec.allOnes 64 else (1#64 <<< nbits) - 1#64
    let v := value &&& mask
    if bp.cap ≤ bp.wordIdx then bp
    else if bp.bitInWord + nbits ≤ 64 then
      let bp : BitPacker :=
        { bp.orWord bp.wordIdx (v <<< bp.bitInWord) with bitInWord := bp.bitInWord + nbits }
      if bp.bitInWord = 64 then { bp with wordIdx := bp.wordIdx + 1, bitInWord := 0 } else bp
    else
      let lowBits := 64 - bp.bitInWord
      let low := (v &&& ((1#64 <<< lowBits) - 1#64)) <<< bp.bitInWord
      let bp : BitPacker := { bp.orWord bp.wordIdx low with wordIdx := bp.wordIdx + 1 }
      let bp := if bp.wordIdx < bp.cap then bp.orWord bp.wordIdx (v >>> lowBits) else bp
      { bp with bitInWord := nbits - lowBits }

/-- `word_idx * 64 + bit_in_word`. -/
def total (bp : BitPacker) : Nat := bp.wordIdx * 64 + bp.bitInWord

/-- `((total + n - 1) & ~(n - 1)) - total`. -/
def padding (bp : BitPacker) (n : Nat) : Nat := Nat.ldiff (bp.total + n - 1) (n - 1) - bp.total

/-- The loop of `align`, where `pattern` is what is put for a chunk of so many bits. -/
def alignLoop (pattern : Nat → BitVec 64) (bp : BitPacker) (pad : Nat) : BitPacker :=
  if pad = 0 then bp
  else
    let chunk := if 32 < pad then 32 else pad
    alignLoop pattern (bp.put (pattern chunk) chunk) (pad - chunk)
termination_by pad
decreasing_by split <;> omega

def alignBy (pattern : Nat → BitVec 64) (bp : BitPacker) (n : Nat) : BitPacker :=
  alignLoop pattern bp (bp.padding n)

/-- The buffer as it lies in memory. -/
def bytes (bp : BitPacker) : List Byte :=
  (List.range (8 * bp.cap)).map fun i => (bp.data (i / 8) >>> (8 * (i % 8))).setWidth 8

end BitPacker

/-- What is asked of a packer. `Skip` has no elements where it cannot skip, and `Fill` a single one
where it pads with zeros only. -/
inductive Op (Skip Fill : Type) where
  | put (value : BitVec 64) (n : Nat)
  | skip (n : Skip)
  | align (n : Nat) (fill : Fill)

namespace H264

/-- `align` of `h264_packed_tables.cpp`. -/
def align (bp : BitPacker) (n : Nat) : BitPacker := bp.alignBy (fun _ => 0) n

/-- `init`, which clears the buffer. -/
def init (memory : Nat → BitVec 64) (cap : Nat) : BitPacker where
  data i := if i < cap then 0 else memory i
  cap := cap

def step (bp : BitPacker) : Op Empty Unit → BitPacker
  | .put value n => bp.put value n
  | .skip n => n.elim
  | .align n () => align bp n

end H264

namespace H265

/-- `skip` of `h265_packed_tables.cpp`. -/
def skip (bp : BitPacker) (nbits : Nat) : BitPacker :=
  if nbits = 0 then bp
  else
    let total := bp.total + nbits
    let wordIdx := total / 64
    { bp with
      wordIdx := if bp.cap < wordIdx then bp.cap else wordIdx
      bitInWord := total % 64 }

/-- `align` of `h265_packed_tables.cpp`. -/
def align (bp : BitPacker) (n : Nat) (fill : Bool) : BitPacker :=
  bp.alignBy (fun _ => if fill then BitVec.allOnes 64 else 0) n

/-- `init`, which clears the buffer. -/
def init (memory : Nat → BitVec 64) (cap : Nat) : BitPacker where
  data i := if i < cap then 0 else memory i
  cap := cap

def step (bp : BitPacker) : Op Nat Bool → BitPacker
  | .put value n => bp.put value n
  | .skip n => skip bp n
  | .align n fill => align bp n fill

end H265

namespace Vp9

/-- `align` of `regbuilder_vp9.cpp`. -/
def align (bp : BitPacker) (n : Nat) (fill : Bool) : BitPacker :=
  bp.alignBy (fun chunk => if fill then (1#64 <<< chunk) - 1#64 else 0) n

/-- `init`; the buffer is as the caller left it. -/
def init (memory : Nat → BitVec 64) (cap : Nat) : BitPacker where
  data := memory
  cap := cap

def step (bp : BitPacker) : Op Empty Bool → BitPacker
  | .put value n => bp.put value n
  | .skip n => n.elim
  | .align n fill => align bp n fill

end Vp9

namespace Op

variable {Skip Fill : Type}

/-- A request to one packer as one to another that can do more. -/
def map {Skip' Fill' : Type} (f : Skip → Skip') (g : Fill → Fill') : Op Skip Fill → Op Skip' Fill'
  | put value n => put value n
  | skip n => skip (f n)
  | align n fill => align n (g fill)

/-- Fields have 1 to 64 bits, and an alignment is a power of two. -/
def Valid : Op Skip Fill → Prop
  | put _ n => 1 ≤ n ∧ n ≤ 64
  | skip _ => True
  | align n _ => ∃ k, n = 2 ^ k

theorem Valid.map {Skip' Fill' : Type} {f : Skip → Skip'} {g : Fill → Fill'} {op : Op Skip Fill}
    (h : op.Valid) :
    (op.map f g).Valid := by
  cases op with
  | put value n => exact h
  | skip n => exact h
  | align n fill => exact h

/-- The lowest `n` bits of a value, the lowest first. -/
def lowBits (n : Nat) (v : BitVec 64) : List Bool := (List.range n).map v.getLsbD

/-- What the request adds behind `pos` bits. -/
def added (pos : Nat) : Op Nat Bool → List Bool
  | put value n => lowBits n value
  | skip n => List.replicate n false
  | align n fill => List.replicate ((n - pos % n) % n) fill

/-- All the bits of a sequence of requests. -/
def concat (ops : List (Op Nat Bool)) : List Bool :=
  ops.foldl (fun w op => w ++ op.added w.length) []

end Op

section Invariant

variable {memory : Nat → BitVec 64} {bp : BitPacker} {w : List Bool} {n i : Nat} {v : BitVec 64}

/-- Bit `i` of the words. -/
def BitPacker.bit (bp : BitPacker) (i : Nat) : Bool := (bp.data (i / 64)).getLsbD (i % 64)

/-- The buffer has the bits `w` as far as there is room, and there is nothing else in it. -/
structure Packed (memory : Nat → BitVec 64) (cap : Nat) (w : List Bool)
    (bp : BitPacker) : Prop where
  capacity : bp.cap = cap
  bits : ∀ i < 64 * cap, bp.bit i = w.getD i false
  outside : ∀ j, cap ≤ j → bp.data j = memory j

/-- The packer also goes on behind them. -/
structure Holds (memory : Nat → BitVec 64) (cap : Nat) (w : List Bool) (bp : BitPacker) : Prop
    extends Packed memory cap w bp where
  low : bp.bitInWord < 64
  inside : w.length < 64 * cap → bp.total = w.length
  past : 64 * cap ≤ w.length → cap ≤ bp.wordIdx

theorem length_lowBits (n : Nat) (v : BitVec 64) : (Op.lowBits n v).length = n := by
  rw [Op.lowBits, List.length_map, List.length_range]

theorem getD_lowBits (n : Nat) (v : BitVec 64) (i : Nat) :
    (Op.lowBits n v).getD i false = (decide (i < n) && v.getLsbD i) := by
  rw [Op.lowBits, List.getD_eq_getElem?_getD, List.getElem?_map]
  by_cases hi : i < n
  · rw [List.getElem?_range hi, decide_eq_true hi, Bool.true_and]
    rfl
  · rw [List.getElem?_eq_none (by rw [List.length_range]; omega), decide_eq_false hi,
      Bool.false_and]
    rfl

/-- A mask of `n` ones. -/
theorem getLsbD_ones (hn : n < 64) (i : Nat) :
    ((1#64 <<< n) - 1#64).getLsbD i = decide (i < n) := by
  have hpow : 2 ^ n < 2 ^ 64 := Nat.pow_lt_pow_right (by omega) hn
  have hpos : 0 < 2 ^ n := Nat.two_pow_pos n
  have hvalue : ((1#64 <<< n) - 1#64).toNat = 2 ^ n - 1 := by
    have hshift : (1#64 <<< n).toNat = 2 ^ n := by
      have hone : (1#64).toNat = 1 := rfl
      rw [BitVec.toNat_shiftLeft, Nat.shiftLeft_eq, hone, Nat.one_mul, Nat.mod_eq_of_lt hpow]
    rw [BitVec.toNat_sub_of_le]
    · rw [hshift]
      rfl
    · rw [BitVec.le_def, hshift]
      exact hpos
  rw [BitVec.getLsbD, hvalue, Nat.testBit_two_pow_sub_one]

theorem getLsbD_mask (hn : n ≤ 64) (i : Nat) :
    (if n = 64 then BitVec.allOnes 64 else (1#64 <<< n) - 1#64).getLsbD i = decide (i < n) := by
  by_cases h : n = 64
  · rw [if_pos h, h, BitVec.getLsbD_allOnes]
  · rw [if_neg h, getLsbD_ones (by omega)]

theorem bit_orWord (k : Nat) (v : BitVec 64) (i : Nat) :
    (bp.orWord k v).bit i = (bp.bit i || (decide (i / 64 = k) && v.getLsbD (i % 64))) := by
  unfold BitPacker.bit BitPacker.orWord
  dsimp only
  by_cases hk : i / 64 = k
  · rw [hk, Function.update_self, BitVec.getLsbD_or, decide_eq_true rfl, Bool.true_and]
  · rw [Function.update_of_ne hk, decide_eq_false hk, Bool.false_and, Bool.or_false]

theorem data_orWord {k j : Nat} (h : j ≠ k) : (bp.orWord k v).data j = bp.data j :=
  Function.update_of_ne h ..

/-- What `put` does where there is room for its first bit. -/
structure Put (bp : BitPacker) (v : BitVec 64) (n : Nat) (bp' : BitPacker) : Prop where
  capacity : bp'.cap = bp.cap
  total : bp'.total = bp.total + n
  low : bp'.bitInWord < 64
  bits : ∀ i < 64 * bp.cap,
    bp'.bit i = (bp.bit i || (decide (bp.total ≤ i ∧ i < bp.total + n) && v.getLsbD (i - bp.total)))
  outside : ∀ j, bp.cap ≤ j → bp'.data j = bp.data j

theorem put_full (h : bp.cap ≤ bp.wordIdx) : bp.put v n = bp := by
  unfold BitPacker.put
  split_ifs <;> rfl

/-- The bits of a field that one word gets: those from `d` of the field on, from `k` of the word
on. -/
theorem getLsbD_part {masked : BitVec 64} {start word k d : Nat}
    (hmasked : ∀ j, masked.getLsbD j = (v.getLsbD j && decide (j < n)))
    (hk : start + d = word * 64 + k) (hword : i / 64 = word) (hbefore : k ≤ i % 64) :
    masked.getLsbD (i % 64 - k + d) =
    (decide (start ≤ i ∧ i < start + n) && v.getLsbD (i - start)) := by
  have hindex : i % 64 - k + d = i - start := by omega
  rw [hindex, hmasked, Bool.and_comm]
  congr 1
  rw [decide_eq_decide]
  omega

theorem getLsbD_masked (v : BitVec 64) (hn : n ≤ 64) (j : Nat) :
    (v &&& if n = 64 then BitVec.allOnes 64 else (1#64 <<< n) - 1#64).getLsbD j =
    (v.getLsbD j && decide (j < n)) := by
  rw [BitVec.getLsbD_and, getLsbD_mask hn]

/-- A field that the word has room for. -/
theorem put_within (hroom : bp.wordIdx < bp.cap) (hpos : 1 ≤ n) (hfits : bp.bitInWord + n ≤ 64) :
    Put bp v n (bp.put v n) := by
  have hmasked := getLsbD_masked v (n := n) (by omega)
  unfold BitPacker.put
  rw [if_neg (by omega)]
  dsimp only
  generalize (v &&& if n = 64 then BitVec.allOnes 64 else (1#64 <<< n) - 1#64) = masked at hmasked
  rw [if_neg (by omega)]
  have htotal : bp.total + 0 = bp.wordIdx * 64 + bp.bitInWord := rfl
  rw [if_pos hfits]
  have hbits : ∀ i, (bp.orWord bp.wordIdx (masked <<< bp.bitInWord)).bit i =
      (bp.bit i || (decide (bp.total ≤ i ∧ i < bp.total + n) && v.getLsbD (i - bp.total))) := by
    intro i
    rw [bit_orWord, BitVec.getLsbD_shiftLeft]
    congr 1
    by_cases hin : i / 64 = bp.wordIdx ∧ bp.bitInWord ≤ i % 64
    · have hpart := getLsbD_part hmasked htotal hin.1 hin.2
      rw [Nat.add_zero] at hpart
      rw [decide_eq_true hin.1, decide_eq_true (by omega : i % 64 < 64),
        decide_eq_false (by omega : ¬i % 64 < bp.bitInWord), hpart]
      rfl
    · have hout : ¬(bp.total ≤ i ∧ i < bp.total + n) := by omega
      rw [decide_eq_false hout, Bool.false_and]
      by_cases hword : i / 64 = bp.wordIdx
      · rw [decide_eq_true (by omega : i % 64 < bp.bitInWord), Bool.not_true, Bool.and_false,
          Bool.false_and, Bool.and_false]
      · rw [decide_eq_false hword, Bool.false_and]
  split
  · rename_i hend
    refine ⟨rfl, ?_, Nat.zero_lt_succ 63, fun i _ => hbits i, fun j hj => data_orWord (by omega)⟩
    change (bp.wordIdx + 1) * 64 + 0 = _
    omega
  · rename_i hend
    refine ⟨rfl, ?_, Nat.lt_of_le_of_ne hfits hend, fun i _ => hbits i,
      fun j hj => data_orWord (by omega)⟩
    change bp.wordIdx * 64 + (bp.bitInWord + n) = _
    omega

/-- A field that goes on in the next word, which the buffer may not have. -/
theorem put_across (hlow : bp.bitInWord < 64) (hroom : bp.wordIdx < bp.cap) (hn : n ≤ 64)
    (hfits : ¬bp.bitInWord + n ≤ 64) : Put bp v n (bp.put v n) := by
  have hmasked := getLsbD_masked v hn
  unfold BitPacker.put
  rw [if_neg (by omega)]
  dsimp only
  generalize (v &&& if n = 64 then BitVec.allOnes 64 else (1#64 <<< n) - 1#64) = masked at hmasked
  rw [if_neg (by omega)]
  have htotal : bp.total + 0 = bp.wordIdx * 64 + bp.bitInWord := rfl
  rw [if_neg hfits]
  have hsplit : bp.total + (64 - bp.bitInWord) = (bp.wordIdx + 1) * 64 + 0 := by omega
  have hfirst : ∀ i, (bp.orWord bp.wordIdx
        ((masked &&& ((1#64 <<< (64 - bp.bitInWord)) - 1#64)) <<< bp.bitInWord)).bit i =
      (bp.bit i || (decide (i / 64 = bp.wordIdx) &&
        (decide (bp.total ≤ i ∧ i < bp.total + n) && v.getLsbD (i - bp.total)))) := by
    intro i
    rw [bit_orWord, BitVec.getLsbD_shiftLeft, BitVec.getLsbD_and, getLsbD_ones (by omega)]
    congr 1
    by_cases hword : i / 64 = bp.wordIdx
    · rw [decide_eq_true hword, Bool.true_and, Bool.true_and,
        decide_eq_true (by omega : i % 64 < 64), Bool.true_and]
      by_cases hbefore : bp.bitInWord ≤ i % 64
      · have hpart := getLsbD_part hmasked htotal hword hbefore
        rw [Nat.add_zero] at hpart
        rw [decide_eq_false (by omega : ¬i % 64 < bp.bitInWord),
          decide_eq_true (by omega : i % 64 - bp.bitInWord < 64 - bp.bitInWord), hpart,
          Bool.and_true]
        rfl
      · have hout : ¬(bp.total ≤ i ∧ i < bp.total + n) := by omega
        rw [decide_eq_false hout, decide_eq_true (by omega : i % 64 < bp.bitInWord)]
        rfl
    · rw [decide_eq_false hword, Bool.false_and, Bool.false_and]
  have hsecond : ∀ i, i / 64 = bp.wordIdx + 1 → (masked >>> (64 - bp.bitInWord)).getLsbD (i % 64) =
      (decide (bp.total ≤ i ∧ i < bp.total + n) && v.getLsbD (i - bp.total)) := by
    intro i hword
    have hpart := getLsbD_part hmasked hsplit hword (Nat.zero_le _)
    rw [Nat.sub_zero] at hpart
    rw [BitVec.getLsbD_ushiftRight, Nat.add_comm, hpart]
  have hbeyond : ∀ i, i / 64 ≠ bp.wordIdx → i / 64 ≠ bp.wordIdx + 1 →
      ¬(bp.total ≤ i ∧ i < bp.total + n) := by
    intro i hfirst hsecond
    omega
  have htail : bp.wordIdx * 64 + 64 + (n - (64 - bp.bitInWord)) = bp.total + n := by omega
  generalize (masked &&& ((1#64 <<< (64 - bp.bitInWord)) - 1#64)) <<< bp.bitInWord = first at hfirst
  by_cases hnext : bp.wordIdx + 1 < (bp.orWord bp.wordIdx first).cap
  · rw [if_pos hnext]
    refine ⟨rfl, ?_, ?_, fun i hi => ?_, fun j hj => ?_⟩
    · refine Eq.trans ?_ htail
      change (bp.wordIdx + 1) * 64 + (n - (64 - bp.bitInWord)) = _
      omega
    · change n - (64 - bp.bitInWord) < 64
      omega
    · change ((bp.orWord bp.wordIdx first).orWord (bp.wordIdx + 1)
          (masked >>> (64 - bp.bitInWord))).bit i = _
      rw [bit_orWord, hfirst, Bool.or_assoc]
      congr 1
      by_cases hword : i / 64 = bp.wordIdx + 1
      · rw [decide_eq_false (by omega : ¬i / 64 = bp.wordIdx), decide_eq_true hword, Bool.false_and,
          Bool.false_or, Bool.true_and, hsecond i hword]
      · rw [decide_eq_false hword, Bool.false_and, Bool.or_false]
        by_cases hold : i / 64 = bp.wordIdx
        · rw [decide_eq_true hold, Bool.true_and]
        · rw [decide_eq_false hold, decide_eq_false (hbeyond i hold hword), Bool.false_and,
            Bool.false_and]
    · change ((bp.orWord bp.wordIdx first).orWord (bp.wordIdx + 1)
          (masked >>> (64 - bp.bitInWord))).data j = _
      have hcap : bp.wordIdx + 1 < bp.cap := hnext
      rw [data_orWord (by omega), data_orWord (by omega)]
  · rw [if_neg hnext]
    have hcap : ¬bp.wordIdx + 1 < bp.cap := hnext
    refine ⟨rfl, ?_, ?_, fun i hi => ?_, fun j hj => ?_⟩
    · refine Eq.trans ?_ htail
      change (bp.wordIdx + 1) * 64 + (n - (64 - bp.bitInWord)) = _
      omega
    · change n - (64 - bp.bitInWord) < 64
      omega
    · change (bp.orWord bp.wordIdx first).bit i = _
      rw [hfirst]
      congr 1
      by_cases hold : i / 64 = bp.wordIdx
      · rw [decide_eq_true hold, Bool.true_and]
      · rw [decide_eq_false hold, decide_eq_false (hbeyond i hold (by omega)), Bool.false_and,
          Bool.false_and]
    · change (bp.orWord bp.wordIdx first).data j = _
      rw [data_orWord (by omega)]

theorem put_spec (hlow : bp.bitInWord < 64) (hroom : bp.wordIdx < bp.cap) (hpos : 1 ≤ n)
    (hn : n ≤ 64) :
    Put bp v n (bp.put v n) := by
  by_cases hfits : bp.bitInWord + n ≤ 64
  · exact put_within hroom hpos hfits
  · exact put_across hlow hroom hn hfits

variable {cap : Nat} {x : List Bool}

theorem getD_append (w x : List Bool) (i : Nat) :
    (w ++ x).getD i false =
    (w.getD i false || (decide (w.length ≤ i) && x.getD (i - w.length) false)) := by
  rw [List.getD_eq_getElem?_getD, List.getD_eq_getElem?_getD, List.getD_eq_getElem?_getD]
  by_cases hi : i < w.length
  · rw [List.getElem?_append_left hi, decide_eq_false (by omega), Bool.false_and, Bool.or_false]
  · rw [List.getElem?_append_right (by omega), decide_eq_true (by omega),
      List.getElem?_eq_none (by omega : w.length ≤ i)]
    rfl

theorem getD_replicate (n : Nat) (b : Bool) (i : Nat) :
    (List.replicate n b).getD i false = (decide (i < n) && b) := by
  rw [List.getD_eq_getElem?_getD, List.getElem?_replicate]
  by_cases hi : i < n
  · rw [if_pos hi, decide_eq_true hi]
    rfl
  · rw [if_neg hi, decide_eq_false hi]
    rfl

namespace Holds

/-- Behind the buffer nothing is written any more. -/
theorem beyond (h : Holds memory cap w bp) (hpast : 64 * cap ≤ w.length) :
    Holds memory cap (w ++ x) bp := by
  have hlength : w.length ≤ (w ++ x).length := by
    rw [List.length_append]
    exact Nat.le_add_right _ _
  refine ⟨⟨h.capacity, ?_, h.outside⟩, h.low, fun hlt => absurd hlt (by omega),
    fun _ => h.past hpast⟩
  intro i hi
  rw [h.bits i hi, getD_append, decide_eq_false (by omega), Bool.false_and, Bool.or_false]

/-- There is room for the next bit exactly while the bits end inside. -/
theorem room (h : Holds memory cap w bp) (hin : w.length < 64 * cap) : bp.wordIdx < bp.cap := by
  have htotal := h.inside hin
  rw [h.capacity]
  unfold BitPacker.total at htotal
  omega

theorem full (h : Holds memory cap w bp) (hpast : 64 * cap ≤ w.length) : bp.cap ≤ bp.wordIdx := by
  rw [h.capacity]
  exact h.past hpast

theorem put (h : Holds memory cap w bp) (hpos : 1 ≤ n) (hn : n ≤ 64) :
    Holds memory cap (w ++ Op.lowBits n v) (bp.put v n) := by
  rcases Nat.lt_or_ge w.length (64 * cap) with hin | hpast
  · have htotal := h.inside hin
    have hput := put_spec (v := v) h.low (h.room hin) hpos hn
    have hcap : bp.cap = cap := h.capacity
    have hlength : (w ++ Op.lowBits n v).length = (bp.put v n).total := by
      rw [List.length_append, length_lowBits, hput.total, htotal]
    refine ⟨⟨hput.capacity.trans hcap, ?_, ?_⟩, hput.low, fun _ => hlength.symm, ?_⟩
    · intro i hi
      rw [hput.bits i (by omega), h.bits i hi, getD_append, getD_lowBits, htotal]
      congr 1
      rw [← Bool.and_assoc, Bool.decide_and]
      congr 2
      rw [decide_eq_decide]
      omega
    · intro j hj
      rw [hput.outside j (by omega), h.outside j hj]
    · intro hle
      have hlow := hput.low
      rw [hlength, BitPacker.total] at hle
      omega
  · rw [put_full (h.full hpast)]
    exact h.beyond hpast

theorem skip (h : Holds memory cap w bp) (n : Nat) :
    Holds memory cap (w ++ List.replicate n false) (H265.skip bp n) := by
  unfold H265.skip
  by_cases hzero : n = 0
  · rw [if_pos hzero, hzero, List.replicate_zero, List.append_nil]
    exact h
  have hcap : bp.cap = cap := h.capacity
  have hlength : (w ++ List.replicate n false).length = w.length + n := by
    rw [List.length_append, List.length_replicate]
  rw [if_neg hzero]
  refine ⟨⟨hcap, ?_, h.outside⟩, Nat.mod_lt _ (by omega), ?_, ?_⟩
  · intro i hi
    have hbit : bp.bit i = w.getD i false := h.bits i hi
    rw [getD_append, getD_replicate, Bool.and_false, Bool.and_false, Bool.or_false]
    exact hbit
  · intro hin
    have htotal := h.inside (by omega)
    unfold BitPacker.total at htotal ⊢
    dsimp only
    rw [hlength, if_neg (by omega)]
    omega
  · intro hpast
    dsimp only
    split
    · omega
    · rcases Nat.lt_or_ge w.length (64 * cap) with hin | hout
      · have htotal := h.inside hin
        omega
      · have hword := h.past hout
        unfold BitPacker.total
        omega

theorem alignLoop {pattern : Nat → BitVec 64} {fill : Bool}
    (hpattern : ∀ chunk ≤ 32, Op.lowBits chunk (pattern chunk) = List.replicate chunk fill)
    (pad : Nat) (h : Holds memory cap w bp) :
    Holds memory cap (w ++ List.replicate pad fill) (bp.alignLoop pattern pad) := by
  induction pad using Nat.strong_induction_on generalizing w bp with
  | _ pad ih =>
    unfold BitPacker.alignLoop
    by_cases hzero : pad = 0
    · rw [if_pos hzero, hzero, List.replicate_zero, List.append_nil]
      exact h
    rw [if_neg hzero]
    dsimp only
    have hchunk : 1 ≤ (if 32 < pad then 32 else pad) ∧ (if 32 < pad then 32 else pad) ≤ 32 ∧
        (if 32 < pad then 32 else pad) ≤ pad := by
      split <;> omega
    generalize (if 32 < pad then 32 else pad) = chunk at hchunk
    obtain ⟨hpos, hle, hrest⟩ := hchunk
    have hput := h.put (v := pattern chunk) hpos (by omega)
    rw [hpattern chunk hle] at hput
    have hloop := ih (pad - chunk) (by omega) hput
    rwa [List.append_assoc, List.replicate_append_replicate, Nat.add_sub_cancel' hrest] at hloop

end Holds

/-- `x & ~(2 ^ k - 1)`. -/
theorem ldiff_ones (x k : Nat) : Nat.ldiff x (2 ^ k - 1) = x / 2 ^ k * 2 ^ k := by
  refine Nat.eq_of_testBit_eq fun i => ?_
  rw [Nat.testBit_ldiff, Nat.testBit_two_pow_sub_one, Nat.testBit_mul_two_pow,
    Nat.testBit_div_two_pow]
  by_cases hi : i < k
  · rw [decide_eq_true hi, decide_eq_false (by omega), Bool.not_true, Bool.and_false,
      Bool.false_and]
  · rw [decide_eq_false hi, decide_eq_true (by omega), Nat.sub_add_cancel (by omega),
      Bool.not_false, Bool.and_true, Bool.true_and]

theorem padding_eq (bp : BitPacker) (k : Nat) :
    bp.padding (2 ^ k) = (2 ^ k - bp.total % 2 ^ k) % 2 ^ k := by
  unfold BitPacker.padding
  rw [ldiff_ones]
  have hpos : 0 < 2 ^ k := Nat.two_pow_pos k
  have hdiv := Nat.div_add_mod bp.total (2 ^ k)
  have hlt := Nat.mod_lt bp.total hpos
  generalize 2 ^ k = m at hpos hdiv hlt
  generalize bp.total % m = r at hdiv hlt
  generalize bp.total / m = q at hdiv
  rw [← hdiv]
  have hsum : m * q + r + m - 1 = m * q + (r + m - 1) := by omega
  rw [hsum, Nat.mul_add_div hpos]
  rcases Nat.eq_zero_or_pos r with hr | hr
  · rw [hr, Nat.zero_add, Nat.div_eq_of_lt (by omega : m - 1 < m), Nat.sub_zero, Nat.mod_self,
      Nat.add_zero, Nat.add_zero, Nat.mul_comm, Nat.sub_self]
  · have hone : (r + m - 1) / m = 1 := by
      rw [Nat.div_eq_iff hpos]
      omega
    rw [hone, Nat.mod_eq_of_lt (by omega), Nat.add_mul, Nat.one_mul, Nat.mul_comm q]
    omega

theorem Holds.alignBy {pattern : Nat → BitVec 64} {fill : Bool}
    (hpattern : ∀ chunk ≤ 32, Op.lowBits chunk (pattern chunk) = List.replicate chunk fill)
    (k : Nat) (h : Holds memory cap w bp) :
    Holds memory cap (w ++ List.replicate ((2 ^ k - w.length % 2 ^ k) % 2 ^ k) fill)
      (bp.alignBy pattern (2 ^ k)) := by
  unfold BitPacker.alignBy
  rcases Nat.lt_or_ge w.length (64 * cap) with hin | hpast
  · rw [padding_eq, h.inside hin]
    exact h.alignLoop hpattern _
  · have hstay : ∀ pad, bp.alignLoop pattern pad = bp := by
      intro pad
      induction pad using Nat.strong_induction_on with
      | _ pad ih =>
        unfold BitPacker.alignLoop
        by_cases hzero : pad = 0
        · rw [if_pos hzero]
        · rw [if_neg hzero]
          dsimp only
          rw [put_full (h.full hpast)]
          exact ih _ (by split <;> omega)
    rw [hstay]
    exact h.beyond hpast

end Invariant

section Runs

variable {memory : Nat → BitVec 64} {cap : Nat} {bp : BitPacker} {w : List Bool}

theorem lowBits_zero (chunk : Nat) : Op.lowBits chunk 0 = List.replicate chunk false := by
  rw [Op.lowBits, List.eq_replicate_iff]
  refine ⟨by rw [List.length_map, List.length_range], fun b hb => ?_⟩
  obtain ⟨i, -, rfl⟩ := List.mem_map.mp hb
  exact BitVec.getLsbD_zero

theorem lowBits_fill {fill : Bool} {v : BitVec 64} {chunk : Nat}
    (hv : ∀ i < chunk, v.getLsbD i = fill) :
    Op.lowBits chunk v = List.replicate chunk fill := by
  rw [Op.lowBits, List.eq_replicate_iff]
  refine ⟨by rw [List.length_map, List.length_range], fun b hb => ?_⟩
  obtain ⟨i, hi, rfl⟩ := List.mem_map.mp hb
  exact hv i (List.mem_range.mp hi)

theorem holds_start {bp : BitPacker} (hcap : bp.cap = cap) (hword : bp.wordIdx = 0)
    (hbit : bp.bitInWord = 0) (hzero : ∀ j < cap, bp.data j = 0)
    (houtside : ∀ j, cap ≤ j → bp.data j = memory j) : Holds memory cap [] bp := by
  refine ⟨⟨hcap, fun i hi => ?_, houtside⟩, by omega, fun _ => ?_, fun hle => ?_⟩
  · rw [BitPacker.bit, hzero (i / 64) (by omega)]
    exact BitVec.getLsbD_zero
  · rw [BitPacker.total, hword, hbit]
    rfl
  · rw [List.length_nil] at hle
    omega

/-- Each packer adds what the request says. -/
theorem holds_h265 {op : Op Nat Bool} (hop : op.Valid) (h : Holds memory cap w bp) :
    Holds memory cap (w ++ op.added w.length) (H265.step bp op) := by
  cases op with
  | put value n => exact h.put hop.1 hop.2
  | skip n => exact h.skip n
  | align n fill =>
    obtain ⟨k, rfl⟩ := hop
    refine h.alignBy (fun chunk hchunk => ?_) k
    cases fill with
    | false => exact lowBits_zero chunk
    | true =>
      refine lowBits_fill fun i hi => ?_
      rw [if_pos rfl, BitVec.getLsbD_allOnes, decide_eq_true (by omega)]

theorem holds_vp9 {op : Op Empty Bool} (hop : op.Valid) (h : Holds memory cap w bp) :
    Holds memory cap (w ++ (op.map Empty.elim id).added w.length) (Vp9.step bp op) := by
  cases op with
  | put value n => exact h.put hop.1 hop.2
  | skip n => exact n.elim
  | align n fill =>
    obtain ⟨k, rfl⟩ := hop
    refine h.alignBy (fun chunk hchunk => ?_) k
    cases fill with
    | false => exact lowBits_zero chunk
    | true =>
      refine lowBits_fill fun i hi => ?_
      rw [if_pos rfl, getLsbD_ones (by omega), decide_eq_true hi]
      rfl

theorem holds_h264 {op : Op Empty Unit} (hop : op.Valid) (h : Holds memory cap w bp) :
    Holds memory cap (w ++ (op.map Empty.elim fun _ => false).added w.length)
      (H264.step bp op) := by
  cases op with
  | put value n => exact h.put hop.1 hop.2
  | skip n => exact n.elim
  | align n fill =>
    obtain ⟨k, rfl⟩ := hop
    exact h.alignBy (fun chunk _ => lowBits_zero chunk) k

/-- The step rule over a run. -/
theorem holds_foldl {Skip Fill : Type} {step : BitPacker → Op Skip Fill → BitPacker}
    {f : Op Skip Fill → Op Nat Bool}
    (hstep : ∀ {op w bp}, op.Valid → Holds memory cap w bp → Holds memory cap
    (w ++ (f op).added w.length) (step bp op))
    (ops : List (Op Skip Fill)) (hops : ∀ op ∈ ops, op.Valid) (h : Holds memory cap w bp) :
    Holds memory cap ((ops.map f).foldl (fun w op => w ++ op.added w.length) w)
      (ops.foldl step bp) := by
  induction ops generalizing w bp with
  | nil => exact h
  | cons op ops ih =>
    exact ih (fun o ho => hops o (List.mem_cons_of_mem _ ho)) (hstep (hops op List.mem_cons_self) h)

/-- Two buffers with the same bits are the same in memory. -/
theorem Packed.bytes_eq {bp' : BitPacker} (h : Packed memory cap w bp)
    (h' : Packed memory cap w bp') :
    bp.bytes = bp'.bytes := by
  unfold BitPacker.bytes
  rw [h.capacity, h'.capacity]
  refine List.map_congr_left fun i hi => ?_
  rw [List.mem_range] at hi
  refine BitVec.eq_of_getLsbD_eq fun j hj => ?_
  have hbit : ∀ {bp : BitPacker}, Packed memory cap w bp →
      (bp.data (i / 8)).getLsbD (8 * (i % 8) + j) = w.getD (8 * i + j) false := by
    intro bp h
    have hword : (8 * i + j) / 64 = i / 8 := by omega
    have hpos : (8 * i + j) % 64 = 8 * (i % 8) + j := by omega
    rw [← h.bits (8 * i + j) (by omega), BitPacker.bit, hword, hpos]
  rw [BitVec.getLsbD_setWidth, BitVec.getLsbD_setWidth, BitVec.getLsbD_ushiftRight,
    BitVec.getLsbD_ushiftRight, hbit h, hbit h']

theorem packed_h264 (memory : Nat → BitVec 64) (cap : Nat) (ops : List (Op Empty Unit))
    (hops : ∀ op ∈ ops, op.Valid) :
    Packed memory cap (Op.concat (ops.map (Op.map Empty.elim fun _ => false)))
      (ops.foldl H264.step (H264.init memory cap)) := by
  have hcleared : Holds memory cap [] (H264.init memory cap) :=
    holds_start rfl rfl rfl (fun j hj => if_pos hj) fun j hj => if_neg (Nat.not_lt.mpr hj)
  exact (holds_foldl holds_h264 ops hops hcleared).toPacked

end Runs

section Readers

open Lib (field fields ofBytes testBit_ofBytes)

variable {memory : Nat → BitVec 64} {cap : Nat} {bp : BitPacker} {w before behind : List Bool}

theorem Packed.testBit (h : Packed memory cap w bp) {i : Nat} (hi : i < 64 * cap) :
    (ofBytes bp.bytes).testBit i = w.getD i false := by
  have hbyte : bp.bytes.getD (i / 8) 0 =
      (bp.data (i / 8 / 8) >>> (8 * (i / 8 % 8))).setWidth 8 := by
    rw [BitPacker.bytes, List.getD_eq_getElem?_getD, List.getElem?_map, h.capacity,
      List.getElem?_range (by omega)]
    rfl
  have hword : i / 8 / 8 = i / 64 := by omega
  have hpos : 8 * (i / 8 % 8) + i % 8 = i % 64 := by omega
  rw [testBit_ofBytes, hbyte, BitVec.getLsbD_setWidth, BitVec.getLsbD_ushiftRight, hword, hpos,
    decide_eq_true (by omega), Bool.true_and]
  exact h.bits i hi

/-- A field is read where its bits are. -/
theorem Packed.field {v : BitVec 64} {n : Nat}
    (h : Packed memory cap (before ++ Op.lowBits n v ++ behind) bp)
    (hroom : before.length + n ≤ 64 * cap) :
    field (ofBytes bp.bytes) before.length n = v.toNat % 2 ^ n := by
  refine Nat.eq_of_testBit_eq fun j => ?_
  unfold Lib.field
  rw [Nat.testBit_mod_two_pow, Nat.testBit_div_two_pow, Nat.testBit_mod_two_pow]
  by_cases hj : j < n
  · rw [Nat.add_comm j, h.testBit (by omega), List.append_assoc,
      List.getD_append_right _ _ _ _ (Nat.le_add_right _ _), Nat.add_sub_cancel_left,
      List.getD_append _ _ _ _ (by rw [length_lowBits]; exact hj), getD_lowBits, decide_eq_true hj,
      Bool.true_and, Bool.true_and, Bool.true_and]
    rfl
  · rw [decide_eq_false hj, Bool.false_and, Bool.false_and]

/-- Fields that were put behind each other. -/
theorem Packed.fields (vs : List (BitVec 64 × Nat)) (h : Packed memory cap
      (before ++ (vs.flatMap fun v => Op.lowBits v.2 v.1) ++ behind) bp)
    (hroom : before.length + (vs.map Prod.snd).sum ≤ 64 * cap) :
    fields (ofBytes bp.bytes) before.length (vs.map Prod.snd) =
    vs.map fun v => v.1.toNat % 2 ^ v.2 := by
  induction vs generalizing before with
  | nil => rfl
  | cons v vs ih =>
    rw [List.map_cons, List.sum_cons] at hroom
    have hlen : (before ++ Op.lowBits v.2 v.1).length = before.length + v.2 := by
      rw [List.length_append, length_lowBits]
    have hfirst : Packed memory cap
        (before ++ Op.lowBits v.2 v.1 ++ ((vs.flatMap fun v => Op.lowBits v.2 v.1) ++ behind))
          bp := by
      rw [List.flatMap_cons] at h
      simpa only [List.append_assoc] using h
    have hrest : Packed memory cap
        (before ++ Op.lowBits v.2 v.1 ++ (vs.flatMap fun v => Op.lowBits v.2 v.1) ++ behind)
          bp := by
      rw [List.append_assoc]
      exact hfirst
    have hothers := ih hrest (by rw [hlen]; omega)
    rw [List.map_cons, List.map_cons, Lib.fields, hfirst.field (by omega), ← hlen, hothers]

/-- Requests that only put fields. -/
theorem concat_puts (vs : List (BitVec 64 × Nat)) (w : List Bool) :
    (vs.map fun v => (Op.put v.1 v.2 : Op Nat Bool)).foldl (fun w op => w ++ op.added w.length) w =
      w ++ vs.flatMap fun v => Op.lowBits v.2 v.1 := by
  induction vs generalizing w with
  | nil => exact (List.append_nil w).symm
  | cons v vs ih =>
    rw [List.map_cons, List.foldl_cons, ih, List.flatMap_cons, ← List.append_assoc]
    rfl

end Readers

/-- Every packer writes the bits of its requests one behind the other, as far as the buffer goes,
and the packers that can do the same write the same. -/
theorem packers_concatenate (memory : Nat → BitVec 64) (cap : Nat)
    (hzero : ∀ j < cap, memory j = 0) :
    (∀ ops : List (Op Nat Bool), (∀ op ∈ ops, op.Valid) →
      Packed memory cap (Op.concat ops) (ops.foldl H265.step (H265.init memory cap))) ∧
    (∀ ops : List (Op Empty Bool), (∀ op ∈ ops, op.Valid) →
      let wide := ops.map (Op.map Empty.elim id)
      Packed memory cap (Op.concat wide) (ops.foldl Vp9.step (Vp9.init memory cap)) ∧
        (ops.foldl Vp9.step (Vp9.init memory cap)).bytes =
        (wide.foldl H265.step (H265.init memory cap)).bytes) ∧
    (∀ ops : List (Op Empty Unit), (∀ op ∈ ops, op.Valid) →
      let filled : List (Op Empty Bool) := ops.map (Op.map id fun _ => false)
      let wide := ops.map (Op.map Empty.elim fun _ => false)
      Packed memory cap (Op.concat wide) (ops.foldl H264.step (H264.init memory cap)) ∧
        (ops.foldl H264.step (H264.init memory cap)).bytes =
        (filled.foldl Vp9.step (Vp9.init memory cap)).bytes ∧
        (ops.foldl H264.step (H264.init memory cap)).bytes =
        (wide.foldl H265.step (H265.init memory cap)).bytes) := by
  have hcleared : Holds memory cap [] (H265.init memory cap) :=
    holds_start rfl rfl rfl (fun j hj => if_pos hj) fun j hj => if_neg (Nat.not_lt.mpr hj)
  have hprepared : Holds memory cap [] (Vp9.init memory cap) :=
    holds_start rfl rfl rfl hzero fun _ _ => rfl
  have h265 : ∀ ops : List (Op Nat Bool), (∀ op ∈ ops, op.Valid) →
      Packed memory cap (Op.concat ops) (ops.foldl H265.step (H265.init memory cap)) := by
    intro ops hops
    have hrun := holds_foldl (f := id) holds_h265 ops hops hcleared
    rw [List.map_id] at hrun
    exact hrun.toPacked
  have hvp9 : ∀ ops : List (Op Empty Bool), (∀ op ∈ ops, op.Valid) →
      Packed memory cap (Op.concat (ops.map (Op.map Empty.elim id)))
        (ops.foldl Vp9.step (Vp9.init memory cap)) :=
    fun ops hops => (holds_foldl holds_vp9 ops hops hprepared).toPacked
  refine ⟨h265, fun ops hops => ⟨hvp9 ops hops, (hvp9 ops hops).bytes_eq (h265 _ ?_)⟩,
    fun ops hops => ?_⟩
  · intro op hop
    obtain ⟨o, ho, rfl⟩ := List.mem_map.mp hop
    exact (hops o ho).map
  · have h264 := (holds_foldl holds_h264 ops hops hcleared).toPacked
    have hwide : ∀ {Skip Fill : Type} (f : Empty → Skip) (g : Unit → Fill),
        ∀ op ∈ ops.map (Op.map f g), op.Valid := by
      intro Skip Fill f g op hop
      obtain ⟨o, ho, rfl⟩ := List.mem_map.mp hop
      exact (hops o ho).map
    refine ⟨h264, h264.bytes_eq ?_, h264.bytes_eq (h265 _ (hwide _ _))⟩
    have hsame := hvp9 _ (hwide id fun _ => false)
    rw [List.map_map] at hsame
    have hmap : (Op.map Empty.elim id ∘ Op.map id fun _ => false : Op Empty Unit → Op Nat Bool) =
        Op.map Empty.elim fun _ => false := by
      funext op
      cases op with
      | put value n => rfl
      | skip n => rfl
      | align n fill => rfl
    rwa [hmap] at hsame

/-- Padding up to the end of a word, then a field over the end of the second word, which is the last
one. -/
def twoWordOps : List (Op Nat Bool) := [.put 0x1ff 60, .align 64 true, .skip 2, .put 1 63, .put 5 3]

theorem packers_concatenate_two :
    let memory (j : Nat) : BitVec 64 := if j < 2 then 0 else 7
    let bp := twoWordOps.foldl H265.step (H265.init memory 2)
    bp.bit 8 = true ∧ bp.bit 9 = false ∧ bp.bit 63 = true ∧ bp.bit 66 = true ∧ bp.bit 127 = false ∧
      bp.data 2 = 7 := by
  intro memory bp
  have hvalid : ∀ op ∈ twoWordOps, op.Valid := by
    simp only [twoWordOps, List.mem_cons, List.not_mem_nil, or_false]
    rintro op (rfl | rfl | rfl | rfl | rfl)
    · exact ⟨by decide, by decide⟩
    · exact ⟨6, rfl⟩
    · trivial
    · exact ⟨by decide, by decide⟩
    · exact ⟨by decide, by decide⟩
  have hpacked : Packed memory 2 (Op.concat twoWordOps) bp :=
    (packers_concatenate memory 2 fun j hj => if_pos hj).1 twoWordOps hvalid
  refine ⟨?_, ?_, ?_, ?_, ?_, hpacked.outside 2 (by decide)⟩
  · exact (hpacked.bits 8 (by decide)).trans (by decide)
  · exact (hpacked.bits 9 (by decide)).trans (by decide)
  · exact (hpacked.bits 63 (by decide)).trans (by decide)
  · exact (hpacked.bits 66 (by decide)).trans (by decide)
  · exact (hpacked.bits 127 (by decide)).trans (by decide)

section Tables

open Tables (toU8)

variable {memory : Nat → BitVec 64} {bp : BitPacker} {tp : Tables.BitPacker} {n : Nat}
  {v : BitVec 64}

/-- The packer of the table model, whose buffer is one number, stands for one that writes words. -/
structure Abstracts (bp : BitPacker) (tp : Tables.BitPacker) : Prop where
  capacity : bp.cap = tp.cap
  total : bp.total = tp.pos
  low : bp.bitInWord < 64
  word : bp.wordIdx ≤ bp.cap
  bits : ∀ i < 64 * bp.cap, bp.bit i = tp.data.testBit i

namespace Abstracts

theorem put (h : Abstracts bp tp) (hpos : 1 ≤ n) (hn : n ≤ 64) :
    Abstracts (bp.put v n) (tp.put v.toNat n) := by
  have hcap := h.capacity
  have htotal := h.total
  have hlow := h.low
  unfold BitPacker.total at htotal
  unfold Tables.BitPacker.put
  by_cases hfull : bp.cap ≤ bp.wordIdx
  · rw [put_full hfull, if_pos (by omega)]
    exact h
  · have hput := put_spec (v := v) hlow (by omega) hpos hn
    have hend := hput.total
    have hinword := hput.low
    unfold BitPacker.total at hend
    rw [if_neg (by omega)]
    refine ⟨hput.capacity.trans hcap, ?_, hput.low, ?_, fun i hi => ?_⟩
    · rw [hput.total, h.total]
    · rw [hput.capacity]
      omega
    · rw [hput.capacity] at hi
      rw [hput.bits i hi, h.bits i hi, Nat.testBit_mod_two_pow, Nat.testBit_or,
        Nat.testBit_shiftLeft, Nat.testBit_mod_two_pow, decide_eq_true (by omega : i < 64 * tp.cap),
        Bool.true_and, h.total]
      congr 1
      rw [← Bool.and_assoc, BitVec.getLsbD, ← Bool.decide_and]
      congr 1
      rw [decide_eq_decide]
      omega

theorem skip (h : Abstracts bp tp) (n : Nat) : Abstracts (H265.skip bp n) (tp.skip n) := by
  have hcap := h.capacity
  have htotal := h.total
  have hlow := h.low
  have hword := h.word
  unfold BitPacker.total at htotal
  unfold H265.skip Tables.BitPacker.skip BitPacker.total
  dsimp only
  by_cases hzero : n = 0
  · rw [if_pos hzero, hzero, Nat.add_zero, if_neg (by omega)]
    exact h
  · rw [if_neg hzero, htotal, hcap]
    refine ⟨rfl, ?_, Nat.mod_lt _ (by omega), ?_, fun i hi => h.bits i (hi.trans_eq (by rw [hcap]))⟩
    · unfold BitPacker.total
      dsimp only
      split <;> omega
    · dsimp only
      split <;> omega

/-- At most 64 bits are padded in two chunks. -/
theorem alignLoop_two {pattern : BitVec 64} {pad : Nat} (hpad : pad ≤ 64) :
    bp.alignLoop (fun _ => pattern) pad =
    (bp.put pattern (min pad 32)).put pattern (pad - min pad 32) := by
  have hnothing : ∀ bp : BitPacker, bp.put pattern 0 = bp := fun bp => if_pos rfl
  have hdone : ∀ bp : BitPacker, bp.alignLoop (fun _ => pattern) 0 = bp := by
    intro bp
    rw [BitPacker.alignLoop, if_pos rfl]
  have hchunk : ∀ m, (if 32 < m then 32 else m) = min m 32 := by
    intro m
    split <;> omega
  have hstep : ∀ (bp : BitPacker) (m : Nat), bp.alignLoop (fun _ => pattern) m =
      (bp.put pattern (min m 32)).alignLoop (fun _ => pattern) (m - min m 32) := by
    intro bp m
    by_cases hm : m = 0
    · rw [hm, Nat.zero_min, hnothing]
    · conv_lhs => rw [BitPacker.alignLoop, if_neg hm]
      dsimp only
      rw [hchunk]
  have hrest : min (pad - min pad 32) 32 = pad - min pad 32 := by omega
  rw [hstep, hstep, hrest, Nat.sub_self, hdone]

theorem put_zero (h : Abstracts bp tp) (hn : n ≤ 64) :
    Abstracts (bp.put v n) (tp.put v.toNat n) := by
  rcases Nat.eq_zero_or_pos n with hzero | hpos
  · have hleft : bp.put v n = bp := if_pos hzero
    have hright : tp.put v.toNat n = tp := if_pos (.inl hzero)
    rw [hleft, hright]
    exact h
  · exact h.put hpos hn

theorem align (h : Abstracts bp tp) {k : Nat} (hk : k ≤ 6) (fill : Bool) :
    Abstracts (H265.align bp (2 ^ k) fill) (tp.align (2 ^ k) fill) := by
  have hpow : 2 ^ k ≤ 64 := Nat.pow_le_pow_right (n := 2) (by omega) hk
  have hpos : 0 < 2 ^ k := Nat.two_pow_pos k
  have hpad : (2 ^ k - tp.pos % 2 ^ k) % 2 ^ k ≤ 64 := by
    have hlt := Nat.mod_lt (2 ^ k - tp.pos % 2 ^ k) hpos
    omega
  have hpattern : (if fill then BitVec.allOnes 64 else 0).toNat =
      if fill then 2 ^ 64 - 1 else 0 := by
    cases fill with
    | false => rfl
    | true => rfl
  unfold H265.align BitPacker.alignBy Tables.BitPacker.align
  dsimp only
  rw [padding_eq, h.total, alignLoop_two hpad, ← hpattern]
  exact (h.put_zero (by omega)).put_zero (by omega)

theorem bytes_eq (h : Abstracts bp tp) : bp.bytes = tp.bytes := by
  unfold BitPacker.bytes Tables.BitPacker.bytes
  rw [h.capacity]
  refine List.map_congr_left fun i hi => ?_
  rw [List.mem_range, ← h.capacity] at hi
  refine BitVec.eq_of_getLsbD_eq fun j hj => ?_
  have hbit := h.bits (8 * i + j) (by omega)
  have hword : (8 * i + j) / 64 = i / 8 := by omega
  have hpos : (8 * i + j) % 64 = 8 * (i % 8) + j := by omega
  rw [BitPacker.bit, hword, hpos] at hbit
  rw [BitVec.getLsbD_setWidth, BitVec.getLsbD_ushiftRight, hbit, BitVec.getLsbD_ofNat,
    Nat.testBit_div_two_pow, Nat.add_comm j]

end Abstracts

/-- The request on the packer of the table model. -/
def tableStep (tp : Tables.BitPacker) : Op Nat Bool → Tables.BitPacker
  | .put value n => tp.put value.toNat n
  | .skip n => tp.skip n
  | .align n fill => tp.align n fill

/-- The tables are the bytes that the packer of `h265_packed_tables.cpp` writes. -/
theorem table_bytes (memory : Nat → BitVec 64) (cap : Nat) (ops : List (Op Nat Bool))
    (hops : ∀ op ∈ ops, op.Valid) (halign : ∀ n fill, .align n fill ∈ ops → n ≤ 64) :
    (ops.foldl H265.step (H265.init memory cap)).bytes =
    (ops.foldl tableStep { cap := cap }).bytes := by
  have hrun : ∀ (ops : List (Op Nat Bool)) (bp : BitPacker) (tp : Tables.BitPacker),
      (∀ op ∈ ops, op.Valid) →
      (∀ n fill, .align n fill ∈ ops → n ≤ 64) → Abstracts bp tp →
      Abstracts (ops.foldl H265.step bp) (ops.foldl tableStep tp) := by
    intro ops
    induction ops with
    | nil => exact fun bp tp _ _ h => h
    | cons op ops ih =>
      intro bp tp hops halign h
      refine ih _ _ (fun o ho => hops o (List.mem_cons_of_mem _ ho))
        (fun n fill hn => halign n fill (List.mem_cons_of_mem _ hn)) ?_
      have hop := hops op List.mem_cons_self
      cases op with
      | put value n => exact h.put hop.1 hop.2
      | skip n => exact h.skip n
      | align n fill =>
        obtain ⟨k, rfl⟩ := hop
        have hle := halign (2 ^ k) fill List.mem_cons_self
        exact h.align ((Nat.pow_le_pow_iff_right (by omega : 1 < 2)).mp
          (hle.trans_eq (by decide : 64 = 2 ^ 6))) fill
  refine (hrun ops _ _ hops halign ⟨rfl, rfl, Nat.zero_lt_succ 63, Nat.zero_le _,
    fun i hi => ?_⟩).bytes_eq
  have hword : i / 64 < cap := by
    have hcap : i < 64 * cap := hi
    omega
  unfold BitPacker.bit H265.init
  dsimp only
  rw [if_pos hword, Nat.zero_testBit]
  exact BitVec.getLsbD_zero

end Tables

end Rkvdec.Engine.Packers
