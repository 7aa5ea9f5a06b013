import Rkvdec.Lib.Prog
import Mathlib.Tactic.Linarith

/-! The bit reader that `parser_glue.cpp` and `parser_glue_h265.cpp` each have a copy of, and
parsers as programs over it. -/
namespace Rkvdec.Bitstream

open Lib

abbrev Byte := BitVec 8

/-- `len` is the length of the list. -/
structure BitReader where
  data : List Byte
  bitPos : Nat
  failed : Bool

namespace BitReader

def init (data : List Byte) : BitReader := ⟨data, 0, false⟩

/-- `len * 8`. -/
def bits (br : BitReader) : Nat := br.data.length * 8

def bitAt (br : BitReader) (pos : Nat) : Bool :=
  (br.data.getD (pos / 8) 0).getLsbD (7 - pos % 8)

def eof (br : BitReader) : Bool := br.bits ≤ br.bitPos

/-- The loop of `br_u`; at the end of the data it returns what it has. -/
def uLoop : Nat → Nat → BitReader → Nat × BitReader
  | 0, v, br => (v, br)
  | n + 1, v, br =>
    if br.bits ≤ br.bitPos then (v, br)
    else
      uLoop n ((2 * v + (br.bitAt br.bitPos).toNat) % 2 ^ 32) { br with bitPos := br.bitPos + 1 }

def u (n : Nat) (br : BitReader) : Nat × BitReader := uLoop n 0 br

/-- `while (!br_eof(br) && br_u1(br) == 0) zeros++`; the bits left bound the turns. -/
def countZeros : Nat → BitReader → Nat × BitReader
  | 0, br => (0, br)
  | fuel + 1, br =>
    if br.eof then (0, br)
    else
      let (bit, br) := br.u 1
      if bit = 0 then
        let (zeros, br) := countZeros fuel br
        (zeros + 1, br)
      else (0, br)

def ue (br : BitReader) : Nat × BitReader :=
  let (zeros, br) := countZeros (br.bits - br.bitPos) br
  if br.eof = true ∧ 0 < zeros then (0, { br with failed := true })
  else if 31 < zeros then (0, { br with failed := true })
  else
    let (suffix, br) := br.u zeros
    ((2 ^ zeros - 1 + suffix) % 2 ^ 32, br)

/-- Whether a bit other than the first of the trailing bits is left. -/
def moreRbspData (br : BitReader) : Bool :=
  if br.eof then false
  else if br.bitAt br.bitPos = false then true
  else (List.range' (br.bitPos + 1) (br.bits - (br.bitPos + 1))).any br.bitAt

end BitReader

/-- What a parser asks of its reader. `access` is an access to an element of a fixed-size array, at
an index the parser computes. -/
inductive ReadOp where
  | u (n : Nat)
  | ue
  | eof
  | moreRbspData
  | bitPos
  | len
  | failed
  | fail
  | access (size i : Nat)

namespace ReadOp

abbrev Ans : ReadOp → Type
  | u _ | ue | bitPos | len => Nat
  | eof | moreRbspData | failed => Bool
  | fail | access _ _ => Unit

def handle : Prog.Handler ReadOp Ans BitReader
  | u n, br => br.u n
  | ue, br => br.ue
  | eof, br => (br.eof, br)
  | moreRbspData, br => (br.moreRbspData, br)
  | bitPos, br => (br.bitPos, br)
  | len, br => (br.data.length, br)
  | failed, br => (br.failed, br)
  | fail, br => ((), { br with failed := true })
  | access _ _, br => ((), br)

end ReadOp

/-- `H264ParseStatus` and `H265ParseStatus`. -/
inductive ParseStatus where
  | ok
  | needMore
  | invalid
  | unsupported
deriving DecidableEq

/-- The statuses with which a unit parser gives up. -/
inductive ParseError where
  | invalid
  | unsupported

def ParseError.status : ParseError → ParseStatus
  | invalid => .invalid
  | unsupported => .unsupported

abbrev Reads := Prog ReadOp ReadOp.Ans

/-- A unit parser over the result struct `σ` it fills; what it stored stays when it gives up. -/
abbrev Parser (σ : Type) := ExceptT ParseError (StateT σ Reads)

section Elements

variable {σ : Type}

def ask (op : ReadOp) : Parser σ op.Ans := liftM (Prog.request op : Reads op.Ans)

def brU (n : Nat) : Parser σ Nat := ask (.u n)
def brU1 : Parser σ Nat := brU 1
def brUe : Parser σ Nat := ask .ue
def brEof : Parser σ Bool := ask .eof
def brMoreRbspData : Parser σ Bool := ask .moreRbspData
def brBitPos : Parser σ Nat := ask .bitPos
def brLen : Parser σ Nat := ask .len
def brFailed : Parser σ Bool := ask .failed
def brFail : Parser σ Unit := ask .fail
def access (size i : Nat) : Parser σ Unit := ask (.access size i)

def flag : Parser σ Bool := do return (← brU1) ≠ 0

def brSe : Parser σ Int := do
  let k ← brUe
  return if k % 2 = 1 then ((k + 1) % 2 ^ 32 / 2 : Nat) else -((k / 2 : Nat) : Int)

/-- `n` times the same element, for the loops that skip it. -/
def skip : Nat → Parser σ Unit → Parser σ Unit
  | 0, _ => pure ()
  | n + 1, p => do p; skip n p

/-- The check of the sticky flag at the end of a unit. -/
def checkFailed : Parser σ Unit := do
  if ← brFailed then throw .invalid

end Elements

/-- The conversions of the C code to its integer types. -/
def u8 (n : Nat) : Nat := n % 2 ^ 8
def u16 (n : Nat) : Nat := n % 2 ^ 16
def u32 (n : Nat) : Nat := n % 2 ^ 32
def i8 (n : Int) : Int := n.bmod (2 ^ 8)
def i16 (n : Int) : Int := n.bmod (2 ^ 16)
def i32 (n : Int) : Int := n.bmod (2 ^ 32)

/-- A sum or a product is converted once, at its end. -/
theorem i32_add_i32 (x y : Int) : i32 (x + i32 y) = i32 (x + y) := Int.add_bmod_bmod

theorem i32_i32_add (x y : Int) : i32 (i32 x + y) = i32 (x + y) := Int.bmod_add_bmod

theorem i32_mul_i32 (x y : Int) : i32 (x * i32 y) = i32 (x * y) := Int.mul_bmod_bmod

end Rkvdec.Bitstream
