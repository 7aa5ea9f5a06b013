import Mathlib.Tactic.Common
import Rkvdec.Lib.Prog

/-! The bit readers of the VP9 and AV1 header parsers. They read most significant bits first, and at
the end of the data they fail for good: every later read gives 0. -/
namespace Rkvdec.Headers

/-- A header asks for a number of bits at a time. -/
abbrev HeaderBits (α : Type) := Lib.Prog Nat (fun n => BitVec n) α

/-- `br_u`. -/
def brU (n : Nat) : HeaderBits (BitVec n) := Lib.Prog.request n

/-- `br_bit`. -/
def brBit : HeaderBits Bool := do
  let b ← brU 1
  pure (b != 0)

/-- `br_su` of the VP9 parser: a magnitude and a sign. -/
def brSu (n : Nat) : HeaderBits Int := do
  let mag ← brU n
  let sign ← brBit
  pure (if sign then -(mag.toNat : Int) else mag.toNat)

/-- `BitReader`: the bits that are left. -/
structure BitCursor where
  bits : List Bool
  error : Bool := false
deriving DecidableEq, Repr

/-- The number in some bits. -/
def bitsToNat (bits : List Bool) : Nat := bits.foldl (fun v b => v * 2 + b.toNat) 0

/-- How the reader answers. -/
def BitCursor.answer : Lib.Prog.Handler Nat (fun n => BitVec n) BitCursor := fun n r =>
  if r.error ∨ r.bits.length < n then (0, { r with error := true })
  else (BitVec.ofNat n (bitsToNat (r.bits.take n)), { r with bits := r.bits.drop n })

/-- A header is accepted if it is complete. -/
def parseBits {α : Type} (p : HeaderBits (Option α)) (bits : List Bool) : Option α :=
  let r := p.run BitCursor.answer { bits := bits }
  if r.2.error then none else r.1

theorem parseBits_some {α : Type} {p : HeaderBits (Option α)} {bits : List Bool} {a : α}
    (h : parseBits p bits = some a) : (p.run BitCursor.answer { bits := bits }).1 = some a := by
  unfold parseBits at h
  dsimp only at h
  split at h
  · cases h
  · exact h

end Rkvdec.Headers
