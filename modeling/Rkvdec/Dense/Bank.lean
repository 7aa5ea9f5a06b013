import Mathlib.Tactic
import Rkvdec.Basic

/-! The dense register bank of a decode job, and the register writes a kick makes of it. -/
namespace Rkvdec.Dense

def commonFirst : Nat := 8
def commonWords : Nat := 25
def cparamFirst : Nat := 64
def cparamWords : Nat := 49
def caddrFirst : Nat := 128
def caddrLast : Nat := 142
def caddrWords : Nat := 15
def codaddrFirst : Nat := 160
def codaddrLast : Nat := 199
def codaddrWords : Nat := 40
def hipocFirst : Nat := 200
def hipocWords : Nat := 5
def statFirst : Nat := 256
def statWords : Nat := 22
def kickRegIdx : Nat := 10

/-- `RKMPP_DENSE_BANK`. -/
structure Bank where
  common : Vector (BitVec 32) commonWords
  codecParams : Vector (BitVec 32) cparamWords
  commonAddr : Vector (BitVec 32) caddrWords
  codecAddr : Vector (BitVec 32) codaddrWords
  highPoc : Vector (BitVec 32) hipocWords
  stat : Vector (BitVec 32) statWords
deriving DecidableEq

/-- `RkMppDenseIsAddressReg`, in the order the source tries the ranges. -/
def isAddressReg (regIdx : Nat) : Bool :=
  (caddrFirst ≤ regIdx && regIdx ≤ caddrLast) ||
  (regIdx == 161 || regIdx == 163) ||
  (164 ≤ regIdx && regIdx ≤ 179) ||
  regIdx == 180 ||
  (181 ≤ regIdx && regIdx ≤ 196) ||
  regIdx == 197 ||
  regIdx == 160 ||
  regIdx == 162 ||
  regIdx == 167 ||
  regIdx == 168 ||
  regIdx == 169 ||
  regIdx == 170 ||
  (171 ≤ regIdx && regIdx ≤ 178) ||
  regIdx == 179

/-- The address registers are the whole common-address bank and 160 to 197. -/
theorem isAddressReg_iff {r : Nat} :
    isAddressReg r = true ↔ (128 ≤ r ∧ r ≤ 142) ∨ (160 ≤ r ∧ r ≤ 197) := by
  simp only [isAddressReg, Bool.or_eq_true, Bool.and_eq_true, decide_eq_true_eq, beq_iff_eq]
  unfold caddrFirst caddrLast
  omega

namespace Bank

/-- The bank word of an address-bank register: `CommonAddr` or `CodecAddr`. -/
def addrWord (bank : Bank) (r : Nat) : Option (BitVec 32) :=
  if caddrFirst ≤ r ∧ r ≤ caddrLast then bank.commonAddr[r - caddrFirst]?
  else if codaddrFirst ≤ r ∧ r ≤ codaddrLast then bank.codecAddr[r - codaddrFirst]?
  else none

/-- Store into the address-bank word of register `r`; `none` when it has no such word. -/
def stamp (bank : Bank) (r : Nat) (v : BitVec 32) : Option Bank :=
  if caddrFirst ≤ r ∧ r ≤ caddrLast then
    some { bank with commonAddr := bank.commonAddr.setIfInBounds (r - caddrFirst) v }
  else if codaddrFirst ≤ r ∧ r ≤ codaddrLast then
    some { bank with codecAddr := bank.codecAddr.setIfInBounds (r - codaddrFirst) v }
  else none

/-- The six banks in the ascending order they are written in: first register and words. -/
def ranges (bank : Bank) : List (Nat × List (BitVec 32)) :=
  [(commonFirst, bank.common.toList), (cparamFirst, bank.codecParams.toList),
    (caddrFirst, bank.commonAddr.toList), (codaddrFirst, bank.codecAddr.toList),
    (hipocFirst, bank.highPoc.toList), (statFirst, bank.stat.toList)]

end Bank

/-- The writes of one bank; the kick register is skipped. -/
def bankWrites (swregBase : Nat) (range : Nat × List (BitVec 32)) : List (Nat × BitVec 32) :=
  (range.2.zipIdx range.1).filterMap fun (word, idx) =>
    if idx = kickRegIdx then none else some (idx * 4 + swregBase, word)

/-- The register writes of `JobKickLocalInner` as (byte offset, value) pairs: every bank word,
then the kick register. `none` when a bank or the kick register falls outside the MMIO window,
in which case nothing is written. -/
def kickWrites (mmioLen swregBase : Nat) (bank : Bank) (kickValue : BitVec 32) :
    Option (List (Nat × BitVec 32)) :=
  if bank.ranges.any fun range => mmioLen < range.1 * 4 + swregBase + range.2.length * 4 then none
  else if mmioLen < kickRegIdx * 4 + swregBase + 4 then none
  else
    some (bank.ranges.flatMap (bankWrites swregBase) ++
      [(kickRegIdx * 4 + swregBase, kickValue)])

end Rkvdec.Dense
