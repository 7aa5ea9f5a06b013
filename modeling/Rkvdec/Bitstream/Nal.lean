import Rkvdec.Bitstream.BitReader

/-! Annex-B framing and the loop over the NAL units of an access unit, which both parsers share. -/
namespace Rkvdec.Bitstream

open Lib

/-- The loop of `find_start_code` at offset `i` of a buffer of `len` bytes: the offset after the
start code and that of the start code itself. -/
def scanStartCode (len : Nat) : List Byte → Nat → Nat × Nat
  | b₀ :: b₁ :: b₂ :: rest, i =>
    if b₀ = 0 ∧ b₁ = 0 ∧ b₂ = 1 then (i + 3, i)
    else if b₀ = 0 ∧ b₁ = 0 ∧ b₂ = 0 ∧ rest.head? = some 1 then (i + 4, i)
    else scanStartCode len (b₁ :: b₂ :: rest) (i + 1)
  | _, _ => (len, len)

def findStartCode (buf : List Byte) (start : Nat) : Nat × Nat :=
  scanStartCode buf.length (buf.drop start) start

/-- The loop of `ebsp_to_rbsp`; `none` when the scratch buffer is full. -/
def ebspLoop (cap : Nat) : List Byte → Nat → List Byte → Option (List Byte)
  | [], _, out => some out
  | b :: src, zeros, out =>
    if 2 ≤ zeros ∧ b = 3 then ebspLoop cap src 0 out
    else if cap ≤ out.length then none
    else ebspLoop cap src (if b = 0 then zeros + 1 else 0) (out ++ [b])

def ebspToRbsp (src : List Byte) (cap : Nat) : List Byte := (ebspLoop cap src 0 []).getD []

inductive UnitKind where
  | vps
  | sps
  | pps
  | slice
deriving DecidableEq

/-- A unit parser at work: the reader it starts on and the result struct as it finds it. -/
structure UnitRun (σ : Type) where
  kind : UnitKind
  parser : Parser σ Unit
  before : σ
  reader : BitReader

namespace UnitRun

variable {σ : Type}

def program (u : UnitRun σ) : Reads (Except ParseError Unit × σ) := u.parser.run.run u.before

/-- What the parser returns, the result struct it leaves and where it leaves its reader. -/
def outcome (u : UnitRun σ) : (Except ParseError Unit × σ) × BitReader :=
  u.program.run ReadOp.handle u.reader

end UnitRun

/-- What an access unit parser has done so far: the result struct, with the POC state it keeps on
its stack, and the units it has parsed. `status` is set once it returns. -/
structure AuState (σ τ : Type) where
  result : σ × τ
  status : Option ParseError
  units : List (UnitRun σ)

variable {σ τ : Type}

/-- Run a unit parser; a status other than OK is returned at once. -/
def AuState.parse (s : AuState σ τ) (u : UnitRun σ) : AuState σ τ :=
  { result := (u.outcome.1.2, s.result.2)
    status := match u.outcome.1.1 with
      | .ok _ => none
      | .error e => some e
    units := s.units ++ [u] }

/-- Where the unit that starts at `nalStart` ends: at the next start code. -/
def nalEndAt (buf : List Byte) (nalStart : Nat) : Nat :=
  let nextSc := (findStartCode buf nalStart).2
  if nalStart < nextSc then nextSc else buf.length

/-- The loop over the NAL units from offset `pos` on. `visit` handles one unit; its RBSP has at
least `header` bytes. A turn starts at a later offset than the one before, so the length of the
buffer bounds the turns. -/
def auLoop (header : Nat) (visit : AuState σ τ → List Byte → AuState σ τ) (buf : List Byte)
    (scratchSize : Nat) : Nat → Nat → Nat → AuState σ τ → AuState σ τ
  | 0, _, _, s => s
  | turns + 1, pos, scratchOff, s =>
    if buf.length ≤ pos then s
    else
      let nalStart := (findStartCode buf pos).1
      if buf.length ≤ nalStart then s
      else
        let nalEnd := nalEndAt buf nalStart
        let thisSize := nalEnd - nalStart
        if scratchSize < scratchOff + thisSize then { s with status := some .invalid }
        else
          let rbsp := ebspToRbsp ((buf.drop nalStart).take thisSize) (scratchSize - scratchOff)
          if rbsp.length < header then { s with status := some .invalid }
          else
            let s := visit s rbsp
            if s.status.isSome then s
            else auLoop header visit buf scratchSize turns nalEnd (scratchOff + rbsp.length) s

/-- The rule for the loop: a property that each turn keeps, and that does not mind a status being
set, holds when it stops. -/
theorem auLoop_rule {header : Nat} {visit : AuState σ τ → List Byte → AuState σ τ}
    {P : AuState σ τ → Prop} (hvisit : ∀ s rbsp, s.status = none → P s → P (visit s rbsp))
    (hstop : ∀ s status, P s → P { s with status := some status }) {buf : List Byte}
    {scratchSize : Nat} (turns pos scratchOff : Nat) {s : AuState σ τ} (hs : s.status = none)
    (h : P s) : P (auLoop header visit buf scratchSize turns pos scratchOff s) := by
  induction turns generalizing pos scratchOff s with
  | zero => exact h
  | succ turns ih =>
    simp only [auLoop]
    split_ifs with hpos hstart hscratch hheader hstatus
    · exact h
    · exact h
    · exact hstop s _ h
    · exact hstop s _ h
    · exact hvisit s _ hs h
    · exact ih _ _ (by simpa using hstatus) (hvisit s _ hs h)

end Rkvdec.Bitstream
