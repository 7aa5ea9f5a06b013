import Mathlib.Tactic.Common
import Mathlib.Logic.Function.Basic
import Rkvdec.Engine.Repack
import Rkvdec.Vp9.Header

/-! The VP9 engine: `Vp9Dpb_Update`, `Vp9Regbuilder_Fill` and `Vp9DecodeEngine_DecodeOne` with
`ReleaseFrame` and `Flush`. -/
namespace Rkvdec.Vp9

open Repack

/-- A slot of the frame pool, `kPoolSize` of them. -/
abbrev PoolSlot := Fin 16

/-- The buffers of the engine. Each has a handle of its own, so a handle names its buffer. -/
inductive Buf
  | probDefault
  | probLoop (c : FrameContext)
  | segid (phase : Bool)
  | poolOutput (s : PoolSlot)
  | poolColmv (s : PoolSlot)
deriving DecidableEq, Repr

/-- `DpbSlot`, valid. -/
structure DpbSlot where
  frameHandle : Buf
  colmvHandle : Buf
  width : Nat
  height : Nat
  bitDepth : Nat
  poc : Nat
deriving DecidableEq, Repr

/-- `DpbCtx`. -/
structure DpbCtx where
  slots : RefSlot → Option DpbSlot := fun _ => none
  nextPoc : Nat := 0

/-- The bit depth, 8 where none is set. -/
def PicParams.depth (pp : PicParams) : Nat := if pp.bitDepth = 0 then 8 else pp.bitDepth
def DpbSlot.depth (s : DpbSlot) : Nat := if s.bitDepth = 0 then 8 else s.bitDepth

/-- The entry of a frame that was decoded to a slot of the pool. -/
def DpbCtx.entry (dpb : DpbCtx) (pp : PicParams) (slot : PoolSlot) : DpbSlot where
  frameHandle := .poolOutput slot
  colmvHandle := .poolColmv slot
  width := pp.width
  height := pp.height
  bitDepth := pp.depth
  poc := dpb.nextPoc + 1

/-- `Vp9Dpb_Update`. -/
def DpbCtx.update (dpb : DpbCtx) (pp : PicParams) (slot : PoolSlot) : DpbCtx where
  slots := fun i => if pp.refreshFrameFlags.getLsbD i then some (dpb.entry pp slot) else dpb.slots i
  nextPoc := dpb.nextPoc + 1

/-- `Vp9DecodeEngine`: the state that frames change. The size is the one of `Init`. -/
structure Engine where
  frameWidth : Nat
  frameHeight : Nat
  parserState : ParserState := {}
  dpb : DpbCtx := {}
  poolInUse : PoolSlot → Bool := fun _ => false
  lastIntraOnly : Bool := false
  lastShowFrame : Bool := false
  lastSegmentationEnabled : Bool := false
  lastWidthheightEqcur : Bool := false
  lastColorSpace : Nat := 0
  lastModeDeltas : List Int := [0, 0]
  lastLfRefDeltas : List Int := [0, 0, 0, 0]
  colRefPoc : Nat := 0
  segidRefPoc : Nat := 0
  probRefPoc : FrameContext → Nat := fun _ => 0
  segidPhase : Bool := false
  probCtxValid : FrameContext → Bool := fun _ => false
  waitForKeyframe : Bool := false

/-- The registers of one reference of an inter frame: strides (79 to 87), scales (88 to 93), sizes
(106 to 111) and POC (95 to 97). -/
structure RefRegs where
  horStride : Nat
  yVirStride : Nat
  horScale : Nat
  verScale : Nat
  width : Nat
  height : Nat
  poc : Nat
deriving DecidableEq, Repr

/-- The registers whose values depend on the frame or on the engine. -/
structure Regs where
  /-- 18 and 19 -/
  yHorVirstride : Nat
  /-- 20 -/
  yVirstride : Nat
  /-- 28 -/
  filmIdx : Nat
  /-- 65 -/
  curPoc : Nat
  /-- 67 to 74, with segmentation -/
  segments : List (List Feature)
  /-- 75, field by field -/
  lastModeDeltas : List Int
  segIdUpdate : Bool
  lastSegmentationEnabled : Bool
  lastShowFrame : Bool
  lastIntraOnly : Bool
  lastWidthheightEqcur : Bool
  lastColorSpace : Nat
  /-- the references, in an inter frame -/
  refs : List RefRegs
  /-- 94 -/
  refDeltasLast : List Int
  /-- 98 -/
  colRefPoc : Nat
  /-- 99 -/
  probRefPoc : Nat
  /-- 100 -/
  segidRefPoc : Nat
  /-- 130 and 131 -/
  decoutBase : Buf
  colmvCurBase : Buf
  /-- 162 -/
  lastProbBase : Buf
  /-- 164 to 166 -/
  refBases : List Buf
  /-- 168 and 169 -/
  segidLastBase : Buf
  segidCurBase : Buf
  /-- 170 -/
  refColmvBase : Buf
  /-- 172 -/
  updateProbWrBase : Buf
  /-- 181 to 183 -/
  refColmvSlots : List Buf
deriving DecidableEq, Repr

/-- Rows of 512 bits. -/
def alignedPitch (width bitDepth : Nat) : Nat := (width * bitDepth + 511) / 512 * 512 / 8

/-- `vp9_scale_factor`. -/
def scaleFactor (refDim curDim : Nat) : Nat :=
  if curDim = 0 then 16384 else min (refDim * 16384 / curDim) 0xffff

namespace PicParams

/-- The map of segments is written anew. -/
def segIdUpdate (pp : PicParams) : Bool :=
  pp.isIntra || pp.errorResilientMode || (pp.seg.enabled && pp.seg.updateMap)

/-- The frame goes on from the probabilities of its context. -/
def readsContext (pp : PicParams) : Bool := !pp.errorResilientMode && !pp.isIntra

end PicParams

namespace Engine

/-- The strides, scale, size and POC of a reference; a slot that is not valid counts as the frame
itself. -/
def refRegs (e : Engine) (pp : PicParams) (ref : RefFrameDesc) : RefRegs :=
  let slot := e.dpb.slots ref.index
  let width := (slot.map DpbSlot.width).getD pp.width
  let height := (slot.map DpbSlot.height).getD pp.height
  let pitch := alignedPitch width ((slot.map DpbSlot.depth).getD pp.depth)
  { horStride := pitch / 16 % 2 ^ 16
    yVirStride := height * pitch / 16 % 2 ^ 28
    horScale := scaleFactor width pp.width
    verScale := scaleFactor height pp.height
    width := width % 2 ^ 16
    height := height % 2 ^ 16
    poc := (slot.map DpbSlot.poc).getD 0 }

/-- The base of a reference; an intra frame refers to itself. -/
def refBase (e : Engine) (pp : PicParams) (target : PoolSlot) (ref : RefFrameDesc) : Buf :=
  if pp.isIntra then .poolOutput target
  else ((e.dpb.slots ref.index).map DpbSlot.frameHandle).getD (.poolOutput target)

/-- The motion vectors of the last reference. -/
def refColmv (e : Engine) (pp : PicParams) (target : PoolSlot) : Buf :=
  if pp.isIntra then .poolColmv target
  else match pp.frameRefs with
    | [] => .poolColmv target
    | last :: _ => ((e.dpb.slots last.index).map DpbSlot.colmvHandle).getD (.poolColmv target)

/-- The context of the frame is there to be read. -/
def ctxValid (e : Engine) (pp : PicParams) : Bool := e.probCtxValid pp.frameContextIdx &&
    pp.readsContext

/-- `Vp9Regbuilder_Fill`; `none` when the resolution is refused. -/
def fill (e : Engine) (pp : PicParams) (target : PoolSlot) : Option Regs :=
  if validateResolution pp.width pp.height then
    let pitch := alignedPitch pp.width pp.depth
    let curPoc := e.dpb.nextPoc + 1
    let widx := pp.frameContextIdx.val + 1
    some
      { yHorVirstride := pitch / 16
        yVirstride := pp.height * pitch / 16
        filmIdx := widx + (if e.ctxValid pp then widx else 0) * 16
        curPoc := curPoc
        segments := if pp.seg.enabled then pp.seg.features else []
        lastModeDeltas := e.lastModeDeltas
        segIdUpdate := pp.segIdUpdate
        lastSegmentationEnabled := e.lastSegmentationEnabled
        lastShowFrame := e.lastShowFrame
        lastIntraOnly := e.lastIntraOnly || pp.isIntra
        lastWidthheightEqcur := e.lastWidthheightEqcur
        lastColorSpace := e.lastColorSpace
        refs := if pp.isIntra then [] else pp.frameRefs.map (e.refRegs pp)
        refDeltasLast := if pp.isIntra then [0, 0, 0, 0] else e.lastLfRefDeltas
        colRefPoc := if e.colRefPoc = 0 then curPoc else e.colRefPoc
        probRefPoc := if e.ctxValid pp then e.probRefPoc pp.frameContextIdx % 2 ^ 16 else 0
        segidRefPoc := if pp.segIdUpdate then 0 else e.segidRefPoc
        decoutBase := .poolOutput target
        colmvCurBase := .poolColmv target
        lastProbBase := if e.ctxValid pp then .probLoop pp.frameContextIdx else .probDefault
        refBases := pp.frameRefs.map (e.refBase pp target)
        segidLastBase := .segid (!e.segidPhase)
        segidCurBase := .segid e.segidPhase
        refColmvBase := e.refColmv pp target
        updateProbWrBase := .probLoop pp.frameContextIdx
        refColmvSlots := ([0, 1, 2] : List RefSlot).map fun i =>
          ((e.dpb.slots i).map DpbSlot.colmvHandle).getD (.poolColmv target) }
  else none

/-- `free_pool_slot`: the first slot that neither the user nor a reference slot has. -/
def freePoolSlot (e : Engine) : Option PoolSlot :=
  (List.finRange 16).find? fun i =>
    !e.poolInUse i && decide (∀ r, (e.dpb.slots r).map DpbSlot.frameHandle ≠ some (.poolOutput i))

/-- The engine after a kick that failed. -/
def kickFailed (e : Engine) (pp : PicParams) : Engine :=
  { e with
    probCtxValid :=
      if pp.refreshFrameContext then Function.update e.probCtxValid pp.frameContextIdx false
      else e.probCtxValid
    waitForKeyframe := true }

/-- The engine after a kick that succeeded. -/
def kickDone (e : Engine) (pp : PicParams) (target : PoolSlot) : Engine :=
  let newPoc := e.dpb.nextPoc + 1
  { e with
    waitForKeyframe := e.waitForKeyframe && !pp.isIntra
    poolInUse := Function.update e.poolInUse target true
    dpb := e.dpb.update pp target
    parserState := applyDpbUpdate e.parserState pp
    lastIntraOnly := pp.isIntra
    lastShowFrame := pp.showFrame
    lastSegmentationEnabled := pp.seg.enabled
    lastWidthheightEqcur := true
    lastColorSpace := pp.colorSpace % 8
    lastModeDeltas := pp.lf.modeDeltas
    lastLfRefDeltas := pp.lf.refDeltas
    colRefPoc := if pp.showFrame && !pp.showExistingFrame then newPoc else e.colRefPoc
    segidRefPoc := if pp.segIdUpdate then newPoc else e.segidRefPoc
    probRefPoc :=
      if pp.refreshFrameContext then Function.update e.probRefPoc pp.frameContextIdx newPoc
      else e.probRefPoc
    probCtxValid :=
      if pp.refreshFrameContext then Function.update e.probCtxValid pp.frameContextIdx true
      else e.probCtxValid
    segidPhase := if pp.segIdUpdate then !e.segidPhase else e.segidPhase }

end Engine

/-- What `Vp9DecodeEngine_DecodeOne` returns. -/
inductive Status
  | ok | parserError | poolExhausted | kickFailed
deriving DecidableEq, Repr

/-- `Vp9DecodedFrame`. -/
structure DecodedFrame where
  width : Nat := 0
  height : Nat := 0
  slotIdx : Option PoolSlot := none
  shown : Bool := false
  bitDepth : Nat := 8
deriving DecidableEq, Repr

/-- A call of `DecodeOne`: the engine after it, the frame if it is ok, what was submitted and the
rows that were read for the frame. -/
structure Outcome where
  engine : Engine
  status : Status
  frame : Option DecodedFrame := none
  submitted : Option Regs := none
  reads : List Region := []

def bitstreamSize : Nat := 4 * 1024 * 1024

namespace Engine

/-- The rows of a frame in its slot; chroma follows the last row of luma. -/
def frameRows (width height bitDepth : Nat) : List Region :=
  rows (alignedPitch width bitDepth) height width height bitDepth

/-- `show_existing_frame`: the frame of a reference slot, without a kick. -/
def showExisting (e : Engine) (idx : RefSlot) : Outcome :=
  match e.dpb.slots idx with
  | none => { engine := e, status := .parserError }
  | some s =>
    match (List.finRange 16).find? fun i => decide (Buf.poolOutput i = s.frameHandle) with
    | none => { engine := e, status := .parserError }
    | some slot =>
      { engine := { e with poolInUse := Function.update e.poolInUse slot true }
        status := .ok
        frame := some ⟨s.width, s.height, some slot, true, s.depth⟩
        reads := frameRows s.width s.height s.depth }

/-- A frame that is coded: a target is taken, the registers are built and the kick is made. -/
def decodeCoded (e : Engine) (pp : PicParams) (len : Nat) (kickOk : Bool) : Outcome :=
  match e.freePoolSlot with
  | none => { engine := e, status := .poolExhausted }
  | some target =>
    if bitstreamSize < len then { engine := e, status := .parserError }
    else match e.fill pp target with
      | none => { engine := { e with waitForKeyframe := true }, status := .kickFailed }
      | some regs =>
        if kickOk then
          { engine := e.kickDone pp target
            status := .ok
            frame := some ⟨pp.width, pp.height, some target, pp.showFrame, pp.depth⟩
            submitted := some regs
            reads := frameRows pp.width pp.height pp.depth }
        else { engine := e.kickFailed pp, status := .kickFailed, submitted := some regs }

/-- `Vp9DecodeEngine_DecodeOne`. The gate drops a frame without saying so. -/
def decodeOne (e : Engine) (bits : List Bool) (kickOk : Bool) : Outcome :=
  match parse e.parserState bits with
  | none => { engine := e, status := .parserError }
  | some pp =>
    if e.waitForKeyframe && !pp.isIntra then { engine := e, status := .ok, frame := some {} }
    else if pp.showExistingFrame then e.showExisting pp.showExistingFrameIdx
    else e.decodeCoded pp (bits.length / 8) kickOk

/-- `Vp9DecodeEngine_ReleaseFrame`, for a frame with a slot. -/
def releaseFrame (e : Engine) (slot : PoolSlot) : Engine :=
  { e with poolInUse := Function.update e.poolInUse slot false }

/-- `Vp9DecodeEngine_Flush`. -/
def flush (e : Engine) : Engine :=
  { frameWidth := e.frameWidth
    frameHeight := e.frameHeight
    parserState := e.parserState
    dpb := e.dpb
    poolInUse := e.poolInUse
    waitForKeyframe := true }

end Engine

/-- The engine after `Vp9DecodeEngine_Init`. -/
def Engine.init (width height : Nat) : Engine where
  frameWidth := width
  frameHeight := height

/-- What happens to an engine. A frame comes as its bits, and with whether its kick succeeds if it
comes to one. -/
inductive Event
  | decode (bits : List Bool) (kickOk : Bool)
  | release (slot : PoolSlot)
  | flush

def Engine.step (e : Engine) : Event → Engine
  | .decode bits kickOk => (e.decodeOne bits kickOk).engine
  | .release slot => e.releaseFrame slot
  | .flush => e.flush

namespace Engine

/-- The call comes to a kick for a coded frame. -/
structure Submits (e : Engine) (bits : List Bool) (pp : PicParams) (target : PoolSlot) : Prop where
  parsed : parse e.parserState bits = some pp
  passes : e.waitForKeyframe = true → pp.isIntra = true
  coded : pp.showExistingFrame = false
  free : e.freePoolSlot = some target
  fits : bits.length / 8 ≤ bitstreamSize
  size : validateResolution pp.width pp.height = true

/-- The call shows the frame of a reference slot. -/
structure Shows (e : Engine) (bits : List Bool) (pp : PicParams) (s : DpbSlot) (slot : PoolSlot) :
    Prop where
  parsed : parse e.parserState bits = some pp
  passes : e.waitForKeyframe = true → pp.isIntra = true
  existing : pp.showExistingFrame = true
  entry : e.dpb.slots pp.showExistingFrameIdx = some s
  handle : s.frameHandle = .poolOutput slot

/-- The outcome of a kick. -/
def kicked (e : Engine) (pp : PicParams) (target : PoolSlot) (regs : Regs)
    (kickOk : Bool) : Outcome :=
  if kickOk then
    { engine := e.kickDone pp target
      status := .ok
      frame := some ⟨pp.width, pp.height, some target, pp.showFrame, pp.depth⟩
      submitted := some regs
      reads := frameRows pp.width pp.height pp.depth }
  else { engine := e.kickFailed pp, status := .kickFailed, submitted := some regs }

/-- The outcome of a frame that is shown again. -/
def shown (e : Engine) (s : DpbSlot) (slot : PoolSlot) : Outcome where
  engine := { e with poolInUse := Function.update e.poolInUse slot true }
  status := .ok
  frame := some ⟨s.width, s.height, some slot, true, s.depth⟩
  reads := frameRows s.width s.height s.depth

/-- A call that neither submits nor shows: it may arm the gate. -/
structure Idles (e : Engine) (bits : List Bool) (out : Outcome) : Prop where
  silent : ∀ pp target, ¬ e.Submits bits pp target
  blank : ∀ pp s slot, ¬ e.Shows bits pp s slot
  engine : out.engine = e ∨ out.engine = { e with waitForKeyframe := true }
  frame : out.frame = none ∨ out.frame = some {}
  armed : out.status = .kickFailed → out.engine.waitForKeyframe = true
  submitted : out.submitted = none
  reads : out.reads = []

variable {e : Engine} {bits : List Bool} {pp pp' : PicParams} {target target' slot : PoolSlot}
  {s : DpbSlot} {b : Buf}

theorem find_pool_output (h : (List.finRange 16).find? (fun i => decide (Buf.poolOutput i = b)) =
    some slot) : b = .poolOutput slot := by
  have hfound := List.find?_some h
  exact (of_decide_eq_true hfound).symm

theorem find_pool_output_self :
    (List.finRange 16).find? (fun i => decide (Buf.poolOutput i = .poolOutput slot)) =
    some slot := by
  revert slot
  decide

theorem gate_open (h : e.waitForKeyframe = true → pp.isIntra = true) :
    (e.waitForKeyframe && !pp.isIntra) = false := by
  cases hwait : e.waitForKeyframe with
  | false => rfl
  | true => rw [h hwait]; rfl

/-- A frame that is shown: its outcome. -/
theorem Shows.outcome (h : e.Shows bits pp s slot) (kickOk : Bool) :
    e.decodeOne bits kickOk = e.shown s slot := by
  have hgate := gate_open h.passes
  simp only [decodeOne, h.parsed, hgate, h.existing, showExisting, h.entry, h.handle,
    find_pool_output_self, Bool.false_eq_true, if_false, if_true, shown]

/-- A frame that comes to a kick: its registers are built and its outcome is the kick's. -/
theorem Submits.outcome (h : e.Submits bits pp target) (kickOk : Bool) :
    ∃ regs, e.fill pp target = some regs ∧
    e.decodeOne bits kickOk = e.kicked pp target regs kickOk := by
  have hgate := gate_open h.passes
  have hfits : ¬ bitstreamSize < bits.length / 8 := Nat.not_lt.mpr h.fits
  have hfill : ∃ regs, e.fill pp target = some regs := by
    unfold fill
    rw [if_pos h.size]
    exact ⟨_, rfl⟩
  obtain ⟨regs, hregs⟩ := hfill
  refine ⟨regs, hregs, ?_⟩
  simp only [decodeOne, h.parsed, hgate, h.coded, decodeCoded, h.free, hfits, hregs, if_false,
    Bool.false_eq_true, kicked]

theorem kicked_submitted {regs : Regs} (kickOk : Bool) :
    (e.kicked pp target regs kickOk).submitted = some regs := by
  cases kickOk <;> rfl

theorem Submits.unique (h : e.Submits bits pp target) (h' : e.Submits bits pp' target') :
    pp' = pp ∧ target' = target := by
  have hpp : pp = pp' := Option.some.inj (h.parsed.symm.trans h'.parsed)
  have htarget : target = target' := Option.some.inj (h.free.symm.trans h'.free)
  exact ⟨hpp.symm, htarget.symm⟩

theorem Submits.not_shows (h : e.Submits bits pp target) : ¬ e.Shows bits pp' s slot := by
  intro h'
  have hpp : pp = pp' := Option.some.inj (h.parsed.symm.trans h'.parsed)
  have hcoded := h.coded
  rw [hpp, h'.existing] at hcoded
  cases hcoded

/-- Every call submits a frame, shows one or idles. -/
theorem decodeOne_cases (e : Engine) (bits : List Bool) (kickOk : Bool) :
    (∃ pp target, e.Submits bits pp target) ∨ (∃ pp s slot, e.Shows bits pp s slot) ∨
      e.Idles bits (e.decodeOne bits kickOk) := by
  by_cases hsubmits : ∃ pp target, e.Submits bits pp target
  · exact .inl hsubmits
  by_cases hshows : ∃ pp s slot, e.Shows bits pp s slot
  · exact .inr (.inl hshows)
  refine .inr (.inr ?_)
  have hsilent : ∀ pp target, ¬ e.Submits bits pp target :=
    fun pp target h => hsubmits ⟨pp, target, h⟩
  have hblank : ∀ pp s slot, ¬ e.Shows bits pp s slot := fun pp s slot h => hshows ⟨pp, s, slot, h⟩
  unfold decodeOne
  split
  · exact ⟨hsilent, hblank, .inl rfl, .inl rfl, nofun, rfl, rfl⟩
  · rename_i pp hparse
    split
    · exact ⟨hsilent, hblank, .inl rfl, .inr rfl, nofun, rfl, rfl⟩
    · rename_i hgate
      have hpasses : e.waitForKeyframe = true → pp.isIntra = true := by simpa using hgate
      split
      · rename_i hexisting
        unfold showExisting
        split
        · exact ⟨hsilent, hblank, .inl rfl, .inl rfl, nofun, rfl, rfl⟩
        · rename_i s hentry
          split
          · exact ⟨hsilent, hblank, .inl rfl, .inl rfl, nofun, rfl, rfl⟩
          · rename_i slot hfind
            exact absurd ⟨hparse, hpasses, hexisting, hentry, find_pool_output hfind⟩
              (hblank pp s slot)
      · rename_i hcoded
        have hcoded : pp.showExistingFrame = false := by simpa using hcoded
        unfold decodeCoded
        split
        · exact ⟨hsilent, hblank, .inl rfl, .inl rfl, nofun, rfl, rfl⟩
        · rename_i target hfree
          split
          · exact ⟨hsilent, hblank, .inl rfl, .inl rfl, nofun, rfl, rfl⟩
          · rename_i hfits
            split
            · exact ⟨hsilent, hblank, .inr rfl, .inl rfl, fun _ => rfl, rfl, rfl⟩
            · rename_i regs hregs
              have hsize : validateResolution pp.width pp.height = true := by
                by_contra hsize
                rw [fill, if_neg hsize] at hregs
                cases hregs
              exact absurd ⟨hparse, hpasses, hcoded, hfree, Nat.not_lt.mp hfits, hsize⟩
                (hsilent pp target)

/-- What is submitted are the registers of a frame that comes to a kick. -/
theorem submitted_iff {regs : Regs} {kickOk : Bool} :
    (e.decodeOne bits kickOk).submitted = some regs ↔
      ∃ pp target, e.Submits bits pp target ∧ e.fill pp target = some regs := by
  constructor
  · intro hregs
    rcases e.decodeOne_cases bits kickOk with ⟨pp, target, hsub⟩ | ⟨pp, s, slot, hshow⟩ | hidle
    · obtain ⟨regs', hfill, hout⟩ := hsub.outcome kickOk
      rw [hout, kicked_submitted] at hregs
      exact ⟨pp, target, hsub, hfill.trans hregs⟩
    · rw [hshow.outcome] at hregs
      cases hregs
    · rw [hidle.submitted] at hregs
      cases hregs
  · rintro ⟨pp, target, hsub, hfill⟩
    obtain ⟨regs', hfill', hout⟩ := hsub.outcome kickOk
    rw [hout, kicked_submitted, ← hfill', hfill]

end Engine

end Rkvdec.Vp9
