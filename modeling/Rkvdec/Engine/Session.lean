import Rkvdec.Engine.H264
import Rkvdec.Engine.Reorder

/-! The H.264 engine with its caller: submissions with any parse and decode outcome, polled
frames and their release, drain and flush. -/
namespace Rkvdec.Engine.H264

abbrev H264Engine := DecodeEngine RefState Marking

/-- An access unit as the engine sees it: whether an IDR slice is in it, the parse result if
everything before `Dpb_Select` succeeds, and whether register building and the codec succeed. -/
structure AccessUnit where
  hasIrap : Bool
  parsed : Option Parsed
  regbuildOk : Bool
  decodeOk : Bool

/-- `DecodeOne_H264`: whether a picture was decoded. -/
def decodeOne (e : H264Engine) (au : AccessUnit) : Option (Bool × H264Engine) :=
  match au.parsed with
  | none => some (false, e)
  | some parsed => do
    match ← select e.dpb parsed with
    | (.ok, some slot, d) =>
      if au.regbuildOk = false then pure (false, { e with dpb := onDecodeFailed d })
      else if au.decodeOk = false then pure (false, { e with dpb := onDecodeFailed d })
      else pure (true, { e with lastDecodedSlot := some slot, dpb := onDecodeComplete d })
    | (_, _, d) => pure (false, { e with dpb := d })

/-- `resolve_max_reorder`. -/
def resolveMaxReorder (parsed : Option Parsed) : Nat :=
  match parsed with
  | some p => if p.hasSps then p.maxNumRefFrames else 4
  | none => 4

/-- `10'000'000 / 30`. -/
def frameDurHns : Int := 333333

/-- The queue half of `DecodeEngine_Submit`, for the picture just decoded. -/
def enqueue (e : H264Engine) (parsed : Parsed) (ptsHns : Int) (epoch : BitVec 32) :
    Option H264Engine := do
  let d ← match e.lastDecodedSlot with
    | none => some e.dpb
    | some i => e.dpb.addHold i .reorder epoch
  let entry : Entry :=
    { poc := parsed.topFieldOrderCnt
      ptsHns := if ptsHns < 0 then (e.submitCount * 10000000 / 30 : Nat) else ptsHns
      durHns := frameDurHns
      slotIdx := e.lastDecodedSlot
      isRef := match e.lastDecodedSlot with
        | none => false
        | some i => (d.slots i).ref.isRef
      epoch := epoch }
  DecodeEngine.onDecodeComplete { e with dpb := d, submitCount := e.submitCount + 1 } entry
    (resolveMaxReorder (some parsed)) parsed.isIdr

/-- `DecodeEngine_Submit`. -/
def submit (e : H264Engine) (au : AccessUnit) (ptsHns : Int) (epoch : BitVec 32) :
    Option H264Engine :=
  if e.waitForIdr && !au.hasIrap then some e
  else do
    let (decoded, e) ← decodeOne { e with waitForIdr := false } au
    match decoded, au.parsed with
    | true, some parsed => enqueue e parsed ptsHns epoch
    | _, _ => pure { e with waitForIdr := true }

/-- The engine together with the frames its caller has polled and not released, and the number of
flushes the caller has made. -/
structure Session where
  engine : H264Engine
  outstanding : List Entry
  flushes : Nat

inductive Op where
  | submit (au : AccessUnit) (ptsHns : Int)
  | pollFrame
  | releaseFrame (k : Nat)
  | drain
  | flush

namespace Session

/-- One call by the caller, which passes its flush count as the epoch of a submission. Releasing
a frame it does not hold does nothing. -/
def step (s : Session) : Op → Option Session
  | .submit au ptsHns => do
    let e ← H264.submit s.engine au ptsHns (BitVec.ofNat 32 s.flushes)
    pure { s with engine := e }
  | .pollFrame => do
    let (frame, e) ← s.engine.pollFrame
    pure { s with engine := e, outstanding := s.outstanding ++ frame.toList }
  | .releaseFrame k =>
    match s.outstanding[k]? with
    | none => some s
    | some frame => do
      let e ← s.engine.releaseFrame frame
      pure { s with engine := e, outstanding := s.outstanding.eraseIdx k }
  | .drain => do
    let e ← s.engine.drain
    pure { s with engine := e }
  | .flush => do
    let e ← s.engine.flush H264.flush
    pure { s with engine := e, flushes := s.flushes + 1 }

def init : Session where
  engine :=
    { dpb := H264.init
      reorderQ := []
      readyQ := []
      maxNumReorderPics := 0
      submitCount := 0
      waitForIdr := false
      lastDecodedSlot := none }
  outstanding := []
  flushes := 0

/-- A whole run; `none` when some `RKMPP_VERIFY` or assertion fired on the way. -/
def run (ops : List Op) : Option Session :=
  ops.foldlM step init

end Session

end Rkvdec.Engine.H264
