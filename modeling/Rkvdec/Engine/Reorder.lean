import Rkvdec.Engine.Dpb

/-! The display-order queues of the decode engine. A decoded picture moves from `reorderQ` to
`readyQ` to the consumer, and its slot's hold moves with it. -/
namespace Rkvdec.Engine

/-- `DecodeEngine::ReorderEntry`, and `DecodedFrame` once polled; the pixel data is left out. -/
structure Entry where
  poc : Int
  ptsHns : Int
  durHns : Int
  slotIdx : Option SlotIdx
  isRef : Bool
  epoch : BitVec 32

/-- The engine state the queue operations work on, over any codec's DPB. -/
structure DecodeEngine (R C : Type) where
  dpb : Dpb R C
  reorderQ : List Entry
  readyQ : List Entry
  maxNumReorderPics : Nat
  submitCount : Nat
  waitForIdr : Bool
  lastDecodedSlot : Option SlotIdx

variable {R C : Type}

/-- The lowest-POC scan of `bump_lowest`: `best` is the candidate, at index `bestIdx`. -/
def lowestFrom (best : Entry) (bestIdx : Nat) : Nat → List Entry → Nat
  | _, [] => bestIdx
  | i, e :: es =>
    if e.poc < best.poc then lowestFrom e i (i + 1) es else lowestFrom best bestIdx (i + 1) es

/-- The index of the first entry of least POC. -/
def lowestIdx : List Entry → Nat
  | [] => 0
  | e :: es => lowestFrom e 0 1 es

/-- Move the hold of an entry that has a slot; an entry without one holds nothing. -/
def transferEntry (d : Dpb R C) (src dst : Hold) (e : Entry) : Option (Dpb R C) :=
  match e.slotIdx with
  | none => some d
  | some i => d.transferHold i src dst e.epoch

def releaseEntry (d : Dpb R C) (r : Hold) (e : Entry) : Option (Dpb R C) :=
  match e.slotIdx with
  | none => some d
  | some i => d.releaseHold i r

namespace DecodeEngine

/-- `bump_lowest`. -/
def bumpLowest (e : DecodeEngine R C) : Option (DecodeEngine R C) :=
  let best := lowestIdx e.reorderQ
  match e.reorderQ[best]? with
  | none => some e
  | some entry => do
    let dpb ← transferEntry e.dpb .reorder .ready entry
    pure { e with
      dpb := dpb
      readyQ := e.readyQ ++ [entry]
      reorderQ := e.reorderQ.eraseIdx best }

/-- `while (reorder_q.size() > bound) bump_lowest(e)`. Every turn takes one entry out of the
queue, so the queue's length is fuel enough. -/
def bumpWhile (bound : Nat) : Nat → DecodeEngine R C → Option (DecodeEngine R C)
  | 0, e => some e
  | fuel + 1, e =>
    if e.reorderQ.length ≤ bound then some e
    else do
      let e ← e.bumpLowest
      bumpWhile bound fuel e

/-- `kMaxReorderPics`. -/
def maxReorderPics : Nat := 32

/-- `DecodeEngine_Drain`. -/
def drain (e : DecodeEngine R C) : Option (DecodeEngine R C) :=
  bumpWhile 0 e.reorderQ.length e

/-- `DecodeEngine_OnDecodeComplete`. -/
def onDecodeComplete (e : DecodeEngine R C) (entry : Entry) (maxNumReorderPics : Nat)
    (isIdrBoundary : Bool) : Option (DecodeEngine R C) :=
  let bound := min maxNumReorderPics maxReorderPics
  (if isIdrBoundary then e.drain else some e).bind fun e =>
    let e := { e with reorderQ := e.reorderQ ++ [entry], maxNumReorderPics := bound }
    bumpWhile bound e.reorderQ.length e

/-- `DecodeEngine_PollFrame`: the frame handed out, if there is one. -/
def pollFrame (e : DecodeEngine R C) : Option (Option Entry × DecodeEngine R C) :=
  match e.readyQ with
  | [] => some (none, e)
  | entry :: rest => do
    let dpb ← transferEntry e.dpb .ready .consumer entry
    pure (some entry, { e with dpb := dpb, readyQ := rest })

/-- `DecodeEngine_ReleaseFrame`. -/
def releaseFrame (e : DecodeEngine R C) (frame : Entry) : Option (DecodeEngine R C) := do
  let dpb ← releaseEntry e.dpb .consumer frame
  pure { e with dpb := dpb }

/-- The hold releases of `DecodeEngine_Flush`, over one queue. -/
def releaseAll (r : Hold) : List Entry → Dpb R C → Option (Dpb R C)
  | [], d => some d
  | entry :: rest, d => do
    let d ← releaseEntry d r entry
    releaseAll r rest d

/-- `DecodeEngine_Flush`, with the codec's own DPB flush given. -/
def flush (dpbFlush : Dpb R C → Option (Dpb R C)) (e : DecodeEngine R C) :
    Option (DecodeEngine R C) := do
  let d ← releaseAll .reorder e.reorderQ e.dpb
  let d ← releaseAll .ready e.readyQ d
  let d ← dpbFlush d
  pure { e with
    dpb := d
    reorderQ := []
    readyQ := []
    submitCount := 0
    maxNumReorderPics := 0
    waitForIdr := true }

end DecodeEngine

end Rkvdec.Engine
