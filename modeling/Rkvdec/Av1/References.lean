import Mathlib.Tactic
import Mathlib.Data.Fintype.Card
import Mathlib.Logic.Function.Basic
import Rkvdec.Basic
import Rkvdec.Bitstream.BitReader
import Rkvdec.Lib.Trace

/-! The reference state of the AV1 engine: four tables over the eight reference slots, which
`Av1HwKickPicture`, `Av1UpdateSavedStates` and `rkmpp_av1_dpb_post_decode` keep. -/
namespace Rkvdec.Av1

open Bitstream (Byte)

inductive FrameType
  | key | inter | intra | switch
deriving DecidableEq, Repr

/-- A reference slot. -/
abbrev Slot := Fin 8

/-- A slot of the output pool, `kPoolSize` of them. -/
abbrev PoolSlot := Fin 12

/-- The bytes of a table of probabilities. -/
abbrev Cdf := List Byte

/-- What the engine reads of `Dav1dFrameHeader`. The parser starts from zeros. -/
structure FrameHeader where
  showExistingFrame : Bool := false
  existingFrameIdx : Slot := 0
  frameType : FrameType := .key
  showFrame : Bool := false
  errorResilientMode : Bool := false
  disableCdfUpdate : Bool := false
  refreshContext : Bool := false
  allowIntrabc : Bool := false
  primaryRefFrame : Fin 8 := 0
  refidx : Fin 7 → Slot := fun _ => 0
  refreshFrameFlags : BitVec 8 := 0
  frameOffset : Nat := 0
  width : Nat := 0
  upscaledWidth : Nat := 0
  height : Nat := 0
  yac : Nat := 0

/-- The elements of a coded frame's header; the flags are read only where the type does not fix
them. -/
structure CodedSyntax where
  frameType : FrameType
  showFrame : Bool
  errorResilientMode : Bool
  disableCdfUpdate : Bool
  refreshContext : Bool
  allowIntrabc : Bool
  primaryRefFrame : Fin 8
  refidx : Fin 7 → Slot
  refreshFrameFlags : BitVec 8
  frameOffset : Nat
  width : Nat
  upscaledWidth : Nat
  height : Nat
  yac : Nat

def FrameType.isKeyOrIntra (t : FrameType) : Bool := t == .key || t == .intra

/-- `error_resilient_mode`, forced for a shown key frame and a switch frame. -/
def CodedSyntax.errorResilient (x : CodedSyntax) : Bool :=
  (x.frameType == .key && x.showFrame) || x.frameType == .switch || x.errorResilientMode

/-- `refresh_frame_flags`, fixed for a shown key frame and a switch frame. -/
def CodedSyntax.flags (x : CodedSyntax) : BitVec 8 :=
  if (x.frameType = .key ∧ x.showFrame) ∨ x.frameType = .switch then 0xff else x.refreshFrameFlags

/-- `parse_frame_hdr` for a coded frame. -/
def CodedSyntax.header (x : CodedSyntax) : FrameHeader where
  frameType := x.frameType
  showFrame := x.showFrame
  errorResilientMode := x.errorResilient
  disableCdfUpdate := x.disableCdfUpdate
  refreshContext := !x.disableCdfUpdate && x.refreshContext
  allowIntrabc := x.allowIntrabc
  primaryRefFrame := if !x.errorResilient && !x.frameType.isKeyOrIntra then x.primaryRefFrame else 7
  refidx := x.refidx
  refreshFrameFlags := x.flags
  frameOffset := x.frameOffset
  width := x.width
  upscaledWidth := x.upscaledWidth
  height := x.height
  yac := x.yac

/-- `parse_frame_hdr` for `show_existing_frame`: it returns before the type and the flags. -/
def shownHeader (savedStates : Slot → Option FrameHeader) (idx : Slot) : FrameHeader :=
  let saved := (savedStates idx).getD {}
  { showExistingFrame := true
    existingFrameIdx := idx
    width := saved.width
    upscaledWidth := saved.upscaledWidth
    height := saved.height
    frameOffset := saved.frameOffset }

/-- The slots in a mask take a value. -/
def refresh {α : Type} (mask : BitVec 8) (x : α) (t : Slot → α) : Slot → α :=
  fun s => if mask.getLsbD s then x else t s

/-- `Av1UpdateSavedStates`. -/
def updateSavedStates (states : Slot → Option FrameHeader) (cur : FrameHeader) :
    Slot → Option FrameHeader :=
  refresh cur.refreshFrameFlags (some cur) states

/-- `RkmppAv1DpbSlot`. -/
structure DpbSlot where
  frameType : FrameType
  frameOffset : Nat
  codedWidth : Nat
  codedHeight : Nat
  upscaledWidth : Nat
  bufferId : Nat
  savedOrderHints : Fin 7 → Nat

/-- `RkmppAv1Dpb`; a slot that is not valid is `none`. -/
structure Dpb where
  slots : Slot → Option DpbSlot := fun _ => none
  orderHintBits : Nat := 0
  nextBufferId : Nat := 0

/-- The record of a frame, with the order hints of its references. -/
def Dpb.record (dpb : Dpb) (hdr : FrameHeader) : DpbSlot :=
  let inter := !hdr.frameType.isKeyOrIntra && !hdr.allowIntrabc
  { frameType := hdr.frameType
    frameOffset := hdr.frameOffset
    codedWidth := hdr.width % 2 ^ 16
    codedHeight := hdr.height % 2 ^ 16
    upscaledWidth := hdr.upscaledWidth % 2 ^ 16
    bufferId := (dpb.nextBufferId + 1) % 2 ^ 32
    savedOrderHints := fun r =>
      if inter then ((dpb.slots (hdr.refidx r)).map DpbSlot.frameOffset).getD 0 else 0 }

/-- `rkmpp_av1_dpb_post_decode`. -/
def Dpb.postDecode (dpb : Dpb) (seqOrderHintBits : Nat) (hdr : FrameHeader) : Dpb where
  orderHintBits := if dpb.orderHintBits = 0 then seqOrderHintBits else dpb.orderHintBits
  nextBufferId := (dpb.nextBufferId + 1) % 2 ^ 32
  slots := refresh hdr.refreshFrameFlags (some (dpb.record hdr)) dpb.slots

/-- The reference state. `pool` says of which kick a slot of the pool has the picture. -/
structure RefState where
  hardware : Bool
  seqHdr : Option Nat := none
  savedStates : Slot → Option FrameHeader := fun _ => none
  dpb : Dpb := {}
  dpbToPool : Slot → Option PoolSlot := fun _ => none
  savedCdf : Slot → Cdf := fun _ => []
  pool : PoolSlot → Option Nat := fun _ => none
  submitCount : Nat := 0

/-- How a kick ends, and what it leaves in `prob_tbl_out`. -/
structure KickResult where
  ok : Bool
  probTblOut : Cdf
deriving Repr

/-- A slot of the pool that no reference slot has, from the number of the kick on. -/
def pickSlot (dpbToPool : Slot → Option PoolSlot) (kickNo : Nat) : PoolSlot :=
  (((List.range 12).map fun probe => Fin.ofNat 12 (kickNo + probe)).find? fun candidate =>
    ∀ s, dpbToPool s ≠ some candidate).getD (Fin.ofNat 12 kickNo)

namespace RefState

variable (defaultCdfs : Fin 4 → Cdf)

/-- The probabilities a kick starts with. -/
def probTbl (e : RefState) (hdr : FrameHeader) : Cdf :=
  let qcat : Fin 4 :=
    if hdr.yac ≤ 20 then 0 else if hdr.yac ≤ 60 then 1 else if hdr.yac ≤ 120 then 2 else 3
  let useDefaults := hdr.errorResilientMode || hdr.frameType.isKeyOrIntra
  if h : useDefaults = false ∧ hdr.primaryRefFrame.val < 7 then
    let saved := e.savedCdf (hdr.refidx ⟨hdr.primaryRefFrame, h.2⟩)
    if (defaultCdfs qcat).length ≤ saved.length then saved else defaultCdfs qcat
  else defaultCdfs qcat

/-- The probabilities that a kick leaves to the slots it refreshes. -/
def snapshot (e : RefState) (hdr : FrameHeader) (r : KickResult) : Cdf :=
  if !hdr.disableCdfUpdate && hdr.refreshContext then r.probTblOut else e.probTbl defaultCdfs hdr

/-- The mask `Av1HwKickPicture` refreshes with. -/
def kickMask (hdr : FrameHeader) : BitVec 8 :=
  if hdr.frameType = .key then 0xff else hdr.refreshFrameFlags

/-- `Av1HwKickPicture`: only a kick that succeeds reaches the snapshot. -/
def hwKick (e : RefState) (hdr : FrameHeader) (slot : PoolSlot) (r : KickResult) : RefState :=
  if r.ok then
    { e with
      dpbToPool := refresh (kickMask hdr) (some slot) e.dpbToPool
      savedCdf := refresh (kickMask hdr) (e.snapshot defaultCdfs hdr r) e.savedCdf
      pool := Function.update e.pool slot (some e.submitCount) }
  else { e with pool := Function.update e.pool slot none }

/-- The tables that a header updates, after a kick or without one. -/
def postDecode (e : RefState) (seqOrderHintBits : Nat) (hdr : FrameHeader) : RefState :=
  { e with
    savedStates := updateSavedStates e.savedStates hdr
    dpb := e.dpb.postDecode seqOrderHintBits hdr }

/-- The coded frame in `DrainPictures`. The number of the kick is taken before it. -/
def decode (e : RefState) (seqOrderHintBits : Nat) (hdr : FrameHeader)
    (r : KickResult) : RefState :=
  let kicked :=
    if e.hardware then e.hwKick defaultCdfs hdr (pickSlot e.dpbToPool e.submitCount) r else e
  { kicked.postDecode seqOrderHintBits hdr with submitCount := e.submitCount + 1 }

/-- `show_existing_frame` in `DrainPictures`; without a picture in the pool the OBU is dropped. -/
def showExisting (e : RefState) (seqOrderHintBits : Nat) (idx : Slot) : RefState :=
  if (e.dpbToPool idx).isNone then e
  else e.postDecode seqOrderHintBits (shownHeader e.savedStates idx)

/-- `Av1DecodeEngine_Flush`. -/
def flush (e : RefState) : RefState :=
  { hardware := e.hardware, pool := e.pool, submitCount := e.submitCount }

end RefState

/-- A header that was parsed. -/
inductive Picture
  | coded (x : CodedSyntax)
  | showExisting (idx : Slot)

/-- What a temporal unit brings, in the order of `Av1DecodeEngine_Submit`, and `Flush`. -/
inductive RefEvent
  | sequenceHeader (orderHintBits : Nat)
  | unparsed
  | picture (p : Picture) (r : KickResult)
  | flush

def RefState.step (defaultCdfs : Fin 4 → Cdf) (e : RefState) : RefEvent → RefState
  | .sequenceHeader bits => { e with seqHdr := some bits }
  | .unparsed => e
  | .picture p r =>
    match e.seqHdr, p with
    | none, _ => e
    | some bits, .coded x => e.decode defaultCdfs bits x.header r
    | some bits, .showExisting idx => e.showExisting bits idx
  | .flush => e.flush

/-- A frame that was decoded, with what each of the tables should say of it. -/
structure Decoded where
  header : FrameHeader
  dpbSlot : DpbSlot
  poolSlot : PoolSlot
  cdf : Cdf
  kickNo : Nat

/-- What the reference slots hold. -/
abbrev Held := Slot → Option Decoded

namespace RefState

variable (defaultCdfs : Fin 4 → Cdf)

/-- The coded frame is decoded. -/
def Decodes (e : RefState) (r : KickResult) : Prop := e.hardware = true ∧ r.ok = true

instance (e : RefState) (r : KickResult) : Decidable (e.Decodes r) :=
  inferInstanceAs (Decidable (_ ∧ _))

/-- The slot holds a key frame. -/
def HoldsKey (e : RefState) (s : Slot) : Prop := ∃ h, e.savedStates s = some h ∧ h.frameType = .key

/-- Two slots have the same records in all four tables. -/
structure SameRecords (e : RefState) (s : Slot) (e' : RefState) (s' : Slot) : Prop where
  savedStates : e.savedStates s = e'.savedStates s'
  dpb : e.dpb.slots s = e'.dpb.slots s'
  dpbToPool : e.dpbToPool s = e'.dpbToPool s'
  savedCdf : e.savedCdf s = e'.savedCdf s'

def decoded (e : RefState) (hdr : FrameHeader) (r : KickResult) : Decoded where
  header := hdr
  dpbSlot := e.dpb.record hdr
  poolSlot := pickSlot e.dpbToPool e.submitCount
  cdf := e.snapshot defaultCdfs hdr r
  kickNo := e.submitCount

/-- The reference slots by the standard: a frame that is decoded goes to the slots of its mask. With
`loads`, a key frame that is shown again goes to all of them. -/
def heldStep (loads : Bool) (e : RefState) (held : Held) : RefEvent → Held
  | .picture (.coded x) r =>
    if e.seqHdr.isSome ∧ e.Decodes r then
      refresh x.flags (some (e.decoded defaultCdfs x.header r)) held
    else held
  | .picture (.showExisting idx) _ =>
    if loads && e.seqHdr.isSome && (held idx).any fun f => f.header.frameType == .key then
      fun _ => held idx
    else held
  | .flush => fun _ => none
  | _ => held

/-- The four tables describe the frame that a slot holds, and its picture is still in the pool. -/
structure Describes (e : RefState) (s : Slot) (f : Option Decoded) : Prop where
  savedStates : e.savedStates s = f.map Decoded.header
  dpb : e.dpb.slots s = f.map Decoded.dpbSlot
  dpbToPool : e.dpbToPool s = f.map Decoded.poolSlot
  savedCdf : e.savedCdf s = (f.map Decoded.cdf).getD []
  pool : ∀ x, f = some x → e.pool x.poolSlot = some x.kickNo

def Coherent (e : RefState) (held : Held) : Prop := ∀ s, e.Describes s (held s)

/-- The steps that keep the tables together: a frame that is not decoded refreshes nothing, the mask
of a key frame is full, and with `loads` a key frame that is shown again is in every slot. -/
def Keeps (loads : Bool) (e : RefState) : RefEvent → Prop
  | .picture (.coded x) r =>
    e.seqHdr.isSome → (e.Decodes r → x.frameType = .key → x.flags = 0xff) ∧
      (¬ e.Decodes r → x.flags = 0)
  | .picture (.showExisting idx) _ =>
    loads → e.seqHdr.isSome → e.HoldsKey idx → ∀ s, e.SameRecords s e idx
  | _ => True

end RefState

section Pick

/-- There are fewer reference slots than slots in the pool. -/
theorem pickSlot_free (dpbToPool : Slot → Option PoolSlot) (kickNo : Nat) (s : Slot) :
    dpbToPool s ≠ some (pickSlot dpbToPool kickNo) := by
  obtain ⟨p, hp⟩ : ∃ p : PoolSlot, ∀ s, dpbToPool s ≠ some p := by
    by_contra hall
    push Not at hall
    choose slot hslot using hall
    have hinj : Function.Injective slot := by
      intro p q hpq
      have hp := hslot p
      rw [hpq, hslot q] at hp
      exact (Option.some.inj hp).symm
    have hcard := Fintype.card_le_of_injective slot hinj
    simp at hcard
  have hmem : p ∈ (List.range 12).map fun probe => Fin.ofNat 12 (kickNo + probe) := by
    rw [List.mem_map]
    refine ⟨(p.val + 12 - kickNo % 12) % 12,
      List.mem_range.mpr (Nat.mod_lt _ (by decide)), Fin.ext ?_⟩
    have hlt := p.isLt
    simp only [Fin.ofNat]
    omega
  unfold pickSlot
  cases hfind : ((List.range 12).map fun probe => Fin.ofNat 12 (kickNo + probe)).find?
    fun candidate =>
      ∀ s, dpbToPool s ≠ some candidate with
  | none => exact absurd hp (by simpa using List.find?_eq_none.mp hfind p hmem)
  | some c => exact (by simpa using List.find?_some hfind : ∀ s, dpbToPool s ≠ some c) s

end Pick

section Coherence

variable {α : Type} {defaultCdfs : Fin 4 → Cdf} {loads : Bool} {e e' : RefState}
  {held : Held} {s : Slot}
  {f : Option Decoded} {x : CodedSyntax} {r : KickResult} {bits : Nat} {ev : RefEvent}

theorem refresh_zero (a : α) (t : Slot → α) : refresh 0 a t = t := by
  funext s
  simp [refresh]

namespace RefState

/-- The same records, and the picture still in the pool. -/
theorem Describes.congr {s' : Slot} (h : e.Describes s f) (hrec : e'.SameRecords s' e s)
    (hpool : ∀ p, e.dpbToPool s = some p → e'.pool p = e.pool p) : e'.Describes s' f where
  savedStates := hrec.savedStates.trans h.savedStates
  dpb := hrec.dpb.trans h.dpb
  dpbToPool := hrec.dpbToPool.trans h.dpbToPool
  savedCdf := hrec.savedCdf.trans h.savedCdf
  pool := by
    rintro y rfl
    rw [hpool y.poolSlot h.dpbToPool, h.pool y rfl]

/-- A header that refreshes nothing leaves the records alone. -/
theorem postDecode_same {hdr : FrameHeader} (h : hdr.refreshFrameFlags = 0) (s : Slot) :
    (e.postDecode bits hdr).SameRecords s e s := by
  refine ⟨?_, ?_, rfl, rfl⟩
  · simp only [postDecode, updateSavedStates, h, refresh_zero]
  · simp only [postDecode, Dpb.postDecode, h, refresh_zero]

/-- The pool outside the slot of the kick. -/
theorem pool_update (a : Option Nat) (p : PoolSlot) (h : e.dpbToPool s = some p) :
    Function.update e.pool (pickSlot e.dpbToPool e.submitCount) a p = e.pool p := by
  refine Function.update_of_ne ?_ _ _
  rintro rfl
  exact pickSlot_free _ _ s h

/-- A frame that is not decoded and refreshes nothing. -/
theorem decode_skip (hdec : ¬ e.Decodes r) (hflags : x.flags = 0) (hco : e.Coherent held) :
    (e.decode defaultCdfs bits x.header r).Coherent held := by
  intro s
  have hsame : (e.postDecode bits x.header).SameRecords s e s := postDecode_same hflags s
  unfold decode
  cases hhw : e.hardware with
  | false =>
    simp only [Bool.false_eq_true, if_false]
    exact (hco s).congr ⟨hsame.savedStates, hsame.dpb, rfl, rfl⟩ fun _ _ => rfl
  | true =>
    have hok : r.ok = false := by
      cases hr : r.ok with
      | false => rfl
      | true => exact absurd ⟨hhw, hr⟩ hdec
    simp only [hwKick, hok, if_true, Bool.false_eq_true, if_false]
    exact (hco s).congr ⟨hsame.savedStates, hsame.dpb, rfl, rfl⟩ fun p hp => pool_update _ p hp

/-- A frame that is decoded, with one mask for the four tables. -/
theorem decode_held (hdec : e.Decodes r) (hmask : x.frameType = .key → x.flags = 0xff)
    (hco : e.Coherent held) :
    (e.decode defaultCdfs bits x.header r).Coherent
      (refresh x.flags (some (e.decoded defaultCdfs x.header r)) held) := by
  have hkick : kickMask x.header = x.flags := by
    unfold kickMask
    split
    · rename_i hkey
      exact (hmask hkey).symm
    · rfl
  have hflags : x.header.refreshFrameFlags = x.flags := rfl
  intro s
  simp only [decode, hwKick, hdec.1, hdec.2, if_true, hkick]
  by_cases hbit : x.flags.getLsbD s = true
  · -- the slot takes the frame, in every table
    simp only [refresh, hbit, if_true]
    refine ⟨?_, ?_, ?_, ?_, ?_⟩
    · simp only [postDecode, updateSavedStates, refresh, hflags, hbit, if_true, decoded,
        Option.map_some]
    · simp only [postDecode, Dpb.postDecode, refresh, hflags, hbit, if_true, decoded,
        Option.map_some]
    · simp only [postDecode, refresh, hbit, if_true, decoded, Option.map_some]
    · simp only [postDecode, refresh, hbit, if_true, decoded, Option.map_some, Option.getD_some]
    · intro y hy
      obtain rfl := Option.some.inj hy
      exact Function.update_self ..
  · have hold : refresh x.flags (some (e.decoded defaultCdfs x.header r)) held s =
        held s := if_neg hbit
    rw [hold]
    refine (hco s).congr ⟨?_, ?_, ?_, ?_⟩ fun p hp => pool_update _ p hp
    · exact if_neg hbit
    · exact if_neg hbit
    · exact if_neg hbit
    · exact if_neg hbit

/-- Showing a frame again changes no record. -/
theorem showExisting_same (idx s : Slot) : (e.showExisting bits idx).SameRecords s e s := by
  unfold showExisting
  split
  · exact ⟨rfl, rfl, rfl, rfl⟩
  · exact postDecode_same rfl s

theorem showExisting_pool (idx : Slot) : (e.showExisting bits idx).pool = e.pool := by
  unfold showExisting
  split <;> rfl

theorem coherent_step (hco : e.Coherent held) (hkeeps : e.Keeps loads ev) :
    (e.step defaultCdfs ev).Coherent (e.heldStep defaultCdfs loads held ev) := by
  cases ev with
  | sequenceHeader bits => exact fun s => (hco s).congr ⟨rfl, rfl, rfl, rfl⟩ fun _ _ => rfl
  | unparsed => exact hco
  | flush => exact fun s => ⟨rfl, rfl, rfl, rfl, by simp [heldStep]⟩
  | picture p r =>
    cases hseq : e.seqHdr with
    | none =>
      have hheld : e.heldStep defaultCdfs loads held (.picture p r) = held := by
        cases p <;> simp [heldStep, hseq]
      have hstep : e.step defaultCdfs (.picture p r) = e := by simp [step, hseq]
      rw [hheld, hstep]
      exact hco
    | some bits =>
      cases p with
      | coded x =>
        have hstep : e.step defaultCdfs (.picture (.coded x) r) =
            e.decode defaultCdfs bits x.header r := by
          simp [step, hseq]
        obtain ⟨hmask, hskip⟩ := hkeeps (by simp [hseq])
        rw [hstep]
        by_cases hdec : e.Decodes r
        · simp only [heldStep, hseq, hdec, Option.isSome_some, and_self, if_true]
          exact decode_held hdec (hmask hdec) hco
        · simp only [heldStep, hdec, and_false, if_false]
          exact decode_skip hdec (hskip hdec) hco
      | showExisting idx =>
        have hstep : e.step defaultCdfs (.picture (.showExisting idx) r) =
            e.showExisting bits idx := by
          simp [step, hseq]
        have hshown : ∀ s f, e.Describes s f → (e.showExisting bits idx).Describes s f :=
          fun s f h =>
          h.congr (showExisting_same idx s) fun p _ => by rw [showExisting_pool]
        rw [hstep]
        intro s
        apply hshown
        simp only [heldStep]
        split
        · rename_i hload
          simp only [Bool.and_eq_true, Option.any_eq_true, beq_iff_eq] at hload
          obtain ⟨⟨hloads, hseq⟩, f, hf, hkey⟩ := hload
          have hidx := hco idx
          have hholds : e.HoldsKey idx := ⟨f.header, by rw [hidx.savedStates, hf]; rfl, hkey⟩
          exact hidx.congr (hkeeps hloads hseq hholds s) fun _ _ => rfl
        · exact hco s

/-- One step of the engine beside the reference slots of the standard. -/
def trackedStep (defaultCdfs : Fin 4 → Cdf) (loads : Bool) (s : RefState × Held) (ev : RefEvent) :
    RefState × Held :=
  (s.1.step defaultCdfs ev, s.1.heldStep defaultCdfs loads s.2 ev)

def Tracks (s : RefState × Held) : Prop := s.1.Coherent s.2

/-- An engine as `Av1DecodeEngine_Init` leaves it, and empty reference slots. -/
def fresh (hardware : Bool) : RefState × Held := ({ hardware := hardware }, fun _ => none)

end RefState

/-- Along every run whose steps keep the tables together, after each step the four tables describe
the frame that the slot holds. -/
theorem reference_tables_coherent (defaultCdfs : Fin 4 → Cdf) (loads hardware : Bool)
    (events : List RefEvent)
    (h : Lib.Along (RefState.trackedStep defaultCdfs loads) (fun s ev => s.1.Keeps loads ev)
      (RefState.fresh hardware) events) :
    Lib.Along (RefState.trackedStep defaultCdfs loads)
      (fun s ev => (s.1.step defaultCdfs ev).Coherent (s.1.heldStep defaultCdfs loads s.2 ev))
      (RefState.fresh hardware) events := by
  have hfresh : RefState.Tracks (RefState.fresh hardware) :=
    fun s => ⟨rfl, rfl, rfl, rfl, by simp [RefState.fresh]⟩
  refine Lib.Along.of_inv (fun s ev hco hkeeps => ?_) hfresh h
  have hstep : RefState.Tracks (RefState.trackedStep defaultCdfs loads s ev) :=
    RefState.coherent_step hco hkeeps
  exact ⟨hstep, hstep⟩

/-- A shown key frame. -/
def keyFrame : CodedSyntax :=
  ⟨.key, true, true, false, true, false, 7, fun _ => 0, 0xff, 0, 1280, 1280, 720, 100⟩

/-- An inter frame that refreshes the first slot. -/
def interFrame : CodedSyntax :=
  ⟨.inter, true, false, false, true, false, 0, fun _ => 0, 0x01, 1, 1280, 1280, 720, 100⟩

/-- The kick of the inter frame fails: its header goes to the first slot, where the pool and the
probabilities are still those of the key frame. -/
theorem failed_kick_splits_tables :
    ¬ Lib.Along (RefState.trackedStep (fun _ => []) false)
      (fun s ev => (s.1.step (fun _ => []) ev).Coherent (s.1.heldStep (fun _ => []) false s.2 ev))
      (RefState.fresh true)
      [.sequenceHeader 7, .picture (.coded keyFrame) ⟨true, []⟩,
        .picture (.coded interFrame) ⟨false, []⟩] := by
  rintro ⟨-, -, hco, -⟩
  have hsaved := congrArg (Option.map FrameHeader.frameOffset) (hco 0).savedStates
  exact absurd hsaved (by decide)

/-- The inter frame is decoded: the first slot has it, in the next slot of the pool. -/
theorem reference_tables_coherent_inter :
    (([.sequenceHeader 7, .picture (.coded keyFrame) ⟨true, []⟩,
    .picture (.coded interFrame) ⟨true, []⟩] :
      List RefEvent).foldl (RefState.step fun _ => []) (RefState.fresh true).1).dpbToPool 0 =
      some 1 := by
  have h := reference_tables_coherent (fun _ => []) true true
    [.sequenceHeader 7, .picture (.coded keyFrame) ⟨true, []⟩,
      .picture (.coded interFrame) ⟨true, []⟩]
    ⟨trivial, fun _ => ⟨fun _ _ => by decide, fun hno => absurd (by decide) hno⟩,
      fun _ => ⟨fun _ hkey => absurd hkey (by decide), fun hno => absurd (by decide) hno⟩, trivial⟩
  exact (h.2.2.1 0).dpbToPool.trans (by decide)

end Coherence

section ShowExisting

namespace RefState

variable {defaultCdfs : Fin 4 → Cdf} {e : RefState} {idx : Slot} {r : KickResult}

/-- What showing a frame again is to do: a key frame goes to every slot, another frame to none. -/
def ShowRefreshes (defaultCdfs : Fin 4 → Cdf) (e : RefState) (idx : Slot) (r : KickResult) : Prop :=
  let e' := e.step defaultCdfs (.picture (.showExisting idx) r)
  (e.HoldsKey idx → ∀ s, e'.SameRecords s e idx) ∧ (¬ e.HoldsKey idx → ∀ s, e'.SameRecords s e s)

theorem step_showExisting_same (s : Slot) :
    (e.step defaultCdfs (.picture (.showExisting idx) r)).SameRecords s e s := by
  cases hseq : e.seqHdr with
  | none =>
    simp only [step, hseq]
    exact ⟨rfl, rfl, rfl, rfl⟩
  | some bits =>
    simp only [step, hseq]
    exact showExisting_same idx s

end RefState

/-- A frame that is shown again changes no record, so a key frame is in every slot only if it
was. -/
theorem show_existing_refreshes_iff (defaultCdfs : Fin 4 → Cdf) (e : RefState) (idx : Slot)
    (r : KickResult) :
    e.ShowRefreshes defaultCdfs idx r ↔ (e.HoldsKey idx → ∀ s, e.SameRecords s e idx) := by
  have hsame : ∀ s, (e.step defaultCdfs (.picture (.showExisting idx) r)).SameRecords s e s :=
    fun s => RefState.step_showExisting_same s
  constructor
  · rintro ⟨hkey, -⟩ hholds s
    have hafter := hkey hholds s
    have hbefore := hsame s
    exact ⟨hbefore.savedStates.symm.trans hafter.savedStates, hbefore.dpb.symm.trans hafter.dpb,
      hbefore.dpbToPool.symm.trans hafter.dpbToPool, hbefore.savedCdf.symm.trans hafter.savedCdf⟩
  · intro hkey
    refine ⟨fun hholds s => ?_, fun _ => hsame⟩
    have hbefore := hsame s
    have hequal := hkey hholds s
    exact ⟨hbefore.savedStates.trans hequal.savedStates, hbefore.dpb.trans hequal.dpb,
      hbefore.dpbToPool.trans hequal.dpbToPool, hbefore.savedCdf.trans hequal.savedCdf⟩

/-- A key frame for later, in the second slot. -/
def forwardKeyFrame : CodedSyntax :=
  ⟨.key, false, true, false, true, false, 7, fun _ => 0, 0x02, 5, 1280, 1280, 720, 100⟩

/-- The state in which it is shown. -/
def forwardKeyState : RefState :=
  ([.sequenceHeader 7, .picture (.coded keyFrame) ⟨true, []⟩,
    .picture (.coded forwardKeyFrame) ⟨true, []⟩] : List RefEvent).foldl (RefState.step fun _ => [])
    (RefState.fresh true).1

/-- The first slot keeps the frame it had. -/
theorem forward_key_frame_not_loaded :
    ¬ forwardKeyState.ShowRefreshes (fun _ => []) 1 ⟨true, []⟩ := by
  rintro ⟨hkey, -⟩
  have hholds : forwardKeyState.HoldsKey 1 := ⟨forwardKeyFrame.header, rfl, rfl⟩
  have hsaved := congrArg (Option.map FrameHeader.frameOffset) (hkey hholds 0).savedStates
  exact absurd hsaved (by decide)

end ShowExisting

end Rkvdec.Av1
