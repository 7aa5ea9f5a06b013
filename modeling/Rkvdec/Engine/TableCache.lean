import Rkvdec.Bitstream.Scanners
import Rkvdec.Bitstream.Segments
import Rkvdec.Engine.PackedTables

/-! The cache of the packed H.265 tables: `DecodeOne_H265` packs them again when its own access unit
brought parameter sets or activates others, and relies on what is in the buffers otherwise. -/
namespace Rkvdec.Engine.Tables

open Bitstream (Byte ParseStatus)
open Bitstream.H265 (Sps Pps ParseResult parseAccessUnit dpbInput)
open H265 (DpbCtx Pool select onDecodeFailed onDecodeComplete)

section Parser

open Bitstream Bitstream.H265

/-- The sets are those of `out`, as far as none was stored in this access unit. -/
def Flagged (out : ParseResult) (s : Au) : Prop :=
  (s.result.1.gotSpsInAu = false → s.result.1.sps = out.sps) ∧
    (s.result.1.gotPpsInAu = false → s.result.1.pps = out.pps)

variable {out : ParseResult} {s : Au}

theorem Flagged.keep {u : UnitRun ParseResult} {γ : Type} {view : ParseResult → γ}
    (h : Flagged out s) (hkeeps : Keeps view u.parser) (hu : u.before = s.result.1)
    (flags : γ → Bool × Bool × List Bitstream.H265.Sps × List Bitstream.H265.Pps)
    (hflags : ∀ o, flags (view o) = (o.gotSpsInAu, o.gotPpsInAu, o.sps, o.pps)) :
    Flagged out (s.parse u) := by
  have hsame :=
    AuState.parse_keeps (s := s) (f := fun o => (o.gotSpsInAu, o.gotPpsInAu, o.sps, o.pps))
    hkeeps hu flags hflags
  simp only [Prod.mk.injEq] at hsame
  obtain ⟨hsps, hpps, hspsList, hppsList⟩ := hsame
  refine ⟨fun hgot => ?_, fun hgot => ?_⟩
  · rw [hspsList]
    exact h.1 (hsps ▸ hgot)
  · rw [hppsList]
    exact h.2 (hpps ▸ hgot)

theorem flagged_sps (h : Flagged out s) (payload : List Byte) :
    Flagged out (s.parse ⟨.sps, parseSps, s.result.1, .init payload⟩) := by
  have hcases := staged_cases (fun (tmp : Bitstream.H265.Sps) o => { o with
    sps := o.sps.set tmp.spsId { tmp with valid := true }
    activeSpsId := tmp.spsId
    gotSpsInAu := true }) s.result.1 (.init payload) keeps_parseSpsFields
  rw [Flagged, AuState.parse_result]
  simp only [parseSps]
  rcases hcases with hsame | ⟨tmp, hok⟩
  · rw [hsame]
    exact h
  · rw [hok]
    exact ⟨fun hgot => (by cases hgot), h.2⟩

theorem flagged_pps (h : Flagged out s) (payload : List Byte) :
    Flagged out (s.parse ⟨.pps, parsePps, s.result.1, .init payload⟩) := by
  have hcases := staged_cases (fun (tmp : Bitstream.H265.Pps) o => { o with
    pps := o.pps.set tmp.ppsId { tmp with valid := true }
    activePpsId := tmp.ppsId
    gotPpsInAu := true }) s.result.1 (.init payload) keeps_parsePpsFields
  rw [Flagged, AuState.parse_result]
  simp only [parsePps]
  rcases hcases with hsame | ⟨tmp, hok⟩
  · rw [hsame]
    exact h
  · rw [hok]
    exact ⟨h.1, fun hgot => by cases hgot⟩

theorem flagged_visit (h : Flagged out s) (rbsp : List Byte) : Flagged out (visit s rbsp) := by
  have hslice (nalUnitType : Nat) : Flagged out
      (s.parse ⟨.slice, parseSliceHeader nalUnitType, s.result.1, .init (rbsp.drop 2)⟩) :=
    h.keep (keeps_parseSliceHeader _) rfl (fun o => (o.gotSpsInAu, o.gotPpsInAu, o.sps, o.pps))
      fun _ => rfl
  have hfinish (s : Au) (hs : Flagged out s) (nalUnitType temporalIdP1 : Nat) (payload : List Byte)
      (headerBits : Nat) : Flagged out
        (finishSlice s nalUnitType temporalIdP1 payload headerBits) := by
    simp only [finishSlice]
    split_ifs <;> exact hs
  simp only [visit]
  split_ifs
  · exact h.keep keeps_parseVps rfl (fun o => (o.gotSpsInAu, o.gotPpsInAu, o.sps, o.pps))
      fun _ => rfl
  · exact flagged_sps h _
  · exact flagged_pps h _
  · exact hslice _
  · exact hfinish _ (hslice _) _ _ _ _
  · exact h

/-- What an access unit stores it flags. -/
theorem parse_flagged (buf : List Byte) (scratchSize : Nat) (out : ParseResult) :
    ((parseAccessUnit buf scratchSize out).2.gotSpsInAu = false →
      (parseAccessUnit buf scratchSize out).2.sps = out.sps) ∧
    ((parseAccessUnit buf scratchSize out).2.gotPpsInAu = false →
      (parseAccessUnit buf scratchSize out).2.pps = out.pps) := by
  have hloop : Flagged out (auUnits buf scratchSize out) := by
    unfold auUnits
    refine auLoop_rule (P := Flagged out) (fun s rbsp _ h => flagged_visit h rbsp)
      (fun _ _ h => h) _ _ _ rfl ?_
    exact ⟨fun _ => rfl, fun _ => rfl⟩
  simp only [parseAccessUnit]
  split
  · exact hloop
  · split_ifs <;> exact hloop

end Parser

/-- The part of `DecodeEngine` that the H.265 path works on. `none` is the sentinel -1 of
`last_h265_sps_id` and `last_h265_pps_id`, which are always set together. -/
structure TableEngine where
  parsed : ParseResult := {}
  dpb : DpbCtx
  lastIds : Option (Nat × Nat) := none
  ppsTable : List Byte
  rpsTable : List Byte
  scalingList : List Byte
  frameWidth : Nat
  frameHeight : Nat
  bitstreamSize : Nat
  scratchSize : Nat

/-- `DecodeEngine_Init` for H.265: the tables are as large as what is packed and a tail. -/
def TableEngine.init (pool : Pool) (frameWidth frameHeight : Nat) : TableEngine where
  dpb := H265.init pool
  ppsTable := List.replicate (spsPpsUnitSize + tableTailPad) 0
  rpsTable := List.replicate (rpsSize + tableTailPad) 0
  scalingList := List.replicate (scalingListSize + tableTailPad) 0
  frameWidth := frameWidth
  frameHeight := frameHeight
  bitstreamSize := 2 ^ 20
  scratchSize := 2 ^ 21

/-- `std::memcpy` to the front of a buffer. -/
def overwrite (table bytes : List Byte) : List Byte := bytes ++ table.drop bytes.length

/-- `DecodeEngine_FeedExtradata` on Annex-B data. -/
def feedExtradata (e : TableEngine) (buf : List Byte) : TableEngine :=
  if buf.length = 0 then e
  else
    let scratchSize := if e.scratchSize < buf.length * 2 then buf.length * 2 + 64 else e.scratchSize
    { e with scratchSize := scratchSize, parsed := (parseAccessUnit buf scratchSize e.parsed).2 }

/-- The sets that are active, as ids of entries that are there. -/
def activeIds (parsed : ParseResult) : Option (Nat × Nat) :=
  if 0 ≤ parsed.activeSpsId ∧ 0 ≤ parsed.activePpsId then
    some (parsed.activeSpsId.toNat, parsed.activePpsId.toNat)
  else none

def spsOf (parsed : ParseResult) (ids : Nat × Nat) : Sps := parsed.sps.getD ids.1 {}
def ppsOf (parsed : ParseResult) (ids : Nat × Nat) : Pps := parsed.pps.getD ids.2 {}

/-- The bytes of the slice that are staged, without a fourth start code byte; `none` if there is no
slice NAL or the buffer is too small. -/
def stageSlice (e : TableEngine) (au : List Byte) : Option Nat :=
  match Bitstream.h265FindSliceNal au with
  | none => none
  | some (off, size) =>
    let skip := if au.getD (off + 2) 0 = 1 then 0 else 1
    if e.bitstreamSize < size - skip then none else some (size - skip)

/-- `params_changed`. No VPS sets its flag. -/
def paramsChanged (e : TableEngine) (ids : Nat × Nat) : Bool :=
  e.parsed.gotVpsInAu || e.parsed.gotSpsInAu || e.parsed.gotPpsInAu || e.lastIds != some ids

/-- Step 4 of `DecodeOne_H265` when the parameters changed; `false` if a packer fails, and the
tables packed before it stay packed. `active_vps_id` is never set, so there is no VPS. -/
def repack (e : TableEngine) (ids : Nat × Nat) : Bool × TableEngine :=
  match packPps none (spsOf e.parsed ids) (ppsOf e.parsed ids) e.ppsTable.length with
  | none => (false, e)
  | some bytes =>
    let e := { e with ppsTable := overwrite e.ppsTable bytes }
    match packRps e.parsed e.rpsTable.length with
    | none => (false, e)
    | some bytes =>
      let e := { e with rpsTable := overwrite e.rpsTable bytes }
      match packScalingList (spsOf e.parsed ids) (ppsOf e.parsed ids) e.scalingList.length with
      | none => (false, e)
      | some bytes =>
        (true, { e with scalingList := overwrite e.scalingList bytes, lastIds := some ids })

/-- `DecodeOne_H265` up to the choice of a slot: the engine after the parse, and the ids if the
access unit goes on to the tables. -/
def selectSlot (e : TableEngine) (au : List Byte) : TableEngine × Option (Nat × Nat) :=
  let r := parseAccessUnit au e.scratchSize e.parsed
  let e := { e with parsed := r.2 }
  if r.1 ≠ .ok ∨ e.parsed.hasSlice = false then (e, none)
  else
    match activeIds e.parsed with
    | none => (e, none)
    | some ids =>
      if (spsOf e.parsed ids).picWidthInLumaSamples ≠ e.frameWidth ∨
          (spsOf e.parsed ids).picHeightInLumaSamples ≠ e.frameHeight then (e, none)
      else if (stageSlice e au).isNone then (e, none)
      else
        match select e.dpb (dpbInput e.parsed) with
        | (.ok, _, d) => ({ e with dpb := d }, some ids)
        | (_, _, d) => ({ e with dpb := d }, none)

/-- How the rest of a decode goes: whether the register builder accepts the picture, and whether the
job is submitted and decoded. -/
structure Outcome where
  regbuildOk : Bool
  decodeOk : Bool

/-- `DecodeEngine_DecodeOne` for H.265. The second component is the engine at the submit step, if
the call gets there. -/
def decodeOneH265 (e : TableEngine) (au : List Byte) (outcome : Outcome) :
    TableEngine × Option TableEngine :=
  if e.bitstreamSize < au.length then (e, none)
  else
    match selectSlot e au with
    | (e, none) => (e, none)
    | (e, some ids) =>
      let r := if paramsChanged e ids then repack e ids else (true, e)
      let failed : TableEngine := { r.2 with dpb := onDecodeFailed r.2.dpb }
      if r.1 = false then (failed, none)
      else if outcome.regbuildOk = false then (failed, none)
      else if outcome.decodeOk = false then (failed, some r.2)
      else ({ r.2 with dpb := onDecodeComplete r.2.dpb }, some r.2)

/-- The calls of a session. `dpb` stands for the calls that only work on the DPB: polling, releasing
and flushing frames. -/
inductive Call where
  | extradata (buf : List Byte)
  | decode (au : List Byte) (outcome : Outcome)
  | dpb (d : DpbCtx)

/-- One call, with the engine at its submit step. -/
def step (e : TableEngine) : Call → TableEngine × Option TableEngine
  | .extradata buf => (feedExtradata e buf, none)
  | .decode au outcome => decodeOneH265 e au outcome
  | .dpb d => ({ e with dpb := d }, none)

/-- At the submit step the tables are those of the active sets. -/
structure Coherent (e : TableEngine) (ids : Nat × Nat) : Prop where
  active : activeIds e.parsed = some ids
  pps : ∃ bytes, packPps none (spsOf e.parsed ids) (ppsOf e.parsed ids) e.ppsTable.length =
    some bytes ∧ bytes <+: e.ppsTable
  rps : ∃ bytes, packRps e.parsed e.rpsTable.length = some bytes ∧ bytes <+: e.rpsTable
  scalingList : ∃ bytes, packScalingList (spsOf e.parsed ids) (ppsOf e.parsed ids)
    e.scalingList.length = some bytes ∧ bytes <+: e.scalingList

section Invariant

variable {e e' : TableEngine} {ids : Nat × Nat} {parsed parsed' : ParseResult}

/-- The tables hold what is packed from the sets stored under the ids. -/
structure Holds (e : TableEngine) (ids : Nat × Nat) : Prop where
  pps : ∃ bytes, packPps none (spsOf e.parsed ids) (ppsOf e.parsed ids) e.ppsTable.length =
    some bytes ∧ bytes <+: e.ppsTable
  rps : ∃ bytes, packRps { e.parsed with activeSpsId := ids.1 } e.rpsTable.length = some bytes ∧
    bytes <+: e.rpsTable
  scalingList : ∃ bytes, packScalingList (spsOf e.parsed ids) (ppsOf e.parsed ids)
    e.scalingList.length = some bytes ∧ bytes <+: e.scalingList

/-- The buffers have room for the tables. -/
structure Room (e : TableEngine) : Prop where
  pps : spsPpsUnitSize ≤ e.ppsTable.length
  rps : rpsSize ≤ e.rpsTable.length
  scalingList : scalingListSize ≤ e.scalingList.length

/-- The tables that are remembered are there. -/
structure Inv (e : TableEngine) : Prop where
  room : Room e
  holds : ∀ ids, e.lastIds = some ids → Holds e ids

/-- `H265PackRPS` reads nothing but the active SPS. -/
theorem packRps_congr {n : Nat} (hid : parsed'.activeSpsId = parsed.activeSpsId)
    (hsps : parsed'.sps.getD parsed.activeSpsId.toNat {} = parsed.sps.getD
    parsed.activeSpsId.toNat {}) :
    packRps parsed' n = packRps parsed n := by
  have hactive : activeValidSps parsed' = activeValidSps parsed := by
    simp only [activeValidSps, hid, hsps]
  simp only [packRps, hactive]

/-- Another parse result with the same sets under the ids. -/
theorem Holds.reparse (h : Holds e ids) (hsps : spsOf parsed' ids = spsOf e.parsed ids)
    (hpps : ppsOf parsed' ids = ppsOf e.parsed ids) : Holds { e with parsed := parsed' } ids := by
  refine ⟨?_, ?_, ?_⟩
  · simp only [hsps, hpps]
    exact h.pps
  · have hrps : packRps { parsed' with activeSpsId := ids.1 } e.rpsTable.length =
        packRps { e.parsed with activeSpsId := ids.1 } e.rpsTable.length := packRps_congr rfl hsps
    simp only [hrps]
    exact h.rps
  · simp only [hsps, hpps]
    exact h.scalingList

theorem overwrite_length (table bytes : List Byte) :
    table.length ≤ (overwrite table bytes).length := by
  simp only [overwrite, List.length_append, List.length_drop]
  omega

theorem overwrite_holds (table bytes : List Byte) : bytes <+: overwrite table bytes :=
  List.prefix_append _ _

theorem packPps_room (vps : Option Bitstream.H265.Vps) (sps : Sps) (pps : Pps) :
    ∃ bytes, ∀ n, spsPpsUnitSize ≤ n → packPps vps sps pps n = some bytes :=
  ⟨_, fun _ hn => if_neg (Nat.not_lt.mpr hn)⟩

theorem packRps_room (parsed : ParseResult) :
    ∃ bytes, ∀ n, rpsSize ≤ n → packRps parsed n = some bytes :=
  ⟨_, fun _ hn => if_neg (Nat.not_lt.mpr hn)⟩

theorem packScalingList_room (sps : Sps) (pps : Pps) :
    ∃ bytes, ∀ n, scalingListSize ≤ n → packScalingList sps pps n = some bytes :=
  ⟨_, fun _ hn => if_neg (Nat.not_lt.mpr hn)⟩

/-- Packing the tables: it does not fail, and they are those of the active sets afterwards. -/
theorem repack_holds (h : Room e) (hactive : e.parsed.activeSpsId = ids.1) :
    (repack e ids).1 = true ∧ (repack e ids).2.parsed = e.parsed ∧
      (repack e ids).2.lastIds = some ids ∧ Inv (repack e ids).2 := by
  obtain ⟨pps, hpps⟩ := packPps_room none (spsOf e.parsed ids) (ppsOf e.parsed ids)
  obtain ⟨rps, hrps⟩ := packRps_room e.parsed
  obtain ⟨scaling, hscaling⟩ := packScalingList_room (spsOf e.parsed ids) (ppsOf e.parsed ids)
  have hpacked : repack e ids = (true, { e with
      ppsTable := overwrite e.ppsTable pps
      rpsTable := overwrite e.rpsTable rps
      scalingList := overwrite e.scalingList scaling
      lastIds := some ids }) := by
    simp only [repack, hpps _ h.pps, hrps _ h.rps, hscaling _ h.scalingList]
  have hppsRoom := h.pps.trans (overwrite_length e.ppsTable pps)
  have hrpsRoom := h.rps.trans (overwrite_length e.rpsTable rps)
  have hscalingRoom := h.scalingList.trans (overwrite_length e.scalingList scaling)
  rw [hpacked]
  refine ⟨rfl, rfl, rfl, ⟨hppsRoom, hrpsRoom, hscalingRoom⟩, fun ids' hids => ?_⟩
  obtain rfl : ids = ids' := Option.some.inj hids
  refine ⟨⟨pps, hpps _ hppsRoom, overwrite_holds _ _⟩, ⟨rps, ?_, overwrite_holds _ _⟩,
    ⟨scaling, hscaling _ hscalingRoom, overwrite_holds _ _⟩⟩
  have hsame : packRps { e.parsed with activeSpsId := ids.1 } (overwrite e.rpsTable rps).length =
      packRps e.parsed (overwrite e.rpsTable rps).length := packRps_congr hactive.symm rfl
  exact hsame.trans (hrps _ hrpsRoom)

theorem activeIds_some (h : activeIds parsed = some ids) :
    parsed.activeSpsId = ids.1 ∧ parsed.activePpsId = ids.2 := by
  simp only [activeIds] at h
  split_ifs at h with hids
  obtain rfl := Option.some.inj h
  exact ⟨(Int.toNat_of_nonneg hids.1).symm, (Int.toNat_of_nonneg hids.2).symm⟩

theorem Holds.coherent (h : Holds e ids) (hactive : activeIds e.parsed = some ids) :
    Coherent e ids := by
  obtain ⟨bytes, hbytes, htable⟩ := h.rps
  refine ⟨hactive, h.pps, ⟨bytes, ?_, htable⟩, h.scalingList⟩
  rw [← hbytes]
  exact packRps_congr (activeIds_some hactive).1 rfl

end Invariant

section Runs

variable {e e' : TableEngine} {ids : Nat × Nat} {pool : Pool}

/-- What a call makes of the parse result. -/
def parsedBy (e : TableEngine) : Call → ParseResult
  | .extradata buf => (feedExtradata e buf).parsed
  | .decode au _ =>
    if e.bitstreamSize < au.length then e.parsed
    else (parseAccessUnit au e.scratchSize e.parsed).2
  | .dpb _ => e.parsed

/-- The call goes on to the tables: it is an access unit that is parsed, has the dimensions and a
slice that can be staged, and finds a slot. -/
def ReachesTables (e : TableEngine) : Call → Prop
  | .decode au _ => au.length ≤ e.bitstreamSize ∧ (selectSlot e au).2.isSome
  | _ => False

/-- The call stores another SPS or PPS under the ids that are remembered. -/
def Redefines (e : TableEngine) (c : Call) : Prop :=
  ∃ ids, e.lastIds = some ids ∧ (spsOf (parsedBy e c) ids ≠ spsOf e.parsed ids ∨
    ppsOf (parsedBy e c) ids ≠ ppsOf e.parsed ids)

/-- Up to the tables a decode call changes the parse result and the DPB. -/
theorem selectSlot_cases (e : TableEngine) (au : List Byte) : ∃ d ids?, selectSlot e au =
    ({ e with parsed := (parseAccessUnit au e.scratchSize e.parsed).2, dpb := d }, ids?) ∧
    ∀ ids, ids? = some ids →
      activeIds (parseAccessUnit au e.scratchSize e.parsed).2 = some ids := by
  unfold selectSlot
  dsimp only
  split
  · exact ⟨_, none, rfl, fun _ h => by cases h⟩
  · split
    · exact ⟨_, none, rfl, fun _ h => by cases h⟩
    · rename_i ids hids
      split
      · exact ⟨_, none, rfl, fun _ h => by cases h⟩
      · split
        · exact ⟨_, none, rfl, fun _ h => by cases h⟩
        · split
          · refine ⟨_, some ids, rfl, fun ids' h => ?_⟩
            rw [← h]
            exact hids
          · exact ⟨_, none, rfl, fun _ h => by cases h⟩

/-- A parse result that keeps the remembered sets keeps the invariant. -/
theorem Inv.reparse (h : Inv e) {parsed : ParseResult} {d : DpbCtx} {scratchSize : Nat}
    (hsets : ∀ ids, e.lastIds = some ids →
      spsOf parsed ids = spsOf e.parsed ids ∧ ppsOf parsed ids = ppsOf e.parsed ids) :
    Inv { e with parsed := parsed, dpb := d, scratchSize := scratchSize } := by
  refine ⟨⟨h.room.pps, h.room.rps, h.room.scalingList⟩, fun ids hids => ?_⟩
  obtain ⟨hsps, hpps⟩ := hsets ids hids
  have hholds := (h.holds ids hids).reparse hsps hpps
  exact ⟨hholds.pps, hholds.rps, hholds.scalingList⟩

theorem not_redefines {c : Call} (h : ¬ Redefines e c) (hids : e.lastIds = some ids) :
    spsOf (parsedBy e c) ids = spsOf e.parsed ids ∧
    ppsOf (parsedBy e c) ids = ppsOf e.parsed ids := by
  by_contra hno
  refine h ⟨ids, hids, ?_⟩
  by_cases hsps : spsOf (parsedBy e c) ids = spsOf e.parsed ids
  · exact .inr fun hpps => hno ⟨hsps, hpps⟩
  · exact .inl hsps

/-- The tables of an access unit that goes on to them. -/
theorem tables_coherent {au : List Byte} {d : DpbCtx} (h : Inv e)
    (hids : activeIds (parseAccessUnit au e.scratchSize e.parsed).2 = some ids)
    (he' : e' = { e with parsed := (parseAccessUnit au e.scratchSize e.parsed).2, dpb := d }) :
    (if paramsChanged e' ids then repack e' ids else (true, e')).1 = true ∧
      Inv (if paramsChanged e' ids then repack e' ids else (true, e')).2 ∧
      Coherent (if paramsChanged e' ids then repack e' ids else (true, e')).2 ids := by
  have hparsed : e'.parsed = (parseAccessUnit au e.scratchSize e.parsed).2 := by rw [he']
  have hroom : Room e' := by
    rw [he']
    exact ⟨h.room.pps, h.room.rps, h.room.scalingList⟩
  rw [← hparsed] at hids
  cases hchanged : paramsChanged e' ids with
  | true =>
    obtain ⟨hok, hsame, hlast, hinv⟩ := repack_holds hroom (activeIds_some hids).1
    rw [if_pos rfl]
    exact ⟨hok, hinv, (hinv.holds ids hlast).coherent (hsame.symm ▸ hids)⟩
  | false =>
    simp only [paramsChanged, Bool.or_eq_false_iff, bne_eq_false_iff_eq] at hchanged
    obtain ⟨⟨⟨-, hsps⟩, hpps⟩, hlast⟩ := hchanged
    -- nothing was stored in this access unit, so the sets are those of before
    have hflagged := parse_flagged au e.scratchSize e.parsed
    rw [← hparsed] at hflagged
    have hkept : Inv e' := by
      rw [he']
      refine h.reparse fun ids _ => ⟨?_, ?_⟩
      · rw [← hparsed, spsOf, hflagged.1 hsps]
        rfl
      · rw [← hparsed, ppsOf, hflagged.2 hpps]
        rfl
    rw [if_neg Bool.false_ne_true]
    exact ⟨rfl, hkept, (hkept.holds ids hlast).coherent hids⟩

/-- The DPB does not matter to the tables. -/
theorem Inv.withDpb (h : Inv e) (d : DpbCtx) : Inv { e with dpb := d } :=
  h.reparse fun _ _ => ⟨rfl, rfl⟩

/-- One call: the invariant is kept, and the tables are coherent at the submit step, unless a call
stores a set under the remembered ids and does not get to the tables. -/
theorem step_inv (h : Inv e) (c : Call) (hsafe : Redefines e c → ReachesTables e c) :
    Inv (step e c).1 ∧ ∀ e', (step e c).2 = some e' → ∃ ids, Coherent e' ids := by
  cases c with
  | extradata buf =>
    refine ⟨?_, fun _ h => by cases h⟩
    have hsets (ids : Nat × Nat) (hids : e.lastIds = some ids) :=
      not_redefines (c := .extradata buf) hsafe hids
    simp only [parsedBy, feedExtradata] at hsets
    simp only [step, feedExtradata]
    split_ifs at hsets ⊢
    · exact h
    · exact h.reparse hsets
    · exact h.reparse hsets
  | dpb d => exact ⟨h.withDpb d, fun _ h => by cases h⟩
  | decode au outcome =>
    by_cases hsize : e.bitstreamSize < au.length
    · simp only [step, decodeOneH265, if_pos hsize]
      exact ⟨h, fun _ h => by cases h⟩
    · obtain ⟨d, ids?, hselect, hids⟩ := selectSlot_cases e au
      cases hreached : ids? with
      | none =>
        subst hreached
        have hno : ¬ Redefines e (.decode au outcome) := by
          intro hredefines
          have hreaches := (hsafe hredefines).2
          rw [hselect] at hreaches
          cases hreaches
        simp only [step, decodeOneH265, if_neg hsize, hselect]
        refine ⟨h.reparse fun ids hlast => ?_, fun _ h => by cases h⟩
        have hsets := not_redefines hno hlast
        simpa only [parsedBy, if_neg hsize] using hsets
      | some ids =>
        subst hreached
        obtain ⟨hok, hinv, hcoherent⟩ := tables_coherent h (hids ids rfl) rfl (d := d)
        simp only [step, decodeOneH265, if_neg hsize, hselect]
        generalize (if paramsChanged _ ids then repack _ ids else (true, _)) = r
          at hok hinv hcoherent ⊢
        rw [hok, if_neg Bool.noConfusion]
        split
        · exact ⟨hinv.withDpb _, fun _ h => by cases h⟩
        · split
          · exact ⟨hinv.withDpb _, fun e' he' => ⟨ids, Option.some.inj he' ▸ hcoherent⟩⟩
          · exact ⟨hinv.withDpb _, fun e' he' => ⟨ids, Option.some.inj he' ▸ hcoherent⟩⟩

/-- The engine after some calls. -/
def after (e : TableEngine) (calls : List Call) : TableEngine :=
  calls.foldl (fun e c => (step e c).1) e

theorem inv_init (pool : Pool) (w h : Nat) : Inv (TableEngine.init pool w h) := by
  refine ⟨⟨?_, ?_, ?_⟩, fun ids hids => by cases hids⟩ <;>
    simp only [TableEngine.init, List.length_replicate] <;> omega

theorem inv_after (calls : List Call) (h : Inv e)
    (hsafe : ∀ pre c post, calls = pre ++ c :: post →
      Redefines (after e pre) c → ReachesTables (after e pre) c) : Inv (after e calls) := by
  induction calls generalizing e with
  | nil => exact h
  | cons c rest ih =>
    refine ih (step_inv h c (hsafe [] c rest rfl)).1 fun pre c' post hrest => ?_
    exact hsafe (c :: pre) c' post (by rw [hrest]; rfl)

/-- In a run in which every call that stores another SPS or PPS under the remembered ids goes on to
the tables, the tables are those of the active sets at every submit step. -/
theorem submitted_tables_coherent (pool : Pool) (w h : Nat) (calls : List Call)
    (hsafe : ∀ pre c post, calls = pre ++ c :: post →
      Redefines (after (TableEngine.init pool w h) pre) c →
        ReachesTables (after (TableEngine.init pool w h) pre) c) :
    ∀ pre c post e', calls = pre ++ c :: post →
      (step (after (TableEngine.init pool w h) pre) c).2 = some e' → ∃ ids, Coherent e' ids := by
  intro pre c post e' hcalls hsubmit
  have hinv : Inv (after (TableEngine.init pool w h) pre) := by
    refine inv_after pre (inv_init pool w h) fun pre' c' post' hpre => ?_
    exact hsafe pre' c' (post' ++ c :: post) (by rw [hcalls, hpre, List.append_assoc]; rfl)
  exact (step_inv hinv c (hsafe pre c post hcalls)).2 e' hsubmit

end Runs

section Cases

open Bitstream (framed hevcSets)

/-- Sixteen references and the current picture. -/
abbrev seventeen : Pool :=
  ⟨fun i => ⟨BitVec.ofNat 64 (i.val + 1), BitVec.ofNat 64 (i.val + 33)⟩, 17⟩

abbrev idrSegment : List Byte := [0x26, 0x01, 0xaf, 0x80]

/-- An access unit that brings its sets, decoded without an error. -/
abbrev withSets : Call := .decode (framed (hevcSets ++ [idrSegment])) ⟨true, true⟩

/-- An access unit that relies on the sets that are there. -/
abbrev withoutSets : Call := .decode (framed [idrSegment]) ⟨true, true⟩

/-- Extradata with another PPS 0: constrained intra prediction is on. -/
abbrev otherPps : Call := .extradata (framed [[0x44, 0x01, 0xe0, 0x79, 0x80, 0x12]])

/-- An access unit that brings another PPS 0, the one of `otherPps`. -/
abbrev withOtherPps : Call :=
  .decode (framed [[0x44, 0x01, 0xe0, 0x79, 0x80, 0x12], idrSegment]) ⟨true, true⟩

/-- The second call relies on the tables of the first, the third redefines a set, and the last
relies on what the third packed. -/
abbrev reuseAndRedefine : List Call := [withSets, withoutSets, withOtherPps, withoutSets]

abbrev reuseInit : TableEngine := .init seventeen 32 16

instance (e : TableEngine) (c : Call) : Decidable (ReachesTables e c) :=
  match c with
  | .decode _ _ => inferInstanceAs (Decidable (_ ∧ _))
  | .extradata _ | .dpb _ => inferInstanceAs (Decidable False)

theorem reuseAndRedefine_reaches : ∀ i : Fin 4,
    ReachesTables (after reuseInit (reuseAndRedefine.take i)) (reuseAndRedefine.get i) ∧
      (step (after reuseInit (reuseAndRedefine.take i)) (reuseAndRedefine.get i)).2.isSome := by
  decide +kernel

theorem reuseAndRedefine_cut {pre post : List Call} {c : Call}
    (h : reuseAndRedefine = pre ++ c :: post) : ∃ i : Fin 4,
    pre = reuseAndRedefine.take i ∧ c = reuseAndRedefine.get i := by
  have hlength : pre.length < reuseAndRedefine.length := by
    rw [h]
    simp
  refine ⟨⟨pre.length, hlength⟩, ?_, ?_⟩
  · rw [h, List.take_left]
  · simp only [List.get_eq_getElem, h, List.getElem_append_right le_rfl, Nat.sub_self,
      List.getElem_cons_zero]

/-- The third call stores another PPS under the remembered ids. -/
theorem withOtherPps_redefines :
    Redefines (after reuseInit [withSets, withoutSets]) withOtherPps := by
  refine ⟨(0, 0), by decide +kernel, .inr fun hsame => ?_⟩
  have hflag := congrArg Bitstream.H265.Pps.constrainedIntraPredFlag hsame
  revert hflag
  decide +kernel

/-- In a run that reuses the tables and redefines a set, every call submits with coherent tables. -/
theorem submitted_tables_coherent_reused :
    paramsChanged (selectSlot (after reuseInit [withSets]) (framed [idrSegment])).1 (0, 0) = false ∧
      Redefines (after reuseInit [withSets, withoutSets]) withOtherPps ∧
      ∀ pre c post, reuseAndRedefine = pre ++ c :: post → ∃ e',
        (step (after reuseInit pre) c).2 = some e' ∧ ∃ ids, Coherent e' ids := by
  refine ⟨by decide +kernel, withOtherPps_redefines, fun pre c post hcalls => ?_⟩
  have hsubmit : (step (after reuseInit pre) c).2.isSome := by
    obtain ⟨i, rfl, rfl⟩ := reuseAndRedefine_cut hcalls
    exact (reuseAndRedefine_reaches i).2
  obtain ⟨e', he'⟩ := Option.isSome_iff_exists.mp hsubmit
  refine ⟨e', he', submitted_tables_coherent seventeen 32 16 reuseAndRedefine ?_ pre c
    post e' hcalls
    he'⟩
  intro pre c post hcalls _
  obtain ⟨i, rfl, rfl⟩ := reuseAndRedefine_cut hcalls
  exact (reuseAndRedefine_reaches i).1

theorem not_coherent {e : TableEngine} (hactive : activeIds e.parsed = some (0, 0))
    (hstale : (packPps none (spsOf e.parsed (0, 0)) (ppsOf e.parsed (0, 0)) e.ppsTable.length).map
      (fun bytes => bytes.isPrefixOf e.ppsTable) = some false) (ids : Nat × Nat) :
    ¬ Coherent e ids := by
  intro h
  obtain rfl : (0, 0) = ids := Option.some.inj (hactive.symm.trans h.active)
  obtain ⟨bytes, hbytes, hfront⟩ := h.pps
  rw [hbytes, Option.map_some, Option.some.injEq] at hstale
  rw [← List.isPrefixOf_iff_prefix, hstale] at hfront
  cases hfront

/-- Extradata after the first access unit: its PPS is active and the table has the old one. -/
theorem extradata_leaves_stale_table : ∃ e',
    (step (after (TableEngine.init seventeen 32 16) [withSets, otherPps]) withoutSets).2 = some e' ∧
      ∀ ids, ¬ Coherent e' ids := by
  have hrun :
      (step (after (TableEngine.init seventeen 32 16) [withSets, otherPps]) withoutSets).2.map
      (fun e => (activeIds e.parsed,
        (packPps none (spsOf e.parsed (0, 0)) (ppsOf e.parsed (0, 0)) e.ppsTable.length).map
          fun bytes => bytes.isPrefixOf e.ppsTable)) = some (some (0, 0), some false) := by
    decide +kernel
  obtain ⟨e', he', hcase⟩ := Option.map_eq_some_iff.mp hrun
  exact ⟨e', he', not_coherent (congrArg Prod.fst hcase) (congrArg Prod.snd hcase)⟩

end Cases

end Rkvdec.Engine.Tables
