import Rkvdec.Bitstream.SliceReading
import Mathlib.Data.List.TakeWhile

/-! Where `parse_slice_header` of H.264 returns the header that was written. -/
namespace Rkvdec.Bitstream

open Lib (bitsOf golomb)

section Matching

variable {w w' : Written} {ws : List Written} {bits bits' : List Bool} {bitss : List (List Bool)}

/-- The bits begin with what was written, and are no more when that is the whole structure. -/
def Matches (w : Written) (bits : List Bool) : Prop :=
  ∃ tail, bits = w.bits ++ tail ∧ (w.ended = true → tail = [])

theorem matches_self (w : Written) : Matches w w.bits :=
  ⟨[], (List.append_nil _).symm, fun _ => rfl⟩

theorem matches_all (bits : List Bool) : Matches (.all bits) bits := matches_self (.all bits)

theorem Matches.opt {c : Prop} [Decidable c] (h : c → Matches w bits) :
    Matches (.opt c w) (if c then bits else []) := by
  by_cases hc : c
  · rw [Written.opt, if_pos hc, if_pos hc]
    exact h hc
  · rw [Written.opt, if_neg hc, if_neg hc]
    exact matches_all []

theorem matches_nil : Matches (.concat []) [] := matches_all []

theorem Matches.cons (h : Matches w bits) (hs : Matches (.concat ws) bitss.flatten) :
    Matches (.concat (w :: ws)) (bits :: bitss).flatten := by
  rcases h with ⟨tail, hbits, hend⟩
  rcases hs with ⟨tails, hrest, hends⟩
  have hconcat : Written.concat (w :: ws) =
      if w.ended then ⟨w.bits ++ (Written.concat ws).bits, (Written.concat ws).ended⟩ else w := rfl
  rw [List.flatten_cons, hbits, hrest, hconcat]
  by_cases hended : w.ended = true
  · rw [if_pos hended, hend hended, List.append_nil]
    exact ⟨tails, (List.append_assoc _ _ _).symm, hends⟩
  · rw [if_neg hended]
    exact ⟨tail ++ ((Written.concat ws).bits ++ tails), List.append_assoc _ _ _,
      fun h => absurd h hended⟩

/-- Two structures one behind the other. -/
theorem Matches.pair (h : Matches w bits) (h' : Matches w' bits') :
    Matches (.concat [w, w']) (bits ++ bits') := by
  have hpair : bits ++ bits' = [bits, bits'].flatten := by simp
  rw [hpair]
  exact h.cons (h'.cons matches_nil)

/-- More bits in front of both. -/
theorem Matches.append (h : Matches w bits) :
    Matches ⟨bits' ++ w.bits, w.ended⟩ (bits' ++ bits) := by
  rcases h with ⟨tail, hbits, hend⟩
  exact ⟨tail, by rw [hbits, List.append_assoc], hend⟩

end Matching

namespace H264

section Written

variable {sps : Sps} {pps : Pps} {nalRefIdc nalUnitType : Nat} {h : SliceSyntax}

theorem matches_commands {cs : List RplmOp} (hcs : CommandsInUe cs) :
    Matches (writeCommands cs) (commandBits cs) := by
  induction cs with
  | nil => exact matches_all (golomb 3)
  | cons c cs ih =>
    have hrest := ih fun c' hc' => hcs c' (List.mem_cons_of_mem _ hc')
    have hbits : commandBits (c :: cs) = golomb c.op ++ golomb c.value ++ commandBits cs := by
      rw [commandBits, List.flatMap_cons, List.append_assoc]
      rfl
    rw [hbits, writeCommands]
    by_cases hop : c.op < 3
    · rw [if_pos hop]
      exact hrest.append
    · rw [if_neg hop]
      exact ⟨golomb c.value ++ commandBits cs, List.append_assoc _ _ _,
        fun hend => absurd hend Bool.false_ne_true⟩

theorem matches_modification {cs : Option (List RplmOp)} (hcs : ∀ l, cs = some l → CommandsInUe l) :
    Matches (writeModification cs) (modificationBits cs) := by
  cases cs with
  | none => exact matches_all [false]
  | some l => exact (matches_all [true]).pair (matches_commands (hcs l rfl))

theorem matches_marking : Matches (writeMarking nalUnitType h) (markingBits nalUnitType h) := by
  unfold writeMarking markingBits
  by_cases hidr : nalUnitType = 5
  · rw [if_pos hidr, if_pos hidr]
    exact matches_all _
  · rw [if_neg hidr, if_neg hidr]
    cases h.adaptiveMarking with
    | none => exact matches_all [false]
    | some ms => exact (matches_all [true]).pair (matches_self (writeOperations ms))

theorem matches_refPicLists (hexpr : h.Expressible sps pps) :
    Matches (writeRefPicLists h) (refPicListBits h) := by
  have hlists : Matches (.concat [writeModification h.modificationL0,
      .opt (h.kind = sliceTypeB) (writeModification h.modificationL1)])
        (modificationBits h.modificationL0 ++
        (if h.kind = sliceTypeB then modificationBits h.modificationL1 else [])) := by
    refine (matches_modification fun l hl => (hexpr.commandsL0 l hl).1).pair (.opt fun _ => ?_)
    exact matches_modification fun l hl => (hexpr.commandsL1 l hl).1
  have hflat : refPicListBits h = List.flatten [writeOverride h, modificationBits h.modificationL0,
      if h.kind = sliceTypeB then modificationBits h.modificationL1 else []] := by
    simp [refPicListBits]
  rw [hflat]
  refine (matches_all _).cons ?_
  simpa using hlists

theorem matches_picOrderCnt : Matches (writePicOrderCnt sps pps h) (pocBits sps pps h) := by
  have hlsb : Matches (.concat [
      .all (bitsOf (sps.log2MaxPicOrderCntLsbMinus4 + 4) h.picOrderCntLsb),
      .opt (bottomPresent pps false) (.all (writeSe h.deltaPicOrderCntBottom))]) _ :=
    (matches_all _).pair (.opt fun _ => matches_all _)
  have hdelta : Matches (.concat [
      .all (writeSe h.deltaPicOrderCnt0),
      .opt (bottomPresent pps false) (.all (writeSe h.deltaPicOrderCnt1))]) _ :=
    (matches_all _).pair (.opt fun _ => matches_all _)
  have hboth := Matches.pair (Matches.opt (c := sps.picOrderCntType = 0) fun _ => hlsb)
    (Matches.opt (c := sps.picOrderCntType = 1 ∧
      hasFlag sps.flags spsFlagDeltaPicOrderAlwaysZero = false)
      fun _ => hdelta)
  unfold pocBits
  by_cases htype : sps.picOrderCntType = 0
  · have hother : ¬(sps.picOrderCntType = 1 ∧
        hasFlag sps.flags spsFlagDeltaPicOrderAlwaysZero = false) := by
      intro hone
      omega
    rw [if_pos htype, if_neg hother, List.append_nil] at hboth
    rw [if_pos htype]
    exact hboth
  · rw [if_neg htype, List.nil_append] at hboth
    rw [if_neg htype]
    exact hboth

/-- The parser reads weights for chroma that the header does not have. -/
def Misread (sps : Sps) (pps : Pps) (h : SliceSyntax) : Prop :=
  h.Weighted pps ∧ chromaArrayType sps = 0 ∧ sps.chromaFormatIdc ≠ 0

theorem writeWeightTable_eq (hread : ¬Misread sps pps h) (hweighted : h.Weighted pps) :
    writeWeightTable h (chromaArrayType sps ≠ 0) = weightBits sps h := by
  have hchroma : (decide (chromaArrayType sps ≠ 0)) = readsChroma sps := by
    have hformat : chromaArrayType sps ≠ 0 ↔ sps.chromaFormatIdc ≠ 0 := by
      constructor
      · intro hne hzero
        apply hne
        unfold chromaArrayType
        split
        · rfl
        · exact hzero
      · intro hne hzero
        exact hread ⟨hweighted, hzero, hne⟩
    exact decide_eq_decide.mpr hformat
  rw [hchroma, writeWeightTable, weightBits, List.append_assoc, List.append_assoc]

theorem matches_header (nalRefIdc nalUnitType : Nat) (hexpr : h.Expressible sps pps)
    (hread : ¬Misread sps pps h) :
    Matches (writeSliceHeader sps pps nalRefIdc nalUnitType h)
      (sliceBits sps pps nalRefIdc nalUnitType h) := by
  unfold writeSliceHeader sliceBits
  refine (matches_all _).cons ((matches_all _).cons ((matches_all _).cons ?_))
  refine (Matches.opt fun _ => matches_all _).cons ((matches_all _).cons ?_)
  refine Matches.cons ?_ ((Matches.opt fun _ => matches_all _).cons ?_)
  · by_cases honly : hasFlag sps.flags spsFlagFrameMbsOnly = true
    · rw [if_pos honly, Written.opt, if_neg (by simp [honly])]
      exact matches_all []
    · rw [if_neg honly, Written.opt, if_pos (by simpa using honly)]
      exact matches_all [false]
  refine matches_picOrderCnt.cons ((Matches.opt fun _ => matches_all _).cons ?_)
  refine (Matches.opt fun _ => matches_all _).cons
    ((Matches.opt fun _ => matches_refPicLists hexpr).cons ?_)
  refine (Matches.opt fun hweighted => ?_).cons
    ((Matches.opt fun _ => matches_marking).cons matches_nil)
  rw [writeWeightTable_eq hread hweighted]
  exact matches_all _

end Written

section Codes

variable {sps : Sps} {pps : Pps} {nalRefIdc nalUnitType : Nat} {h : SliceSyntax}

/-- The operation codes of the header are codes of the standard. -/
structure CodesInSet (nalRefIdc nalUnitType : Nat) (h : SliceSyntax) : Prop where
  commandsL0 : h.Inter → ∀ cs, h.modificationL0 = some cs → ∀ c ∈ cs, c.op < 3
  commandsL1 : h.kind = sliceTypeB → ∀ cs, h.modificationL1 = some cs → ∀ c ∈ cs, c.op < 3
  operations : nalRefIdc ≠ 0 → nalUnitType ≠ 5 → ∀ ms, h.adaptiveMarking = some ms →
    ∀ m ∈ ms, m.op ≤ 6

theorem ended_opt {c : Prop} [Decidable c] {w : Written} :
    (Written.opt c w).ended = true ↔ (c → w.ended = true) := by
  by_cases hc : c
  · rw [Written.opt, if_pos hc]
    exact ⟨fun h _ => h, fun h => h hc⟩
  · rw [Written.opt, if_neg hc]
    exact ⟨fun _ h => absurd h hc, fun _ => rfl⟩

theorem ended_concat {ws : List Written} : (Written.concat ws).ended = true ↔
    ∀ w ∈ ws, w.ended = true := by
  induction ws with
  | nil => exact ⟨fun _ w hw => absurd hw List.not_mem_nil, fun _ => rfl⟩
  | cons w ws ih =>
    have hconcat : Written.concat (w :: ws) =
        if w.ended then ⟨w.bits ++ (Written.concat ws).bits, (Written.concat ws).ended⟩
        else w := rfl
    rw [hconcat, List.forall_mem_cons, ← ih]
    by_cases hended : w.ended = true
    · rw [if_pos hended]
      exact ⟨fun h => ⟨hended, h⟩, fun h => h.2⟩
    · rw [if_neg hended]
      exact ⟨fun h => absurd h hended, fun h => h.1⟩

theorem ended_commands {cs : List RplmOp} : (writeCommands cs).ended = true ↔
    ∀ c ∈ cs, c.op < 3 := by
  induction cs with
  | nil => exact ⟨fun _ c hc => absurd hc List.not_mem_nil, fun _ => rfl⟩
  | cons c cs ih =>
    rw [List.forall_mem_cons, ← ih, writeCommands]
    by_cases hop : c.op < 3
    · rw [if_pos hop]
      exact ⟨fun h => ⟨hop, h⟩, fun h => h.2⟩
    · rw [if_neg hop]
      exact ⟨fun h => absurd h Bool.false_ne_true, fun h => absurd h.1 hop⟩

theorem ended_operations {ms : List Mmco} : (writeOperations ms).ended = true ↔
    ∀ m ∈ ms, m.op ≤ 6 := by
  induction ms with
  | nil => exact ⟨fun _ m hm => absurd hm List.not_mem_nil, fun _ => rfl⟩
  | cons m ms ih =>
    rw [List.forall_mem_cons, ← ih, writeOperations]
    by_cases hop : m.op ≤ 6
    · rw [if_pos hop]
      exact ⟨fun h => ⟨hop, h⟩, fun h => h.2⟩
    · rw [if_neg hop]
      exact ⟨fun h => absurd h Bool.false_ne_true, fun h => absurd h.1 hop⟩

theorem ended_modification {cs : Option (List RplmOp)} :
    (writeModification cs).ended = true ↔ ∀ l, cs = some l → ∀ c ∈ l, c.op < 3 := by
  cases cs with
  | none => exact ⟨fun _ l hl => absurd hl.symm (Option.some_ne_none l), fun _ => rfl⟩
  | some l =>
    unfold writeModification
    simp only [ended_concat, List.forall_mem_cons, ended_commands, Written.all, Option.some.injEq]
    constructor
    · rintro ⟨-, hl, -⟩ l' rfl
      exact hl
    · intro hl
      exact ⟨trivial, hl l rfl, fun _ hw => absurd hw List.not_mem_nil⟩

theorem ended_marking : (writeMarking nalUnitType h).ended = true ↔
    (nalUnitType ≠ 5 → ∀ ms, h.adaptiveMarking = some ms → ∀ m ∈ ms, m.op ≤ 6) := by
  unfold writeMarking
  by_cases hidr : nalUnitType = 5
  · rw [if_pos hidr]
    exact ⟨fun _ hother => absurd hidr hother, fun _ => rfl⟩
  · rw [if_neg hidr]
    cases h.adaptiveMarking with
    | none => exact ⟨fun _ _ ms hms => absurd hms.symm (Option.some_ne_none ms), fun _ => rfl⟩
    | some ms =>
      simp only [ended_concat, List.forall_mem_cons, ended_operations, Written.all,
        Option.some.injEq]
      constructor
      · rintro ⟨-, hms, -⟩ - ms' rfl
        exact hms
      · intro hms
        exact ⟨trivial, hms hidr ms rfl, fun _ hw => absurd hw List.not_mem_nil⟩

/-- The header is written to its end just when its codes are codes of the standard. -/
theorem ended_header :
    (writeSliceHeader sps pps nalRefIdc nalUnitType h).ended = true ↔
    CodesInSet nalRefIdc nalUnitType h := by
  unfold writeSliceHeader writePicOrderCnt writeRefPicLists
  simp only [ended_concat, List.forall_mem_cons, ended_opt, ended_modification, ended_marking,
    Written.all, List.not_mem_nil, IsEmpty.forall_iff, implies_true, true_and, and_true]
  constructor
  · rintro ⟨hlists, hmarking⟩
    exact ⟨fun hinter => (hlists hinter).1, fun hb => (hlists (.inr (.inr hb))).2 hb, hmarking⟩
  · intro hcodes
    exact ⟨fun hinter => ⟨hcodes.commandsL0 hinter, hcodes.commandsL1⟩, hcodes.operations⟩

end Codes

section Returning

variable (sps : Sps) (pps : Pps) (nalRefIdc nalUnitType : Nat) (h : SliceSyntax) (out : ParseResult)

/-- The operations up to the first one that the standard does not have. -/
def operationsOf (ms : Option (List Mmco)) : List Mmco := (ms.getD []).takeWhile fun m => m.op ≤ 6

/-- The result has the elements of the header as they were written, or what is inferred for those
that it does not have. -/
structure HeaderReturned (o : ParseResult) : Prop where
  firstMbInSlice : o.slice.firstMbInSlice = h.firstMbInSlice
  sliceType : o.slice.sliceType = h.kind
  colourPlaneId :
    o.slice.colourPlaneId = if hasFlag sps.flags spsFlagSeparateColourPlane then
    h.colourPlaneId else 0
  redundantPicCnt :
    o.slice.redundantPicCnt = if hasFlag pps.flags ppsFlagRedundantPicCntPresent then
    h.redundantPicCnt else 0
  directSpatialMvPred : hasFlag o.slice.flags sliceFlagDirectSpatialMvPred =
    decide (h.kind = sliceTypeB ∧ h.directSpatialMvPredFlag = true)
  numRefIdxL0 : h.Inter → o.slice.numRefIdxL0ActiveMinus1 = h.numRefIdxL0ActiveMinus1 pps
  numRefIdxL1 : h.kind = sliceTypeB →
    o.slice.numRefIdxL1ActiveMinus1 = h.numRefIdxL1ActiveMinus1 pps
  refIdc : o.decode.nalRefIdc = nalRefIdc
  frameNum : o.decode.frameNum = h.frameNum
  fieldPic : hasFlag o.decode.flags decodeParamFlagFieldPic = false
  bottomField : hasFlag o.decode.flags decodeParamFlagBottomField = false
  idrPic : hasFlag o.decode.flags decodeParamFlagIdrPic = decide (nalUnitType = 5)
  idrPicId : nalUnitType = 5 → o.decode.idrPicId = h.idrPicId
  picOrderCntLsb : sps.picOrderCntType = 0 → o.decode.picOrderCntLsb = h.picOrderCntLsb
  deltaPicOrderCntBottom : o.decode.deltaPicOrderCntBottom =
    if sps.picOrderCntType = 0 ∧ bottomPresent pps false then h.deltaPicOrderCntBottom else 0
  deltaPicOrderCnt0 : o.decode.deltaPicOrderCnt0 =
    if sps.picOrderCntType = 1 ∧ hasFlag sps.flags spsFlagDeltaPicOrderAlwaysZero = false
      then h.deltaPicOrderCnt0 else 0
  deltaPicOrderCnt1 : o.decode.deltaPicOrderCnt1 =
    if (sps.picOrderCntType = 1 ∧ hasFlag sps.flags spsFlagDeltaPicOrderAlwaysZero = false) ∧
      bottomPresent pps false
      then h.deltaPicOrderCnt1 else 0
  modificationFlagL0 : h.Inter → o.refPicListModificationFlagL0 = h.modificationL0.isSome.toNat
  modificationFlagL1 : h.kind = sliceTypeB →
    o.refPicListModificationFlagL1 = h.modificationL1.isSome.toNat
  rplmL0 : o.rplmL0 = if h.Inter then h.modificationL0.getD [] else []
  rplmL1 : o.rplmL1 = if h.kind = sliceTypeB then h.modificationL1.getD [] else []
  noOutputOfPriorPics : nalRefIdc ≠ 0 → nalUnitType = 5 →
    o.idrNoOutputOfPriorPicsFlag = h.noOutputOfPriorPicsFlag.toNat
  longTermReference : nalRefIdc ≠ 0 → nalUnitType = 5 →
    o.idrLongTermReferenceFlag = h.longTermReferenceFlag.toNat
  adaptiveMarking : nalRefIdc ≠ 0 → nalUnitType ≠ 5 →
    o.adaptiveRefPicMarkingModeFlag = h.adaptiveMarking.isSome.toNat
  mmco : o.mmco = if nalRefIdc ≠ 0 ∧ nalUnitType ≠ 5 then h.adaptiveMarking.getD [] else []

/-- Whatever follows the written header, parsing it returns its elements; without an error just when
it was written to its end. -/
def Meets : Prop := ∀ (data : List Byte) (rest : List Bool),
  dataBits data = (writeSliceHeader out.sps out.pps nalRefIdc nalUnitType h).bits ++ rest →
  if (writeSliceHeader out.sps out.pps nalRefIdc nalUnitType h).ended then
    (exec (parseSliceHeader nalRefIdc nalUnitType) out (.init data)).1.1 = .ok () ∧
      HeaderReturned out.sps out.pps nalRefIdc nalUnitType h
        (exec (parseSliceHeader nalRefIdc nalUnitType) out (.init data)).1.2
  else (exec (parseSliceHeader nalRefIdc nalUnitType) out (.init data)).1.1 ≠ .ok ()

/-- What finds room behind the commands that an earlier slice has left are all the written ones, and
nothing is left in front of them. -/
def FindRoom {α : Type} (size : Nat) (left written : List α) : Prop :=
  left ++ written.take (size - left.length) = written

/-- The commands of the header find room in the result. -/
structure CommandsFit : Prop where
  rplmL0 : FindRoom 32 out.rplmL0 (if h.Inter then h.modificationL0.getD [] else [])
  rplmL1 : FindRoom 32 out.rplmL1 (if h.kind = sliceTypeB then h.modificationL1.getD [] else [])
  mmco : FindRoom 16 out.mmco (if nalRefIdc ≠ 0 ∧
    nalUnitType ≠ 5 then h.adaptiveMarking.getD [] else [])

end Returning

section Stored

variable {sps : Sps} {pps : Pps} {nalRefIdc nalUnitType : Nat} {h : SliceSyntax} {o : ParseResult}

theorem storeMarking_eq (o : ParseResult) : storeMarking nalUnitType h o = { o with
    idrNoOutputOfPriorPicsFlag :=
      if nalUnitType = 5 then h.noOutputOfPriorPicsFlag.toNat else o.idrNoOutputOfPriorPicsFlag
    idrLongTermReferenceFlag :=
      if nalUnitType = 5 then h.longTermReferenceFlag.toNat else o.idrLongTermReferenceFlag
    adaptiveRefPicMarkingModeFlag :=
      if nalUnitType = 5 then o.adaptiveRefPicMarkingModeFlag else h.adaptiveMarking.isSome.toNat
    mmco := if nalUnitType = 5 then o.mmco else (operationsOf h.adaptiveMarking).foldl (push 16)
      o.mmco } := by
  unfold storeMarking
  by_cases hidr : nalUnitType = 5
  · simp only [if_pos hidr]
  · simp only [if_neg hidr]
    cases h.adaptiveMarking with
    | none => rfl
    | some ms => exact storeOperations_eq ms _

theorem storeHeader_eq (o : ParseResult) : storeHeader sps pps nalRefIdc nalUnitType h o =
    let head := storeHead sps pps nalRefIdc nalUnitType h o
    { o with
      slice := if h.Inter then storeCounts o.pps h head.slice else head.slice
      decode := head.decode
      refPicListModificationFlagL0 :=
        if h.Inter then h.modificationL0.isSome.toNat else o.refPicListModificationFlagL0
      refPicListModificationFlagL1 :=
        if h.kind = sliceTypeB then h.modificationL1.isSome.toNat
        else o.refPicListModificationFlagL1
      rplmL0 := if h.Inter then (commandsOf h.modificationL0).foldl (push 32) o.rplmL0 else o.rplmL0
      rplmL1 := if h.kind = sliceTypeB then (commandsOf h.modificationL1).foldl (push 32)
        o.rplmL1 else o.rplmL1
      idrNoOutputOfPriorPicsFlag :=
        if nalRefIdc ≠ 0 ∧ nalUnitType = 5 then h.noOutputOfPriorPicsFlag.toNat
        else o.idrNoOutputOfPriorPicsFlag
      idrLongTermReferenceFlag :=
        if nalRefIdc ≠ 0 ∧ nalUnitType = 5 then h.longTermReferenceFlag.toNat
        else o.idrLongTermReferenceFlag
      adaptiveRefPicMarkingModeFlag :=
        if nalRefIdc ≠ 0 ∧ nalUnitType ≠ 5 then h.adaptiveMarking.isSome.toNat
        else o.adaptiveRefPicMarkingModeFlag
      mmco :=
        if nalRefIdc ≠ 0 ∧ nalUnitType ≠ 5 then (operationsOf h.adaptiveMarking).foldl
          (push 16) o.mmco
        else o.mmco } := by
  have hlists : storeInter h (storeHead sps pps nalRefIdc nalUnitType h o) =
      let head := storeHead sps pps nalRefIdc nalUnitType h o
      { head with
        slice := if h.Inter then storeCounts o.pps h head.slice else head.slice
        refPicListModificationFlagL0 :=
          if h.Inter then h.modificationL0.isSome.toNat else o.refPicListModificationFlagL0
        refPicListModificationFlagL1 :=
          if h.kind = sliceTypeB then h.modificationL1.isSome.toNat
          else o.refPicListModificationFlagL1
        rplmL0 :=
          if h.Inter then (commandsOf h.modificationL0).foldl (push 32) o.rplmL0 else o.rplmL0
        rplmL1 :=
          if h.kind = sliceTypeB then (commandsOf h.modificationL1).foldl (push 32) o.rplmL1
          else o.rplmL1 } := by
    unfold storeInter
    by_cases hinter : h.Inter
    · simp only [if_pos hinter, storeRefPicLists_eq]
      rfl
    · have hb : ¬h.kind = sliceTypeB := fun hb => hinter (.inr (.inr hb))
      simp only [if_neg hinter, if_neg hb]
      rfl
  unfold storeHeader
  rw [hlists]
  by_cases href : nalRefIdc ≠ 0
  · rw [if_pos href, storeMarking_eq]
    by_cases hidr : nalUnitType = 5
    · simp only [if_pos hidr, if_pos (And.intro href hidr),
        if_neg fun h : nalRefIdc ≠ 0 ∧ nalUnitType ≠ 5 => h.2 hidr]
      rfl
    · simp only [if_neg hidr, if_pos (And.intro href hidr),
        if_neg fun h : nalRefIdc ≠ 0 ∧ nalUnitType = 5 => hidr h.2]
      rfl
  · simp only [if_neg href, if_neg fun h : nalRefIdc ≠ 0 ∧ nalUnitType = 5 => href h.1,
      if_neg fun h : nalRefIdc ≠ 0 ∧ nalUnitType ≠ 5 => href h.1]
    rfl

theorem commandsOf_eq {cs : Option (List RplmOp)} (hcs : ∀ l, cs = some l → ∀ c ∈ l, c.op < 3) :
    commandsOf cs = cs.getD [] := by
  cases cs with
  | none => rfl
  | some l =>
    refine (List.map_congr_left fun c hc => ?_).trans (List.map_id l)
    have hop : u8 c.op = c.op := Nat.mod_eq_of_lt ((hcs l rfl c hc).trans (by decide))
    rw [stored, hop]
    rfl

theorem operationsOf_eq {ms : Option (List Mmco)} (hms : ∀ l, ms = some l → ∀ m ∈ l, m.op ≤ 6) :
    operationsOf ms = ms.getD [] := by
  cases ms with
  | none => rfl
  | some l =>
    rw [operationsOf, Option.getD_some, List.takeWhile_eq_self_iff]
    exact fun m hm => decide_eq_true (hms l rfl m hm)

/-- The commands that are stored, when the header has them. -/
theorem stored_commands {α : Type} (size : Nat) (left : List α) {c : Prop} [Decidable c]
    {stored written : List α} (heq : c → stored = written) :
    (if c then stored.foldl (push size) left else left) = (if c then written else []) ↔
      FindRoom size left (if c then written else []) := by
  unfold FindRoom
  by_cases hc : c
  · rw [if_pos hc, if_pos hc, heq hc, foldl_push]
  · rw [if_neg hc, if_neg hc, List.take_nil, List.append_nil]

theorem storeHeader_commands (sps : Sps) (pps : Pps) (hcodes : CodesInSet nalRefIdc nalUnitType h) :
    ((storeHeader sps pps nalRefIdc nalUnitType h o).rplmL0 =
    if h.Inter then h.modificationL0.getD [] else []) ∧
      ((storeHeader sps pps nalRefIdc nalUnitType h o).rplmL1 =
        if h.kind = sliceTypeB then h.modificationL1.getD [] else []) ∧
      ((storeHeader sps pps nalRefIdc nalUnitType h o).mmco =
        if nalRefIdc ≠ 0 ∧ nalUnitType ≠ 5 then h.adaptiveMarking.getD [] else []) ↔
    CommandsFit nalRefIdc nalUnitType h o := by
  have hl0 := stored_commands 32 o.rplmL0 fun hinter : h.Inter =>
    commandsOf_eq (hcodes.commandsL0 hinter)
  have hl1 := stored_commands 32 o.rplmL1 fun hb : h.kind = sliceTypeB =>
    commandsOf_eq (hcodes.commandsL1 hb)
  have hmmco := stored_commands 16 o.mmco fun hmarking : nalRefIdc ≠ 0 ∧ nalUnitType ≠ 5 =>
    operationsOf_eq (hcodes.operations hmarking.1 hmarking.2)
  rw [storeHeader_eq]
  constructor
  · rintro ⟨h0, h1, hm⟩
    exact ⟨hl0.mp h0, hl1.mp h1, hmmco.mp hm⟩
  · rintro ⟨h0, h1, hm⟩
    exact ⟨hl0.mpr h0, hl1.mpr h1, hmmco.mpr hm⟩

theorem storeHead_delta (sps : Sps) (pps : Pps) (h : SliceSyntax) {d : DecodeParams}
    (hd : d.deltaPicOrderCntBottom = 0 ∧ d.deltaPicOrderCnt0 = 0 ∧
      d.deltaPicOrderCnt1 = 0) :
    (storePocElements sps pps h d).deltaPicOrderCntBottom =
        (if sps.picOrderCntType = 0 ∧
        bottomPresent pps false then h.deltaPicOrderCntBottom else 0) ∧
      (storePocElements sps pps h d).deltaPicOrderCnt0 =
        (if sps.picOrderCntType = 1 ∧ hasFlag sps.flags spsFlagDeltaPicOrderAlwaysZero = false
          then h.deltaPicOrderCnt0 else 0) ∧
      (storePocElements sps pps h d).deltaPicOrderCnt1 =
        (if (sps.picOrderCntType = 1 ∧ hasFlag sps.flags spsFlagDeltaPicOrderAlwaysZero = false) ∧
          bottomPresent pps false then h.deltaPicOrderCnt1 else 0) := by
  rcases hd with ⟨hbottom, h0, h1⟩
  unfold storePocElements
  by_cases hlsb : sps.picOrderCntType = 0
  · have hone : ¬sps.picOrderCntType = 1 := by omega
    simp [hlsb, h0, h1]
  · by_cases hdelta : sps.picOrderCntType = 1 ∧
      hasFlag sps.flags spsFlagDeltaPicOrderAlwaysZero = false
    · simp [hdelta, hbottom]
    · simp [hlsb, hdelta, hbottom, h0, h1]

/-- The counts are the only fields that an override is about. -/
theorem storeCounts_frame {α : Type} (f : SliceParams → α)
    (hf : ∀ s l0 l1, f { s with numRefIdxL0ActiveMinus1 := l0, numRefIdxL1ActiveMinus1 := l1 } =
    f s)
    (s : SliceParams) : f (if h.Inter then storeCounts pps h s else s) = f s := by
  split
  · unfold storeCounts
    cases h.numRefIdxActiveOverride with
    | none => exact hf s _ _
    | some counts => exact hf s _ _
  · rfl

theorem kind_le (hexpr : h.Expressible sps pps) : h.kind ≤ 4 := by
  have htype := hexpr.sliceType
  unfold SliceSyntax.kind
  split <;> omega

theorem storePocElements_frame {α : Type} (f : DecodeParams → α)
    (hf : ∀ d lsb bottom d0 d1, f { d with
      picOrderCntLsb := lsb, deltaPicOrderCntBottom := bottom, deltaPicOrderCnt0 := d0,
      deltaPicOrderCnt1 := d1 } = f d)
    (d : DecodeParams) : f (storePocElements sps pps h d) = f d := by
  unfold storePocElements
  split
  · exact hf d _ _ d.deltaPicOrderCnt0 d.deltaPicOrderCnt1
  · split
    · exact hf d d.picOrderCntLsb d.deltaPicOrderCntBottom _ _
    · rfl

theorem returned_storeHeader (hsets : SetsInRange sps pps) (hexpr : h.Expressible sps pps)
    (hcodes : CodesInSet nalRefIdc nalUnitType h) (hfit : CommandsFit nalRefIdc nalUnitType h o)
    (hpps : o.pps = pps) :
    HeaderReturned sps pps nalRefIdc nalUnitType h
      (storeHeader sps pps nalRefIdc nalUnitType h o) := by
  obtain ⟨hl0, hl1, hmmco⟩ := (storeHeader_commands sps pps hcodes).mpr hfit
  obtain ⟨hbottom, hdelta0, hdelta1⟩ := storeHead_delta sps pps h (d := {
    nalRefIdc := nalRefIdc
    frameNum := u16 h.frameNum
    flags := if nalUnitType = 5 then 0 ||| decodeParamFlagIdrPic else 0
    idrPicId := if nalUnitType = 5 then u16 h.idrPicId else 0 }) ⟨rfl, rfl, rfl⟩
  have hkind := kind_le hexpr
  have hframe : h.frameNum < 2 ^ 16 :=
    hexpr.frameNum.trans_le
      (Nat.pow_le_pow_right (by decide) (Nat.add_le_add_right hsets.log2MaxFrameNum 4))
  have hlsb : h.picOrderCntLsb < 2 ^ 16 :=
    hexpr.picOrderCntLsb.trans_le
      (Nat.pow_le_pow_right (by decide) (Nat.add_le_add_right hsets.log2MaxPicOrderCntLsb 4))
  rw [storeHeader_eq] at hl0 hl1 hmmco ⊢
  refine {
    firstMbInSlice := storeCounts_frame (·.firstMbInSlice) (fun _ _ _ => rfl) _
    sliceType := (storeCounts_frame (·.sliceType) (fun _ _ _ => rfl) _).trans
      (Nat.mod_eq_of_lt (by omega))
    colourPlaneId := (storeCounts_frame (·.colourPlaneId) (fun _ _ _ => rfl) _).trans ?_
    redundantPicCnt := (storeCounts_frame (·.redundantPicCnt) (fun _ _ _ => rfl) _).trans ?_
    directSpatialMvPred := ?_
    numRefIdxL0 := ?_
    numRefIdxL1 := ?_
    refIdc := storePocElements_frame (·.nalRefIdc) (fun _ _ _ _ _ => rfl) _
    frameNum := (storePocElements_frame (·.frameNum) (fun _ _ _ _ _ => rfl) _).trans
      (Nat.mod_eq_of_lt hframe)
    fieldPic := ?_
    bottomField := ?_
    idrPic := ?_
    idrPicId := ?_
    picOrderCntLsb := ?_
    deltaPicOrderCntBottom := hbottom
    deltaPicOrderCnt0 := hdelta0
    deltaPicOrderCnt1 := hdelta1
    modificationFlagL0 := fun hinter => if_pos hinter
    modificationFlagL1 := fun hb => if_pos hb
    rplmL0 := hl0
    rplmL1 := hl1
    noOutputOfPriorPics := fun href hidr => if_pos ⟨href, hidr⟩
    longTermReference := fun href hidr => if_pos ⟨href, hidr⟩
    adaptiveMarking := fun href hidr => if_pos ⟨href, hidr⟩
    mmco := hmmco }
  · have hplane := hexpr.colourPlaneId
    dsimp only [storeHead]
    split
    · exact Nat.mod_eq_of_lt (by omega)
    · rfl
  · have hredundant := hexpr.redundantPicCnt
    dsimp only [storeHead]
    split
    · exact Nat.mod_eq_of_lt (by omega)
    · rfl
  · dsimp only
    rw [storeCounts_frame (·.flags) (fun _ _ _ => rfl)]
    dsimp only [storeHead]
    split
    · exact (decide_eq_true ‹_›).symm
    · exact (decide_eq_false ‹_›).symm
  · intro hinter
    dsimp only
    rw [if_pos hinter, hpps]
    exact storeCounts_L0 hexpr _
  · intro hb
    have hinter : h.Inter := .inr (.inr hb)
    dsimp only
    rw [if_pos hinter, hpps]
    exact storeCounts_L1 hexpr hb _
  · dsimp only [storeHead]
    rw [storePocElements_frame (·.flags) fun _ _ _ _ _ => rfl]
    dsimp only
    split
    · decide
    · decide
  · dsimp only [storeHead]
    rw [storePocElements_frame (·.flags) fun _ _ _ _ _ => rfl]
    dsimp only
    split
    · decide
    · decide
  · dsimp only [storeHead]
    rw [storePocElements_frame (·.flags) fun _ _ _ _ _ => rfl]
    dsimp only
    split
    · exact (decide_eq_true ‹_›).symm
    · exact (decide_eq_false ‹_›).symm
  · intro hidr
    dsimp only [storeHead]
    rw [storePocElements_frame (·.idrPicId) fun _ _ _ _ _ => rfl]
    dsimp only
    rw [if_pos hidr]
    exact Nat.mod_eq_of_lt hexpr.idrPicId
  · intro htype
    dsimp only [storeHead, storePocElements]
    rw [if_pos htype]
    exact Nat.mod_eq_of_lt hlsb

end Stored

section Result

variable {nalRefIdc nalUnitType : Nat} {h : SliceSyntax} {o : ParseResult}

/-- A header that is not misread is returned just when its codes are codes of the standard and its
commands find room. -/
theorem meets_iff (hsets : SetsInRange o.sps o.pps) (hexpr : h.Expressible o.sps o.pps)
    (hread : ¬Misread o.sps o.pps h) :
    Meets nalRefIdc nalUnitType h o ↔ CodesInSet nalRefIdc nalUnitType h ∧
    CommandsFit nalRefIdc nalUnitType h o := by
  have hparse : ∀ (data : List Byte) (rest : List Bool),
      dataBits data = sliceBits o.sps o.pps nalRefIdc nalUnitType h ++ rest →
      (exec (parseSliceHeader nalRefIdc nalUnitType) o (.init data)).1 =
        (.ok (), storeHeader o.sps o.pps nalRefIdc nalUnitType h o) := by
    intro data rest hdata
    have hfields := decodes_parseSliceFields nalRefIdc nalUnitType hsets hexpr
    have hahead : (BitReader.init data).ahead = _ := hdata
    rw [parseSliceHeader, hfields.checked rfl hahead]
  obtain ⟨tail, hbits, hend⟩ := matches_header nalRefIdc nalUnitType hexpr hread
  constructor
  · intro hmeets
    obtain ⟨data, rest, hdata⟩ := exists_data (sliceBits o.sps o.pps nalRefIdc nalUnitType h)
    have hwritten : dataBits data =
        (writeSliceHeader o.sps o.pps nalRefIdc nalUnitType h).bits ++ (tail ++ rest) := by
      rw [hdata, hbits, List.append_assoc]
    have hmet := hmeets data (tail ++ rest) hwritten
    rw [hparse data rest hdata] at hmet
    by_cases hended : (writeSliceHeader o.sps o.pps nalRefIdc nalUnitType h).ended = true
    · rw [if_pos hended] at hmet
      have hcodes := ended_header.mp hended
      exact ⟨hcodes, (storeHeader_commands o.sps o.pps hcodes).mp
        ⟨hmet.2.rplmL0, hmet.2.rplmL1, hmet.2.mmco⟩⟩
    · rw [if_neg hended] at hmet
      exact absurd rfl hmet
  · rintro ⟨hcodes, hfit⟩ data rest hdata
    have hended : (writeSliceHeader o.sps o.pps nalRefIdc nalUnitType h).ended = true :=
      ended_header.mpr hcodes
    rw [if_pos hended]
    rw [hend hended, List.append_nil] at hbits
    rw [← hbits] at hdata
    rw [hparse data rest hdata]
    exact ⟨rfl, returned_storeHeader hsets hexpr hcodes hfit rfl⟩

end Result

end H264

end Rkvdec.Bitstream
