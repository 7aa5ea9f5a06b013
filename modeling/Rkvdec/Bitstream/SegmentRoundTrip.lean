import Rkvdec.Bitstream.SegmentReading
import Rkvdec.Bitstream.SliceRoundTrip

/-! Where `parse_slice_header` of H.265 returns the header that was written, and so where both
parsers do. -/
namespace Rkvdec.Bitstream

namespace H265

open Lib (bitsOf golomb)
open Engine.Rps (Coded RefPicSet)

section Returning

/-- The fields that a dependent segment takes from the segment in front of it. -/
def SliceHeader.inherited (s : SliceHeader) : SliceHeader := { s with
  firstSliceSegmentInPicFlag := 0
  noOutputOfPriorPicsFlag := 0
  slicePicParameterSetId := 0
  dependentSliceSegmentFlag := 0
  sliceSegmentAddress := 0
  numEntryPointOffsets := 0
  headerBitSize := 0
  shortTermRefPicSetSize := 0 }

variable (sps : Sps) (pps : Pps) (table : List RefPicSet) (nalUnitType : Nat) (h : SegmentSyntax)

/-- The elements of the slice as they were written, or what is inferred for those that the header
does not have. -/
structure ReturnedSlice (s : SliceHeader) : Prop where
  sliceType : s.sliceType = h.sliceType
  picOutputFlag : s.picOutputFlag = if pps.outputFlagPresentFlag ≠ 0 then
    h.picOutputFlag.toNat else 1
  colourPlaneId : sps.separateColourPlaneFlag ≠ 0 → s.colourPlaneId = h.colourPlaneId
  slicePicOrderCntLsb : s.slicePicOrderCntLsb =
    if isIdrType nalUnitType = false then h.slicePicOrderCntLsb else 0
  shortTermRefPicSetSpsFlag :
    isIdrType nalUnitType = false → s.shortTermRefPicSetSpsFlag = h.shortTermRefPicSet.isNone.toNat
  shortTermRefPicSetIdx : isIdrType nalUnitType = false → h.shortTermRefPicSet = none →
    s.shortTermRefPicSetIdx = h.shortTermRefPicSetIdx
  stRpsSlice : isIdrType nalUnitType = false → Named table h s.stRpsSlice
  numLongTermSps : s.numLongTermSps = 0
  numLongTermPics : s.numLongTermPics = 0
  temporalMvp : s.sliceTemporalMvpEnabledFlag = (h.temporalMvp sps nalUnitType).toNat
  saoLuma : s.sliceSaoLumaFlag = (h.saoLuma sps).toNat
  saoChroma : s.sliceSaoChromaFlag = (h.saoChroma sps (hasChroma sps)).toNat
  override : h.Inter → s.numRefIdxActiveOverrideFlag = h.numRefIdxActiveOverride.isSome.toNat
  numRefIdxL0 : h.Inter → s.numRefIdxL0ActiveMinus1 = h.numRefIdxL0ActiveMinus1 pps
  numRefIdxL1 : h.sliceType = sliceTypeB → s.numRefIdxL1ActiveMinus1 = h.numRefIdxL1ActiveMinus1 pps
  mvdL1Zero : h.sliceType = sliceTypeB → s.mvdL1ZeroFlag = h.mvdL1ZeroFlag.toNat
  cabacInit : s.cabacInitFlag = if h.Inter ∧ pps.cabacInitPresentFlag ≠ 0 then
    h.cabacInitFlag.toNat else 0
  collocatedFromL0 : s.collocatedFromL0Flag =
    if (h.Inter ∧ h.temporalMvp sps nalUnitType) ∧ h.sliceType = sliceTypeB then
      h.collocatedFromL0Flag.toNat else 1
  collocatedRefIdx : s.collocatedRefIdx =
    if (h.Inter ∧ h.temporalMvp sps nalUnitType) ∧ h.ChoosesCollocated pps then
      h.collocatedRefIdx else 0
  mergeCand : h.Inter → s.fiveMinusMaxNumMergeCand = h.fiveMinusMaxNumMergeCand
  qpDelta : s.sliceQpDelta = h.sliceQpDelta
  cbQpOffset : s.sliceCbQpOffset = if pps.ppsSliceChromaQpOffsetsPresentFlag ≠ 0 then
    h.sliceCbQpOffset else 0
  crQpOffset : s.sliceCrQpOffset = if pps.ppsSliceChromaQpOffsetsPresentFlag ≠ 0 then
    h.sliceCrQpOffset else 0
  deblockingOverride : s.deblockingFilterOverrideFlag = (h.deblockingOverride pps).toNat
  deblockingDisabled : s.sliceDeblockingFilterDisabledFlag = (h.deblockingDisabled pps).toNat
  betaOffset : s.sliceBetaOffsetDiv2 =
    if h.deblockingOverride pps ∧ h.sliceDeblockingFilterDisabledFlag = false then
      h.sliceBetaOffsetDiv2
    else pps.ppsBetaOffsetDiv2
  tcOffset : s.sliceTcOffsetDiv2 =
    if h.deblockingOverride pps ∧ h.sliceDeblockingFilterDisabledFlag = false then
      h.sliceTcOffsetDiv2
    else pps.ppsTcOffsetDiv2
  loopFilter : s.sliceLoopFilterAcrossSlicesEnabledFlag =
    if h.loopFilterPresent sps pps (hasChroma sps) then
      h.sliceLoopFilterAcrossSlicesEnabledFlag.toNat
    else pps.ppsLoopFilterAcrossSlicesEnabledFlag

/-- The bits of the set, or of its index. -/
def setBits : Nat :=
  if h.dependent pps ∨ isIdrType nalUnitType = true then 0 else (writeRefPicSet table h).length

variable (preceding : SliceHeader)

/-- The result has the elements of the header; `preceding` is the last independent segment in front
of it. -/
structure HeaderReturned (s : SliceHeader) : Prop where
  firstSliceSegmentInPicFlag : s.firstSliceSegmentInPicFlag = h.firstSliceSegmentInPicFlag.toNat
  noOutputOfPriorPicsFlag :
    isIrapType nalUnitType = true → s.noOutputOfPriorPicsFlag = h.noOutputOfPriorPicsFlag.toNat
  slicePicParameterSetId : s.slicePicParameterSetId = h.slicePicParameterSetId
  dependentSliceSegmentFlag : s.dependentSliceSegmentFlag = (h.dependent pps).toNat
  sliceSegmentAddress : s.sliceSegmentAddress =
    if h.firstSliceSegmentInPicFlag then 0 else h.sliceSegmentAddress
  numEntryPointOffsets : s.numEntryPointOffsets =
    if pps.tilesEnabledFlag ≠ 0 ∨ pps.entropyCodingSyncEnabledFlag ≠ 0 then
      h.entryPointOffsetsMinus1.length else 0
  shortTermRefPicSetSize : s.shortTermRefPicSetSize = setBits pps table nalUnitType h
  headerBitSize : s.headerBitSize = (writeSegmentHeader sps pps table nalUnitType h).length
  independent : h.dependent pps = false → ReturnedSlice sps pps table nalUnitType h s
  dependent : h.dependent pps = true → s.inherited = preceding.inherited

/-- Whatever follows the written header, parsing it returns its elements. -/
def Meets (out : ParseResult) : Prop := ∀ (data : List Byte) (rest : List Bool),
  dataBits data = writeSegmentHeader sps pps table nalUnitType h ++ rest →
  (exec (parseSliceHeader nalUnitType) out (.init data)).1.1 = .ok () ∧
    HeaderReturned sps pps table nalUnitType h preceding
      (exec (parseSliceHeader nalUnitType) out (.init data)).1.2.slice

/-- The parser reads elements for chroma that the header does not have. -/
def Misread : Prop := h.dependent pps = false ∧ sps.separateColourPlaneFlag ≠ 0 ∧
    sps.chromaFormatIdc ≠ 0 ∧
  (sps.sampleAdaptiveOffsetEnabledFlag ≠ 0 ∨ h.Weighted pps)

/-- The elements that the parser should infer are written, or have the value 0. -/
structure Inferred : Prop where
  output : pps.outputFlagPresentFlag ≠ 0
  inter : h.Inter
  temporalMvp : h.temporalMvp sps nalUnitType = true
  offsets : h.deblockingOverride pps = true → h.sliceDeblockingFilterDisabledFlag = true →
    pps.ppsBetaOffsetDiv2 = 0 ∧ pps.ppsTcOffsetDiv2 = 0
  loopFilter : h.loopFilterPresent sps pps (hasChroma sps) = false →
    pps.ppsLoopFilterAcrossSlicesEnabledFlag = 0

/-- A dependent segment has nothing to take from the segment in front of it, the elements that
another one should infer are there, and the bits can be counted. -/
structure Kept : Prop where
  length : (writeSegmentHeader sps pps table nalUnitType h).length < 2 ^ 32
  independent : h.dependent pps = false → Inferred sps pps nalUnitType h
  dependent : h.dependent pps = true → preceding.inherited = {}

end Returning

section Chroma

variable {sps : Sps} {pps : Pps} {table : List RefPicSet} {nalUnitType : Nat} {h : SegmentSyntax}

/-- What the parser takes for chroma decides nothing in other headers. -/
theorem hasChroma_eq (hread : ¬Misread sps pps h) (hindependent : h.dependent pps = false) :
    hasChroma sps = decide (sps.chromaFormatIdc ≠ 0) ∨
      (sps.sampleAdaptiveOffsetEnabledFlag = 0 ∧ ¬h.Weighted pps) := by
  by_cases hseparate : sps.separateColourPlaneFlag ≠ 0
  · by_cases hformat : sps.chromaFormatIdc ≠ 0
    · right
      constructor
      · by_contra hsao
        exact hread ⟨hindependent, hseparate, hformat, .inl hsao⟩
      · intro hweighted
        exact hread ⟨hindependent, hseparate, hformat, .inr hweighted⟩
    · left
      simp [hasChroma, hformat]
  · left
    rw [not_ne_iff] at hseparate
    simp [hasChroma, hseparate]

theorem saoChroma_off (hoff : sps.sampleAdaptiveOffsetEnabledFlag = 0) (chroma : Bool) :
    h.saoChroma sps chroma = false := by
  simp [SegmentSyntax.saoChroma, hoff]

theorem saoChroma_eq (hread : ¬Misread sps pps h) (hindependent : h.dependent pps = false) :
    h.saoChroma sps (hasChroma sps) = h.saoChroma sps (sps.chromaFormatIdc ≠ 0) := by
  rcases hasChroma_eq hread hindependent with hchroma | ⟨hoff, -⟩
  · rw [hchroma]
  · rw [saoChroma_off hoff, saoChroma_off hoff]

theorem loopFilterPresent_eq (hread : ¬Misread sps pps h) (hindependent : h.dependent pps = false) :
    h.loopFilterPresent sps pps (hasChroma sps) =
    h.loopFilterPresent sps pps (sps.chromaFormatIdc ≠ 0) := by
  rw [SegmentSyntax.loopFilterPresent, SegmentSyntax.loopFilterPresent,
    saoChroma_eq hread hindependent]

theorem writeFields_eq (hread : ¬Misread sps pps h) :
    writeFields sps pps table nalUnitType (hasChroma sps) h =
      writeFields sps pps table nalUnitType (sps.chromaFormatIdc ≠ 0) h := by
  unfold writeFields
  cases hdependent : h.dependent pps with
  | true => simp only [if_true]
  | false =>
    simp only [Bool.false_eq_true, if_false]
    rcases hasChroma_eq hread hdependent with hchroma | ⟨hoff, hweights⟩
    · rw [hchroma]
    · have hindependent : writeIndependent sps pps table nalUnitType (hasChroma sps) h =
          writeIndependent sps pps table nalUnitType (sps.chromaFormatIdc ≠ 0) h := by
        unfold writeIndependent
        rw [loopFilterPresent_eq hread hdependent]
        simp only [writeSao, hoff, writeInter, hweights, ne_eq, not_true_eq_false, if_false]
      rw [hindependent]

end Chroma

section Stored

variable {sps : Sps} {pps : Pps} {table : List RefPicSet} {nalUnitType : Nat} {chroma : Bool}
  {h : SegmentSyntax}
  {rps : ShortTermRps}

theorem storeAddress_eq : storeAddress pps h (storeSets nalUnitType h) = {
    firstSliceSegmentInPicFlag := h.firstSliceSegmentInPicFlag.toNat
    noOutputOfPriorPicsFlag := if isIrapType nalUnitType then h.noOutputOfPriorPicsFlag.toNat else 0
    slicePicParameterSetId := h.slicePicParameterSetId
    dependentSliceSegmentFlag := (h.dependent pps).toNat
    sliceSegmentAddress := if h.firstSliceSegmentInPicFlag then 0 else h.sliceSegmentAddress } := by
  have hflag : (storeAddress pps h (storeSets nalUnitType h)).dependentSliceSegmentFlag =
      (h.dependent pps).toNat :=
    dependent_storeAddress
  rw [← hflag]
  unfold storeAddress storeSets
  cases h.firstSliceSegmentInPicFlag with
  | true => rfl
  | false => rfl

theorem storePictures_eq (s : SliceHeader) :
    storePictures sps pps table nalUnitType chroma h rps s = { s with
    sliceType := h.sliceType
    picOutputFlag :=
      if pps.outputFlagPresentFlag ≠ 0 then h.picOutputFlag.toNat else s.picOutputFlag
    colourPlaneId := if sps.separateColourPlaneFlag ≠ 0 then h.colourPlaneId else s.colourPlaneId
    slicePicOrderCntLsb :=
      if isIdrType nalUnitType = false then h.slicePicOrderCntLsb else s.slicePicOrderCntLsb
    shortTermRefPicSetSpsFlag :=
      if isIdrType nalUnitType = false then h.shortTermRefPicSet.isNone.toNat
      else s.shortTermRefPicSetSpsFlag
    shortTermRefPicSetIdx :=
      if isIdrType nalUnitType = false ∧ h.shortTermRefPicSet.isNone ∧ 1 < table.length then
        h.shortTermRefPicSetIdx
      else s.shortTermRefPicSetIdx
    stRpsSlice := if isIdrType nalUnitType = false ∧ h.shortTermRefPicSet.isNone = false then
      rps else s.stRpsSlice
    numLongTermSps :=
      if isIdrType nalUnitType = false ∧ sps.longTermRefPicsPresentFlag ≠ 0 then 0
      else s.numLongTermSps
    numLongTermPics :=
      if isIdrType nalUnitType = false ∧ sps.longTermRefPicsPresentFlag ≠ 0 then 0
      else s.numLongTermPics
    sliceTemporalMvpEnabledFlag :=
      if isIdrType nalUnitType = false ∧ sps.spsTemporalMvpEnabledFlag ≠ 0 then
        h.sliceTemporalMvpEnabledFlag.toNat
      else s.sliceTemporalMvpEnabledFlag
    sliceSaoLumaFlag := (h.saoLuma sps).toNat
    sliceSaoChromaFlag := (h.saoChroma sps chroma).toNat
    shortTermRefPicSetSize :=
      if isIdrType nalUnitType = false then u32 (writeRefPicSet table h).length
      else s.shortTermRefPicSetSize } := by
  cases hidr : isIdrType nalUnitType with
  | true =>
    rw [storePictures_idr hidr]
    simp only [Bool.true_eq_false, false_and, if_false]
    rfl
  | false =>
    rw [storePictures_other hidr]
    simp only [true_and, if_true]
    cases hset : h.shortTermRefPicSet with
    | none => simp [storeSao, storeRps, storeType, hset]
    | some coded => simp [storeSao, storeRps, storeType, hset]

theorem storeInter_eq (temporal : Bool) (s : SliceHeader) :
    (if h.Inter then storeInter pps h temporal s else s) = { s with
    numRefIdxActiveOverrideFlag :=
      if h.Inter then h.numRefIdxActiveOverride.isSome.toNat else s.numRefIdxActiveOverrideFlag
    numRefIdxL0ActiveMinus1 :=
      if h.Inter then h.numRefIdxL0ActiveMinus1 pps else s.numRefIdxL0ActiveMinus1
    numRefIdxL1ActiveMinus1 :=
      if h.Inter ∧ ¬(h.numRefIdxActiveOverride.isSome ∧ h.sliceType ≠ sliceTypeB) then
        h.numRefIdxL1ActiveMinus1 pps
      else s.numRefIdxL1ActiveMinus1
    mvdL1ZeroFlag :=
      if h.Inter ∧ h.sliceType = sliceTypeB then h.mvdL1ZeroFlag.toNat else s.mvdL1ZeroFlag
    cabacInitFlag :=
      if h.Inter ∧ pps.cabacInitPresentFlag ≠ 0 then h.cabacInitFlag.toNat else s.cabacInitFlag
    collocatedFromL0Flag :=
      if h.Inter ∧ temporal then
        (if h.sliceType = sliceTypeB then h.collocatedFromL0Flag.toNat else 1)
      else s.collocatedFromL0Flag
    collocatedRefIdx :=
      if (h.Inter ∧ temporal) ∧ h.ChoosesCollocated pps then h.collocatedRefIdx
      else s.collocatedRefIdx
    fiveMinusMaxNumMergeCand :=
      if h.Inter then h.fiveMinusMaxNumMergeCand else s.fiveMinusMaxNumMergeCand } := by
  by_cases hinter : h.Inter
  · simp only [hinter, true_and, if_true, storeInter, storeCollocated, storeCounts, ite_not]
  · simp only [hinter, false_and, if_false]

/-- What is stored of an independent segment. -/
theorem storeFields_independent (hindependent : h.dependent pps = false) :
    storeFields sps pps table nalUnitType chroma h rps =
      storeEntryPoints pps h
        (storeLoopFilter sps pps chroma h (storeDeblocking pps h (storeQp pps h {
        firstSliceSegmentInPicFlag := h.firstSliceSegmentInPicFlag.toNat
        noOutputOfPriorPicsFlag :=
          if isIrapType nalUnitType then h.noOutputOfPriorPicsFlag.toNat else 0
        slicePicParameterSetId := h.slicePicParameterSetId
        dependentSliceSegmentFlag := 0
        sliceSegmentAddress := if h.firstSliceSegmentInPicFlag then 0 else h.sliceSegmentAddress
        sliceType := h.sliceType
        picOutputFlag := if pps.outputFlagPresentFlag ≠ 0 then h.picOutputFlag.toNat else 0
        colourPlaneId := if sps.separateColourPlaneFlag ≠ 0 then h.colourPlaneId else 0
        slicePicOrderCntLsb := if isIdrType nalUnitType = false then h.slicePicOrderCntLsb else 0
        shortTermRefPicSetSpsFlag :=
          if isIdrType nalUnitType = false then h.shortTermRefPicSet.isNone.toNat else 0
        shortTermRefPicSetIdx :=
          if isIdrType nalUnitType = false ∧ h.shortTermRefPicSet.isNone ∧ 1 < table.length
            then h.shortTermRefPicSetIdx else 0
        stRpsSlice :=
          if isIdrType nalUnitType = false ∧ h.shortTermRefPicSet.isNone = false then rps else {}
        sliceTemporalMvpEnabledFlag := (h.temporalMvp sps nalUnitType).toNat
        sliceSaoLumaFlag := (h.saoLuma sps).toNat
        sliceSaoChromaFlag := (h.saoChroma sps chroma).toNat
        shortTermRefPicSetSize :=
          if isIdrType nalUnitType = false then u32 (writeRefPicSet table h).length else 0
        numRefIdxActiveOverrideFlag := if h.Inter then h.numRefIdxActiveOverride.isSome.toNat else 0
        numRefIdxL0ActiveMinus1 := if h.Inter then h.numRefIdxL0ActiveMinus1 pps else 0
        numRefIdxL1ActiveMinus1 :=
          if h.Inter ∧ ¬(h.numRefIdxActiveOverride.isSome ∧ h.sliceType ≠ sliceTypeB)
            then h.numRefIdxL1ActiveMinus1 pps else 0
        mvdL1ZeroFlag := if h.Inter ∧ h.sliceType = sliceTypeB then h.mvdL1ZeroFlag.toNat else 0
        cabacInitFlag := if h.Inter ∧ pps.cabacInitPresentFlag ≠ 0 then h.cabacInitFlag.toNat else 0
        collocatedFromL0Flag :=
          if h.Inter ∧ h.temporalMvp sps nalUnitType then
            (if h.sliceType = sliceTypeB then h.collocatedFromL0Flag.toNat else 1) else 0
        collocatedRefIdx :=
          if (h.Inter ∧ h.temporalMvp sps nalUnitType) ∧ h.ChoosesCollocated pps then
            h.collocatedRefIdx else 0
        fiveMinusMaxNumMergeCand := if h.Inter then h.fiveMinusMaxNumMergeCand else 0 }))) := by
  have htemporal : (storePictures sps pps table nalUnitType chroma h rps
      (storeAddress pps h (storeSets nalUnitType h))).sliceTemporalMvpEnabledFlag =
      (h.temporalMvp sps nalUnitType).toNat := temporal_storePictures blank_address
  rw [← htemporal, storeFields, hindependent, if_neg Bool.false_ne_true, storeIndependent]
  rw [storeInter_eq, storePictures_eq, storeAddress_eq, hindependent]
  simp only [ite_self, Bool.toNat_false]

end Stored

section Result

variable {sps : Sps} {pps : Pps} {table : List RefPicSet} {nalUnitType : Nat} {chroma : Bool}
  {h : SegmentSyntax} {rps : ShortTermRps}

/-- Of the elements that a header does not have, the parser infers those of the deblocking filter
only. -/
theorem inferred_of_returned (hread : ¬Misread sps pps h)
    (hindependent : h.dependent pps = false) {n : Nat}
    (hreturned : ReturnedSlice sps pps table nalUnitType h
      { storeFields sps pps table nalUnitType (sps.chromaFormatIdc ≠ 0) h rps with
        headerBitSize := n }) :
    Inferred sps pps nalUnitType h := by
  have houtput := hreturned.picOutputFlag
  have hcollocated := hreturned.collocatedFromL0
  have hbeta := hreturned.betaOffset
  have htc := hreturned.tcOffset
  have hloop := hreturned.loopFilter
  rw [storeFields_independent hindependent] at houtput hcollocated hbeta htc hloop
  dsimp only [storeEntryPoints, storeLoopFilter, storeDeblocking, storeQp]
    at houtput hcollocated hbeta htc hloop
  have hboth : h.Inter ∧ h.temporalMvp sps nalUnitType = true := by
    by_contra hnone
    rw [if_neg hnone, if_neg fun hall => hnone hall.1] at hcollocated
    exact absurd hcollocated (by decide)
  refine ⟨fun hoff => ?_, hboth.1, hboth.2, fun hoverride hdisabled => ?_, fun hnone => ?_⟩
  · rw [if_neg (not_ne_iff.mpr hoff), if_neg (not_ne_iff.mpr hoff)] at houtput
    exact absurd houtput (by decide)
  · have hwritten : ¬(h.deblockingOverride pps = true ∧
        h.sliceDeblockingFilterDisabledFlag = false) := by
      rw [hdisabled]
      exact fun hboth => Bool.false_ne_true hboth.2.symm
    rw [if_pos hoverride, if_pos hdisabled, if_neg hwritten] at hbeta htc
    exact ⟨hbeta.symm, htc.symm⟩
  · rw [hnone, if_neg Bool.false_ne_true] at hloop
    rw [loopFilterPresent_eq hread hindependent] at hnone
    rw [hnone, if_neg Bool.false_ne_true] at hloop
    exact hloop.symm

theorem offset_eq {override disabled : Bool} {written inferred : Int}
    (hzero : override = true → disabled = true → inferred = 0) :
    (if override then (if disabled then 0 else written) else inferred) =
      if override = true ∧ disabled = false then written else inferred := by
  cases override with
  | false => rfl
  | true =>
    cases disabled with
    | false => rfl
    | true => exact (hzero rfl rfl).symm

theorem returned_of_inferred (hexpr : h.Expressible sps pps table nalUnitType)
    (hread : ¬Misread sps pps h) (hindependent : h.dependent pps = false)
    (hnamed : isIdrType nalUnitType = false → Named table h rps) (n : Nat)
    (hinferred : Inferred sps pps nalUnitType h) : ReturnedSlice sps pps table nalUnitType h
      { storeFields sps pps table nalUnitType (sps.chromaFormatIdc ≠ 0) h rps with
        headerBitSize := n } := by
  have hinter := hinferred.inter
  have htemporal := hinferred.temporalMvp
  rw [storeFields_independent hindependent]
  refine {
    sliceType := rfl
    picOutputFlag := ?_
    colourPlaneId := fun hseparate => if_pos hseparate
    slicePicOrderCntLsb := rfl
    shortTermRefPicSetSpsFlag := fun hidr => if_pos hidr
    shortTermRefPicSetIdx := ?_
    stRpsSlice := ?_
    numLongTermSps := rfl
    numLongTermPics := rfl
    temporalMvp := rfl
    saoLuma := rfl
    saoChroma := ?_
    override := fun hinter => if_pos hinter
    numRefIdxL0 := fun hinter => if_pos hinter
    numRefIdxL1 := ?_
    mvdL1Zero := ?_
    cabacInit := rfl
    collocatedFromL0 := ?_
    collocatedRefIdx := rfl
    mergeCand := fun hinter => if_pos hinter
    qpDelta := rfl
    cbQpOffset := rfl
    crQpOffset := rfl
    deblockingOverride := rfl
    deblockingDisabled := rfl
    betaOffset := ?_
    tcOffset := ?_
    loopFilter := ?_ }
  · exact (if_pos hinferred.output).trans (if_pos hinferred.output).symm
  · intro hidr hnone
    have hlt := hexpr.setIdx hnone
    by_cases hmany : 1 < table.length
    · exact if_pos ⟨hidr, by rw [hnone]; rfl, hmany⟩
    · have hzero : h.shortTermRefPicSetIdx = 0 := by omega
      exact (if_neg fun hall => hmany hall.2.2).trans hzero.symm
  · intro hidr coded hcoded
    have hstored : (if isIdrType nalUnitType = false ∧
        h.shortTermRefPicSet.isNone = false then rps else {}) = rps :=
      if_pos ⟨hidr, by rw [hcoded]; rfl⟩
    dsimp only [storeEntryPoints, storeLoopFilter, storeDeblocking, storeQp]
    rw [hstored]
    exact hnamed hidr coded hcoded
  · exact congrArg Bool.toNat (saoChroma_eq hread hindependent).symm
  · intro hb
    exact if_pos ⟨.inr hb, fun hboth => hboth.2 hb⟩
  · intro hb
    exact if_pos ⟨.inr hb, hb⟩
  · dsimp only [storeEntryPoints, storeLoopFilter, storeDeblocking, storeQp]
    by_cases hb : h.sliceType = sliceTypeB
    · rw [if_pos ⟨hinter, htemporal⟩, if_pos hb, if_pos ⟨⟨hinter, htemporal⟩, hb⟩]
    · rw [if_pos ⟨hinter, htemporal⟩, if_neg hb, if_neg fun hall => hb hall.2]
  · exact offset_eq fun hoverride hdisabled => (hinferred.offsets hoverride hdisabled).1
  · exact offset_eq fun hoverride hdisabled => (hinferred.offsets hoverride hdisabled).2
  · have hpresent := loopFilterPresent_eq hread hindependent
    dsimp only [storeEntryPoints, storeLoopFilter, storeDeblocking, storeQp]
    rw [hpresent]
    cases hflag : h.loopFilterPresent sps pps (sps.chromaFormatIdc ≠ 0) with
    | true => rfl
    | false =>
      rw [hflag] at hpresent
      exact (hinferred.loopFilter hpresent).symm

theorem length_writeRefPicSet_le (hindependent : h.dependent pps = false)
    (hidr : isIdrType nalUnitType = false) :
    (writeRefPicSet table h).length ≤ (writeSegmentHeader sps pps table nalUnitType h).length := by
  unfold writeSegmentHeader align writeFields writeIndependent writeRps
  simp only [hindependent, hidr, Bool.false_eq_true, if_false, if_true, List.length_append]
  omega

variable {preceding : SliceHeader} {out : ParseResult}

/-- The fields that every segment has. -/
theorem storeFields_common (sps : Sps) (pps : Pps) (table : List RefPicSet) (nalUnitType : Nat)
    (chroma : Bool) (h : SegmentSyntax) (rps : ShortTermRps) :
    (storeFields sps pps table nalUnitType chroma h rps).firstSliceSegmentInPicFlag =
      h.firstSliceSegmentInPicFlag.toNat ∧
    (storeFields sps pps table nalUnitType chroma h rps).noOutputOfPriorPicsFlag =
      (if isIrapType nalUnitType then h.noOutputOfPriorPicsFlag.toNat else 0) ∧
    (storeFields sps pps table nalUnitType chroma h rps).slicePicParameterSetId =
    h.slicePicParameterSetId ∧
    (storeFields sps pps table nalUnitType chroma h rps).dependentSliceSegmentFlag =
    (h.dependent pps).toNat ∧
    (storeFields sps pps table nalUnitType chroma h rps).sliceSegmentAddress =
      (if h.firstSliceSegmentInPicFlag then 0 else h.sliceSegmentAddress) ∧
    (storeFields sps pps table nalUnitType chroma h rps).numEntryPointOffsets =
      (if pps.tilesEnabledFlag ≠ 0 ∨
      pps.entropyCodingSyncEnabledFlag ≠ 0 then h.entryPointOffsetsMinus1.length
        else 0) ∧
    (storeFields sps pps table nalUnitType chroma h rps).shortTermRefPicSetSize =
      u32 (setBits pps table nalUnitType h) := by
  unfold setBits
  cases hdependent : h.dependent pps with
  | true =>
    have hnone : true = true ∨ isIdrType nalUnitType = true := .inl rfl
    rw [storeFields, hdependent, if_pos rfl, storeAddress_eq, hdependent, if_pos hnone]
    exact ⟨rfl, rfl, rfl, rfl, rfl, rfl, rfl⟩
  | false =>
    rw [storeFields_independent hdependent]
    refine ⟨rfl, rfl, rfl, rfl, rfl, rfl, ?_⟩
    dsimp only [storeEntryPoints, storeLoopFilter, storeDeblocking, storeQp]
    cases isIdrType nalUnitType with
    | true => rfl
    | false => rfl

theorem storeFields_inherited (hdependent : h.dependent pps = true) (n : Nat) :
    SliceHeader.inherited { storeFields sps pps table nalUnitType chroma h rps with
    headerBitSize := n } = {} := by
  rw [storeFields, hdependent, if_pos rfl, storeAddress_eq]
  rfl

/-- A header that is not misread is returned just when all that it does not have is 0. -/
theorem returned_iff (hexpr : h.Expressible sps pps table nalUnitType) (hread : ¬Misread sps pps h)
    (hnamed : isIdrType nalUnitType = false → Named table h rps) :
    HeaderReturned sps pps table nalUnitType h preceding
      { storeFields sps pps table nalUnitType (sps.chromaFormatIdc ≠ 0) h rps with
        headerBitSize := u32 (writeSegmentHeader sps pps table nalUnitType h).length } ↔
    Kept sps pps table nalUnitType h preceding := by
  obtain ⟨hfirst, houtput, hid, hflag, haddress, hpoints, hsize⟩ :=
    storeFields_common sps pps table nalUnitType
    (sps.chromaFormatIdc ≠ 0) h rps
  constructor
  · intro hreturned
    have hbits : u32 (writeSegmentHeader sps pps table nalUnitType h).length = _ :=
      hreturned.headerBitSize
    refine ⟨?_, fun hindependent => ?_, fun hdependent => ?_⟩
    · rw [← hbits]
      exact Nat.mod_lt _ (by decide)
    · exact inferred_of_returned hread hindependent (hreturned.independent hindependent)
    · have hempty := hreturned.dependent hdependent
      rw [storeFields_inherited hdependent] at hempty
      exact hempty.symm
  · rintro ⟨hlength, hindependent, hdependent⟩
    have hset : setBits pps table nalUnitType h < 2 ^ 32 := by
      unfold setBits
      split
      · decide
      · rename_i hneither
        rw [not_or, Bool.not_eq_true, Bool.not_eq_true] at hneither
        exact (length_writeRefPicSet_le hneither.1 hneither.2).trans_lt hlength
    refine {
      firstSliceSegmentInPicFlag := hfirst
      noOutputOfPriorPicsFlag := fun hirap => houtput.trans (if_pos hirap)
      slicePicParameterSetId := hid
      dependentSliceSegmentFlag := hflag
      sliceSegmentAddress := haddress
      numEntryPointOffsets := hpoints
      shortTermRefPicSetSize := hsize.trans (Nat.mod_eq_of_lt hset)
      headerBitSize := Nat.mod_eq_of_lt hlength
      independent := fun hnone => ?_
      dependent := fun hsome => ?_ }
    · exact returned_of_inferred hexpr hread hnone hnamed _ (hindependent hnone)
    · exact (storeFields_inherited hsome _).trans (hdependent hsome).symm

theorem meets_iff (hsets : SetsInRange sps pps table)
    (hexpr : h.Expressible sps pps table nalUnitType) (hread : ¬Misread sps pps h)
    (hpps : out.pps.getD h.slicePicParameterSetId {} = pps)
    (hsps : out.sps.getD pps.spsId {} = sps) :
    Meets sps pps table nalUnitType h preceding out ↔
    Kept sps pps table nalUnitType h preceding := by
  obtain ⟨rps, hparse, hnamed⟩ := decodes_parseSliceHeader hsets hexpr hpps hsps
  have hwritten : align (writeFields sps pps table nalUnitType (sps.chromaFormatIdc ≠ 0) h) =
      writeSegmentHeader sps pps table nalUnitType h := by
    rw [writeSegmentHeader, writeFields_eq hread]
  rw [hwritten] at hparse
  rw [← returned_iff hexpr hread hnamed]
  constructor
  · intro hmeets
    obtain ⟨data, rest, hdata⟩ := exists_data (writeSegmentHeader sps pps table nalUnitType h)
    have hmet := (hmeets data rest hdata).2
    rw [hparse (.init data) rest rfl hdata] at hmet
    exact hmet
  · intro hreturned data rest hdata
    rw [hparse (.init data) rest rfl hdata]
    exact ⟨rfl, hreturned⟩

end Result

end H265

section Both

/-- Where the slice header that was written is returned: of H.264 where the operation codes are
codes of the standard and the commands find room, of H.265 where the parser has nothing to infer
that is not 0. -/
theorem slice_headers_returned {out : H264.ParseResult} {nalRefIdc nalUnitType : Nat}
    {h : H264.SliceSyntax} (hsets : H264.SetsInRange out.sps out.pps)
    (hexpr : h.Expressible out.sps out.pps) (hread : ¬H264.Misread out.sps out.pps h)
    {sps : H265.Sps} {pps : H265.Pps} {table : List Engine.Rps.RefPicSet} {nalUnitType' : Nat}
    {h' : H265.SegmentSyntax} {preceding : H265.SliceHeader} {out' : H265.ParseResult}
    (hsets' : H265.SetsInRange sps pps table) (hexpr' : h'.Expressible sps pps table nalUnitType')
    (hread' : ¬H265.Misread sps pps h') (hpps : out'.pps.getD h'.slicePicParameterSetId {} = pps)
    (hsps : out'.sps.getD pps.spsId {} = sps) :
    (H264.Meets nalRefIdc nalUnitType h out ↔
      H264.CodesInSet nalRefIdc nalUnitType h ∧ H264.CommandsFit nalRefIdc nalUnitType h out) ∧
    (H265.Meets sps pps table nalUnitType' h' preceding out' ↔
      H265.Kept sps pps table nalUnitType' h' preceding) :=
  ⟨H264.meets_iff hsets hexpr hread, H265.meets_iff hsets' hexpr' hread' hpps hsps⟩

/-- A P slice with a command for its list and an operation of its marking. -/
def H264.sampleSlice : H264.SliceSyntax where
  firstMbInSlice := 0
  sliceType := H264.sliceTypeP
  picParameterSetId := 0
  colourPlaneId := 0
  frameNum := 5
  idrPicId := 0
  picOrderCntLsb := 10
  deltaPicOrderCntBottom := 0
  deltaPicOrderCnt0 := 0
  deltaPicOrderCnt1 := 0
  redundantPicCnt := 0
  directSpatialMvPredFlag := false
  numRefIdxActiveOverride := none
  modificationL0 := some [⟨0, 2⟩]
  modificationL1 := none
  lumaLog2WeightDenom := 0
  chromaLog2WeightDenom := 0
  weightsL0 := []
  weightsL1 := []
  noOutputOfPriorPicsFlag := false
  longTermReferenceFlag := false
  adaptiveMarking := some [⟨1, 3, 0, 0, 0⟩]

theorem H264.sampleSlice_expressible : H264.sampleSlice.Expressible {} {} where
  firstMbInSlice := by decide
  sliceType := by decide
  picParameterSetId := by decide
  colourPlaneId := by decide
  frameNum := by decide
  idrPicId := by decide
  picOrderCntLsb := by decide
  deltaPicOrderCntBottom := by decide
  deltaPicOrderCnt0 := by decide
  deltaPicOrderCnt1 := by decide
  redundantPicCnt := by decide
  counts := nofun
  commandsL0 cs hcs := by
    cases hcs
    refine ⟨fun c hc => ?_, by decide⟩
    rw [List.mem_singleton.mp hc]
    exact ⟨by decide, by decide, by decide⟩
  commandsL1 := nofun
  denominators := by decide
  weightsL0 := nofun
  weightsL1 := nofun
  numWeightsL0 := by decide
  numWeightsL1 := by decide
  operations ms hms := by
    cases hms
    intro m hm
    rw [List.mem_singleton.mp hm]
    exact ⟨by decide, by decide, by decide, by decide, by decide⟩

/-- The pictures are single blocks, with the picture in front of them as reference. -/
def H265.sampleSps : H265.Sps where
  valid := true
  spsTemporalMvpEnabledFlag := 1
  picWidthInCtbsY := 1
  picHeightInCtbsY := 1
  numShortTermRefPicSets := 1
  stRps := [{ numNegativePics := 1, numDeltaPocs := 1, deltaPoc := [-1], usedByCurrPicFlag := [1] }]

def H265.samplePps (outputFlagPresent : Bool) : H265.Pps where
  valid := true
  outputFlagPresentFlag := outputFlagPresent.toNat

def H265.sampleTable : List Engine.Rps.RefPicSet := [⟨[(-1, 1)], []⟩]

/-- A P slice that is the whole picture. -/
def H265.sampleSegment : H265.SegmentSyntax where
  firstSliceSegmentInPicFlag := true
  noOutputOfPriorPicsFlag := false
  slicePicParameterSetId := 0
  dependentSliceSegmentFlag := false
  sliceSegmentAddress := 0
  sliceReservedFlags := []
  sliceType := H265.sliceTypeP
  picOutputFlag := true
  colourPlaneId := 0
  slicePicOrderCntLsb := 1
  shortTermRefPicSet := none
  shortTermRefPicSetIdx := 0
  sliceTemporalMvpEnabledFlag := true
  sliceSaoLumaFlag := false
  sliceSaoChromaFlag := false
  numRefIdxActiveOverride := none
  listEntriesL0 := none
  listEntriesL1 := none
  mvdL1ZeroFlag := false
  cabacInitFlag := false
  collocatedFromL0Flag := true
  collocatedRefIdx := 0
  lumaLog2WeightDenom := 0
  deltaChromaLog2WeightDenom := 0
  weightsL0 := []
  weightsL1 := []
  fiveMinusMaxNumMergeCand := 0
  sliceQpDelta := 3
  sliceCbQpOffset := 0
  sliceCrQpOffset := 0
  deblockingFilterOverrideFlag := false
  sliceDeblockingFilterDisabledFlag := false
  sliceBetaOffsetDiv2 := 0
  sliceTcOffsetDiv2 := 0
  sliceLoopFilterAcrossSlicesEnabledFlag := false
  offsetLenMinus1 := 0
  entryPointOffsetsMinus1 := []
  sliceSegmentHeaderExtension := []

theorem H265.sampleSets_inRange (outputFlagPresent : Bool) :
    H265.SetsInRange H265.sampleSps (H265.samplePps outputFlagPresent) H265.sampleTable where
  spsValid := rfl
  ppsValid := rfl
  sizeInCtbs := by decide
  log2MaxPicOrderCntLsb := by decide
  rps := by
    refine ⟨rfl, fun i hi => ?_, fun set hset => ?_⟩
    · obtain rfl : i = 0 := Nat.lt_one_iff.mp hi
      exact ⟨rfl, rfl⟩
    · rw [List.mem_singleton.mp hset]
      exact ⟨by decide, by decide, List.pairwise_singleton _ _, .nil⟩
  numRps := by decide
  rpsInRange set hset := by
    rw [List.mem_singleton.mp hset]
    exact ⟨by decide, by decide⟩
  numRefIdxL0Default := Nat.zero_le _
  numRefIdxL1Default := Nat.zero_le _
  deblockingControl _ := ⟨rfl, rfl, rfl, rfl⟩
  deblockingDisabled := Nat.zero_le _
  loopFilter := Nat.zero_le _
  entryPoints := by decide +revert

theorem H265.sampleSegment_expressible (outputFlagPresent : Bool) :
    H265.sampleSegment.Expressible H265.sampleSps (H265.samplePps outputFlagPresent)
      H265.sampleTable 1 where
  ppsId := by decide
  address := by decide
  reservedFlags := rfl
  sliceType := by decide
  colourPlaneId := by decide
  lsb := by decide
  set := nofun
  setIdx _ := by decide
  counts := nofun
  entriesL0 := nofun
  entriesL1 := nofun
  collocatedRefIdx := by decide
  denominators := by decide
  weightsL0 := nofun
  weightsL1 := nofun
  numWeightsL0 := by decide +revert
  numWeightsL1 := by decide +revert
  mergeCand := by decide
  qpDelta := by decide
  cbQpOffset := by decide
  crQpOffset := by decide
  betaOffset := by decide
  tcOffset := by decide
  entryPoints := by decide +revert
  offsetLen := by decide
  offsets := nofun
  extension := by decide

def H265.sampleResult (outputFlagPresent : Bool) : H265.ParseResult where
  sps := H265.sampleSps :: List.replicate 31 {}
  pps := H265.samplePps outputFlagPresent :: List.replicate 63 {}

/-- Both headers are returned; the one of H.265 has the flag of the output. -/
theorem slice_headers_returned_both : H264.Meets 1 1 H264.sampleSlice {} ∧
    H265.Meets H265.sampleSps (H265.samplePps true) H265.sampleTable 1 H265.sampleSegment {}
      (H265.sampleResult true) := by
  have hsets : H264.SetsInRange {} {} := ⟨by decide, by decide, by decide, by decide⟩
  have hread : ¬H264.Misread {} {} H264.sampleSlice :=
    fun hmisread => absurd hmisread.2.2 (by decide)
  have hread' : ¬H265.Misread H265.sampleSps (H265.samplePps true) H265.sampleSegment :=
    fun hmisread => absurd hmisread.2.1 (by decide)
  have hboth :=
    @slice_headers_returned {} 1 1 H264.sampleSlice hsets H264.sampleSlice_expressible hread
    H265.sampleSps (H265.samplePps true) H265.sampleTable 1 H265.sampleSegment {}
      (H265.sampleResult true)
    (H265.sampleSets_inRange true) (H265.sampleSegment_expressible true) hread' rfl rfl
  refine ⟨hboth.1.mpr ⟨?_, ?_⟩, hboth.2.mpr ⟨by decide +kernel, fun _ => ?_, nofun⟩⟩
  · refine ⟨fun _ cs hcs c hc => ?_, nofun, fun _ _ ms hms m hm => ?_⟩
    · cases hcs
      rw [List.mem_singleton.mp hc]
      decide
    · cases hms
      rw [List.mem_singleton.mp hm]
      decide
  · exact ⟨rfl, rfl, rfl⟩
  · exact ⟨by decide, .inl rfl, rfl, nofun, fun _ => rfl⟩

/-- The same picture of H.265 without the flag of the output, which is 1 then; the parser leaves 0
for it. -/
theorem pic_output_flag_not_inferred :
    H265.SetsInRange H265.sampleSps (H265.samplePps false) H265.sampleTable ∧
    H265.sampleSegment.Expressible H265.sampleSps (H265.samplePps false) H265.sampleTable 1 ∧
    ¬H265.Meets H265.sampleSps (H265.samplePps false) H265.sampleTable 1 H265.sampleSegment {}
      (H265.sampleResult false) := by
  refine ⟨H265.sampleSets_inRange false, H265.sampleSegment_expressible false, fun hmeets => ?_⟩
  have hmet := (hmeets [0xd0, 0xe9, 0xa0] [] (by decide +kernel)).2
  have houtput := (hmet.independent rfl).picOutputFlag
  revert houtput
  decide +kernel

end Both

end Rkvdec.Bitstream
