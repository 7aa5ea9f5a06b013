import Rkvdec.Bitstream.SegmentSyntax

/-! What `parse_slice_header` of H.265 takes from a written header, and what it stores. -/
namespace Rkvdec.Bitstream

section Positions

variable {σ α β : Type} {p : Parser σ α} {f : α → Parser σ β} {s s' s'' : σ} {w w' : List Bool}
  {a : α} {b : β}
  {pos : Nat}

/-- From a reader at a position. -/
def DecodesAt (p : Parser σ α) (pos : Nat) (s : σ) (w : List Bool) (a : α) (s' : σ) : Prop :=
  ∀ br rest, br.bitPos = pos → br.ahead = w ++ rest →
    exec p s br = ((.ok a, s'), br.advance w.length)

theorem Decodes.anywhere (hp : Decodes p s w a s') : DecodesAt p pos s w a s' :=
  fun br rest _ h => hp br rest h

theorem decodes_of_at (hp : ∀ pos, DecodesAt p pos s w a s') : Decodes p s w a s' :=
  fun br rest h => hp br.bitPos br rest rfl h

theorem DecodesAt.bind (hp : DecodesAt p pos s w a s')
    (hf : DecodesAt (f a) (pos + w.length) s' w' b s'') :
    DecodesAt (p >>= f) pos s (w ++ w') b s'' := by
  intro br rest hpos h
  rw [List.append_assoc] at h
  have hrest :=
    hf (br.advance w.length) rest (by rw [BitReader.advance, hpos]) (BitReader.ahead_advance h)
  rw [exec_bind, hp br (w' ++ rest) hpos h, List.length_append, ← BitReader.advance_advance]
  exact hrest

theorem DecodesAt.update {g : σ → σ} {f : PUnit → Parser σ β}
    (hf : DecodesAt (f PUnit.unit) pos (g s) w b s') :
    DecodesAt (modify g >>= f) pos s w b s' := hf

theorem DecodesAt.look {f : σ → Parser σ β} (hf : DecodesAt (f s) pos s w b s') :
    DecodesAt (get >>= f) pos s w b s' := hf

theorem DecodesAt.to {t : σ} (hp : DecodesAt p pos s w a t) (ht : t = s') :
    DecodesAt p pos s w a s' := ht ▸ hp

theorem DecodesAt.at {pos' : Nat} (hp : DecodesAt p pos s w a s') (h : pos = pos') :
    DecodesAt p pos' s w a s' := h ▸ hp

theorem DecodesAt.position {f : Nat → Parser σ β} (hf : DecodesAt (f pos) pos s w b s') :
    DecodesAt (brBitPos >>= f) pos s w b s' := by
  intro br rest hpos h
  rw [exec_bind, brBitPos, exec_ask]
  dsimp only [ReadOp.handle]
  rw [hpos]
  exact hf br rest hpos h

end Positions

namespace H265

open Lib (bitsOf golomb)
open Engine.Rps (Coded RefPicSet SpsRight writeCoded)

section Stores

variable (sps : Sps) (pps : Pps) (table : List RefPicSet) (nalUnitType : Nat) (chroma : Bool)
  (h : SegmentSyntax)

def storeSets : SliceHeader where
  firstSliceSegmentInPicFlag := h.firstSliceSegmentInPicFlag.toNat
  noOutputOfPriorPicsFlag := if isIrapType nalUnitType then h.noOutputOfPriorPicsFlag.toNat else 0
  slicePicParameterSetId := h.slicePicParameterSetId

def storeAddress (s : SliceHeader) : SliceHeader :=
  if h.firstSliceSegmentInPicFlag then s
  else { s with
    dependentSliceSegmentFlag :=
      if pps.dependentSliceSegmentsEnabledFlag ≠ 0 then h.dependentSliceSegmentFlag.toNat else 0
    sliceSegmentAddress := h.sliceSegmentAddress }

/-- `rps` is what becomes of a set of the header's own. -/
def storeRps (rps : ShortTermRps) (s : SliceHeader) : SliceHeader := { s with
  slicePicOrderCntLsb := h.slicePicOrderCntLsb
  shortTermRefPicSetSpsFlag := h.shortTermRefPicSet.isNone.toNat
  stRpsSlice := if h.shortTermRefPicSet.isNone then s.stRpsSlice else rps
  shortTermRefPicSetIdx :=
    if h.shortTermRefPicSet.isNone ∧ 1 < table.length then h.shortTermRefPicSetIdx
    else s.shortTermRefPicSetIdx
  shortTermRefPicSetSize := u32 (writeRefPicSet table h).length
  numLongTermSps := if sps.longTermRefPicsPresentFlag ≠ 0 then 0 else s.numLongTermSps
  numLongTermPics := if sps.longTermRefPicsPresentFlag ≠ 0 then 0 else s.numLongTermPics
  sliceTemporalMvpEnabledFlag :=
    if sps.spsTemporalMvpEnabledFlag ≠ 0 then h.sliceTemporalMvpEnabledFlag.toNat
    else s.sliceTemporalMvpEnabledFlag }

/-- What an override makes of the counts. -/
def storeCounts (s : SliceHeader) : SliceHeader := { s with
  numRefIdxActiveOverrideFlag := h.numRefIdxActiveOverride.isSome.toNat
  numRefIdxL0ActiveMinus1 := h.numRefIdxL0ActiveMinus1 pps
  numRefIdxL1ActiveMinus1 :=
    if h.numRefIdxActiveOverride.isSome ∧ h.sliceType ≠ sliceTypeB then s.numRefIdxL1ActiveMinus1
    else h.numRefIdxL1ActiveMinus1 pps }

def storeCollocated (temporal : Bool) (s : SliceHeader) : SliceHeader := { s with
  collocatedFromL0Flag :=
    if temporal then (if h.sliceType = sliceTypeB then h.collocatedFromL0Flag.toNat else 1)
    else s.collocatedFromL0Flag
  collocatedRefIdx :=
    if temporal ∧ h.ChoosesCollocated pps then h.collocatedRefIdx else s.collocatedRefIdx }

def storeInter (temporal : Bool) (s : SliceHeader) : SliceHeader :=
  { storeCollocated pps h temporal (storeCounts pps h s) with
    mvdL1ZeroFlag := if h.sliceType = sliceTypeB then h.mvdL1ZeroFlag.toNat else s.mvdL1ZeroFlag
    cabacInitFlag := if pps.cabacInitPresentFlag ≠ 0 then h.cabacInitFlag.toNat else s.cabacInitFlag
    fiveMinusMaxNumMergeCand := h.fiveMinusMaxNumMergeCand }

def storeDeblocking (s : SliceHeader) : SliceHeader := { s with
  deblockingFilterOverrideFlag := (h.deblockingOverride pps).toNat
  sliceDeblockingFilterDisabledFlag := (h.deblockingDisabled pps).toNat
  sliceBetaOffsetDiv2 :=
    if h.deblockingOverride pps then (if h.sliceDeblockingFilterDisabledFlag then 0
      else h.sliceBetaOffsetDiv2)
    else pps.ppsBetaOffsetDiv2
  sliceTcOffsetDiv2 :=
    if h.deblockingOverride pps then (if h.sliceDeblockingFilterDisabledFlag then 0
      else h.sliceTcOffsetDiv2)
    else pps.ppsTcOffsetDiv2 }

/-- The elements in front of the picture order count. -/
def storeType (s : SliceHeader) : SliceHeader := { s with
  sliceType := h.sliceType
  picOutputFlag := if pps.outputFlagPresentFlag ≠ 0 then h.picOutputFlag.toNat else s.picOutputFlag
  colourPlaneId := if sps.separateColourPlaneFlag ≠ 0 then h.colourPlaneId else s.colourPlaneId }

def storeSao (s : SliceHeader) : SliceHeader := { s with
  sliceSaoLumaFlag := (h.saoLuma sps).toNat
  sliceSaoChromaFlag := (h.saoChroma sps chroma).toNat }

def storeQp (s : SliceHeader) : SliceHeader := { s with
  sliceQpDelta := h.sliceQpDelta
  sliceCbQpOffset :=
    if pps.ppsSliceChromaQpOffsetsPresentFlag ≠ 0 then h.sliceCbQpOffset else s.sliceCbQpOffset
  sliceCrQpOffset :=
    if pps.ppsSliceChromaQpOffsetsPresentFlag ≠ 0 then h.sliceCrQpOffset else s.sliceCrQpOffset }

def storeLoopFilter (s : SliceHeader) : SliceHeader := { s with
  sliceLoopFilterAcrossSlicesEnabledFlag :=
    if h.loopFilterPresent sps pps chroma then h.sliceLoopFilterAcrossSlicesEnabledFlag.toNat
    else s.sliceLoopFilterAcrossSlicesEnabledFlag }

/-- What is stored up to the offsets of the quantizer. -/
def storePictures (rps : ShortTermRps) (s : SliceHeader) : SliceHeader :=
  storeSao sps chroma h
    (if isIdrType nalUnitType = false then storeRps sps table h rps (storeType sps pps h s)
      else storeType sps pps h s)

def storeIndependent (rps : ShortTermRps) (s : SliceHeader) : SliceHeader :=
  let s := storePictures sps pps table nalUnitType chroma h rps s
  let s := if h.Inter then storeInter pps h (h.temporalMvp sps nalUnitType) s else s
  storeLoopFilter sps pps chroma h (storeDeblocking pps h (storeQp pps h s))

def storeEntryPoints (s : SliceHeader) : SliceHeader := { s with
  numEntryPointOffsets :=
    if pps.tilesEnabledFlag ≠ 0 ∨ pps.entropyCodingSyncEnabledFlag ≠ 0 then
      h.entryPointOffsetsMinus1.length
    else s.numEntryPointOffsets }

/-- What is stored of the fields of the header. -/
def storeFields (rps : ShortTermRps) : SliceHeader :=
  let s := storeAddress pps h (storeSets nalUnitType h)
  storeEntryPoints pps h
    (if h.dependent pps then s else storeIndependent sps pps table nalUnitType chroma h rps s)

end Stores

section Sets

variable {sps : Sps} {pps : Pps} {nalUnitType : Nat} {h : SegmentSyntax} {o : ParseResult}

theorem ceilLog2_le_of_pow {n k : Nat} (h : n ≤ 2 ^ k) : ceilLog2 n ≤ k := by
  unfold ceilLog2
  split
  · exact Nat.zero_le k
  · exact Nat.succ_le_of_lt ((Nat.log2_lt (by omega)).mpr (by omega))

theorem le_ceilLog2 (n : Nat) : n ≤ 2 ^ ceilLog2 n := by
  unfold ceilLog2
  split
  · omega
  · have hlog : n - 1 < 2 ^ ((n - 1).log2 + 1) := Nat.lt_log2_self
    omega

theorem decodes_parseSliceSets (hid : h.slicePicParameterSetId ≤ 63)
    (hpps : o.pps.getD h.slicePicParameterSetId {} = pps) (hsps : o.sps.getD pps.spsId {} = sps)
    (hppsValid : pps.valid = true) (hspsValid : sps.valid = true) :
    Decodes (parseSliceSets nalUnitType) o (writeSets nalUnitType h) (pps, sps) { o with
      slice := storeSets nalUnitType h
      isIrap := isIrapType nalUnitType
      isIdr := isIdrType nalUnitType
      activePpsId := h.slicePicParameterSetId
      activeSpsId := pps.spsId } := by
  unfold parseSliceSets writeSets
  refine .update (.store (decodes_bit _) (.update (.field 0 rfl (fun _ => decodes_bit _) ?_)))
  rw [← List.append_nil (golomb h.slicePicParameterSetId)]
  refine (decodes_brUe8 (v := h.slicePicParameterSetId) (by omega)).bind (.update ?_)
  refine .cond (fun hbig => ?_) fun _ => ?_
  · unfold maxPps at hbig
    omega
  refine .access (.look ?_)
  dsimp only
  rw [hpps]
  refine .cond (fun hinvalid => ?_) fun _ => ?_
  · rw [hppsValid] at hinvalid
    cases hinvalid
  refine .update (.access (.look ?_))
  dsimp only
  rw [hsps]
  refine .cond (fun hinvalid => ?_) fun _ => ?_
  · rw [hspsValid] at hinvalid
    cases hinvalid
  exact .update (decodes_pure _ _)

theorem decodes_parseSegmentAddress (hsize : sps.picWidthInCtbsY * sps.picHeightInCtbsY < 2 ^ 32)
    (haddress : h.sliceSegmentAddress < 2 ^ ceilLog2 (sps.picWidthInCtbsY * sps.picHeightInCtbsY)) :
    Decodes (parseSegmentAddress pps sps) { o with slice := storeSets nalUnitType h }
      (writeAddress sps pps h) ()
      { o with slice := storeAddress pps h (storeSets nalUnitType h) } := by
  have hu32 : u32 (sps.picWidthInCtbsY * sps.picHeightInCtbsY) =
      sps.picWidthInCtbsY * sps.picHeightInCtbsY :=
    Nat.mod_eq_of_lt hsize
  have hwidth : ceilLog2 (sps.picWidthInCtbsY * sps.picHeightInCtbsY) ≤ 32 :=
    ceilLog2_le_of_pow hsize.le
  unfold parseSegmentAddress writeAddress storeAddress
  refine .look ?_
  cases hfirst : h.firstSliceSegmentInPicFlag with
  | true =>
    refine .cond (fun hzero => ?_) fun _ => decodes_pure _ _
    simp [storeSets, hfirst] at hzero
  | false =>
    refine .cond (fun _ => ?_) fun hzero => ?_
    · rw [if_neg Bool.false_ne_true, hu32]
      exact .field 0 rfl (fun _ => decodes_bit _) (.put (decodes_brU hwidth haddress))
    · simp [storeSets, hfirst] at hzero

end Sets

section Rps

variable {sps : Sps} {pps : Pps} {table : List RefPicSet} {nalUnitType : Nat} {h : SegmentSyntax}
  {o : ParseResult}

/-- The counts of long-term pictures are 0. -/
theorem decodes_longTerm : Decodes (do
    if sps.longTermRefPicsPresentFlag ≠ 0 then
      let nLtSps ← if 0 < sps.numLongTermRefPicsSps then brUe else pure 0
      let nLtPics ← brUe
      if maxLongTermRefs < nLtSps ∨ maxLongTermRefs < nLtPics then throw .invalid
      setSlice fun s => { s with numLongTermSps := u8 nLtSps, numLongTermPics := u8 nLtPics }
      if 0 < nLtSps + nLtPics then throw .unsupported
    if sps.spsTemporalMvpEnabledFlag ≠ 0 then
      let temporalMvp ← brU8 1
      setSlice fun s => { s with sliceTemporalMvpEnabledFlag := temporalMvp }) o
    ((if sps.longTermRefPicsPresentFlag ≠ 0 then
        (if 0 < sps.numLongTermRefPicsSps then golomb 0 else []) ++ golomb 0 else []) ++
      (if sps.spsTemporalMvpEnabledFlag ≠ 0 then [h.sliceTemporalMvpEnabledFlag] else [])) ()
    { o with slice := { o.slice with
      numLongTermSps := if sps.longTermRefPicsPresentFlag ≠ 0 then 0 else o.slice.numLongTermSps
      numLongTermPics := if sps.longTermRefPicsPresentFlag ≠ 0 then 0 else o.slice.numLongTermPics
      sliceTemporalMvpEnabledFlag :=
        if sps.spsTemporalMvpEnabledFlag ≠ 0 then h.sliceTemporalMvpEnabledFlag.toNat
        else o.slice.sliceTemporalMvpEnabledFlag } } := by
  refine .opt { o with slice := { o.slice with
    numLongTermSps := if sps.longTermRefPicsPresentFlag ≠ 0 then 0 else o.slice.numLongTermSps
    numLongTermPics := if sps.longTermRefPicsPresentFlag ≠ 0 then 0 else o.slice.numLongTermPics } }
    (fun hnone => ?_) (fun hlong hrest => ?_) ?_
  · rw [if_neg hnone, if_neg hnone]
  · refine .assoc (.branch (fun _ => decodes_brUe (by decide)) (fun _ => decodes_pure 0 o) ?_)
    refine (decodes_brUe (by decide)).bind
      (.cond (fun hmany => absurd hmany (by decide)) fun _ => .update ?_)
    refine .cond (fun hmany => absurd hmany (by decide)) fun _ => hrest.from ?_
    rw [if_pos hlong, if_pos hlong]
    rfl
  · refine .cond (fun htemporal => ?_) fun htemporal => ?_
    · rw [if_pos htemporal, if_pos htemporal]
      exact .put (decodes_bit _)
    · rw [if_neg htemporal, if_neg htemporal]
      exact decodes_pure _ _

theorem decodes_parseSliceRps (hsets : SetsInRange sps pps table)
    (hexpr : h.Expressible sps pps table nalUnitType) :
    ∃ rps, Decodes (parseSliceRps sps) o (writeRps sps table h) ()
        { o with slice := storeRps sps table h rps o.slice } ∧
      ∀ coded, h.shortTermRefPicSet = some coded →
      Engine.Rps.Holds rps (coded.derive table table.length) ∧
        rps.interRefPicSetPredictionFlag = coded.isPredicted.toNat := by
  have hlsb : sps.log2MaxPicOrderCntLsbMinus4 + 4 ≤ 32 := by
    have hrange := hsets.log2MaxPicOrderCntLsb
    omega
  have hu16 : u16 h.slicePicOrderCntLsb = h.slicePicOrderCntLsb := Nat.mod_eq_of_lt
    (hexpr.lsb.trans_le
      (Nat.pow_le_pow_right (by decide) (Nat.add_le_add_right hsets.log2MaxPicOrderCntLsb 4)))
  have hnum := hsets.rps.number
  unfold parseSliceRps writeRps
  cases hset : h.shortTermRefPicSet with
  | none =>
    refine ⟨{}, ?_, fun coded hcoded => absurd hcoded.symm (Option.some_ne_none coded)⟩
    refine .store (decodes_brU hlsb hexpr.lsb)
      ((decodes_bit _).bind (.update (decodes_of_at fun pos => .position ?_)))
    rw [if_neg (by decide)]
    have hbits : writeRefPicSet table h =
        if 1 < sps.numShortTermRefPicSets then bitsOf (ceilLog2 table.length)
          h.shortTermRefPicSetIdx else [] := by
      rw [writeRefPicSet, hset, hnum]
    by_cases hmany : 1 < sps.numShortTermRefPicSets
    · have hidx : h.shortTermRefPicSetIdx < 2 ^ ceilLog2 table.length :=
        (hexpr.setIdx hset).trans_le (le_ceilLog2 table.length)
      have hwidth : ceilLog2 table.length ≤ 8 := ceilLog2_le_of_pow (hsets.numRps.trans (by decide))
      rw [if_pos hmany] at hbits
      rw [if_pos hmany, hbits, hnum]
      refine (decodes_brU8 hwidth hidx).anywhere.bind (.update ?_)
      refine .position (Decodes.anywhere (.update (Decodes.to decodes_longTerm ?_)))
      rw [hnum] at hmany
      simp only [storeRps, hset, hbits, hmany, hu16, Option.isNone_none, and_self, if_true,
        Nat.add_sub_cancel_left]
    · rw [if_neg hmany] at hbits
      rw [if_neg hmany, hbits, List.nil_append]
      refine .position (Decodes.anywhere (.update (Decodes.to decodes_longTerm ?_)))
      rw [hnum] at hmany
      simp only [storeRps, hset, hbits, hmany, hu16, Option.isNone_none, and_false, if_true,
        if_false, Nat.sub_self, List.length_nil]
  | some coded =>
    obtain ⟨hwrite, hrange⟩ := hexpr.set coded hset
    have hbits : writeRefPicSet table h = writeCoded table.length table.length coded := by
      rw [writeRefPicSet, hset]
    have hholds : Engine.Rps.TableHolds sps.stRps table table.length := hsets.rps.holds
    obtain ⟨rps, hparse, hmeaning⟩ := Engine.Rps.decodes_parseStRps
      (s := { o with slice := { o.slice with
        slicePicOrderCntLsb := u16 h.slicePicOrderCntLsb
        shortTermRefPicSetSpsFlag := (some coded).isNone.toNat } })
      (g := fun inter o => { o with slice := { o.slice with
        stRpsSlice := { o.slice.stRpsSlice with interRefPicSetPredictionFlag := inter } } })
      hwrite hholds (fun set hset => (hsets.rpsInRange set hset).few) hrange
    refine ⟨rps, ?_, fun coded' hcoded => Option.some.inj (hcoded) ▸ hmeaning⟩
    refine .store (decodes_brU hlsb hexpr.lsb)
      ((decodes_bit _).bind (.update (decodes_of_at fun pos => .position ?_)))
    have hown : (some coded).isNone.toNat = 0 := rfl
    rw [if_pos hown, hbits, hnum]
    refine DecodesAt.bind hparse.anywhere (.update ?_)
    refine .position (Decodes.anywhere (.update (Decodes.to decodes_longTerm ?_)))
    simp only [storeRps, hset, hbits, hu16, Option.isNone_some, Bool.false_eq_true, false_and,
      if_false, Nat.add_sub_cancel_left]

end Rps

section Lists

variable {sps : Sps} {pps : Pps} {table : List RefPicSet} {nalUnitType : Nat} {chroma : Bool}
  {h : SegmentSyntax}
  {o : ParseResult}

theorem decodes_countUsed (rps : ShortTermRps) (n i : Nat) : Decodes (countUsed rps n i) o []
    ((List.range' i n).countP fun j => rps.usedByCurrPicFlag.getD j 0 ≠ 0) o := by
  induction n generalizing i with
  | zero => exact decodes_pure 0 o
  | succ n ih =>
    have hcount :=
      (ih (i + 1)).bind
        (f := fun rest => pure (if rps.usedByCurrPicFlag.getD i 0 ≠ 0 then rest + 1 else rest))
      (decodes_pure _ o)
    refine .access (Decodes.result hcount ?_)
    rw [List.range'_succ, List.countP_cons]
    by_cases hused : rps.usedByCurrPicFlag.getD i 0 ≠ 0
    · rw [if_pos hused, if_pos (decide_eq_true hused)]
    · rw [if_neg hused, if_neg (by simpa using hused)]
      rfl

/-- The entries that the picture uses. -/
theorem countUsed_eq {rps : ShortTermRps} {set : RefPicSet} (hrps : Engine.Rps.Holds rps set) :
    ((List.range' 0 rps.numDeltaPocs).countP fun j => rps.usedByCurrPicFlag.getD j 0 ≠ 0) =
    numPicTotalCurr set := by
  have hnum : rps.numDeltaPocs = rps.numNegativePics + rps.numPositivePics := by
    rw [hrps.count, ← hrps.meaning]
    simp [RefPicSet.numDeltaPocs, Engine.Rps.meaning]
  rw [numPicTotalCurr, ← hrps.meaning, hnum, ← List.range_eq_range', List.range_add,
    List.countP_append, List.countP_append, List.countP_map]
  simp only [Engine.Rps.meaning, List.countP_map]
  rfl

theorem decodes_entries {entries : List Nat} {n width : Nat} (hlength : entries.length = n)
    (hentries : ∀ e ∈ entries, e < 2 ^ width) (hwidth : width ≤ 32) :
    Decodes (skip n do let _ ← brU width) o (entries.flatMap (bitsOf width)) () o := by
  refine .skip hlength fun e he => ?_
  exact (decodes_brU hwidth (hentries e he)).last

/-- The set that the stored elements name. -/
def namedRps (sps : Sps) (s : SliceHeader) : ShortTermRps :=
  if s.shortTermRefPicSetSpsFlag ≠ 0 then sps.stRps.getD s.shortTermRefPicSetIdx {}
  else s.stRpsSlice

theorem decodes_listEntries {entries : Option (List Nat)} {n total : Nat}
    (htotal : ceilLog2 total ≤ 32)
    (hentries : ∀ l, entries = some l → l.length = n ∧ ∀ e ∈ l, e < 2 ^ ceilLog2 total) {q : P Unit}
    {w : List Bool} (hq : Decodes q o w () o) :
    Decodes (flag >>= fun present => if present then skip n (do let _ ← brU (ceilLog2 total)) >>=
    fun _ => q else q) o
      ([entries.isSome] ++ (writeEntries total entries ++ w)) () o := by
  refine (decodes_flag _).bind ?_
  cases entries with
  | none => exact hq
  | some l =>
    obtain ⟨hlength, hrange⟩ := hentries l rfl
    exact (decodes_entries hlength hrange htotal).bind hq

/-- The entries at the end of a structure. -/
theorem decodes_lastEntries {entries : Option (List Nat)} {n total : Nat}
    (htotal : ceilLog2 total ≤ 32)
    (hentries : ∀ l, entries = some l → l.length = n ∧ ∀ e ∈ l, e < 2 ^ ceilLog2 total) :
    Decodes (flag >>= fun present => if present then skip n (do let _ ← brU (ceilLog2 total))
    else pure ()) o
      ([entries.isSome] ++ writeEntries total entries) () o := by
  refine (decodes_flag _).bind ?_
  cases entries with
  | none => exact decodes_pure () o
  | some l =>
    obtain ⟨hlength, hrange⟩ := hentries l rfl
    exact decodes_entries hlength hrange htotal

theorem decodes_parseListsModification (hexpr : h.Expressible sps pps table nalUnitType)
    (hrps : Engine.Rps.Holds (namedRps sps o.slice) (h.refPicSet table nalUnitType))
    (htotal : numPicTotalCurr (h.refPicSet table nalUnitType) ≤ 16)
    (htype : o.slice.sliceType = h.sliceType)
    (hl0 : o.slice.numRefIdxL0ActiveMinus1 = h.numRefIdxL0ActiveMinus1 pps)
    (hl1 : h.sliceType = sliceTypeB → o.slice.numRefIdxL1ActiveMinus1 =
    h.numRefIdxL1ActiveMinus1 pps) :
    Decodes (parseListsModification pps sps) o
      (if pps.listsModificationPresentFlag ≠ 0 ∧
        1 < numPicTotalCurr (h.refPicSet table nalUnitType) then
        writeListsModification h (numPicTotalCurr (h.refPicSet table nalUnitType))
          else []) () o := by
  have hwidth : ceilLog2 (numPicTotalCurr (h.refPicSet table nalUnitType)) ≤ 32 :=
    ceilLog2_le_of_pow (htotal.trans (by decide))
  have hlists : ∀ rps, rps = namedRps sps o.slice →
      Decodes (countUsed rps rps.numDeltaPocs 0 >>= fun totalRefs =>
      if pps.listsModificationPresentFlag ≠ 0 ∧ 1 < totalRefs then do
        if ← flag then
          skip (o.slice.numRefIdxL0ActiveMinus1 + 1) do
            let _ ← brU (ceilLog2 totalRefs)
        if o.slice.sliceType = sliceTypeB then
          if ← flag then
            skip (o.slice.numRefIdxL1ActiveMinus1 + 1) do
              let _ ← brU (ceilLog2 totalRefs)
      else pure ()) o
      (if pps.listsModificationPresentFlag ≠ 0 ∧
        1 < numPicTotalCurr (h.refPicSet table nalUnitType) then
        writeListsModification h (numPicTotalCurr (h.refPicSet table nalUnitType))
          else []) () o := by
    rintro rps rfl
    have hcount :=
      decodes_countUsed (o := o) (namedRps sps o.slice) (namedRps sps o.slice).numDeltaPocs 0
    rw [countUsed_eq hrps] at hcount
    refine hcount.silent ?_
    by_cases hpresent : pps.listsModificationPresentFlag ≠ 0 ∧
      1 < numPicTotalCurr (h.refPicSet table nalUnitType)
    · rw [if_pos hpresent, if_pos hpresent, hl0, htype]
      refine decodes_listEntries hwidth hexpr.entriesL0 (.cond (fun hb => ?_) fun hb => ?_)
      · rw [if_pos hb, hl1 hb]
        exact decodes_lastEntries hwidth hexpr.entriesL1
      · rw [if_neg hb]
        exact decodes_pure () o
    · rw [if_neg hpresent, if_neg hpresent]
      exact decodes_pure () o
  unfold parseListsModification
  refine .look ?_
  dsimp only
  by_cases hflag : o.slice.shortTermRefPicSetSpsFlag ≠ 0
  · rw [if_pos hflag]
    exact .access (hlists _ (if_pos hflag).symm)
  · rw [if_neg hflag]
    exact hlists _ (if_neg hflag).symm

theorem decodes_parseWeightFlags (flags : List Bool) (i : Nat) :
    Decodes (parseWeightFlags flags.length i) o flags flags o := by
  induction flags generalizing i with
  | nil => exact decodes_pure [] o
  | cons b flags ih => exact .access ((decodes_flag b).bind (ih (i + 1)).last)

theorem getD_flag {f : WeightEntry → Bool} (before : List WeightEntry) (e : WeightEntry)
    (es : List WeightEntry) :
    ((before ++ e :: es).map f).getD before.length false = f e := by
  simp [List.getD_eq_getElem?_getD]

theorem decodes_skipWeights {es : List WeightEntry} (hes : ∀ e ∈ es, e.InRange)
    (before : List WeightEntry) :
    Decodes (skipWeights es.length before.length ((before ++ es).map (·.luma.isSome))
        (if chroma then (before ++ es).map (·.chroma.isSome) else [])) o
      (es.flatMap fun e => writeLuma e.luma ++ (if chroma then writeChroma e.chroma else [])) ()
        o := by
  induction es generalizing before with
  | nil => exact decodes_pure () o
  | cons e es ih =>
    obtain ⟨hluma, hchroma⟩ := hes e List.mem_cons_self
    have hrest := ih (fun e' he' => hes e' (List.mem_cons_of_mem _ he')) (before ++ [e])
    rw [List.append_assoc, List.singleton_append, List.length_append,
      List.length_singleton] at hrest
    have hchromaFlag : (if chroma then (before ++ e :: es).map (·.chroma.isSome) else []).getD
        before.length false =
        (chroma && e.chroma.isSome) := by
      cases chroma with
      | false => rfl
      | true => exact getD_flag before e es
    have hchromaBits : (if chroma then writeChroma e.chroma else []) =
        if (chroma && e.chroma.isSome) = true then writeChroma e.chroma else [] := by
      cases chroma with
      | false => rfl
      | true => exact isSome_eq_bits writeChroma e.chroma rfl
    rw [List.flatMap_cons, List.append_assoc, isSome_eq_bits writeLuma e.luma rfl, hchromaBits]
    refine .access ?_
    rw [getD_flag before e es, hchromaFlag]
    refine .opt o (fun _ => rfl) (fun hsome hnext => ?_)
      (.opt o (fun _ => rfl) (fun hsome hnext => ?_) hrest)
    · obtain ⟨⟨weight, offset⟩, hvalue⟩ := Option.isSome_iff_exists.mp hsome
      obtain ⟨hweight, hoffset⟩ := hluma _ _ hvalue
      rw [hvalue, writeLuma, List.append_assoc]
      exact (decodes_se hweight).bind ((decodes_se hoffset).bind hnext)
    · rw [Bool.and_eq_true] at hsome
      obtain ⟨⟨weight, offset, weight', offset'⟩, hvalue⟩ := Option.isSome_iff_exists.mp hsome.2
      obtain ⟨hweight, hoffset, hweight', hoffset'⟩ := hchroma _ _ _ _ hvalue
      have hbits : writeChroma (some (weight, offset, weight', offset')) =
          writeSe weight ++ (writeSe offset ++ (writeSe weight' ++ writeSe offset')) := by
        simp only [writeChroma, List.append_assoc]
      rw [hvalue, hbits]
      refine .assoc ((decodes_se hweight).bind (.assoc ((decodes_se hoffset).bind (.assoc ?_))))
      exact (decodes_se hweight').bind ((decodes_se hoffset').bind hnext)

theorem decodes_parseListWeights {es : List WeightEntry} (hes : ∀ e ∈ es, e.InRange) {n : Nat}
    (hn : es.length = n) :
    Decodes (parseListWeights chroma n) o (writeListWeights chroma es) () o := by
  subst hn
  have hluma := decodes_parseWeightFlags (o := o) (es.map (·.luma.isSome)) 0
  have hchroma := decodes_parseWeightFlags (o := o) (es.map (·.chroma.isSome)) 0
  rw [List.length_map] at hluma hchroma
  have hskip : Decodes (skipWeights es.length 0 (es.map (·.luma.isSome))
      (if chroma then es.map (·.chroma.isSome) else [])) o
      (es.flatMap fun e => writeLuma e.luma ++ (if chroma then writeChroma e.chroma else [])) ()
        o :=
    decodes_skipWeights hes []
  unfold parseListWeights writeListWeights
  refine hluma.bind ?_
  cases chroma with
  | false => exact (decodes_pure [] o).bind hskip
  | true => exact hchroma.bind hskip

theorem decodes_parsePredWeightTable (hexpr : h.Expressible sps pps table nalUnitType)
    (hweighted : h.Weighted pps) (htype : o.slice.sliceType = h.sliceType)
    (hl0 : o.slice.numRefIdxL0ActiveMinus1 = h.numRefIdxL0ActiveMinus1 pps)
    (hl1 : h.sliceType = sliceTypeB → o.slice.numRefIdxL1ActiveMinus1 =
    h.numRefIdxL1ActiveMinus1 pps) :
    Decodes (parsePredWeightTable sps) o (writeWeightTable (sps.chromaFormatIdc ≠ 0) h) () o := by
  obtain ⟨hluma, hchroma⟩ := hexpr.denominators
  unfold parsePredWeightTable writeWeightTable
  refine .look ((decodes_brUe (by omega)).bind ?_)
  refine .opt o (fun _ => rfl) (fun _ hrest => (decodes_se hchroma).bind hrest) ?_
  dsimp only
  rw [hl0, htype]
  refine (decodes_parseListWeights hexpr.weightsL0 (hexpr.numWeightsL0 hweighted)).bind ?_
  refine .cond (fun hb => ?_) fun hb => ?_
  · rw [if_pos hb, hl1 hb]
    exact decodes_parseListWeights hexpr.weightsL1 (hexpr.numWeightsL1 hweighted hb)
  · rw [if_neg hb]
    exact decodes_pure () o

end Lists

section Inter

variable {sps : Sps} {pps : Pps} {table : List RefPicSet} {nalUnitType : Nat}
  {chroma temporal : Bool}
  {h : SegmentSyntax} {o : ParseResult}

theorem toNat_ne_zero {b : Bool} : b.toNat ≠ 0 ↔ b = true := by
  cases b with
  | false => simp
  | true => simp

theorem decodes_parseCollocated (hexpr : h.Expressible sps pps table nalUnitType)
    (htemporal : o.slice.sliceTemporalMvpEnabledFlag = temporal.toNat)
    (htype : o.slice.sliceType = h.sliceType)
    (hl0 : o.slice.numRefIdxL0ActiveMinus1 = h.numRefIdxL0ActiveMinus1 pps)
    (hl1 : h.sliceType = sliceTypeB → o.slice.numRefIdxL1ActiveMinus1 =
    h.numRefIdxL1ActiveMinus1 pps) :
    Decodes parseCollocated o (if temporal then writeCollocated pps h else []) ()
      { o with slice := storeCollocated pps h temporal o.slice } := by
  have hidx := hexpr.collocatedRefIdx
  unfold parseCollocated storeCollocated
  refine .look ?_
  dsimp only
  cases temporal with
  | false =>
    refine .cond (fun hne => absurd htemporal hne) fun _ => ?_
    simp only [Bool.false_eq_true, false_and, if_false]
    exact decodes_pure () o
  | true =>
    have hne : o.slice.sliceTemporalMvpEnabledFlag ≠ 0 := by
      rw [htemporal]
      decide
    rw [if_pos hne, if_pos rfl, if_pos rfl, writeCollocated, ← htype]
    refine .branch (a := if o.slice.sliceType = sliceTypeB then h.collocatedFromL0Flag.toNat else 1)
      (fun hb => ?_)
      (fun hb => ?_) (.update ?_)
    · rw [if_pos hb]
      exact decodes_bit _
    · rw [if_neg hb]
      exact decodes_pure 1 o
    · have hchoose :
          (1 < (if (if o.slice.sliceType = sliceTypeB then h.collocatedFromL0Flag.toNat else 1) ≠ 0
          then o.slice.numRefIdxL0ActiveMinus1 else o.slice.numRefIdxL1ActiveMinus1) + 1) =
          h.ChoosesCollocated pps := by
        unfold SegmentSyntax.ChoosesCollocated
        rw [htype]
        by_cases hb : h.sliceType = sliceTypeB
        · cases h.collocatedFromL0Flag with
          | false => simp [hb, hl1 hb]
          | true => simp [hb, hl0]
        · simp [hb, hl0]
      simp only [hchoose]
      by_cases hc : h.ChoosesCollocated pps
      · simp only [hc, and_self, if_true]
        exact .put (decodes_brUe8 (v := h.collocatedRefIdx) (by omega))
      · simp only [hc, and_false, if_false]
        exact decodes_pure () _

theorem writeCounts_eq (isB : Prop) [Decidable isB] (counts : Option (Nat × Nat)) :
    writeCounts isB counts = if counts.isSome.toNat ≠ 0 then writeCounts isB counts else [] := by
  cases counts with
  | none => rfl
  | some _ => rfl

theorem decodes_parseInterSlice (hexpr : h.Expressible sps pps table nalUnitType)
    (hrps : Engine.Rps.Holds (namedRps sps o.slice) (h.refPicSet table nalUnitType))
    (htotal : numPicTotalCurr (h.refPicSet table nalUnitType) ≤ 16)
    (htemporal : o.slice.sliceTemporalMvpEnabledFlag = (h.temporalMvp sps nalUnitType).toNat)
    (htype : o.slice.sliceType = h.sliceType) :
    Decodes (parseInterSlice pps sps h.sliceType) o
      (writeInter sps pps table nalUnitType (sps.chromaFormatIdc ≠ 0) h) ()
      { o with slice := storeInter pps h (h.temporalMvp sps nalUnitType) o.slice } := by
  have hmerge := hexpr.mergeCand
  have hl1 : h.sliceType = sliceTypeB →
      (storeCounts pps h o.slice).numRefIdxL1ActiveMinus1 = h.numRefIdxL1ActiveMinus1 pps := by
    intro hb
    exact if_neg fun hboth => hboth.2 hb
  unfold parseInterSlice writeInter
  rw [writeCounts_eq]
  refine .assoc ((decodes_bit _).bind (.update ?_))
  refine .optElse { o with slice := storeCounts pps h o.slice } (fun hnone => ?_)
    (fun hsome hrest => ?_) ?_
  · rw [not_ne_iff] at hnone
    have hoverride : h.numRefIdxActiveOverride = none := by
      cases hvalue : h.numRefIdxActiveOverride with
      | none => rfl
      | some counts =>
        rw [hvalue] at hnone
        cases hnone
    simp only [storeCounts, SegmentSyntax.numRefIdxL0ActiveMinus1,
      SegmentSyntax.numRefIdxL1ActiveMinus1, hoverride]
    rfl
  · obtain ⟨⟨l0, l1⟩, hvalue⟩ := Option.isSome_iff_exists.mp (toNat_ne_zero.mp hsome)
    obtain ⟨hcount0, hcount1⟩ := hexpr.counts _ _ hvalue
    simp only [storeCounts, SegmentSyntax.numRefIdxL0ActiveMinus1,
      SegmentSyntax.numRefIdxL1ActiveMinus1, hvalue] at hrest ⊢
    rw [writeCounts]
    refine .assoc
      ((decodes_brUe8 (by omega)).bind (.update (.opt _ (fun hb => ?_) (fun hb hrest => ?_) hrest)))
    · simp only [Option.isSome_some, ne_eq, hb, not_false_eq_true, and_self, if_true]
    · refine (decodes_brUe8 (by omega)).bind (.update (hrest.from ?_))
      simp only [Option.isSome_some, ne_eq, hb, not_true_eq_false, and_false, if_false]
  · have hlists :=
      decodes_parseListsModification (o := { o with slice := storeCounts pps h o.slice })
        hexpr hrps htotal
      htype rfl hl1
    refine hlists.bind ?_
    refine .field o.slice.mvdL1ZeroFlag rfl (fun _ => decodes_bit h.mvdL1ZeroFlag) ?_
    refine .field o.slice.cabacInitFlag rfl (fun _ => decodes_bit h.cabacInitFlag) ?_
    have hcollocated :=
      decodes_parseCollocated (o := { o with slice := { storeCounts pps h o.slice with
      mvdL1ZeroFlag :=
        if h.sliceType = sliceTypeB then h.mvdL1ZeroFlag.toNat else o.slice.mvdL1ZeroFlag
      cabacInitFlag :=
        if pps.cabacInitPresentFlag ≠ 0 then h.cabacInitFlag.toNat else o.slice.cabacInitFlag } })
      hexpr htemporal htype rfl hl1
    refine hcollocated.bind ?_
    refine .optMap id (fun _ => rfl) (fun hweighted hrest => ?_) ?_
    · refine (decodes_parsePredWeightTable hexpr hweighted ?_ ?_ ?_).bind hrest
      · exact htype
      · rfl
      · exact hl1
    · exact .put (decodes_brUe8 (v := h.fiveMinusMaxNumMergeCand) (by omega))

end Inter

section Deblocking

variable {sps : Sps} {pps : Pps} {table : List RefPicSet} {nalUnitType : Nat} {h : SegmentSyntax}
  {o : ParseResult}

/-- Nothing is stored yet of the deblocking filter. -/
structure Undecided (s : SliceHeader) : Prop where
  override : s.deblockingFilterOverrideFlag = 0
  disabled : s.sliceDeblockingFilterDisabledFlag = 0
  beta : s.sliceBetaOffsetDiv2 = 0
  tc : s.sliceTcOffsetDiv2 = 0

theorem decodes_deblockingOverride (hexpr : h.Expressible sps pps table nalUnitType)
    (hundecided : Undecided o.slice) (hoverride : h.deblockingOverride pps = true) :
    Decodes (do
      let disabled ← brU8 1
      setSlice fun s => { s with sliceDeblockingFilterDisabledFlag := disabled }
      if disabled = 0 then
        let beta ← brSe
        setSlice fun s => { s with sliceBetaOffsetDiv2 := i8 beta }
        let tc ← brSe
        setSlice fun s => { s with sliceTcOffsetDiv2 := i8 tc })
      { o with slice := { o.slice with deblockingFilterOverrideFlag := 1 } }
      ([h.sliceDeblockingFilterDisabledFlag] ++ (if h.sliceDeblockingFilterDisabledFlag then []
        else writeSe h.sliceBetaOffsetDiv2 ++ writeSe h.sliceTcOffsetDiv2)) ()
      { o with slice := storeDeblocking pps h o.slice } := by
  obtain ⟨hbetaLow, hbetaHigh⟩ := hexpr.betaOffset
  obtain ⟨htcLow, htcHigh⟩ := hexpr.tcOffset
  have hbeta : i8 h.sliceBetaOffsetDiv2 = h.sliceBetaOffsetDiv2 := i8_eq (by omega) (by omega)
  have htc : i8 h.sliceTcOffsetDiv2 = h.sliceTcOffsetDiv2 := i8_eq (by omega) (by omega)
  have hdisabled : h.deblockingDisabled pps = h.sliceDeblockingFilterDisabledFlag :=
    if_pos hoverride
  refine (decodes_bit _).bind (.update ?_)
  cases hflag : h.sliceDeblockingFilterDisabledFlag with
  | true =>
    refine .cond (fun hzero => absurd hzero (by decide)) fun _ => ?_
    refine Decodes.to (decodes_pure () _) ?_
    simp only [storeDeblocking, hoverride, hdisabled, hflag, if_true, hundecided.beta,
      hundecided.tc]
    rfl
  | false =>
    refine .cond (fun _ => ?_) fun hne => absurd rfl hne
    refine .store (decodes_se ⟨by omega, by omega⟩)
      (Decodes.to (.put (decodes_se ⟨by omega, by omega⟩)) ?_)
    simp only [storeDeblocking, hoverride, hdisabled, hflag, hbeta, htc, if_true]
    rfl

theorem decodes_parseSliceDeblocking (hsets : SetsInRange sps pps table)
    (hexpr : h.Expressible sps pps table nalUnitType) (hundecided : Undecided o.slice) :
    Decodes (parseSliceDeblocking pps) o (writeDeblocking pps h) ()
      { o with slice := storeDeblocking pps h o.slice } := by
  unfold parseSliceDeblocking writeDeblocking
  by_cases hcontrol : pps.deblockingFilterControlPresentFlag = 0
  · obtain ⟨henabled, hdisabled, hbeta, htc⟩ := hsets.deblockingControl hcontrol
    have hoverride : h.deblockingOverride pps = false := by
      simp [SegmentSyntax.deblockingOverride, henabled]
    rw [if_neg (not_ne_iff.mpr hcontrol), if_neg (not_ne_iff.mpr henabled), hoverride]
    refine Decodes.to (decodes_pure () o) ?_
    have hsame : { o.slice with
        deblockingFilterOverrideFlag := o.slice.deblockingFilterOverrideFlag
        sliceDeblockingFilterDisabledFlag := o.slice.sliceDeblockingFilterDisabledFlag
        sliceBetaOffsetDiv2 := o.slice.sliceBetaOffsetDiv2
        sliceTcOffsetDiv2 := o.slice.sliceTcOffsetDiv2 } = o.slice := rfl
    rw [hundecided.override, hundecided.disabled, hundecided.beta, hundecided.tc] at hsame
    simp only [storeDeblocking, SegmentSyntax.deblockingDisabled, hoverride, hdisabled, hbeta, htc]
    exact congrArg (fun s => { o with slice := s }) hsame.symm
  · rw [if_pos hcontrol]
    refine .optMap (fun o => { o with slice := { o.slice with
      deblockingFilterOverrideFlag := (h.deblockingOverride pps).toNat } }) (fun hoff => ?_)
        (fun hon hrest => ?_) ?_
    · have hoverride : h.deblockingOverride pps = false := by
        rw [not_ne_iff] at hoff
        simp [SegmentSyntax.deblockingOverride, hoff]
      have hsame : { o.slice with
          deblockingFilterOverrideFlag := o.slice.deblockingFilterOverrideFlag } = o.slice := rfl
      rw [hundecided.override] at hsame
      simp only [hoverride]
      exact congrArg (fun s => { o with slice := s }) hsame
    · have hoverride : h.deblockingOverride pps = h.deblockingFilterOverrideFlag := by
        rw [SegmentSyntax.deblockingOverride, decide_eq_true hon, Bool.true_and]
      refine (decodes_bit _).bind (.update (hrest.from ?_))
      simp only [hoverride]
    · refine .look ?_
      dsimp only
      cases hoverride : h.deblockingOverride pps with
      | true =>
        refine .cond (fun _ => ?_) fun hzero => absurd (by decide) hzero
        exact decodes_deblockingOverride hexpr hundecided hoverride
      | false =>
        have hdisabled : (decide (pps.ppsDeblockingFilterDisabledFlag ≠ 0)).toNat =
            pps.ppsDeblockingFilterDisabledFlag := by
          have hflag := hsets.deblockingDisabled
          interval_cases pps.ppsDeblockingFilterDisabledFlag
          · rfl
          · rfl
        refine .cond (fun hne => absurd rfl hne) fun _ => Decodes.to (decodes_modify _) ?_
        simp only [storeDeblocking, SegmentSyntax.deblockingDisabled, hoverride, Bool.false_eq_true,
          if_false, hdisabled]

end Deblocking

section Independent

variable {sps : Sps} {pps : Pps} {table : List RefPicSet} {nalUnitType : Nat} {chroma : Bool}
  {h : SegmentSyntax}
  {o : ParseResult} {s : SliceHeader} {rps : ShortTermRps}

/-- Nothing is stored yet but the elements in front of the slice type. -/
structure Blank (s : SliceHeader) : Prop where
  spsFlag : s.shortTermRefPicSetSpsFlag = 0
  idx : s.shortTermRefPicSetIdx = 0
  rps : s.stRpsSlice = {}
  temporal : s.sliceTemporalMvpEnabledFlag = 0
  saoLuma : s.sliceSaoLumaFlag = 0
  saoChroma : s.sliceSaoChromaFlag = 0
  undecided : Undecided s

theorem blank_address : Blank (storeAddress pps h (storeSets nalUnitType h)) := by
  unfold storeAddress
  split
  · exact ⟨rfl, rfl, rfl, rfl, rfl, rfl, ⟨rfl, rfl, rfl, rfl⟩⟩
  · exact ⟨rfl, rfl, rfl, rfl, rfl, rfl, ⟨rfl, rfl, rfl, rfl⟩⟩

theorem few_refPicSet (hsets : SetsInRange sps pps table)
    (hexpr : h.Expressible sps pps table nalUnitType) :
    numPicTotalCurr (h.refPicSet table nalUnitType) ≤ 16 := by
  have hfew : (h.refPicSet table nalUnitType).numDeltaPocs ≤ 16 := by
    unfold SegmentSyntax.refPicSet
    split
    · decide
    · cases hset : h.shortTermRefPicSet with
      | none =>
        have hidx := hexpr.setIdx hset
        rw [List.getD_eq_getElem?_getD, List.getElem?_eq_getElem hidx, Option.getD_some]
        exact (hsets.rpsInRange _ (List.getElem_mem hidx)).few
      | some coded => exact (hexpr.set coded hset).2.few
  unfold numPicTotalCurr
  exact List.countP_le_length.trans (List.length_append.trans_le hfew)

/-- What a set of the header's own is stored as. -/
def Named (table : List RefPicSet) (h : SegmentSyntax) (rps : ShortTermRps) : Prop :=
  ∀ coded, h.shortTermRefPicSet = some coded →
    Engine.Rps.Holds rps (coded.derive table table.length) ∧
    rps.interRefPicSetPredictionFlag = coded.isPredicted.toNat

theorem storePictures_idr (hidr : isIdrType nalUnitType = true) :
    storePictures sps pps table nalUnitType chroma h rps s =
    storeSao sps chroma h (storeType sps pps h s) := by
  rw [storePictures, hidr, if_neg (by decide)]

theorem storePictures_other (hidr : isIdrType nalUnitType = false) :
    storePictures sps pps table nalUnitType chroma h rps s =
      storeSao sps chroma h (storeRps sps table h rps (storeType sps pps h s)) := by
  rw [storePictures, if_pos hidr]

/-- The set that is stored, or named, is the one the pictures are taken from. -/
theorem holds_namedRps (hsets : SetsInRange sps pps table)
    (hexpr : h.Expressible sps pps table nalUnitType) (hblank : Blank s)
    (hrps : isIdrType nalUnitType = false → Named table h rps) :
    Engine.Rps.Holds (namedRps sps (storePictures sps pps table nalUnitType chroma h rps s))
      (h.refPicSet table nalUnitType) := by
  unfold SegmentSyntax.refPicSet namedRps
  cases hidr : isIdrType nalUnitType with
  | true =>
    rw [storePictures_idr hidr, if_pos rfl]
    unfold storeSao
    have hnone : ¬(storeType sps pps h s).shortTermRefPicSetSpsFlag ≠ 0 :=
      not_ne_iff.mpr hblank.spsFlag
    have hempty : (storeType sps pps h s).stRpsSlice = {} := hblank.rps
    dsimp only
    rw [if_neg hnone, hempty]
    exact ⟨rfl, rfl⟩
  | false =>
    rw [storePictures_other hidr, if_neg Bool.false_ne_true]
    unfold storeSao
    cases hset : h.shortTermRefPicSet with
    | none =>
      have hlt := hexpr.setIdx hset
      have hidx : (storeRps sps table h rps (storeType sps pps h s)).shortTermRefPicSetIdx =
          h.shortTermRefPicSetIdx := by
        have hzero : (storeType sps pps h s).shortTermRefPicSetIdx = 0 := hblank.idx
        simp only [storeRps, hset, Option.isNone_none, true_and, hzero]
        split
        · rfl
        · omega
      have hflag :
          (storeRps sps table h rps (storeType sps pps h s)).shortTermRefPicSetSpsFlag ≠ 0 := by
        simp [storeRps, hset]
      dsimp only
      rw [if_pos hflag, hidx]
      exact hsets.rps.holds _ hlt
    | some coded =>
      have hflag :
          ¬(storeRps sps table h rps (storeType sps pps h s)).shortTermRefPicSetSpsFlag ≠ 0 := by
        simp [storeRps, hset]
      have hstored : (storeRps sps table h rps (storeType sps pps h s)).stRpsSlice = rps := by
        simp [storeRps, hset]
      dsimp only
      rw [if_neg hflag, hstored]
      exact (hrps hidr coded hset).1

theorem temporal_storePictures (hblank : Blank s) :
    (storePictures sps pps table nalUnitType chroma h rps s).sliceTemporalMvpEnabledFlag =
      (h.temporalMvp sps nalUnitType).toNat := by
  have hzero : (storeType sps pps h s).sliceTemporalMvpEnabledFlag = 0 := hblank.temporal
  unfold SegmentSyntax.temporalMvp
  cases hidr : isIdrType nalUnitType with
  | true =>
    rw [storePictures_idr hidr]
    exact hzero
  | false =>
    rw [storePictures_other hidr]
    dsimp only [storeSao, storeRps]
    rw [hzero]
    by_cases hmvp : sps.spsTemporalMvpEnabledFlag ≠ 0
    · simp [hmvp]
    · simp [hmvp]

theorem storeSao_off (hoff : sps.sampleAdaptiveOffsetEnabledFlag = 0)
    (hluma : s.sliceSaoLumaFlag = 0) (hchroma : s.sliceSaoChromaFlag = 0) :
    storeSao sps chroma h s = s := by
  have hnone : h.saoLuma sps = false ∧ h.saoChroma sps chroma = false := by
    simp [SegmentSyntax.saoLuma, SegmentSyntax.saoChroma, hoff]
  rw [storeSao, hnone.1, hnone.2]
  cases s
  dsimp only at hluma hchroma
  subst hluma hchroma
  rfl

theorem decodes_sao {q : P Unit} {w : List Bool} {o' : ParseResult}
    (hluma : o.slice.sliceSaoLumaFlag = 0) (hchroma : o.slice.sliceSaoChromaFlag = 0)
    (hq : Decodes q { o with slice := storeSao sps (sps.chromaFormatIdc ≠ 0) h o.slice } w () o') :
    Decodes (if sps.sampleAdaptiveOffsetEnabledFlag ≠ 0 then do
        let saoLuma ← brU8 1
        setSlice fun s => { s with sliceSaoLumaFlag := saoLuma }
        if sps.chromaFormatIdc ≠ 0 then do
          let saoChroma ← brU8 1
          setSlice fun s => { s with sliceSaoChromaFlag := saoChroma }
          q
        else q
      else q) o (writeSao sps (sps.chromaFormatIdc ≠ 0) h ++ w) () o' := by
  refine .optMap (fun o => { o with slice := storeSao sps (sps.chromaFormatIdc ≠ 0) h o.slice })
    (fun hoff => ?_)
    (fun hon hrest => ?_) hq
  · simp only [storeSao_off (not_ne_iff.mp hoff) hluma hchroma]
  · have hflag : h.saoLuma sps = h.sliceSaoLumaFlag := by
      rw [SegmentSyntax.saoLuma, decide_eq_true hon, Bool.true_and]
    refine .assoc (.store (decodes_bit _) ?_)
    simp only [decide_eq_true_eq]
    refine .opt { o with slice := storeSao sps (sps.chromaFormatIdc ≠ 0) h o.slice }
      (fun hnone => ?_)
      (fun hsome hnext => (decodes_bit _).bind (.update (hnext.from ?_))) hrest
    · have hoff : h.saoChroma sps (sps.chromaFormatIdc ≠ 0) = false := by
        rw [SegmentSyntax.saoChroma, decide_eq_false hnone, Bool.and_false, Bool.false_and]
      simp only [storeSao, hflag, hoff, hchroma]
      rfl
    · have hboth : h.saoChroma sps (sps.chromaFormatIdc ≠ 0) = h.sliceSaoChromaFlag := by
        rw [SegmentSyntax.saoChroma, decide_eq_true hon, decide_eq_true hsome, Bool.true_and,
          Bool.true_and]
      simp only [storeSao, hflag, hboth]

theorem Undecided.qp (hs : Undecided s) : Undecided (storeQp pps h s) :=
  ⟨hs.override, hs.disabled, hs.beta, hs.tc⟩

theorem Undecided.inter (hs : Undecided s) (temporal : Bool) :
    Undecided (storeInter pps h temporal s) :=
  ⟨hs.override, hs.disabled, hs.beta, hs.tc⟩

theorem Undecided.pictures (hs : Undecided s) :
    Undecided (storePictures sps pps table nalUnitType chroma h rps s) := by
  unfold storePictures
  split
  · exact ⟨hs.override, hs.disabled, hs.beta, hs.tc⟩
  · exact ⟨hs.override, hs.disabled, hs.beta, hs.tc⟩

/-- The flags that decide on the one of the loop filter. -/
theorem loopFilter_stored (sps : Sps) (pps : Pps) (table : List RefPicSet) (nalUnitType : Nat)
    (chroma : Bool) (h : SegmentSyntax) (rps : ShortTermRps) (s : SliceHeader) :
    let s' := storeDeblocking pps h (storeQp pps h
      (if h.Inter then storeInter pps h (h.temporalMvp sps nalUnitType)
        (storePictures sps pps table nalUnitType chroma h rps s)
      else storePictures sps pps table nalUnitType chroma h rps s))
    (pps.ppsLoopFilterAcrossSlicesEnabledFlag ≠ 0 ∧
      (s'.sliceSaoLumaFlag ≠ 0 ∨ s'.sliceSaoChromaFlag ≠ 0 ∨
      s'.sliceDeblockingFilterDisabledFlag = 0)) ↔ h.loopFilterPresent sps pps chroma = true := by
  intro s'
  have hluma : s'.sliceSaoLumaFlag = (h.saoLuma sps).toNat := by
    dsimp only [s', storeDeblocking, storeQp]
    split
    · rfl
    · rfl
  have hchroma : s'.sliceSaoChromaFlag = (h.saoChroma sps chroma).toNat := by
    dsimp only [s', storeDeblocking, storeQp]
    split
    · rfl
    · rfl
  have hdisabled : s'.sliceDeblockingFilterDisabledFlag = (h.deblockingDisabled pps).toNat := rfl
  rw [hluma, hchroma, hdisabled, toNat_ne_zero, toNat_ne_zero]
  simp only [SegmentSyntax.loopFilterPresent, Bool.and_eq_true, Bool.or_eq_true, decide_eq_true_eq,
    Bool.not_eq_true', Bool.toNat_eq_zero, or_assoc]

theorem decodes_parseIndependent (hsets : SetsInRange sps pps table)
    (hexpr : h.Expressible sps pps table nalUnitType) (hblank : Blank o.slice) :
    ∃ rps, Decodes (parseIndependent nalUnitType pps sps) o
        (writeIndependent sps pps table nalUnitType (sps.chromaFormatIdc ≠ 0) h) ()
        { o with
          slice := storeIndependent sps pps table nalUnitType (sps.chromaFormatIdc ≠ 0) h
            rps o.slice } ∧
      (isIdrType nalUnitType = false → Named table h rps) := by
  obtain ⟨rps, hread, hrps⟩ := decodes_parseSliceRps
    (o := { o with slice := storeType sps pps h o.slice }) hsets hexpr
  refine ⟨rps, ?_, fun _ => hrps⟩
  have htype := hexpr.sliceType
  have hplane := hexpr.colourPlaneId
  have hu8 : u8 h.sliceType = h.sliceType := Nat.mod_eq_of_lt (by omega)
  unfold parseIndependent writeIndependent
  have hreserved : h.sliceReservedFlags = h.sliceReservedFlags.flatMap fun b => [b] := by simp
  rw [hreserved]
  refine (Decodes.skip hexpr.reservedFlags fun b _ => (decodes_brU1 b).last).bind ?_
  refine (decodes_brUe8 (v := h.sliceType) (by omega)).bind
    (.update (.cond (fun hbig => ?_) fun _ => ?_))
  · unfold sliceTypeI at hbig
    omega
  refine .field o.slice.picOutputFlag rfl (fun _ => decodes_bit _) ?_
  refine .field o.slice.colourPlaneId rfl
    (fun _ => decodes_brU8 (v := h.colourPlaneId) (by decide) (by omega)) ?_
  refine .optMap (fun o => { o with slice :=
    (if isIdrType nalUnitType = false then storeRps sps table h rps o.slice else o.slice) })
      (fun hidr => ?_)
    (fun hidr hrest => hread.bind (hrest.from ?_)) ?_
  · simp only [if_neg hidr]
  · simp only [if_pos hidr]
    rfl
  refine Decodes.from (t := { o with slice := (if isIdrType nalUnitType = false
    then storeRps sps table h rps (storeType sps pps h o.slice) else storeType sps pps h
      o.slice) }) ?_ rfl
  refine decodes_sao ?_ ?_ ?_
  · dsimp only
    split
    · exact hblank.saoLuma
    · exact hblank.saoLuma
  · dsimp only
    split
    · exact hblank.saoChroma
    · exact hblank.saoChroma
  refine Decodes.from (t := { o with slice :=
    (storePictures sps pps table nalUnitType (sps.chromaFormatIdc ≠ 0) h rps o.slice) }) ?_ rfl
  have htypeStored :
      (storePictures sps pps table nalUnitType (sps.chromaFormatIdc ≠ 0) h rps o.slice).sliceType =
      h.sliceType := by
    unfold storePictures
    split
    · rfl
    · rfl
  refine .optMap (fun o => { o with slice :=
    (if h.Inter then storeInter pps h (h.temporalMvp sps nalUnitType) o.slice else o.slice) })
      (fun hintra => ?_)
    (fun hinter hrest => ?_) ?_
  · have hother : ¬h.Inter := hintra
    simp only [if_neg hother]
  · have hboth : h.Inter := hinter
    have hparse := decodes_parseInterSlice (o := { o with slice :=
      (storePictures sps pps table nalUnitType (sps.chromaFormatIdc ≠ 0) h rps o.slice) }) hexpr
      (holds_namedRps hsets hexpr hblank fun _ => hrps) (few_refPicSet hsets hexpr)
        (temporal_storePictures hblank)
      htypeStored
    refine hparse.bind (hrest.from ?_)
    simp only [if_pos hboth]
  have hqp := hexpr.qpDelta
  have hcb := hexpr.cbQpOffset
  have hcr := hexpr.crQpOffset
  have hqp8 : i8 h.sliceQpDelta = h.sliceQpDelta := i8_eq hqp.1 hqp.2
  have hcb8 : i8 h.sliceCbQpOffset = h.sliceCbQpOffset := i8_eq (by omega) (by omega)
  have hcr8 : i8 h.sliceCrQpOffset = h.sliceCrQpOffset := i8_eq (by omega) (by omega)
  refine .store (decodes_se ⟨by omega, by omega⟩) ?_
  refine .optMap (fun o => { o with slice := storeQp pps h o.slice }) (fun hoff => ?_)
    (fun hon hrest => ?_) ?_
  · simp only [storeQp, if_neg hoff, hqp8]
  · refine .assoc (.store (decodes_se ⟨by omega, by omega⟩)
      (.store (decodes_se ⟨by omega, by omega⟩) (hrest.from ?_)))
    simp only [storeQp, if_pos hon, hqp8, hcb8, hcr8]
  have hundecided : Undecided (if h.Inter then storeInter pps h (h.temporalMvp sps nalUnitType)
      (storePictures sps pps table nalUnitType (sps.chromaFormatIdc ≠ 0) h rps o.slice)
      else storePictures sps pps table nalUnitType (sps.chromaFormatIdc ≠ 0) h rps o.slice) := by
    split
    · exact hblank.undecided.pictures.inter _
    · exact hblank.undecided.pictures
  have hdeblocking := decodes_parseSliceDeblocking (o := { o with slice := (storeQp pps h
    (if h.Inter then storeInter pps h (h.temporalMvp sps nalUnitType)
      (storePictures sps pps table nalUnitType (sps.chromaFormatIdc ≠ 0) h rps o.slice)
      else storePictures sps pps table nalUnitType (sps.chromaFormatIdc ≠ 0) h rps o.slice)) })
        hsets hexpr hundecided.qp
  refine hdeblocking.bind (.look ?_)
  have hpresent :=
    loopFilter_stored sps pps table nalUnitType (sps.chromaFormatIdc ≠ 0) h rps o.slice
  dsimp only at hpresent ⊢
  simp only [hpresent]
  refine .cond (fun hflag => ?_) fun hnone => ?_
  · rw [if_pos hflag]
    refine Decodes.to (.put (decodes_bit _)) ?_
    simp only [storeIndependent, storeLoopFilter, if_pos hflag]
  · rw [if_neg hnone]
    refine Decodes.to (decodes_pure () _) ?_
    simp only [storeIndependent, storeLoopFilter, if_neg hnone]

end Independent

section Ends

variable {sps : Sps} {pps : Pps} {table : List RefPicSet} {nalUnitType : Nat} {h : SegmentSyntax}
  {o : ParseResult}

theorem decodes_parseEntryPoints (hsets : SetsInRange sps pps table)
    (hexpr : h.Expressible sps pps table nalUnitType) :
    Decodes (parseEntryPoints pps sps) o (writeEntryPoints pps h) ()
      { o with slice := storeEntryPoints pps h o.slice } := by
  have hbound := hsets.entryPoints
  have hnum := hexpr.entryPoints
  have hlen := hexpr.offsetLen
  have hu32 : u32 (sps.picHeightInCtbsY * (pps.numTileColumnsMinus1 + 1)) =
      sps.picHeightInCtbsY * (pps.numTileColumnsMinus1 + 1) := Nat.mod_eq_of_lt hbound
  unfold parseEntryPoints writeEntryPoints storeEntryPoints
  refine .cond (fun hpresent => ?_) fun hnone => ?_
  · simp only [if_pos hpresent]
    refine (decodes_brUe (by omega)).bind ?_
    rw [hu32, if_neg (by omega)]
    refine .update ?_
    cases hpoints : h.entryPointOffsetsMinus1 with
    | nil =>
      refine .cond (fun hne => absurd rfl hne) fun _ => ?_
      exact decodes_pure () _
    | cons v vs =>
      refine .cond (fun _ => ?_) fun hzero => absurd (Nat.succ_ne_zero _) hzero
      rw [if_neg (List.cons_ne_nil v vs), ← hpoints]
      refine (decodes_brUe (by omega)).bind (.cond (fun hbig => ?_) fun _ => ?_)
      · omega
      · refine .skip rfl fun v hv => ?_
        exact (decodes_brU (by omega) (hexpr.offsets v hv)).last
  · simp only [if_neg hnone]
    exact decodes_pure () o

/-- The bits that are ahead are bits of the data. -/
theorem decodes_remaining {f : Nat → Nat → P Unit} {w : List Bool} {o' : ParseResult}
    (hf : ∀ pos len, w.length ≤ len * 8 - pos → Decodes (f pos len) o w () o') :
    Decodes (brBitPos >>= fun pos => brLen >>= fun len => f pos len) o w () o' := by
  intro br rest hahead
  have hlength := br.length_ahead
  rw [hahead, List.length_append, BitReader.bits] at hlength
  have hroom : w.length ≤ br.data.length * 8 - br.bitPos := by omega
  exact hf br.bitPos br.data.length hroom br rest hahead

theorem decodes_parseHeaderExtension (hexpr : h.Expressible sps pps table nalUnitType) :
    Decodes (parseHeaderExtension pps) o (writeExtension pps h) () o := by
  have hlen := hexpr.extension
  unfold parseHeaderExtension writeExtension
  refine .cond (fun hpresent => ?_) fun hnone => ?_
  · rw [if_pos hpresent]
    refine (decodes_brUe (by omega)).bind (decodes_remaining fun pos len hroom => ?_)
    rw [BitReader.length_dataBits] at hroom
    have hfits : ¬(if pos < len * 8 then len - (pos + 7) / 8 else 0) <
        h.sliceSegmentHeaderExtension.length := by
      split <;> omega
    dsimp only
    rw [if_neg hfits]
    refine .skip rfl fun b _ => ?_
    exact (decodes_brU (by decide) b.isLt).last
  · rw [if_neg hnone]
    exact decodes_pure () o

/-- The bits up to the byte boundary. -/
theorem decodes_alignLoop {turns pos k : Nat} (hk : k ≤ turns) (hk8 : k < 8)
    (hboundary : (pos + k) % 8 = 0) :
    DecodesAt (alignLoop turns) pos o (List.replicate k false) () o := by
  induction turns generalizing pos k with
  | zero =>
    obtain rfl : k = 0 := by omega
    exact (decodes_pure () o).anywhere
  | succ turns ih =>
    unfold alignLoop
    refine .position ?_
    cases k with
    | zero =>
      rw [if_neg (by omega)]
      exact (decodes_pure () o).anywhere
    | succ k =>
      rw [if_pos (by omega)]
      have hrest : DecodesAt (alignLoop turns) (pos + [false].length) o
          (List.replicate k false) () o := by
        apply ih
        · omega
        · omega
        · rw [List.length_singleton]
          omega
      exact (decodes_brU1 false).anywhere.bind hrest

/-- What is behind the elements of the slice, up to its data. -/
theorem decodes_ends (hsets : SetsInRange sps pps table)
    (hexpr : h.Expressible sps pps table nalUnitType) (before : List Bool) :
    DecodesAt (do
      parseEntryPoints pps sps
      parseHeaderExtension pps
      let _ ← brU1
      alignLoop 8
      let headerBits ← brBitPos
      setSlice fun s => { s with headerBitSize := u32 headerBits }) before.length o
      (writeEntryPoints pps h ++ (writeExtension pps h ++ ([true] ++ List.replicate
        (7 - (before ++ (writeEntryPoints pps h ++ writeExtension pps h)).length % 8) false))) ()
      { o with slice := { storeEntryPoints pps h o.slice with
        headerBitSize :=
          u32 (align (before ++ (writeEntryPoints pps h ++ writeExtension pps h))).length } } := by
  have hsize : (align (before ++ (writeEntryPoints pps h ++ writeExtension pps h))).length =
      before.length + (writeEntryPoints pps h).length + (writeExtension pps h).length + 1 +
        (7 - (before ++ (writeEntryPoints pps h ++ writeExtension pps h)).length % 8) := by
    simp only [align, List.length_append, List.length_cons, List.length_replicate]
    omega
  have hwritten : (before ++ (writeEntryPoints pps h ++ writeExtension pps h)).length =
      before.length + (writeEntryPoints pps h).length + (writeExtension pps h).length := by
    rw [List.length_append, List.length_append, Nat.add_assoc]
  refine (decodes_parseEntryPoints hsets hexpr).anywhere.bind ?_
  refine (decodes_parseHeaderExtension hexpr).anywhere.bind ((decodes_brU1 true).anywhere.bind ?_)
  rw [← List.append_nil (List.replicate _ false)]
  refine (decodes_alignLoop (by omega) (by omega) ?_).bind
    (.position (Decodes.anywhere (Decodes.to (decodes_modify _) ?_)))
  · rw [hwritten, List.length_singleton]
    omega
  · rw [hsize, List.length_replicate, List.length_singleton]

theorem dependent_storeAddress :
    (storeAddress pps h (storeSets nalUnitType h)).dependentSliceSegmentFlag =
    (h.dependent pps).toNat := by
  unfold storeAddress SegmentSyntax.dependent
  cases h.firstSliceSegmentInPicFlag with
  | true => rfl
  | false =>
    by_cases henabled : pps.dependentSliceSegmentsEnabledFlag ≠ 0
    · simp [henabled]
    · simp [henabled]

/-- The whole header, from the beginning of the data. -/
theorem decodes_parseSliceHeader (hsets : SetsInRange sps pps table)
    (hexpr : h.Expressible sps pps table nalUnitType)
    (hpps : o.pps.getD h.slicePicParameterSetId {} = pps) (hsps : o.sps.getD pps.spsId {} = sps) :
    ∃ rps, DecodesAt (parseSliceHeader nalUnitType) 0 o
        (align (writeFields sps pps table nalUnitType (sps.chromaFormatIdc ≠ 0) h)) () { o with
          slice := { storeFields sps pps table nalUnitType (sps.chromaFormatIdc ≠ 0) h rps with
            headerBitSize := u32
              (align (writeFields sps pps table nalUnitType (sps.chromaFormatIdc ≠ 0) h)).length }
          isIrap := isIrapType nalUnitType
          isIdr := isIdrType nalUnitType
          activePpsId := h.slicePicParameterSetId
          activeSpsId := pps.spsId } ∧
      (isIdrType nalUnitType = false → Named table h rps) := by
  obtain ⟨rps, hindependent, hnamed⟩ := decodes_parseIndependent (o := { o with
    slice := storeAddress pps h (storeSets nalUnitType h)
    isIrap := isIrapType nalUnitType
    isIdr := isIdrType nalUnitType
    activePpsId := h.slicePicParameterSetId
    activeSpsId := pps.spsId }) hsets hexpr blank_address
  refine ⟨rps, ?_, hnamed⟩
  have hfields : writeFields sps pps table nalUnitType (sps.chromaFormatIdc ≠ 0) h =
      (writeSets nalUnitType h ++ (writeAddress sps pps h ++ (if h.dependent pps then []
        else writeIndependent sps pps table nalUnitType (sps.chromaFormatIdc ≠ 0) h))) ++
      (writeEntryPoints pps h ++ writeExtension pps h) := by
    simp only [writeFields, List.append_assoc]
  have hends := decodes_ends (o := { o with
    slice := (if h.dependent pps then storeAddress pps h (storeSets nalUnitType h)
      else storeIndependent sps pps table nalUnitType (sps.chromaFormatIdc ≠ 0) h rps
        (storeAddress pps h (storeSets nalUnitType h)))
    isIrap := isIrapType nalUnitType
    isIdr := isIdrType nalUnitType
    activePpsId := h.slicePicParameterSetId
    activeSpsId := pps.spsId }) hsets hexpr (writeSets nalUnitType h ++ (writeAddress sps pps h ++
      (if h.dependent pps then []
      else writeIndependent sps pps table nalUnitType (sps.chromaFormatIdc ≠ 0) h)))
  rw [← hfields] at hends
  have hbits : align (writeFields sps pps table nalUnitType (sps.chromaFormatIdc ≠ 0) h) =
      writeSets nalUnitType h ++ (writeAddress sps pps h ++ ((if h.dependent pps then []
        else writeIndependent sps pps table nalUnitType (sps.chromaFormatIdc ≠ 0) h) ++
      (writeEntryPoints pps h ++ (writeExtension pps h ++ ([true] ++ List.replicate
        (7 - (writeFields sps pps table nalUnitType (sps.chromaFormatIdc ≠ 0) h).length % 8)
          false))))) := by
    rw [align]
    nth_rewrite 1 [hfields]
    simp only [List.append_assoc, List.singleton_append]
  rw [parseSliceHeader_eq]
  nth_rewrite 1 [hbits]
  refine (decodes_parseSliceSets hexpr.ppsId hpps hsps hsets.ppsValid hsets.spsValid).anywhere.bind
    ?_
  unfold parseSegment
  refine (decodes_parseSegmentAddress (o := { o with
    slice := storeSets nalUnitType h
    isIrap := isIrapType nalUnitType
    isIdr := isIdrType nalUnitType
    activePpsId := h.slicePicParameterSetId
    activeSpsId := pps.spsId }) hsets.sizeInCtbs hexpr.address).anywhere.bind (.look ?_)
  have hflag : (storeAddress pps h (storeSets nalUnitType h)).dependentSliceSegmentFlag =
      (h.dependent pps).toNat :=
    dependent_storeAddress
  dsimp only
  cases hdependent : h.dependent pps with
  | true =>
    have hsome : ¬(storeAddress pps h (storeSets nalUnitType h)).dependentSliceSegmentFlag = 0 := by
      rw [hflag, hdependent]
      decide
    simp only [hdependent, if_true, List.append_nil] at hends
    rw [if_neg hsome, if_pos rfl, List.nil_append]
    refine DecodesAt.to (hends.at ?_) ?_
    · rw [List.length_append, Nat.zero_add]
    · simp only [storeFields, hdependent, if_true]
  | false =>
    have hnone : (storeAddress pps h (storeSets nalUnitType h)).dependentSliceSegmentFlag = 0 := by
      rw [hflag, hdependent]
      rfl
    simp only [hdependent, Bool.false_eq_true, if_false] at hends
    rw [if_pos hnone, if_neg Bool.false_ne_true]
    refine hindependent.anywhere.bind (DecodesAt.to (hends.at ?_) ?_)
    · rw [List.length_append, List.length_append, Nat.zero_add, Nat.add_assoc]
    · simp only [storeFields, hdependent, Bool.false_eq_true, if_false]

end Ends

end H265

end Rkvdec.Bitstream
