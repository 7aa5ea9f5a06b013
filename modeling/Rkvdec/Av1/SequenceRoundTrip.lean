import Rkvdec.Av1.SequenceHeader
import Rkvdec.Vp9.HeaderRoundTrip

/-! What is written of a sequence header is what the parser reads, but for the level of a reduced
header. -/
namespace Rkvdec.Av1

open Bitstream (Byte)
open Headers (HeaderBits BitCursor parseBits brU brBit)
open Lib (golomb bitsOf golomb_eq suffix_lt zeros_add_suffix)
open Vp9 (msbs frameBits writeOption Reads reads_pure reads_brU reads_brBit Narrow narrow_pure
  narrow_brU narrow_brBit)

section Codes

variable {α : Type}

theorem msbs_ofNat (n v : Nat) : msbs n (BitVec.ofNat n v) = bitsOf n v := by
  unfold msbs bitsOf
  refine List.map_congr_left fun i hi => ?_
  rw [List.mem_range] at hi
  rw [BitVec.getMsbD_eq_getLsbD, BitVec.getLsbD_ofNat, decide_eq_true hi,
    decide_eq_true (by omega : n - 1 - i < n), Bool.true_and, Bool.true_and]

theorem reads_countZeros {left k : Nat} (leading : Nat) (hk : k < left) :
    Reads (countZeros left leading) (List.replicate k false ++ [true]) (some (leading + k)) := by
  induction left generalizing leading k with
  | zero => exact absurd hk (Nat.not_lt_zero k)
  | succ left ih =>
    cases k with
    | zero => exact (reads_brBit true).bind (reads_pure _)
    | succ k =>
      have hrest := ih (leading + 1) (Nat.lt_of_succ_lt_succ hk)
      have hcount : leading + 1 + k = leading + (k + 1) := by omega
      rw [hcount] at hrest
      exact (reads_brBit false).bind hrest

/-- The code of a number that is at most `2 ^ 32 - 2` has at most 31 zeros. -/
theorem log2_lt {n : Nat} (hn : n + 1 < 2 ^ 32) : (n + 1).log2 < 32 :=
  (Nat.log2_lt (Nat.succ_ne_zero n)).mpr hn

theorem reads_brUvlc {n : Nat} (hn : n + 1 < 2 ^ 32) : Reads brUvlc (golomb n) (some n) := by
  have hzeros := reads_countZeros 0 (log2_lt hn)
  have hsum := zeros_add_suffix n
  have hsuffix := suffix_lt n
  have hsplit : golomb n = (List.replicate (n + 1).log2 false ++ [true]) ++
      bitsOf (n + 1).log2 (n + 1 - 2 ^ (n + 1).log2) := by
    rw [golomb_eq, List.append_assoc]
    rfl
  rw [Nat.zero_add] at hzeros
  rw [hsplit]
  refine hzeros.bind ?_
  generalize (n + 1).log2 = k at hsum hsuffix
  cases k with
  | zero =>
    have hzero : n = 0 := by omega
    rw [hzero]
    exact reads_pure _
  | succ k =>
    have hvalue : (BitVec.ofNat (k + 1) (n + 1 - 2 ^ (k + 1))).toNat = n + 1 - 2 ^ (k + 1) := by
      rw [BitVec.toNat_ofNat, Nat.mod_eq_of_lt hsuffix]
    have hread := reads_brU (BitVec.ofNat (k + 1) (n + 1 - 2 ^ (k + 1)))
    rw [msbs_ofNat] at hread
    have hlast := hread.last (g := fun v => some (2 ^ (k + 1) - 1 + v.toNat))
    rw [hvalue, hsum] at hlast
    exact hlast

theorem reads_readFlag {present b : Bool} (h : b = true → present = true) :
    Reads (readFlag present) (if present then [b] else []) b := by
  unfold readFlag
  cases present with
  | true => exact reads_brBit b
  | false =>
    cases b with
    | true => exact Bool.noConfusion (h rfl)
    | false => exact reads_pure false

/-- A flag and what it announces, one behind the other. -/
theorem writeOption_eq (write : α → List Bool) (o : Option α) :
    writeOption write o = [o.isSome] ++ (o.map write).getD [] := by
  cases o with
  | none => rfl
  | some a => rfl

/-- The same under a condition. -/
theorem writeOption_if (write : α → List Bool) (o : Option α) {c : Bool}
    (h : o.isSome = true → c = true) :
    (if c then writeOption write o else []) = (if c then [o.isSome] else []) ++
    (o.map write).getD [] := by
  cases c with
  | true => exact writeOption_eq write o
  | false =>
    cases o with
    | none => rfl
    | some a => exact Bool.noConfusion (h rfl)

end Codes

section Operating

theorem msbs_level : ∀ v : BitVec 5, msbs 5 v =
    msbs 3 (BitVec.ofNat 3 (v.toNat / 4)) ++ msbs 2 (BitVec.ofNat 2 (v.toNat % 4)) := by
  decide

theorem toNat_level : ∀ v : BitVec 5, (BitVec.ofNat 3 (v.toNat / 4)).toNat = v.toNat / 4 ∧
    (BitVec.ofNat 2 (v.toNat % 4)).toNat = v.toNat % 4 := by
  decide

theorem reads_readTicks (ticks : Option { n : Nat // n + 1 < 2 ^ 32 }) :
    Reads (readTicks ticks.isSome) ((ticks.map fun n => golomb n.val).getD [])
      (some ((ticks.map fun n => n.val + 1).getD 0)) := by
  cases ticks with
  | none => exact reads_pure _
  | some n => exact (reads_brUvlc n.property).map

/-- The fields with those of a decoder model. -/
def OperatingFields.withModel (o : OperatingFields) : Option DecoderModelInfo → OperatingFields
  | none => o
  | some m => { o with
      decoderModelInfoPresent := true
      encoderDecoderBufferDelayLength := m.bufferDelayLengthMinus1.toNat + 1
      numUnitsInDecodingTick := m.numUnitsInDecodingTick.toNat
      bufferRemovalDelayLength := m.bufferRemovalTimeLengthMinus1.toNat + 1
      framePresentationDelayLength := m.framePresentationTimeLengthMinus1.toNat + 1 }

theorem reads_readDecoderModel (model : Option DecoderModelInfo) (o : OperatingFields) :
    Reads (readDecoderModel o) (writeOption DecoderModelInfo.write model) (o.withModel model) := by
  cases model with
  | none => exact (reads_brBit false).bind (reads_pure o)
  | some m =>
    exact (reads_brBit true).bind
      ((reads_brU m.bufferDelayLengthMinus1).bind ((reads_brU m.numUnitsInDecodingTick).bind
      ((reads_brU m.bufferRemovalTimeLengthMinus1).bind
        (reads_brU m.framePresentationTimeLengthMinus1).last)))

variable {model : Option DecoderModelInfo} {displayDelay : Bool}

theorem reads_readParameterInfo {n : Nat} (p : OperatingParameters n) :
    Reads (readParameterInfo n) p.write ⟨p.decoderBufferDelay.toNat, p.encoderBufferDelay.toNat,
    p.lowDelayModeFlag⟩ :=
  (reads_brU p.decoderBufferDelay).bind
    ((reads_brU p.encoderBufferDelay).bind (reads_brBit p.lowDelayModeFlag).last)

theorem reads_readParameters {n : Nat} {o : OperatingFields}
    (ho : o.encoderDecoderBufferDelayLength = n) (p : Option (OperatingParameters n)) :
    Reads (readParameters o p.isSome) ((p.map OperatingParameters.write).getD [])
      ((p.map fun q => ⟨q.decoderBufferDelay.toNat, q.encoderBufferDelay.toNat,
        q.lowDelayModeFlag⟩).getD {}) := by
  subst ho
  cases p with
  | none => exact reads_pure _
  | some p => exact reads_readParameterInfo p

theorem reads_readDisplayDelay (delay : Option (BitVec 4)) :
    Reads (readDisplayDelay delay.isSome) ((delay.map (msbs 4)).getD [])
      ((delay.map fun v => v.toNat + 1).getD 10) := by
  cases delay with
  | none => exact reads_pure _
  | some v => exact (reads_brU v).map

theorem reads_readOperatingPoint {o : OperatingFields}
    (hlength : o.encoderDecoderBufferDelayLength = delayLength model)
    (hmodel : o.decoderModelInfoPresent = model.isSome)
    (hdisplay : o.displayModelInfoPresent = displayDelay) (p : CodedPoint model displayDelay) :
    Reads (readOperatingPoint o) p.write p.fields := by
  obtain ⟨hmajor, hminor⟩ := toNat_level p.seqLevelIdx
  have htier : decide (3 < 2 + p.seqLevelIdx.toNat / 4) = decide (7 < p.seqLevelIdx.toNat) := by
    rw [decide_eq_decide]
    omega
  have htierCoded : p.seqTier = true → decide (7 < p.seqLevelIdx.toNat) = true :=
    fun h => decide_eq_true (p.tierCoded h)
  have hflag := reads_readFlag htierCoded
  simp only [decide_eq_true_eq] at hflag
  unfold CodedPoint.write readOperatingPoint
  rw [writeOption_if _ _ p.parametersCoded, writeOption_if _ _ p.delayCoded, msbs_level,
    List.append_assoc, List.append_assoc]
  refine (reads_brU p.operatingPointIdc).bind ((reads_brU _).bind ((reads_brU _).bind ?_))
  rw [hmajor, hminor]
  dsimp only
  rw [htier, hmodel, hdisplay]
  exact hflag.bind
    ((reads_readFlag p.parametersCoded).bind ((reads_readParameters hlength p.parameters).bind
    ((reads_readFlag p.delayCoded).bind (reads_readDisplayDelay p.initialDisplayDelayMinus1).last)))

theorem reads_readOperatingPoints {o : OperatingFields}
    (hlength : o.encoderDecoderBufferDelayLength = delayLength model)
    (hmodel : o.decoderModelInfoPresent = model.isSome)
    (hdisplay : o.displayModelInfoPresent = displayDelay)
    (ps : List (CodedPoint model displayDelay)) :
    Reads (readOperatingPoints o ps.length) (ps.flatMap CodedPoint.write)
      (ps.map CodedPoint.fields) := by
  induction ps with
  | nil => exact reads_pure []
  | cons p ps ih => exact (reads_readOperatingPoint hlength hmodel hdisplay p).bind ih.last

/-- The fields of the timing and of the decoder model alone. -/
def OperatingInfo.timingFields (o : OperatingInfo) : OperatingFields :=
  { o.fields with displayModelInfoPresent := false, numOperatingPoints := 0, operatingPoints := [] }

/-- The fields of the timing, before there is a decoder model. -/
def TimingInfo.fields (t : TimingInfo) : OperatingFields where
  timingInfoPresent := true
  numUnitsInTick := t.numUnitsInDisplayTick.toNat
  timeScale := t.timeScale.toNat
  equalPictureInterval := t.numTicksPerPictureMinus1.isSome
  numTicksPerPicture := (t.numTicksPerPictureMinus1.map fun n => n.val + 1).getD 0

theorem reads_readTimingInfo (t : TimingInfo) (model : Option DecoderModelInfo) :
    Reads readTimingInfo (t.write ++ writeOption DecoderModelInfo.write model)
      (some (t.fields.withModel model)) := by
  unfold TimingInfo.write readTimingInfo
  rw [writeOption_eq, List.append_assoc, List.append_assoc, List.append_assoc]
  refine (reads_brU t.numUnitsInDisplayTick).bind
    ((reads_brU t.timeScale).bind ((reads_brBit _).bind ?_))
  exact (reads_readTicks t.numTicksPerPictureMinus1).bind
    (reads_readDecoderModel model t.fields).map

theorem reads_readTiming (o : OperatingInfo) : Reads readTiming
    (writeOption (fun t => t.write ++ writeOption DecoderModelInfo.write o.model) o.timing)
    (some o.timingFields) := by
  obtain ⟨timing, model, displayDelay, points, modelCoded, -, -⟩ := o
  cases timing with
  | none =>
    cases model with
    | none => exact (reads_brBit false).bind (reads_pure _)
    | some m => exact Bool.noConfusion (modelCoded rfl)
  | some t =>
    have hinfo := reads_readTimingInfo t model
    refine (reads_brBit true).bind ?_
    cases model with
    | none => exact hinfo
    | some m => exact hinfo

theorem reads_readPointList (o : OperatingInfo) : Reads (readPointList o.timingFields)
    (o.displayDelay :: (msbs 5 (BitVec.ofNat 5 (o.points.length - 1)) ++
    o.points.flatMap CodedPoint.write)) o.fields := by
  have hpos := o.somePoint
  have hfew := o.fewPoints
  have hcount : (BitVec.ofNat 5 (o.points.length - 1)).toNat + 1 = o.points.length := by
    rw [BitVec.toNat_ofNat, Nat.mod_eq_of_lt (by omega)]
    omega
  have hpoints :=
    reads_readOperatingPoints
      (o := { o.timingFields with displayModelInfoPresent := o.displayDelay }) rfl rfl rfl
    o.points
  rw [← hcount] at hpoints
  have hread : Reads (readPointList o.timingFields)
      ([o.displayDelay] ++
        (msbs 5 (BitVec.ofNat 5 (o.points.length - 1)) ++ o.points.flatMap CodedPoint.write)) _ :=
    (reads_brBit o.displayDelay).bind ((reads_brU _).bind hpoints.last)
  rw [hcount] at hread
  exact hread

end Operating

section Elements

theorem reads_readFrameIds (ids : Option (BitVec 4 × BitVec 3)) :
    Reads (readFrameIds false) (writeOption (fun ids => msbs 4 ids.1 ++ msbs 3 ids.2) ids)
      (frameIdFields ids) := by
  cases ids with
  | none => exact (reads_brBit false).bind (reads_pure _)
  | some ids => exact (reads_brBit true).bind ((reads_brU ids.1).bind (reads_brU ids.2).last)

theorem reads_readAdaptive (forced : Option Bool) :
    Reads readAdaptive (writeForced forced) (forcedValue forced) := by
  cases forced with
  | none => exact (reads_brBit true).bind (reads_pure _)
  | some b => exact (reads_brBit false).bind (reads_brBit b).map

theorem reads_readIntegerMv {screen integer : Option Bool}
    (h : screen = some false → integer = none) :
    Reads (readIntegerMv (forcedValue screen)) (if screen = some false then []
    else writeForced integer)
      (forcedValue integer) := by
  unfold readIntegerMv
  by_cases hoff : screen = some false
  · rw [if_pos hoff, h hoff, hoff]
    exact reads_pure 2
  · have hon : forcedValue screen ≠ 0 := by
      unfold forcedValue
      rcases screen with _ | _ | _
      · decide
      · exact absurd rfl hoff
      · decide
    rw [if_neg hoff, if_pos hon]
    exact reads_readAdaptive integer

theorem reads_readOrderHintNBits (o : Option OrderHintTools) :
    Reads (readOrderHintNBits o.isSome) ((o.map fun o => msbs 3 o.orderHintBitsMinus1).getD [])
      ((o.map fun o => o.orderHintBitsMinus1.toNat + 1).getD 0) := by
  cases o with
  | none => exact reads_pure 0
  | some o => exact (reads_brU o.orderHintBitsMinus1).map

theorem reads_readTools (t : CodedTools) : Reads (readTools false) t.write t.fields := by
  have hscreen := reads_readAdaptive t.forceScreenContentTools
  have hinteger := reads_readIntegerMv t.integerMvCoded
  have hbits := reads_readOrderHintNBits t.orderHint
  have hjnt : Reads (readFlag t.orderHint.isSome)
      (if t.orderHint.isSome then [(t.orderHint.map OrderHintTools.jntComp).getD false] else [])
      ((t.orderHint.map OrderHintTools.jntComp).getD false) := by
    refine reads_readFlag ?_
    cases t.orderHint with
    | none => exact fun h => h
    | some o => exact fun _ => rfl
  have hmvs : Reads (readFlag t.orderHint.isSome)
      (if t.orderHint.isSome then [(t.orderHint.map OrderHintTools.refFrameMvs).getD false] else [])
      ((t.orderHint.map OrderHintTools.refFrameMvs).getD false) := by
    refine reads_readFlag ?_
    cases t.orderHint with
    | none => exact fun h => h
    | some o => exact fun _ => rfl
  have hpair : (t.orderHint.map fun o => [o.jntComp, o.refFrameMvs]).getD [] =
      (if t.orderHint.isSome then [(t.orderHint.map OrderHintTools.jntComp).getD false] else []) ++
        if t.orderHint.isSome then [(t.orderHint.map OrderHintTools.refFrameMvs).getD false]
        else [] := by
    cases t.orderHint with
    | none => rfl
    | some o => rfl
  unfold CodedTools.write readTools
  rw [hpair, List.append_assoc]
  exact (reads_brBit t.interintraCompound).bind
    ((reads_brBit t.maskedCompound).bind ((reads_brBit t.warpedMotion).bind
    ((reads_brBit t.dualFilter).bind
      ((reads_brBit t.orderHint.isSome).bind (hjnt.bind (hmvs.bind (hscreen.bind
      (hinteger.bind hbits.last))))))))

end Elements

section Color

variable {profile : Fin 3}

theorem reads_readHbd (c : ColorConfig profile) :
    Reads (readHbd profile) ([c.highBitdepth] ++ if profile.val = 2 ∧ c.highBitdepth = true then
    [c.twelveBit] else [])
      (c.highBitdepth.toNat + c.twelveBit.toNat) := by
  have htwelve := c.twelveBitCoded
  unfold readHbd
  refine (reads_brBit c.highBitdepth).bind ?_
  split
  · have hhigh : c.highBitdepth.toNat = 1 := by
      rw [‹profile.val = 2 ∧ c.highBitdepth = true›.2]; rfl
    rw [hhigh]
    exact (reads_brBit c.twelveBit).map
  · have hno : c.twelveBit = false := by
      by_contra hyes
      rw [Bool.not_eq_false] at hyes
      exact ‹¬_› (htwelve hyes)
    rw [hno]
    exact reads_pure _

theorem reads_readColorDescription (colors : Option CodedColors) :
    Reads readColorDescription (writeOption CodedColors.write colors)
      ⟨colors.isSome, (colorsOf colors).primaries.toNat, (colorsOf colors).transfer.toNat,
        (colorsOf colors).matrix.toNat⟩ := by
  cases colors with
  | none => exact (reads_brBit false).bind (reads_pure _)
  | some c =>
    exact (reads_brBit true).bind
      ((reads_brU c.primaries).bind ((reads_brU c.transfer).bind (reads_brU c.matrix).last))

/-- The parser compares the numbers, the standard the codes. -/
theorem isIdentity_eq (colors : Option CodedColors) :
    ColorDescription.isIdentity ⟨colors.isSome, (colorsOf colors).primaries.toNat,
    (colorsOf colors).transfer.toNat,
      (colorsOf colors).matrix.toNat⟩ = isRgb colors := by
  have hcode (v : BitVec 8) (n : Nat) (hn : n < 256) : (v.toNat == n) =
      (v == BitVec.ofNat 8 n) := by
    rw [Bool.eq_iff_iff, beq_iff_eq, beq_iff_eq, BitVec.toNat_eq, BitVec.toNat_ofNat,
      Nat.mod_eq_of_lt hn]
  unfold ColorDescription.isIdentity isRgb
  dsimp only
  rw [hcode _ 1 (by decide), hcode _ 13 (by decide), hcode _ 0 (by decide)]
  rfl

theorem hbd_eq_two (c : ColorConfig profile) :
    c.highBitdepth.toNat + c.twelveBit.toNat = 2 ↔ c.twelveBit = true := by
  have htwelve := c.twelveBitCoded
  cases htwelve' : c.twelveBit with
  | true =>
    rw [htwelve'] at htwelve
    rw [(htwelve rfl).2]
    decide
  | false =>
    cases c.highBitdepth with
    | true => decide
    | false => decide

theorem reads_readSubsampling (c : ColorConfig profile) (hmono : c.monoChrome = false)
    (hrgb : isRgb c.colors = false) :
    Reads (readSubsampling profile (c.highBitdepth.toNat + c.twelveBit.toNat))
      (if profile.val = 2 ∧
        c.twelveBit = true then c.subsamplingX :: if c.subsamplingX then [c.subsamplingY] else []
        else []) (c.subsamplingX, c.subsamplingY) := by
  obtain ⟨hzero, hone, htwo⟩ := c.subsamplingValues hmono hrgb
  have hlt := profile.isLt
  unfold readSubsampling
  by_cases h0 : profile.val = 0
  · obtain ⟨hx, hy⟩ := hzero h0
    rw [if_pos h0, if_neg (by omega), hx, hy]
    exact reads_pure _
  · rw [if_neg h0]
    by_cases h1 : profile.val = 1
    · obtain ⟨hx, hy⟩ := hone h1
      rw [if_pos h1, if_neg (by omega), hx, hy]
      exact reads_pure _
    · have h2 : profile.val = 2 := by omega
      rw [if_neg h1]
      by_cases htwelve : c.twelveBit = true
      · have hcoded : c.subsamplingY = true → c.subsamplingX = true := by
          intro hy
          by_contra hx
          rw [Bool.not_eq_true] at hx
          rw [c.subsamplingCoded hx] at hy
          exact Bool.noConfusion hy
        rw [if_pos ((hbd_eq_two c).mpr htwelve), if_pos ⟨h2, htwelve⟩]
        exact (reads_brBit c.subsamplingX).bind (reads_readFlag hcoded).last
      · obtain ⟨hx, hy⟩ := htwo h2 (Bool.eq_false_of_not_eq_true htwelve)
        rw [if_neg (fun h => htwelve ((hbd_eq_two c).mp h)), if_neg (fun h => htwelve h.2), hx, hy]
        exact reads_pure _

theorem reads_readChromaPosition (c : ColorConfig profile) :
    Reads (readChromaPosition c.subsamplingX c.subsamplingY)
      (if c.subsamplingX && c.subsamplingY then msbs 2 c.chromaSamplePosition else [])
        c.chromaSamplePosition.toNat := by
  have hposition := c.positionCoded
  unfold readChromaPosition
  cases hboth : c.subsamplingX && c.subsamplingY with
  | true => exact (reads_brU c.chromaSamplePosition).map
  | false =>
    rw [hposition hboth]
    exact reads_pure 0

/-- What is written between the description and `separate_uv_delta_q`. -/
theorem reads_readChroma (c : ColorConfig profile) (hallowed : ¬c.Rejected) :
    Reads (readChroma profile (c.highBitdepth.toNat + c.twelveBit.toNat) c.monoChrome
      c.fields.description)
      (if c.monoChrome then [c.colorRange] else if isRgb c.colors then []
        else [c.colorRange] ++ c.writeSubsampling)
      (some c.fields.chroma) := by
  have hidentity : c.fields.description.isIdentity = isRgb c.colors := isIdentity_eq c.colors
  unfold readChroma ColorConfig.fields at *
  cases hmono : c.monoChrome with
  | true =>
    obtain ⟨hx, hy, hposition, -⟩ := c.monoValues hmono
    dsimp only
    rw [hx, hy, hposition]
    exact (reads_brBit c.colorRange).last
  | false =>
    rw [hmono] at hidentity
    dsimp only at hidentity ⊢
    rw [hidentity]
    cases hrgb : isRgb c.colors with
    | true =>
      obtain ⟨hrange, hx, hy⟩ := c.rgbValues hmono hrgb
      have haccept : ¬(profile.val ≠ 1 ∧
          ¬(profile.val = 2 ∧ c.highBitdepth.toNat + c.twelveBit.toNat = 2)) := by
        rintro ⟨hone, htwo⟩
        exact hallowed ⟨hmono, hrgb, hone, fun h => htwo ⟨h.1, (hbd_eq_two c).mpr h.2⟩⟩
      rw [if_neg Bool.false_ne_true, if_pos rfl, if_neg haccept, c.positionCoded (by rw [hx]; rfl),
        hrange, hx, hy]
      exact reads_pure _
    | false =>
      have hsubsampling := reads_readSubsampling c hmono hrgb
      exact (reads_brBit c.colorRange).bind (hsubsampling.bind (reads_readChromaPosition c).last)

theorem reads_readColorConfig (c : ColorConfig profile) (hallowed : ¬c.Rejected) :
    Reads (readColorConfig profile) c.write (some c.fields) := by
  have hmono : c.monoChrome = true → decide (profile.val ≠ 1) = true :=
    fun h => decide_eq_true fun hone => Bool.noConfusion ((c.monoCoded hone).symm.trans h)
  have hseparate : c.separateUvDeltaQ = true → (!c.monoChrome) = true := by
    intro h
    cases hmono' : c.monoChrome with
    | false => rfl
    | true => exact Bool.noConfusion ((c.monoValues hmono').2.2.2.symm.trans h)
  have hflag := reads_readFlag hmono
  have hwrite : c.write =
      ([c.highBitdepth] ++ if profile.val = 2 ∧ c.highBitdepth = true then [c.twelveBit] else []) ++
      ((if decide (profile.val ≠ 1) then [c.monoChrome] else []) ++
      (writeOption CodedColors.write c.colors ++
        ((if c.monoChrome then [c.colorRange] else if isRgb c.colors then []
        else [c.colorRange] ++ c.writeSubsampling) ++
          if !c.monoChrome then [c.separateUvDeltaQ] else []))) := by
    have htail :
        (if c.monoChrome then [c.colorRange] else if isRgb c.colors then [c.separateUvDeltaQ]
        else c.colorRange :: (c.writeSubsampling ++ [c.separateUvDeltaQ])) =
        (if c.monoChrome then [c.colorRange] else if isRgb c.colors then []
        else [c.colorRange] ++ c.writeSubsampling) ++
          if !c.monoChrome then [c.separateUvDeltaQ] else [] := by
      cases c.monoChrome with
      | true => rfl
      | false =>
        cases isRgb c.colors with
        | true => rfl
        | false => rfl
    have hmonoBits : (if profile.val = 1 then [] else [c.monoChrome]) =
        if decide (profile.val ≠ 1) then [c.monoChrome] else [] := by
      by_cases hone : profile.val = 1
      · simp [hone]
      · simp [hone]
    rw [ColorConfig.write, htail, hmonoBits, List.append_assoc]
    rfl
  rw [hwrite]
  unfold readColorConfig
  refine (reads_readHbd c).bind
    (hflag.bind
    ((reads_readColorDescription c.colors).bind ((reads_readChroma c hallowed).bind ?_)))
  exact (reads_readFlag hseparate).last

end Color

namespace CodedSequence

variable {h : CodedSequence}

/-- What the parser makes of the level of a reduced header. -/
def readLevel (seqLevelIdx : BitVec 5) : Nat := seqLevelIdx.toNat / 4

theorem reads_operating (h : CodedSequence) :
    Reads (readOperating h.isReduced) h.writeOperating (some (h.operatingFields readLevel)) := by
  unfold readOperating isReduced writeOperating operatingFields
  cases h.kind with
  | reduced seqLevelIdx =>
    obtain ⟨hmajor, hminor⟩ := toNat_level seqLevelIdx
    have hread : Reads readReducedPoint (msbs 3 (BitVec.ofNat 3 (seqLevelIdx.toNat / 4)) ++
        msbs 2 (BitVec.ofNat 2 (seqLevelIdx.toNat % 4))) _ := (reads_brU _).bind (reads_brU _).last
    rw [← msbs_level, hmajor, hminor] at hread
    exact hread.map
  | full info =>
    exact (reads_readTiming info.operating).bind (reads_readPointList info.operating).map

theorem reads_frameIds (h : CodedSequence) :
    Reads (readFrameIds h.isReduced) h.writeFrameIds (h.fieldsWith readLevel).frameIds := by
  unfold isReduced writeFrameIds fieldsWith
  cases h.kind with
  | reduced seqLevelIdx => exact reads_pure _
  | full info => exact reads_readFrameIds info.frameIds

theorem reads_tools (h : CodedSequence) :
    Reads (readTools h.isReduced) h.writeTools (h.fieldsWith readLevel).tools := by
  unfold isReduced writeTools fieldsWith
  cases h.kind with
  | reduced seqLevelIdx => exact reads_pure _
  | full info => exact reads_readTools info.tools

theorem reads_header (hallowed : ¬h.color.Rejected) :
    Reads parseSeqHdr h.write (some (h.fieldsWith readLevel)) := by
  have hprofile : (BitVec.ofNat 3 h.seqProfile).toNat = h.seqProfile := by
    rw [BitVec.toNat_ofNat, Nat.mod_eq_of_lt (Nat.lt_trans h.seqProfile.isLt (by decide))]
  have hfew : ¬2 < h.seqProfile.val := by
    have hlt := h.seqProfile.isLt
    omega
  have hstill : ¬(h.isReduced && !h.stillPicture) = true := by
    unfold isReduced stillPicture
    cases h.kind with
    | reduced seqLevelIdx => exact Bool.false_ne_true
    | full info => exact Bool.false_ne_true
  unfold parseSeqHdr write
  refine (reads_brU _).bind ?_
  rw [hprofile]
  refine Reads.cond_neg hfew ((reads_brBit h.stillPicture).bind ((reads_brBit h.isReduced).bind ?_))
  refine Reads.cond_neg hstill ((reads_operating h).bind ?_)
  refine (reads_brU h.frameWidthBitsMinus1).bind ((reads_brU h.frameHeightBitsMinus1).bind ?_)
  refine (reads_brU h.maxFrameWidthMinus1).bind
    ((reads_brU h.maxFrameHeightMinus1).bind ((reads_frameIds h).bind ?_))
  refine (reads_brBit h.use128x128Superblock).bind ((reads_brBit h.enableFilterIntra).bind ?_)
  refine (reads_brBit h.enableIntraEdgeFilter).bind
    ((reads_tools h).bind ((reads_brBit h.enableSuperres).bind ?_))
  refine (reads_brBit h.enableCdef).bind ((reads_brBit h.enableRestoration).bind ?_)
  exact (reads_readColorConfig h.color hallowed).bind (reads_brBit h.filmGrainParamsPresent).last

end CodedSequence

section Narrow

variable {α β : Type} {p : HeaderBits α} {f : α → HeaderBits β} {P : α → Prop}

/-- What is known of the result may bound the reads behind it. -/
theorem narrow_bind_of (hp : Narrow p) (hP : ∀ r, P (p.run BitCursor.answer r).1)
    (hf : ∀ a, P a → Narrow (f a)) :
    Narrow (p >>= f) := fun r => (Lib.Prog.all_bind p f).mpr ⟨hp r, hf _ (hP r) _⟩

theorem narrow_countZeros (left leading : Nat) : Narrow (countZeros left leading) := by
  induction left generalizing leading with
  | zero => exact narrow_pure _
  | succ left ih => exact narrow_brBit.bind fun _ => .cond (narrow_pure _) (ih _)

theorem countZeros_lt (left leading : Nat) (r : BitCursor) :
    ∀ k ∈ ((countZeros left leading).run BitCursor.answer r).1, k < leading + left := by
  induction left generalizing leading r with
  | zero =>
    intro k hk
    cases hk
  | succ left ih =>
    intro k hk
    rw [countZeros, Lib.Prog.run_bind] at hk
    split at hk
    · cases hk
      omega
    · have hlt := ih _ _ _ hk
      omega

theorem narrow_brUvlc : Narrow brUvlc := by
  refine narrow_bind_of (P := fun leading => ∀ k ∈ leading, k < 0 + 32) (narrow_countZeros 32 0)
    (countZeros_lt 32 0)
    fun leading hleading => ?_
  match leading, hleading with
  | none, _ => exact narrow_pure _
  | some 0, _ => exact narrow_pure _
  | some (n + 1), h =>
    have hlt := h (n + 1) rfl
    exact (narrow_brU (by omega)).bind fun _ => narrow_pure _

theorem narrow_readFlag (present : Bool) : Narrow (readFlag present) :=
  .cond narrow_brBit (narrow_pure _)

theorem narrow_readDecoderModel (o : OperatingFields) : Narrow (readDecoderModel o) :=
  narrow_brBit.bind fun _ =>
    .cond ((narrow_brU (by decide)).bind fun _ => (narrow_brU (by decide)).bind fun _ =>
    (narrow_brU (by decide)).bind fun _ => (narrow_brU (by decide)).bind fun _ =>
      narrow_pure _) (narrow_pure _)

theorem length_readDecoderModel {o : OperatingFields} (h : o.encoderDecoderBufferDelayLength ≤ 32)
    (r : BitCursor) :
    ((readDecoderModel o).run BitCursor.answer r).1.encoderDecoderBufferDelayLength ≤ 32 := by
  rw [readDecoderModel, Lib.Prog.run_bind]
  split
  · rw [Lib.Prog.run_bind, Lib.Prog.run_bind, Lib.Prog.run_bind, Lib.Prog.run_bind]
    exact BitVec.isLt _
  · exact h

theorem narrow_readTicks (equal : Bool) : Narrow (readTicks equal) :=
  .cond narrow_brUvlc.map (narrow_pure _)

theorem narrow_readTiming : Narrow readTiming := by
  have hinfo : Narrow readTimingInfo := by
    refine (narrow_brU (by decide)).bind fun _ => (narrow_brU (by decide)).bind fun _ =>
      narrow_brBit.bind fun _ =>
      (narrow_readTicks _).bind fun ticks => ?_
    cases ticks with
    | none => exact narrow_pure _
    | some ticks => exact (narrow_readDecoderModel _).map
  exact narrow_brBit.bind fun _ => .cond hinfo (narrow_pure _)

/-- The delays of the operating points have at most 32 bits. -/
theorem length_readTiming (r : BitCursor) :
    ∀ o ∈ (readTiming.run BitCursor.answer r).1, o.encoderDecoderBufferDelayLength ≤ 32 := by
  intro o ho
  rw [readTiming, Lib.Prog.run_bind] at ho
  split at ho
  · rw [readTimingInfo, Lib.Prog.run_bind, Lib.Prog.run_bind, Lib.Prog.run_bind,
      Lib.Prog.run_bind] at ho
    split at ho
    · cases ho
    · rw [Lib.Prog.run_map] at ho
      cases ho
      exact length_readDecoderModel (Nat.zero_le 32) _
  · cases ho
    exact Nat.zero_le 32

theorem narrow_readOperatingPoints {o : OperatingFields}
    (h : o.encoderDecoderBufferDelayLength ≤ 32) (n : Nat) :
    Narrow (readOperatingPoints o n) := by
  have hinfo : Narrow (readParameterInfo o.encoderDecoderBufferDelayLength) :=
    (narrow_brU h).bind fun _ => (narrow_brU h).bind fun _ => narrow_brBit.bind fun _ =>
      narrow_pure _
  have hparameters (present : Bool) : Narrow (readParameters o present) :=
    .cond hinfo (narrow_pure _)
  have hdelay (present : Bool) : Narrow (readDisplayDelay present) :=
    .cond (narrow_brU (by decide)).map (narrow_pure _)
  have hpoint : Narrow (readOperatingPoint o) :=
    (narrow_brU (by decide)).bind fun _ => (narrow_brU (by decide)).bind fun _ =>
      (narrow_brU (by decide)).bind fun _ =>
      (narrow_readFlag _).bind fun _ => (narrow_readFlag _).bind fun _ =>
        (hparameters _).bind fun _ =>
        (narrow_readFlag _).bind fun _ => (hdelay _).bind fun _ => narrow_pure _
  induction n with
  | zero => exact narrow_pure _
  | succ n ih => exact hpoint.bind fun _ => ih.bind fun _ => narrow_pure _

theorem narrow_readOperating (reduced : Bool) : Narrow (readOperating reduced) := by
  have hreduced : Narrow readReducedPoint :=
    (narrow_brU (by decide)).bind fun _ => (narrow_brU (by decide)).bind fun _ => narrow_pure _
  refine .cond hreduced.map (narrow_bind_of
    (P := fun timing => ∀ o ∈ timing, o.encoderDecoderBufferDelayLength ≤ 32) narrow_readTiming
      length_readTiming
    fun timing htiming => ?_)
  cases timing with
  | none => exact narrow_pure _
  | some o =>
    have hpoints (display : Bool) (n : Nat) :
        Narrow (readOperatingPoints { o with displayModelInfoPresent := display } n) :=
      narrow_readOperatingPoints (o := { o with displayModelInfoPresent := display })
        (htiming o rfl) n
    exact Narrow.map (narrow_brBit.bind fun _ => (narrow_brU (by decide)).bind fun _ =>
      (hpoints _ _).bind fun _ => narrow_pure _)

theorem narrow_readFrameIds (reduced : Bool) : Narrow (readFrameIds reduced) :=
  .cond (narrow_pure _) (narrow_brBit.bind fun _ => .cond
    ((narrow_brU (by decide)).bind fun _ => (narrow_brU (by decide)).bind fun _ => narrow_pure _)
      (narrow_pure _))

theorem narrow_readTools (reduced : Bool) : Narrow (readTools reduced) := by
  have hadaptive : Narrow readAdaptive :=
    narrow_brBit.bind fun _ => .cond (narrow_pure _) narrow_brBit.map
  have hinteger (tools : Nat) : Narrow (readIntegerMv tools) := .cond hadaptive (narrow_pure _)
  have hbits (orderHint : Bool) : Narrow (readOrderHintNBits orderHint) :=
    .cond (narrow_brU (by decide)).map (narrow_pure _)
  exact .cond (narrow_pure _) (narrow_brBit.bind fun _ => narrow_brBit.bind fun _ =>
    narrow_brBit.bind fun _ =>
    narrow_brBit.bind fun _ => narrow_brBit.bind fun _ => (narrow_readFlag _).bind fun _ =>
      (narrow_readFlag _).bind fun _ =>
      hadaptive.bind fun _ => (hinteger _).bind fun _ => (hbits _).bind fun _ => narrow_pure _)

theorem narrow_readColorConfig (profile : Nat) : Narrow (readColorConfig profile) := by
  have hhbd : Narrow (readHbd profile) :=
    narrow_brBit.bind fun _ => .cond narrow_brBit.map (narrow_pure _)
  have hdescription : Narrow readColorDescription :=
    narrow_brBit.bind fun _ =>
      .cond ((narrow_brU (by decide)).bind fun _ => (narrow_brU (by decide)).bind fun _ =>
      (narrow_brU (by decide)).bind fun _ => narrow_pure _) (narrow_pure _)
  have hsubsampling (hbd : Nat) : Narrow (readSubsampling profile hbd) :=
    .cond (narrow_pure _) (.cond (narrow_pure _) (.cond
      (narrow_brBit.bind fun _ => (narrow_readFlag _).bind fun _ => narrow_pure _) (narrow_pure _)))
  have hposition (hor ver : Bool) : Narrow (readChromaPosition hor ver) :=
    .cond (narrow_brU (by decide)).map (narrow_pure _)
  have hchroma (hbd : Nat) (mono : Bool) (d : ColorDescription) :
      Narrow (readChroma profile hbd mono d) :=
    .cond (narrow_brBit.bind fun _ => narrow_pure _) (.cond (.cond (narrow_pure _) (narrow_pure _))
      (narrow_brBit.bind fun _ => (hsubsampling hbd).bind fun _ => (hposition _ _).bind fun _ =>
        narrow_pure _))
  refine hhbd.bind fun _ => (narrow_readFlag _).bind fun _ => hdescription.bind fun _ =>
    (hchroma _ _ _).bind fun chroma => ?_
  cases chroma with
  | none => exact narrow_pure _
  | some chroma => exact (narrow_readFlag _).bind fun _ => narrow_pure _

theorem narrow_readSequenceRest (profile : Nat) (still reduced : Bool) (o : OperatingFields) :
    Narrow (readSequenceRest profile still reduced o) := by
  refine (narrow_brU (by decide)).bind fun widthBits =>
    (narrow_brU (by decide)).bind fun heightBits => ?_
  have hwidth := widthBits.isLt
  have hheight := heightBits.isLt
  refine (narrow_brU (by omega)).bind fun _ => (narrow_brU (by omega)).bind fun _ =>
    (narrow_readFrameIds _).bind fun _ =>
    narrow_brBit.bind fun _ => narrow_brBit.bind fun _ => narrow_brBit.bind fun _ =>
      (narrow_readTools _).bind fun _ =>
      narrow_brBit.bind fun _ => narrow_brBit.bind fun _ => narrow_brBit.bind fun _ =>
        (narrow_readColorConfig _).bind fun color => ?_
  cases color with
  | none => exact narrow_pure _
  | some color => exact narrow_brBit.bind fun _ => narrow_pure _

theorem narrow_parseSeqHdr : Narrow parseSeqHdr := by
  refine (narrow_brU (by decide)).bind fun _ => .cond (narrow_pure _)
    (narrow_brBit.bind fun _ => narrow_brBit.bind fun _ =>
    .cond (narrow_pure _) ((narrow_readOperating _).bind fun operating => ?_))
  cases operating with
  | none => exact narrow_pure _
  | some o => exact narrow_readSequenceRest _ _ _ _

end Narrow

section Payload

variable {payload : List Byte}

/-- The bytes of a payload are read as its bits. -/
theorem parseSeqHeader_eq (payload : List Byte) :
    parseSeqHeader payload = parseBits parseSeqHdr (frameBits payload) := by
  have hstep (n : Nat) (r : Vp9.BitReader) (c : BitCursor) (hr : Vp9.BitReader.Shows payload r c)
      (hn : n ≤ 32) :
      (Vp9.BitReader.answer n r).1 = (BitCursor.answer n c).1 ∧
        Vp9.BitReader.Shows payload (Vp9.BitReader.answer n r).2 (BitCursor.answer n c).2 :=
          Vp9.BitReader.shows_answer hr hn
  obtain ⟨hsame, hshows⟩ :=
    Lib.Prog.run_simulates hstep (narrow_parseSeqHdr _) (Vp9.BitReader.shows_start payload)
  unfold parseSeqHeader parseBits
  by_cases hnil : payload = []
  · subst hnil
    rfl
  · rw [if_neg hnil]
    dsimp only
    rw [hsame, hshows.error]

end Payload

namespace CodedSequence

variable {h : CodedSequence}

/-- A payload that starts with the header is read up to the level of a reduced one. -/
theorem parseSeqHeader_written (hallowed : ¬h.color.Rejected) {payload : List Byte}
    (hstart : h.write <+: frameBits payload) :
    parseSeqHeader payload = some (h.fieldsWith readLevel) := by
  obtain ⟨rest, hrest⟩ := hstart
  rw [parseSeqHeader_eq, ← hrest]
  unfold parseBits
  rw [reads_header hallowed rest]
  rfl

theorem parseSeqHeader_cut (hallowed : ¬h.color.Rejected) {payload : List Byte}
    (hpart : frameBits payload <+: h.write) (hlt : (frameBits payload).length < h.write.length) :
    parseSeqHeader payload = none := by
  have hwhole := reads_header hallowed []
  rw [List.append_nil] at hwhole
  have hfail := Vp9.run_cut (congrArg Prod.snd hwhole) hpart hlt
  rw [parseSeqHeader_eq]
  unfold parseBits
  dsimp only
  rw [if_pos hfail]

/-- A header that is not reduced has no level that the parser reads in another way. -/
theorem fieldsWith_readLevel (hfull : h.isReduced = false) : h.fieldsWith readLevel = h.fields := by
  unfold fields fieldsWith operatingFields isReduced at *
  cases hkind : h.kind with
  | reduced seqLevelIdx =>
    rw [hkind] at hfull
    exact Bool.noConfusion hfull
  | full info => rfl

/-- The level of a reduced header is always 2 too low. -/
theorem fieldsWith_readLevel_ne (hreduced : h.isReduced = true) :
    h.fieldsWith readLevel ≠ h.fields := by
  intro hsame
  have hoperating := congrArg SequenceHeader.operating hsame
  unfold fields fieldsWith operatingFields isReduced at *
  cases hkind : h.kind with
  | reduced seqLevelIdx =>
    rw [hkind] at hoperating
    simp only [OperatingFields.mk.injEq, List.cons.injEq, Prod.mk.injEq, OperatingPoint.mk.injEq,
      majorLevel, readLevel] at hoperating
    omega
  | full info =>
    rw [hkind] at hreduced
    exact Bool.noConfusion hreduced

theorem roundTrip_of_full (hallowed : ¬h.color.Rejected) (hfull : h.isReduced = false) :
    h.RoundTrip := by
  refine ⟨fun payload hstart => ?_, fun payload => parseSeqHeader_cut hallowed⟩
  rw [parseSeqHeader_written hallowed hstart, fieldsWith_readLevel hfull]

theorem not_roundTrip_of_reduced (hallowed : ¬h.color.Rejected) (hreduced : h.isReduced = true) :
    ¬h.RoundTrip := by
  intro hround
  obtain ⟨pad, hpad⟩ := Vp9.frameBits_packBits h.write
  have hstart : h.write <+: frameBits (Vp9.UncompressedHeader.packBits h.write) := ⟨_, hpad.symm⟩
  have hfields := hround.1 _ hstart
  rw [parseSeqHeader_written hallowed hstart, Option.some.injEq] at hfields
  exact fieldsWith_readLevel_ne hreduced hfields

end CodedSequence

/-- A header that the parser does not reject for its colours comes back as it was written, and no
part of it is accepted, unless it is a reduced one. -/
theorem seq_header_round_trip (h : CodedSequence) (hallowed : ¬h.color.Rejected) :
    h.RoundTrip ↔ h.isReduced = false := by
  constructor
  · intro hround
    by_contra hreduced
    rw [Bool.not_eq_false] at hreduced
    exact CodedSequence.not_roundTrip_of_reduced hallowed hreduced hround
  · exact CodedSequence.roundTrip_of_full hallowed

/-- A header of 64x64 in profile 0 with 4:2:0. -/
def plainSequence (kind : SequenceKind) : CodedSequence where
  seqProfile := ⟨0, Vp9.zero_lt_three⟩
  kind := kind
  frameWidthBitsMinus1 := 5
  frameHeightBitsMinus1 := 5
  maxFrameWidthMinus1 := BitVec.ofNat _ 63
  maxFrameHeightMinus1 := BitVec.ofNat _ 63
  use128x128Superblock := false
  enableFilterIntra := true
  enableIntraEdgeFilter := true
  enableSuperres := false
  enableCdef := true
  enableRestoration := true
  color := {
    highBitdepth := true, twelveBit := false, monoChrome := false, colors := none,
    colorRange := false
    subsamplingX := true, subsamplingY := true, chromaSamplePosition := 1, separateUvDeltaQ := true
    twelveBitCoded := fun h => Bool.noConfusion h
    monoCoded := fun _ => rfl
    monoValues := fun h => Bool.noConfusion h
    rgbValues := by decide
    subsamplingValues := by decide
    subsamplingCoded := fun h => Bool.noConfusion h
    positionCoded := fun h => Bool.noConfusion h }
  filmGrainParamsPresent := false

/-- A full header with the timing, a decoder model with delays of 8 bits, and one operating
point. -/
def plainFull : CodedSequence := plainSequence (.full {
  stillPicture := false
  operating := {
    timing := some ⟨1, 30, some ⟨4, by decide⟩⟩
    model := some ⟨7, 1, 9, 9⟩
    displayDelay := true
    points := [{
      operatingPointIdc := 0, seqLevelIdx := 9, seqTier := true,
      parameters := some ⟨BitVec.ofNat _ 90, BitVec.ofNat _ 12, true⟩
      initialDisplayDelayMinus1 := some 3
      tierCoded := by decide
      parametersCoded := fun _ => rfl
      delayCoded := fun _ => rfl }]
    modelCoded := fun _ => rfl
    somePoint := by decide
    fewPoints := by decide }
  frameIds := some (12, 0)
  tools := {
    interintraCompound := true, maskedCompound := true, warpedMotion := true, dualFilter := true
    orderHint := some ⟨true, true, 6⟩, forceScreenContentTools := none, forceIntegerMv := some true
    integerMvCoded := by decide } })

theorem not_rejected_plain (kind : SequenceKind) : ¬(plainSequence kind).color.Rejected := by
  rintro ⟨-, hrgb, -⟩
  have hno : ¬isRgb none = true := by decide
  exact hno hrgb

theorem seq_header_round_trip_full : plainFull.RoundTrip :=
  (seq_header_round_trip plainFull (not_rejected_plain _)).mpr rfl

/-- Level 4.0 of a still picture is read as level 2.0. -/
theorem reduced_header_loses_level : ¬(plainSequence (.reduced 8)).RoundTrip :=
  CodedSequence.not_roundTrip_of_reduced (not_rejected_plain _) rfl

end Rkvdec.Av1
