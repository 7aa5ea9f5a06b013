import Rkvdec.Bitstream.Rejection
import Rkvdec.Bitstream.TwinRuns
import Rkvdec.Engine.H265

/-! Pictures of several slices: what the parse of the whole access unit says about the picture,
against the access unit cut after its first slice. -/
namespace Rkvdec.Bitstream

/-- The loop of the access unit parser comes to the end of the buffer, and these are its units. -/
def Carries (header : Nat) (buf : List Byte) (scratchSize : Nat)
    (units : List (List Byte)) : Prop :=
  ∃ us, nalUnits header buf scratchSize buf.length 0 0 = (us, true) ∧ us.map NalUnit.rbsp = units

namespace H264

section PicOrderCnt

variable {sps : Sps} {decode : DecodeParams} {isIdr : Bool} {nalRefIdc : Nat} {p : Staged}

theorem computePocType0_again :
    computePocType0 sps decode isIdr nalRefIdc (computePocType0 sps decode isIdr nalRefIdc p).2 =
      computePocType0 sps decode isIdr nalRefIdc p := by
  by_cases href : nalRefIdc = 0
  · simp [computePocType0, href]
  · cases isIdr with
    | true => simp [computePocType0, href]
    | false => simp [computePocType0, href]

theorem frameNumOffset_again {q : Staged} (hnum : q.prevFrameNum = decode.frameNum)
    (hoffset : q.prevFrameNumOffset = frameNumOffset sps decode isIdr p) :
    frameNumOffset sps decode isIdr q = frameNumOffset sps decode isIdr p := by
  cases isIdr with
  | true => rfl
  | false =>
    rw [frameNumOffset, hnum, hoffset]
    simp

theorem computePocType1_again :
    computePocType1 sps decode isIdr nalRefIdc (computePocType1 sps decode isIdr nalRefIdc p).2 =
      computePocType1 sps decode isIdr nalRefIdc p := by
  simp only [computePocType1]
  rw [frameNumOffset_again rfl rfl]

theorem computePocType2_again :
    computePocType2 sps decode isIdr nalRefIdc (computePocType2 sps decode isIdr nalRefIdc p).2 =
      computePocType2 sps decode isIdr nalRefIdc p := by
  simp only [computePocType2]
  rw [frameNumOffset_again rfl rfl]

/-- The next slice of the picture gets the same picture order count, and leaves the same state. -/
theorem computePoc_again (sps : Sps) (decode : DecodeParams) (nalRefIdc : Nat) (p : Staged) :
    computePoc sps decode nalRefIdc (computePoc sps decode nalRefIdc p).2 =
      computePoc sps decode nalRefIdc p := by
  simp only [computePoc]
  split_ifs
  · exact computePocType0_again
  · exact computePocType1_again
  · exact computePocType2_again

end PicOrderCnt

section Slices

variable {s s₀ : Au} {r₁ r : List Byte} {rest : List (List Byte)}

def nalRefIdc (rbsp : List Byte) : Nat := (rbsp.headD 0).toNat / 2 ^ 5 % 4

def IsSlice (rbsp : List Byte) : Prop := nalType rbsp = 1 ∨ nalType rbsp = 5

/-- The slice header in a unit, parsed into the result `o`. -/
@[irreducible] def headerRun (o : ParseResult) (rbsp : List Byte) :
    (Except ParseError Unit × ParseResult) × BitReader :=
  exec (parseSliceHeader (nalRefIdc rbsp) (nalType rbsp)) o (.init (rbsp.drop 1))

theorem headerRun_eq (o : ParseResult) (rbsp : List Byte) : headerRun o rbsp =
    exec (parseSliceHeader (nalRefIdc rbsp) (nalType rbsp)) o (.init (rbsp.drop 1)) := by
  delta headerRun
  rfl

/-- The result struct after the header of a slice that is the first one. -/
def coded (o : ParseResult) (rbsp : List Byte) : ParseResult := (headerRun o rbsp).1.2

/-- Two slices that say the same about their picture and its marking. -/
structure SamePicture (o : ParseResult) (r₁ r : List Byte) : Prop where
  slice : IsSlice r
  refIdc : nalRefIdc r = nalRefIdc r₁
  type : nalType r = nalType r₁
  decode : (coded o r).decode = (coded o r₁).decode
  adaptive : (coded o r).adaptiveRefPicMarkingModeFlag =
    (coded o r₁).adaptiveRefPicMarkingModeFlag
  noOutput : (coded o r).idrNoOutputOfPriorPicsFlag = (coded o r₁).idrNoOutputOfPriorPicsFlag
  longTerm : (coded o r).idrLongTermReferenceFlag = (coded o r₁).idrLongTermReferenceFlag
  mmco : (coded o r).mmco = (coded o r₁).mmco

def Marks.none : Marks := ⟨false, [], 0, 0, 0, [], 0, 0, [], []⟩

theorem finishSlice_result {o : ParseResult} {p : Staged} {refIdc headerBits : Nat}
    {payload : List Byte} (hs : s.result = (o, p)) :
    (finishSlice s refIdc payload headerBits).result.2 = (computePoc o.sps o.decode refIdc p).2 ∧
    ∃ slice sliceData, (finishSlice s refIdc payload headerBits).result.1 = { o with
      hasSlice := true
      decode := (computePoc o.sps o.decode refIdc p).1
      slice := slice
      sliceData := sliceData } := by
  simp only [finishSlice, hs]
  split_ifs
  · exact ⟨rfl, _, _, rfl⟩
  · exact ⟨rfl, _, _, rfl⟩

/-- What the switch does with a slice that it does not reject. -/
theorem visit_slice (hslice : IsSlice r) (hok : (visit s r).status = none) :
    s.result.1.hasSps = true ∧ s.result.1.hasPps = true ∧
    (visit s r).result.2 =
      (computePoc (coded s.result.1 r).sps (coded s.result.1 r).decode (nalRefIdc r)
        s.result.2).2 ∧
    ∃ slice sliceData, (visit s r).result.1 = { coded s.result.1 r with
      hasSlice := true
      decode := (computePoc (coded s.result.1 r).sps (coded s.result.1 r).decode (nalRefIdc r)
        s.result.2).1
      slice := slice
      sliceData := sliceData } := by
  have h7 : ¬ (r.headD 0).toNat % 2 ^ 5 = 7 := by
    rcases hslice with h | h <;> simp only [nalType] at h <;> omega
  have h8 : ¬ (r.headD 0).toNat % 2 ^ 5 = 8 := by
    rcases hslice with h | h <;> simp only [nalType] at h <;> omega
  have hs : (r.headD 0).toNat % 2 ^ 5 = 1 ∨ (r.headD 0).toNat % 2 ^ 5 = 5 := hslice
  simp only [visit, if_neg h7, if_neg h8, if_pos hs] at hok ⊢
  split_ifs at hok ⊢ with hsets hstatus
  · rw [hok] at hstatus
    exact absurd hstatus (by simp)
  · simp only [not_or, Bool.not_eq_false] at hsets
    have hparsed : (s.parse ⟨.slice, parseSliceHeader (nalRefIdc r) (nalType r), s.result.1,
        .init (r.drop 1)⟩).result = (coded s.result.1 r, s.result.2) := by
      simp only [AuState.parse_result, coded, headerRun_eq]
    exact ⟨hsets.1, hsets.2, finishSlice_result hparsed⟩

/-- A result with the slice header and the marks of another one. -/
def refill (o a : ParseResult) : ParseResult :=
  { o with slice := a.slice, decode := a.decode }.withMarks a.marks

theorem eq_refill {a o : ParseResult} (h : sansSlice a = sansSlice o) : a = refill o a := by
  have hself : refill (sansSlice a) a = a := rfl
  have hsame : refill (sansSlice o) a = refill o a := rfl
  rw [← hsame, ← h, hself]

/-- After `k` slices of a picture, of which `r₁` is the first: the header and the POC state are
those after the first one, and the operations are there `k` times, as far as there is room. -/
structure AfterSlices (s₀ : Au) (r₁ : List Byte) (k : Nat) (s : Au) : Prop where
  sets : s.result.1 = refill s₀.result.1 s.result.1
  decode : s.result.1.decode = (computePoc s₀.result.1.sps (coded s₀.result.1 r₁).decode
    (nalRefIdc r₁) s₀.result.2).1
  staged : s.result.2 = (computePoc s₀.result.1.sps (coded s₀.result.1 r₁).decode
    (nalRefIdc r₁) s₀.result.2).2
  adaptive : s.result.1.adaptiveRefPicMarkingModeFlag =
    (coded s₀.result.1 r₁).adaptiveRefPicMarkingModeFlag
  noOutput : s.result.1.idrNoOutputOfPriorPicsFlag =
    (coded s₀.result.1 r₁).idrNoOutputOfPriorPicsFlag
  longTerm : s.result.1.idrLongTermReferenceFlag = (coded s₀.result.1 r₁).idrLongTermReferenceFlag
  mmco : s.result.1.mmco = (List.replicate k (coded s₀.result.1 r₁).mmco).flatten.take 16
  hasSlice : s.result.1.hasSlice = true

/-- The sets a slice header is parsed with stay as they are. -/
theorem coded_sets (o : ParseResult) (r : List Byte) : coded o r = refill o (coded o r) := by
  refine eq_refill ?_
  simp only [coded, headerRun_eq]
  exact keeps_parseSliceHeader (nalRefIdc r) (nalType r) o (.init (r.drop 1))

/-- The headers of a slice parsed as the first one and as a later one. -/
theorem coded_twin (o o' : ParseResult) (r : List Byte) (hnone : o.marks = .none)
    (hsets : o' = refill o o') (hlen : o'.mmco.length ≤ 16) :
    (headerRun o r).1.1 = (headerRun o' r).1.1 ∧ (headerRun o r).2 = (headerRun o' r).2 ∧
      Twin o'.marks (coded o r) (coded o' r) := by
  have hahead : Ahead o'.marks o.marks o'.marks := by
    rw [hnone]
    refine ⟨?_, .inr ⟨rfl, rfl⟩, .inr ⟨rfl, rfl⟩, .inr ⟨rfl, rfl⟩⟩
    change o'.mmco = (o'.mmco ++ []).take 16
    rw [List.append_nil, List.take_of_length_le hlen]
  have htwin : TwinBut o'.marks o o' := by
    refine ⟨o'.marks, ?_, hahead⟩
    rw [hsets]
    rfl
  simp only [coded, headerRun_eq]
  exact alike_parseSliceHeader (nalRefIdc r) (nalType r) o o' (.init (r.drop 1)) htwin

/-- The first slice. -/
theorem afterSlices_one (hnone : s₀.result.1.marks = .none) (hslice : IsSlice r₁)
    (hok : (visit s₀ r₁).status = none) : AfterSlices s₀ r₁ 1 (visit s₀ r₁) := by
  obtain ⟨-, -, hstaged, slice, sliceData, hresult⟩ := visit_slice hslice hok
  have hsets := coded_sets s₀.result.1 r₁
  have hsps : (coded s₀.result.1 r₁).sps = s₀.result.1.sps := by rw [hsets]; rfl
  -- the operations of one slice have room, as the run against itself says
  have hroom : (coded s₀.result.1 r₁).mmco = (coded s₀.result.1 r₁).mmco.take 16 := by
    have hlen : s₀.result.1.mmco.length ≤ 16 := by
      have hmmco : s₀.result.1.mmco = [] := congrArg Marks.mmco hnone
      simp [hmmco]
    obtain ⟨-, -, x', hx, hahead⟩ := coded_twin s₀.result.1 s₀.result.1 r₁ hnone rfl hlen
    have hmmco := hahead.mmco
    rw [hnone] at hmmco
    have hself : (coded s₀.result.1 r₁).mmco = x'.mmco := congrArg ParseResult.mmco hx
    exact hself.trans hmmco
  refine ⟨?_, ?_, ?_, ?_, ?_, ?_, ?_, ?_⟩
  · rw [hresult, hsets]
    rfl
  · rw [hresult, ← hsps]
  · rw [hstaged, hsps]
  · rw [hresult]
  · rw [hresult]
  · rw [hresult]
  · rw [hresult]
    simpa using hroom
  · rw [hresult]

theorem take_take_append {α : Type} (n : Nat) (l l' : List α) :
    (l.take n ++ l').take n = (l ++ l').take n := by
  by_cases h : n ≤ l.length
  · have hlen : n ≤ (l.take n).length := by rw [List.length_take, Nat.min_eq_left h]
    rw [List.take_append_of_le_length hlen, List.take_append_of_le_length h, List.take_take,
      Nat.min_self]
  · rw [List.take_of_length_le (Nat.le_of_not_le h)]

/-- Another slice of the picture. -/
theorem AfterSlices.step {k : Nat} (h : AfterSlices s₀ r₁ k s) (hnone : s₀.result.1.marks = .none)
    (hsame : SamePicture s₀.result.1 r₁ r) (hok : (visit s r).status = none) :
    AfterSlices s₀ r₁ (k + 1) (visit s r) := by
  obtain ⟨-, -, hstaged, slice, sliceData, hresult⟩ := visit_slice hsame.slice hok
  have hlen : s.result.1.mmco.length ≤ 16 := by
    rw [h.mmco, List.length_take]
    exact Nat.min_le_left _ _
  obtain ⟨-, -, x', hx, hahead⟩ := coded_twin s₀.result.1 s.result.1 r hnone h.sets hlen
  have hsets := coded_sets s₀.result.1 r
  have hsps : (coded s.result.1 r).sps = s₀.result.1.sps := by rw [hx, hsets]; rfl
  have hdecode : (coded s.result.1 r).decode = (coded s₀.result.1 r₁).decode := by
    rw [hx, ← hsame.decode]
    rfl
  have hpoc := computePoc_again s₀.result.1.sps (coded s₀.result.1 r₁).decode (nalRefIdc r₁)
    s₀.result.2
  -- a flag that this slice does not set is the one the first slice left
  have hflag {before x x' first : Nat} (hset : SetOr before x x') (hx : x = first)
      (hbefore : before = first) : x' = first := by
    rcases hset with h | ⟨-, h⟩
    · exact h.trans hx
    · exact h.trans hbefore
  refine ⟨?_, ?_, ?_, ?_, ?_, ?_, ?_, ?_⟩
  · rw [hresult, hx, hsets]
    rfl
  · rw [hresult]
    change (computePoc (coded s.result.1 r).sps _ _ _).1 = _
    rw [hsps, hdecode, hsame.refIdc, h.staged, hpoc]
  · rw [hstaged, hsps, hdecode, hsame.refIdc, h.staged, hpoc]
  · rw [hresult, hx]
    exact hflag hahead.adaptive hsame.adaptive h.adaptive
  · rw [hresult, hx]
    exact hflag hahead.noOutput hsame.noOutput h.noOutput
  · rw [hresult, hx]
    exact hflag hahead.longTerm hsame.longTerm h.longTerm
  · rw [hresult, hx]
    refine hahead.mmco.trans ?_
    change (s.result.1.mmco ++ (coded s₀.result.1 r).mmco).take 16 = _
    rw [h.mmco, hsame.mmco, List.replicate_succ', List.flatten_append, List.flatten_singleton]
    exact take_take_append _ _ _
  · rw [hresult]

end Slices

section AccessUnit

variable {s s₀ : Au} {out : ParseResult} {pre rest : List (List Byte)} {r₁ : List Byte}

/-- What `H264ParseAccessUnit` returns after its loop. -/
def closeAu (s : Au) : ParseStatus × ParseResult :=
  match s.status with
  | some e => (e.status, s.result.1)
  | none =>
    if s.result.1.hasSlice = false then
      (if s.result.1.hasSps ∧ s.result.1.hasPps then .needMore else .invalid, s.result.1)
    else
      (.ok, { s.result.1 with
        prevPicOrderCntMsb := s.result.2.prevMsb
        prevPicOrderCntLsb := s.result.2.prevLsb
        prevFrameNum := s.result.2.prevFrameNum
        prevFrameNumOffset := s.result.2.prevFrameNumOffset })

/-- The parse of an access unit that is given by its NAL units. -/
def parseUnits (units : List (List Byte)) (out : ParseResult) : ParseStatus × ParseResult :=
  closeAu (feed visit units true (auStart out))

theorem parseAccessUnit_eq_units {buf : List Byte} {scratchSize : Nat} {units : List (List Byte)}
    (h : Carries 1 buf scratchSize units) :
    parseAccessUnit buf scratchSize out = parseUnits units out := by
  obtain ⟨us, hus, rfl⟩ := h
  change closeAu (auUnits buf scratchSize out) = _
  rw [auUnits_eq, auLoop_eq_feed, hus]
  rfl

/-- What the parse says about the picture, with the state for the next one. -/
structure Picture where
  frameNum : Nat
  topFieldOrderCnt : Int
  bottomFieldOrderCnt : Int
  nalRefIdc : Nat
  mmco : List Mmco
  prev : Staged

def picture (o : ParseResult) : Picture :=
  ⟨o.decode.frameNum, o.decode.topFieldOrderCnt, o.decode.bottomFieldOrderCnt, o.decode.nalRefIdc,
    o.mmco, pocState o⟩

/-- The parse result as the DPB reads it. -/
def dpbInput (o : ParseResult) : Engine.H264.Parsed where
  hasSps := o.hasSps
  hasSlice := o.hasSlice
  isIdr := hasFlag o.decode.flags decodeParamFlagIdrPic
  idrLongTermReferenceFlag := o.idrLongTermReferenceFlag ≠ 0
  nalRefIdc := o.decode.nalRefIdc
  frameNum := BitVec.ofNat 16 o.decode.frameNum
  topFieldOrderCnt := o.decode.topFieldOrderCnt
  bottomFieldOrderCnt := o.decode.bottomFieldOrderCnt
  adaptiveRefPicMarkingModeFlag := o.adaptiveRefPicMarkingModeFlag ≠ 0
  mmco := o.mmco.map fun m => ⟨m.op, BitVec.ofNat 32 m.differenceOfPicNumsMinus1,
    BitVec.ofNat 32 m.longTermPicNum, BitVec.ofNat 32 m.longTermFrameIdx,
    BitVec.ofNat 32 m.maxLongTermFrameIdxPlus1⟩
  maxNumRefFrames := o.sps.maxNumRefFrames
  log2MaxFrameNumMinus4 := o.sps.log2MaxFrameNumMinus4

/-- `Dpb_Select` for a picture, and `Dpb_OnDecodeComplete` if it found a slot. -/
def decodePicture (d : Engine.H264.DpbCtx) (o : ParseResult) : Option Engine.H264.DpbCtx :=
  (Engine.H264.select d (dpbInput o)).map fun r =>
    if r.1 = .ok then Engine.H264.onDecodeComplete r.2.2 else r.2.2

/-- Two results that are the same to the picture and to every DPB. -/
def SameResult (o o' : ParseResult) : Prop :=
  picture o = picture o' ∧ ∀ d, decodePicture d o = decodePicture d o'

theorem visit_marks {r : List Byte} (h : ¬ IsSlice r) :
    (visit s r).result.1.marks = s.result.1.marks := by
  have hs : ¬ ((r.headD 0).toNat % 2 ^ 5 = 1 ∨ (r.headD 0).toNat % 2 ^ 5 = 5) := h
  simp only [visit, if_neg hs]
  split_ifs
  · exact AuState.parse_keeps keeps_spsUnit rfl ParseResult.marks fun _ => rfl
  · exact AuState.parse_keeps keeps_ppsUnit rfl ParseResult.marks fun _ => rfl
  · rfl

theorem feed_marks (hpre : ∀ r ∈ pre, ¬ IsSlice r) :
    (feed visit pre true s).result.1.marks = s.result.1.marks := by
  induction pre generalizing s with
  | nil => rfl
  | cons r rest ih =>
    have hvisit := visit_marks (s := s) (hpre r List.mem_cons_self)
    simp only [feed]
    split_ifs
    · exact hvisit
    · exact (ih fun r hr => hpre r (List.mem_cons_of_mem _ hr)).trans hvisit

/-- The rest of the slices, one after the other. -/
theorem AfterSlices.feed {k : Nat} (h : AfterSlices s₀ r₁ k s) (hnone : s₀.result.1.marks = .none)
    (hsame : ∀ r ∈ rest, SamePicture s₀.result.1 r₁ r)
    (hok : (feed visit rest true s).status = none) :
    AfterSlices s₀ r₁ (k + rest.length) (feed visit rest true s) := by
  induction rest generalizing s k with
  | nil => exact h
  | cons r rest ih =>
    simp only [Bitstream.feed] at hok ⊢
    split_ifs at hok ⊢ with hstatus
    · rw [hok] at hstatus
      exact absurd hstatus (by simp)
    · have hvisit : (visit s r).status = none := by simpa using hstatus
      have hnext := ih (h.step hnone (hsame r List.mem_cons_self) hvisit)
        (fun r hr => hsame r (List.mem_cons_of_mem _ hr)) hok
      rwa [List.length_cons, ← Nat.add_assoc, Nat.add_right_comm]

/-- A list of at most 16 is that list repeated up to 16 only if it is empty or full, or is not
repeated. -/
theorem take_replicate_iff {α : Type} (n : Nat) (m : List α) :
    (List.replicate (1 + n) m).flatten.take 16 = (List.replicate 1 m).flatten.take 16 ↔
      n = 0 ∨ m = [] ∨ 16 ≤ m.length := by
  constructor
  · intro h
    by_contra hno
    simp only [not_or] at hno
    obtain ⟨hn, hm, hlen⟩ := hno
    have hpos : 0 < m.length := List.length_pos_iff.mpr hm
    have hlength := congrArg List.length h
    simp only [List.length_take, List.length_flatten, List.map_replicate, List.sum_replicate,
      smul_eq_mul, Nat.one_mul] at hlength
    have htwice : 2 * m.length ≤ (1 + n) * m.length := Nat.mul_le_mul_right _ (by omega)
    omega
  · rintro (rfl | rfl | hlen)
    · rfl
    · simp
    · rw [Nat.add_comm, List.replicate_succ, List.flatten_cons, List.take_append_of_le_length hlen]
      simp

theorem closeAu_accepted (h : (closeAu s).1 = .ok) :
    s.status = none ∧ s.result.1.hasSlice = true := by
  unfold closeAu at h
  cases hstatus : s.status with
  | some e => cases e <;> simp [hstatus, ParseError.status] at h
  | none =>
    cases hslice : s.result.1.hasSlice with
    | true => exact ⟨rfl, rfl⟩
    | false =>
      simp only [hstatus, hslice, if_true] at h
      split_ifs at h

theorem closeAu_ok (hstatus : s.status = none) (hslice : s.result.1.hasSlice = true) :
    closeAu s = (.ok, { s.result.1 with
      prevPicOrderCntMsb := s.result.2.prevMsb
      prevPicOrderCntLsb := s.result.2.prevLsb
      prevFrameNum := s.result.2.prevFrameNum
      prevFrameNumOffset := s.result.2.prevFrameNumOffset }) := by
  simp [closeAu, hstatus, hslice]

/-- The state in which the slices of an access unit start. -/
def beforeSlices (pre : List (List Byte)) (out : ParseResult) : Au :=
  feed visit pre true (auStart out)

/-- The whole access unit and the cut one, after their loops. -/
theorem afterSlices_units (hpre : ∀ r ∈ pre, ¬ IsSlice r) (hslice : IsSlice r₁)
    (hsame : ∀ r ∈ rest, SamePicture (beforeSlices pre out).result.1 r₁ r)
    (hok : (feed visit (pre ++ r₁ :: rest) true (auStart out)).status = none) :
    AfterSlices (beforeSlices pre out) r₁ (1 + rest.length)
      (feed visit (pre ++ r₁ :: rest) true (auStart out)) := by
  have hbefore : (beforeSlices pre out).status = none := feed_prefix rfl hok
  have hnone : (beforeSlices pre out).result.1.marks = .none := (feed_marks hpre).trans rfl
  rw [feed_append hbefore] at hok ⊢
  change (feed visit (r₁ :: rest) true (beforeSlices pre out)).status = none at hok
  change AfterSlices _ _ _ (feed visit (r₁ :: rest) true (beforeSlices pre out))
  simp only [feed] at hok ⊢
  split_ifs at hok ⊢ with hstatus
  · rw [hok] at hstatus
    exact absurd hstatus (by simp)
  · have hfirst := afterSlices_one hnone hslice (by simpa using hstatus)
    exact hfirst.feed hnone hsame hok

/-- The results of the parse agree up to the operations. -/
theorem same_of_afterSlices {s' : Au} {k k' : Nat} (h : AfterSlices s₀ r₁ k s)
    (h' : AfterSlices s₀ r₁ k' s') (hstatus : s.status = none) (hstatus' : s'.status = none) :
    SameResult (closeAu s).2 (closeAu s').2 ↔ s.result.1.mmco = s'.result.1.mmco := by
  rw [closeAu_ok hstatus h.hasSlice, closeAu_ok hstatus' h'.hasSlice]
  constructor
  · intro hsame
    exact congrArg Picture.mmco hsame.1
  · intro hmmco
    have hdecode : s.result.1.decode = s'.result.1.decode := h.decode.trans h'.decode.symm
    have hstaged : s.result.2 = s'.result.2 := h.staged.trans h'.staged.symm
    have hsps : s.result.1.sps = s'.result.1.sps := by
      rw [h.sets, h'.sets]
      rfl
    have hhas : s.result.1.hasSps = s'.result.1.hasSps := by
      rw [h.sets, h'.sets]
      rfl
    refine ⟨?_, fun d => ?_⟩
    · simp only [picture, pocState, hdecode, hmmco, hstaged]
    · simp only [decodePicture, dpbInput, hdecode, hmmco, hsps, hhas, h.hasSlice, h'.hasSlice,
        h.adaptive.trans h'.adaptive.symm, h.longTerm.trans h'.longTerm.symm]

/-- The units of an access unit with one picture: the slices come last. -/
structure OnePicture (out : ParseResult) (pre : List (List Byte)) (r₁ : List Byte)
    (rest : List (List Byte)) : Prop where
  before : ∀ r ∈ pre, ¬ IsSlice r
  first : IsSlice r₁
  others : ∀ r ∈ rest, SamePicture (beforeSlices pre out).result.1 r₁ r

/-- An access unit of several slices of one picture says the same as the access unit cut after the
first slice iff the slices repeat no operation, which are none or as many as there is room for. -/
theorem sameResult_iff (h : OnePicture out pre r₁ rest)
    (hok : (parseUnits (pre ++ r₁ :: rest) out).1 = .ok) :
    SameResult (parseUnits (pre ++ r₁ :: rest) out).2 (parseUnits (pre ++ [r₁]) out).2 ↔
      rest = [] ∨ (coded (beforeSlices pre out).result.1 r₁).mmco = [] ∨
        16 ≤ (coded (beforeSlices pre out).result.1 r₁).mmco.length := by
  have hwhole : (feed visit (pre ++ r₁ :: rest) true (auStart out)).status = none :=
    (closeAu_accepted hok).1
  have hcut : (feed visit (pre ++ [r₁]) true (auStart out)).status = none := by
    have hsplit : (feed visit ((pre ++ [r₁]) ++ rest) true (auStart out)).status = none := by
      simpa using hwhole
    exact feed_prefix rfl hsplit
  have hafter := afterSlices_units h.before h.first h.others hwhole
  have hafter' : AfterSlices (beforeSlices pre out) r₁ (1 + 0)
      (feed visit (pre ++ [r₁]) true (auStart out)) :=
    afterSlices_units h.before h.first (fun _ h => by cases h) hcut
  rw [parseUnits, parseUnits, same_of_afterSlices hafter hafter' hwhole hcut, hafter.mmco,
    hafter'.mmco]
  exact (take_replicate_iff _ _).trans (or_congr_left List.length_eq_zero_iff)

end AccessUnit

end H264

end Rkvdec.Bitstream
