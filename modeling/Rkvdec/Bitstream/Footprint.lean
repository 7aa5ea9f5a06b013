import Rkvdec.Bitstream.Truncation
import Rkvdec.Bitstream.Framing

/-! What the unit parsers leave alone. A parser is followed statement by statement; what it stores
is hidden from the view, and the rest of the result struct is what it was. -/
namespace Rkvdec.Bitstream

section Rules

variable {σ α β γ : Type} {view : σ → γ}

/-- Whatever a parser returns, the part of the result struct that `view` shows is the one it
found. -/
def Keeps (view : σ → γ) (p : Parser σ α) : Prop := ∀ s br, view (exec p s br).1.2 = view s

theorem Keeps.bind {p : Parser σ α} {f : α → Parser σ β} (hp : Keeps view p)
    (hf : ∀ a, Keeps view (f a)) : Keeps view (p >>= f) := by
  intro s br
  have hfirst := hp s br
  rw [exec_bind]
  cases hexec : exec p s br with
  | mk r br₁ =>
    obtain ⟨res, s₁⟩ := r
    rw [hexec] at hfirst
    cases res with
    | ok a => exact (hf a s₁ br₁).trans hfirst
    | error status => exact hfirst

/-- The branches of an `if`. What follows it stands at the end of both, so the proof for the second
one is at hand for the first. -/
theorem Keeps.cond {c : Prop} [Decidable c] {p q : Parser σ α} (hq : Keeps view q)
    (hp : Keeps view q → Keeps view p) : Keeps view (if c then p else q) := by
  split
  · exact hp hq
  · exact hq

theorem Keeps.modify {g : σ → σ} (h : ∀ s, view (g s) = view s) :
    Keeps view (modify g : Parser σ PUnit) := fun s _ => h s

/-- A coarser view is kept as well. -/
theorem Keeps.comp {δ : Type} {p : Parser σ α} (hp : Keeps view p) (f : γ → δ) :
    Keeps (fun s => f (view s)) p := fun s br => congrArg f (hp s br)

@[simp] theorem keeps_pure (a : α) : Keeps view (pure a : Parser σ α) := fun _ _ => rfl

@[simp] theorem keeps_throw (e : ParseError) : Keeps view (throw e : Parser σ α) := fun _ _ => rfl

@[simp] theorem keeps_get : Keeps view (get : Parser σ σ) := fun _ _ => rfl

theorem keeps_ask (op : ReadOp) : Keeps view (ask op : Parser σ op.Ans) := fun _ _ => rfl

@[simp] theorem keeps_brU (n : Nat) : Keeps view (brU n : Parser σ Nat) := keeps_ask _
@[simp] theorem keeps_brU1 : Keeps view (brU1 : Parser σ Nat) := keeps_ask _
@[simp] theorem keeps_brUe : Keeps view (brUe : Parser σ Nat) := keeps_ask .ue
@[simp] theorem keeps_brEof : Keeps view (brEof : Parser σ Bool) := keeps_ask .eof
@[simp] theorem keeps_brBitPos : Keeps view (brBitPos : Parser σ Nat) := keeps_ask .bitPos
@[simp] theorem keeps_brLen : Keeps view (brLen : Parser σ Nat) := keeps_ask .len
@[simp] theorem keeps_brFail : Keeps view (brFail : Parser σ Unit) := keeps_ask .fail

@[simp] theorem keeps_brMoreRbspData : Keeps view (brMoreRbspData : Parser σ Bool) :=
  keeps_ask .moreRbspData

@[simp] theorem keeps_access (size i : Nat) : Keeps view (access size i : Parser σ Unit) :=
  keeps_ask (.access size i)

@[simp] theorem keeps_flag : Keeps view (flag : Parser σ Bool) :=
  keeps_brU1.bind fun _ => keeps_pure _

@[simp] theorem keeps_brSe : Keeps view (brSe : Parser σ Int) :=
  keeps_brUe.bind fun _ => keeps_pure _

@[simp] theorem keeps_checkFailed : Keeps view (checkFailed : Parser σ Unit) :=
  Keeps.bind (keeps_ask .failed) fun _ => .cond (keeps_pure _) fun _ => keeps_throw _

theorem Keeps.skip {p : Parser σ Unit} (hp : Keeps view p) (n : Nat) : Keeps view (skip n p) := by
  induction n with
  | zero => exact keeps_pure ()
  | succ n ih => exact hp.bind fun _ => ih

end Rules

namespace H264

variable {γ : Type} {view : ParseResult → γ}

section ScalingLists

@[simp] theorem keeps_scalingLoop (zz : List Nat) (first : Bool)
    (lastScale nextScale lastValue : Nat) (list : List Nat) :
    Keeps view (scalingLoop zz first lastScale nextScale lastValue list) := by
  induction zz generalizing first lastScale nextScale lastValue list with
  | nil => exact keeps_pure _
  | cons pos zz ih =>
    unfold scalingLoop
    with_reducible repeat' first
      | assumption | refine .bind ?_ fun _ => ?_ | refine .cond ?_ fun _ => ?_ | exact ih _ _ _ _ _
      | simp

@[simp] theorem keeps_parseScalingList (list : List Nat) (size : Nat) :
    Keeps view (parseScalingList list size) := keeps_scalingLoop _ _ _ _ _ _

@[simp] theorem keeps_parseMatrixList (sm : ScalingMatrix) (i : Nat) :
    Keeps view (parseMatrixList sm i) := by
  unfold parseMatrixList
  with_reducible repeat' first
    | refine .bind ?_ fun _ => ?_ | refine .cond ?_ fun _ => ?_ | simp

@[simp] theorem keeps_parseSeqScalingLists (n i : Nat) (sm : ScalingMatrix) :
    Keeps view (parseSeqScalingLists n i sm) := by
  induction n generalizing i sm with
  | zero => exact keeps_pure _
  | succ n ih =>
    refine keeps_flag.bind fun present => .cond (ih _ _) fun _ => ?_
    exact (keeps_parseMatrixList _ _).bind fun r => ih _ _

end ScalingLists

section Units

/-- A PPS without the flag for its scaling matrix, the highest one, which an SPS may set later. -/
def Pps.coded (p : Pps) : Pps := { p with flags := p.flags % ppsFlagScalingMatrixPresent }

theorem Pps.coded_scalingMatrix (p : Pps) :
    Pps.coded { p with flags := p.flags ||| ppsFlagScalingMatrixPresent } = Pps.coded p := by
  have hflags : (p.flags ||| 2 ^ 7) % 2 ^ 7 = p.flags % 2 ^ 7 := by
    rw [Nat.or_mod_two_pow]
    simp
  simp only [Pps.coded, ppsFlagScalingMatrixPresent]
  exact congrArg (fun flags => { p with flags := flags }) hflags

/-- The result without what an SPS writes. -/
def sansSps (o : ParseResult) : ParseResult :=
  { o with
    sps := {}
    pps := o.pps.coded
    scalingMatrix := {}
    hasSps := false
    hasScalingMatrix := false
    hasSpsVuiReorder := false
    spsVuiMaxNumReorderFrames := 0
    hasVuiColour := false
    vuiFullRangeFlag := 0
    hasVuiColourDesc := false
    vuiColourPrimaries := 0
    vuiTransferCharacteristics := 0
    vuiMatrixCoefficients := 0 }

/-- The result without what a PPS writes. -/
def sansPps (o : ParseResult) : ParseResult :=
  { o with pps := {}, scalingMatrix := {}, hasPps := false, hasScalingMatrix := false }

/-- The result without what a slice header writes. -/
def sansSlice (o : ParseResult) : ParseResult :=
  { o with
    slice := {}
    decode := {}
    adaptiveRefPicMarkingModeFlag := 0
    idrNoOutputOfPriorPicsFlag := 0
    idrLongTermReferenceFlag := 0
    mmco := []
    refPicListModificationFlagL0 := 0
    refPicListModificationFlagL1 := 0
    rplmL0 := []
    rplmL1 := [] }

theorem keeps_parseHrdParameters : Keeps view parseHrdParameters := by
  unfold parseHrdParameters
  with_reducible repeat' first
    | refine .bind ?_ fun _ => ?_ | refine .skip ?_ _ | simp

theorem keeps_parseVuiParameters : Keeps sansSps parseVuiParameters := by
  unfold parseVuiParameters
  with_reducible repeat' first
    | assumption | exact keeps_parseHrdParameters | exact .modify fun _ => rfl
    | refine .bind ?_ fun _ => ?_ | refine .cond ?_ fun _ => ?_ | simp

@[simp] theorem keeps_setSps (g : Sps → Sps) : Keeps sansSps (setSps g) := .modify fun _ => rfl

@[simp] theorem keeps_spsFlag (bit : Nat) : Keeps sansSps (spsFlag bit) :=
  keeps_flag.bind fun _ => .cond (keeps_pure _) fun _ => keeps_setSps _

theorem keeps_parseOffsetsForRefFrame (n i : Nat) :
    Keeps sansSps (parseOffsetsForRefFrame n i) := by
  induction n generalizing i with
  | zero => exact keeps_pure ()
  | succ n ih => exact keeps_brSe.bind fun _ => (keeps_setSps _).bind fun _ => ih _

theorem keeps_parseSpsFields : Keeps sansSps parseSpsFields := by
  unfold parseSpsFields
  with_reducible repeat' first
    | assumption | exact keeps_parseVuiParameters | exact keeps_parseOffsetsForRefFrame _ _
    | exact .modify fun _ => rfl | refine .bind ?_ fun _ => ?_ | refine .cond ?_ fun _ => ?_ | simp

theorem keeps_spsUnit : Keeps sansSps spsUnit := by
  have hsps : Keeps sansSps parseSps :=
    keeps_parseSpsFields.bind fun _ => keeps_checkFailed.bind fun _ => keeps_pure _
  refine hsps.bind fun sm => Keeps.bind (.modify fun _ => rfl) fun _ => ?_
  cases sm with
  | none => exact keeps_pure ()
  | some sm =>
    refine Keeps.bind (.modify fun _ => rfl) fun _ => keeps_get.bind fun out => ?_
    refine .cond (keeps_pure ()) fun _ => .modify fun o => ?_
    simp only [sansSps, Pps.coded_scalingMatrix]

@[simp] theorem keeps_setPps (g : Pps → Pps) : Keeps sansPps (setPps g) := .modify fun _ => rfl

@[simp] theorem keeps_ppsFlag (bit : Nat) : Keeps sansPps (ppsFlag bit) :=
  keeps_flag.bind fun _ => .cond (keeps_pure _) fun _ => keeps_setPps _

theorem keeps_parsePicScalingLists (n i : Nat) : Keeps sansPps (parsePicScalingLists n i) := by
  induction n generalizing i with
  | zero => exact keeps_pure []
  | succ n ih =>
    unfold parsePicScalingLists
    with_reducible repeat' first
      | assumption | exact ih _ | exact .modify fun _ => rfl | refine .bind ?_ fun _ => ?_
      | refine .cond ?_ fun _ => ?_ | simp

theorem keeps_parsePpsFields : Keeps sansPps parsePpsFields := by
  unfold parsePpsFields
  with_reducible repeat' first
    | assumption | exact keeps_parsePicScalingLists _ _ | exact .modify fun _ => rfl
    | refine .bind ?_ fun _ => ?_ | refine .cond ?_ fun _ => ?_ | simp

theorem keeps_ppsUnit : Keeps sansPps ppsUnit := by
  have hpps : Keeps sansPps parsePps :=
    keeps_parsePpsFields.bind fun _ => keeps_checkFailed.bind fun _ => keeps_pure _
  refine hpps.bind fun hasScaling => Keeps.bind (.modify fun _ => rfl) fun _ => ?_
  refine .cond (keeps_get.bind fun out => ?_) fun _ => .modify fun _ => rfl
  exact .cond (keeps_pure ()) fun _ => .modify fun _ => rfl

@[simp] theorem keeps_setSlice (g : SliceParams → SliceParams) : Keeps sansSlice (setSlice g) :=
  .modify fun _ => rfl

@[simp] theorem keeps_setDecode (g : DecodeParams → DecodeParams) : Keeps sansSlice (setDecode g) :=
  .modify fun _ => rfl

@[simp] theorem keeps_brBits : Keeps view brBits := keeps_brLen.bind fun _ => keeps_pure _

@[simp] theorem keeps_ueIf (c : Prop) [Decidable c] : Keeps view (ueIf c) :=
  .cond (keeps_pure _) fun _ => keeps_brUe

theorem keeps_rplmLoop {store : RplmOp → ParseResult → ParseResult}
    (hstore : ∀ op o, view (store op o) = view o) (turns : Nat) :
    Keeps view (rplmLoop store turns) := by
  induction turns with
  | zero => exact keeps_pure ()
  | succ turns ih =>
    refine keeps_brUe.bind fun modOp => .cond ?_ fun _ => keeps_pure ()
    refine keeps_brUe.bind fun val => Keeps.bind (.modify (hstore _)) fun _ => ?_
    exact keeps_brEof.bind fun _ => .cond ih fun _ => keeps_pure ()

theorem keeps_mmcoLoop (turns : Nat) : Keeps sansSlice (mmcoLoop turns) := by
  induction turns with
  | zero => exact keeps_pure ()
  | succ turns ih =>
    unfold mmcoLoop
    repeat' first
      | with_reducible assumption
      | with_reducible refine .bind ?_ fun _ => ?_
      | with_reducible refine .cond ?_ fun _ => ?_
      | simp
      | exact .modify fun o => by unfold storeMmco; split <;> rfl

theorem keeps_skipWeights (chroma : Bool) : Keeps view (skipWeights chroma) := by
  unfold skipWeights
  with_reducible repeat' first
    | assumption | refine .bind ?_ fun _ => ?_ | refine .cond ?_ fun _ => ?_ | simp

theorem keeps_parseRefPicLists (st : Nat) : Keeps sansSlice (parseRefPicLists st) := by
  have hl0 (op : RplmOp) (o : ParseResult) : sansSlice (storeRplmL0 op o) = sansSlice o := by
    unfold storeRplmL0
    split <;> rfl
  have hl1 (op : RplmOp) (o : ParseResult) : sansSlice (storeRplmL1 op o) = sansSlice o := by
    unfold storeRplmL1
    split <;> rfl
  unfold parseRefPicLists
  with_reducible repeat' first
    | assumption | exact keeps_rplmLoop hl0 _ | exact keeps_rplmLoop hl1 _
    | exact .modify fun _ => rfl | refine .bind ?_ fun _ => ?_ | refine .cond ?_ fun _ => ?_ | simp

theorem keeps_parseSliceHeader (nalRefIdc nalUnitType : Nat) :
    Keeps sansSlice (parseSliceHeader nalRefIdc nalUnitType) := by
  refine Keeps.bind ?_ fun _ => keeps_checkFailed
  unfold parseSliceFields
  with_reducible repeat' first
    | assumption | exact keeps_parseRefPicLists _ | exact keeps_mmcoLoop _
    | exact (keeps_skipWeights _).skip _ | exact .modify fun _ => rfl | refine .bind ?_ fun _ => ?_
    | refine .cond ?_ fun _ => ?_ | simp

end Units

end H264

namespace H265

variable {γ : Type} {view : ParseResult → γ}

section Elements

@[simp] theorem keeps_brU8 (n : Nat) : Keeps view (brU8 n) :=
  (keeps_brU n).bind fun _ => keeps_pure _

@[simp] theorem keeps_brUe8 : Keeps view brUe8 := keeps_brUe.bind fun _ => keeps_pure _

theorem keeps_fill {α : Type} {read : P α} (hread : Keeps view read) (n i : Nat) (list : List α) :
    Keeps view (fill read n i list) := by
  induction n generalizing i list with
  | zero => exact keeps_pure _
  | succ n ih => exact hread.bind fun x => ih _ _

@[simp] theorem keeps_parseSubLayersPresent (n : Nat) : Keeps view (parseSubLayersPresent n) := by
  induction n with
  | zero => exact keeps_pure _
  | succ n ih =>
    exact keeps_flag.bind fun _ => keeps_flag.bind fun _ => ih.bind fun _ => keeps_pure _

@[simp] theorem keeps_skipSubLayers (present : List (Bool × Bool)) :
    Keeps view (skipSubLayers present) := by
  induction present with
  | nil => exact keeps_pure _
  | cons layer rest ih =>
    unfold skipSubLayers
    with_reducible repeat' first
      | assumption | refine .bind ?_ fun _ => ?_ | refine .cond ?_ fun _ => ?_ | simp

@[simp] theorem keeps_parsePtl (maxSubLayersMinus1 : Nat) :
    Keeps view (parsePtl maxSubLayersMinus1) := by
  unfold parsePtl
  with_reducible repeat' first
    | assumption | refine keeps_fill ?_ _ _ _ | refine .bind ?_ fun _ => ?_
    | refine .cond ?_ fun _ => ?_ | refine .skip ?_ _ | simp

@[simp] theorem keeps_coefLoop (scan : List Nat) (nextCoef : Int) (l : List Nat) :
    Keeps view (coefLoop scan nextCoef l) := by
  induction scan generalizing nextCoef l with
  | nil => exact keeps_pure _
  | cons pos scan ih => exact keeps_brSe.bind fun _ => ih _ _

@[simp] theorem keeps_parseScalingListOf (sl : ScalingList) (szId matId : Nat) :
    Keeps view (parseScalingListOf sl szId matId) := by
  unfold parseScalingListOf
  with_reducible repeat' first
    | assumption | refine .bind ?_ fun _ => ?_ | refine .cond ?_ fun _ => ?_ | simp

@[simp] theorem keeps_parseScalingListData : Keeps view parseScalingListData := by
  have hlists (ids : List (Nat × Nat)) (sl : ScalingList) :
      Keeps view (parseScalingLists ids sl) := by
    induction ids generalizing sl with
    | nil => exact keeps_pure _
    | cons id rest ih => exact (keeps_parseScalingListOf _ _ _).bind fun _ => ih _
  exact hlists _ _

@[simp] theorem keeps_parsePredictionFlags (n j : Nat) : Keeps view (parsePredictionFlags n j) := by
  induction n generalizing j with
  | zero => exact keeps_pure _
  | succ n ih =>
    unfold parsePredictionFlags
    with_reducible repeat' first
      | assumption | exact ih _ | refine .bind ?_ fun _ => ?_ | refine .cond ?_ fun _ => ?_ | simp

@[simp] theorem keeps_predictFrom (ref : ShortTermRps) (flags : List (Nat × Bool)) (deltaRps : Int)
    (keep : Int → Bool) (entries : List Nat) :
    Keeps view (predictFrom ref flags deltaRps keep entries) := by
  induction entries with
  | nil => exact keeps_pure _
  | cons i rest ih =>
    refine (keeps_access _ _).bind fun _ => (keeps_access _ _).bind fun _ => ?_
    exact ih.bind fun _ => keeps_pure _

@[simp] theorem keeps_parseInterRps (rpsList : List ShortTermRps) (idx num : Nat)
    (out : ShortTermRps) : Keeps view (parseInterRps rpsList idx num out) := by
  unfold parseInterRps
  with_reducible repeat' first
    | assumption | refine .bind ?_ fun _ => ?_ | refine .cond ?_ fun _ => ?_ | simp

@[simp] theorem keeps_parseDeltas (sign : Int) (n j : Nat) (prev : Int) (out : ShortTermRps) :
    Keeps view (parseDeltas sign n j prev out) := by
  induction n generalizing j prev out with
  | zero => exact keeps_pure _
  | succ n ih =>
    refine keeps_brUe.bind fun _ => (keeps_access _ _).bind fun _ => ?_
    exact (keeps_brU8 _).bind fun _ => ih _ _ _

@[simp] theorem keeps_parseDirectRps (out : ShortTermRps) : Keeps view (parseDirectRps out) := by
  unfold parseDirectRps
  with_reducible repeat' first
    | assumption | refine .bind ?_ fun _ => ?_ | refine .cond ?_ fun _ => ?_ | simp

theorem keeps_parseStRps {mark : Nat → P Unit} (hmark : ∀ n, Keeps view (mark n))
    (rpsList : List ShortTermRps) (idx num : Nat) :
    Keeps view (parseStRps mark rpsList idx num) := by
  unfold parseStRps
  with_reducible repeat' first
    | assumption | exact hmark _ | refine .bind ?_ fun _ => ?_ | refine .cond ?_ fun _ => ?_ | simp

end Elements

section ParameterSets

/-- The result without the VPS entries, which is all a VPS writes. -/
def sansVps (o : ParseResult) : ParseResult := { o with vps := [] }

@[simp] theorem keeps_setVps (id : Nat) (g : Vps → Vps) : Keeps sansVps (setVps id g) :=
  .modify fun _ => rfl

theorem keeps_parseVpsOrdering (id n i : Nat) : Keeps sansVps (parseVpsOrdering id n i) := by
  induction n generalizing i with
  | zero => exact keeps_pure ()
  | succ n ih =>
    refine keeps_brUe8.bind fun _ => keeps_brUe8.bind fun _ => keeps_brUe.bind fun _ => ?_
    exact (keeps_setVps _ _).bind fun _ => ih _

theorem keeps_parseVps : Keeps sansVps parseVps := by
  unfold parseVps
  with_reducible repeat' first
    | assumption | exact keeps_parseVpsOrdering _ _ _ | refine .bind ?_ fun _ => ?_
    | refine .cond ?_ fun _ => ?_ | refine .skip ?_ _ | simp

@[simp] theorem keeps_parseSpsHead : Keeps view parseSpsHead := by
  unfold parseSpsHead
  with_reducible repeat' first
    | assumption | refine .bind ?_ fun _ => ?_ | refine .cond ?_ fun _ => ?_ | simp

@[simp] theorem keeps_parseConformanceWindow (tmp : Sps) :
    Keeps view (parseConformanceWindow tmp) := by
  unfold parseConformanceWindow
  with_reducible repeat' first
    | refine .bind ?_ fun _ => ?_ | refine .cond ?_ fun _ => ?_ | simp

@[simp] theorem keeps_parseSubLayerOrdering (tmp : Sps) :
    Keeps view (parseSubLayerOrdering tmp) := by
  have hlayers (n i : Nat) (tmp : Sps) : Keeps view (parseSpsOrdering n i tmp) := by
    induction n generalizing i tmp with
    | zero => exact keeps_pure _
    | succ n ih =>
      exact keeps_brUe8.bind fun _ => keeps_brUe8.bind fun _ => keeps_brUe.bind fun _ => ih _ _
  exact (keeps_brU8 _).bind fun _ => (hlayers _ _ _).bind fun _ => keeps_pure _

@[simp] theorem keeps_parseBlockSizes (tmp : Sps) : Keeps view (parseBlockSizes tmp) := by
  unfold parseBlockSizes
  repeat' first
    | with_reducible refine .bind ?_ fun _ => ?_
    | simp

@[simp] theorem keeps_parseSpsScalingList (tmp : Sps) : Keeps view (parseSpsScalingList tmp) := by
  unfold parseSpsScalingList
  with_reducible repeat' first
    | refine .bind ?_ fun _ => ?_ | refine .cond ?_ fun _ => ?_ | simp

@[simp] theorem keeps_parsePcm (tmp : Sps) : Keeps view (parsePcm tmp) := by
  unfold parsePcm
  with_reducible repeat' first
    | refine .bind ?_ fun _ => ?_ | refine .cond ?_ fun _ => ?_ | simp

@[simp] theorem keeps_parseRpsTable (n i : Nat) (tmp : Sps) :
    Keeps view (parseRpsTable n i tmp) := by
  induction n generalizing i tmp with
  | zero => exact keeps_pure _
  | succ n ih =>
    refine (keeps_access _ _).bind fun _ => ?_
    exact (keeps_parseStRps (fun _ => keeps_pure ()) _ _ _).bind fun _ => ih _ _

@[simp] theorem keeps_parseLongTerm (tmp : Sps) : Keeps view (parseLongTerm tmp) := by
  have hpics (n i : Nat) (tmp : Sps) : Keeps view (parseLtRefPics n i tmp) := by
    induction n generalizing i tmp with
    | zero => exact keeps_pure _
    | succ n ih => exact (keeps_brU _).bind fun _ => (keeps_brU8 _).bind fun _ => ih _ _
  unfold parseLongTerm
  with_reducible repeat' first
    | assumption | exact hpics _ _ _ | refine .bind ?_ fun _ => ?_ | refine .cond ?_ fun _ => ?_
    | simp

@[simp] theorem keeps_deriveCtbs (tmp : Sps) : Keeps view (deriveCtbs tmp) :=
  .cond (keeps_pure _) fun _ => (keeps_throw _).bind fun _ => keeps_pure _

/-- The fields of an SPS go to a copy. -/
theorem keeps_parseSpsFields : Keeps view parseSpsFields := by
  unfold parseSpsFields
  with_reducible repeat' first
    | assumption | refine .bind ?_ fun _ => ?_ | refine .cond ?_ fun _ => ?_ | simp

@[simp] theorem keeps_parsePpsHead (ppsId spsId : Nat) : Keeps view (parsePpsHead ppsId spsId) := by
  unfold parsePpsHead
  with_reducible repeat' first
    | refine .bind ?_ fun _ => ?_ | refine .cond ?_ fun _ => ?_ | simp

@[simp] theorem keeps_parseTiles (tmp : Pps) : Keeps view (parseTiles tmp) := by
  unfold parseTiles
  with_reducible repeat' first
    | assumption | refine .bind ?_ fun _ => ?_ | refine .cond ?_ fun _ => ?_ | refine .skip ?_ _
    | simp

@[simp] theorem keeps_parsePpsDeblocking (tmp : Pps) : Keeps view (parsePpsDeblocking tmp) := by
  unfold parsePpsDeblocking
  with_reducible repeat' first
    | refine .bind ?_ fun _ => ?_ | refine .cond ?_ fun _ => ?_ | simp

/-- The fields of a PPS go to a copy. -/
theorem keeps_parsePpsFields : Keeps view parsePpsFields := by
  unfold parsePpsFields
  with_reducible repeat' first
    | assumption | refine .bind ?_ fun _ => ?_ | refine .cond ?_ fun _ => ?_ | simp

end ParameterSets

section Slices

/-- The result without what a slice header writes. -/
def sansSlice (o : ParseResult) : ParseResult :=
  { o with slice := {}, activeSpsId := 0, activePpsId := 0, isIdr := false, isIrap := false }

@[simp] theorem keeps_setSlice (g : SliceHeader → SliceHeader) : Keeps sansSlice (setSlice g) :=
  .modify fun _ => rfl

/-- The part of a slice header that is about the picture, and whether the segment is dependent. -/
structure PictureFields where
  dependentSliceSegmentFlag : Nat
  slicePicOrderCntLsb : Nat
  shortTermRefPicSetSpsFlag : Nat
  shortTermRefPicSetIdx : Nat
  stRpsSlice : ShortTermRps
deriving DecidableEq

def SliceHeader.pictureFields (s : SliceHeader) : PictureFields :=
  ⟨s.dependentSliceSegmentFlag, s.slicePicOrderCntLsb, s.shortTermRefPicSetSpsFlag,
    s.shortTermRefPicSetIdx, s.stRpsSlice⟩

/-- The result without what only concerns the slice. -/
def sansDetails (o : ParseResult) : ParseResult × Int × Int × Bool × Bool × PictureFields :=
  (sansSlice o, o.activeSpsId, o.activePpsId, o.isIdr, o.isIrap, o.slice.pictureFields)

theorem keeps_setDetail {g : SliceHeader → SliceHeader}
    (hg : ∀ s, (g s).pictureFields = s.pictureFields) : Keeps sansDetails (setSlice g) :=
  .modify fun o => by simp only [sansDetails, hg]; rfl

theorem keeps_of_details {α : Type} {p : P α} (hp : Keeps sansDetails p) : Keeps sansSlice p :=
  hp.comp Prod.fst

theorem keeps_parseSliceSets (nalUnitType : Nat) :
    Keeps sansSlice (parseSliceSets nalUnitType) := by
  unfold parseSliceSets
  with_reducible repeat' first
    | assumption | exact .modify fun _ => rfl | refine .bind ?_ fun _ => ?_
    | refine .cond ?_ fun _ => ?_ | simp

theorem keeps_parseSegmentAddress (pps : Pps) (sps : Sps) :
    Keeps sansSlice (parseSegmentAddress pps sps) := by
  unfold parseSegmentAddress
  with_reducible repeat' first
    | assumption | refine .bind ?_ fun _ => ?_ | refine .cond ?_ fun _ => ?_ | simp

@[simp] theorem keeps_parseSliceRps (sps : Sps) : Keeps sansSlice (parseSliceRps sps) := by
  unfold parseSliceRps
  with_reducible repeat' first
    | assumption | refine keeps_parseStRps (fun _ => keeps_setSlice _) _ _ _
    | refine .bind ?_ fun _ => ?_ | refine .cond ?_ fun _ => ?_ | simp

@[simp] theorem keeps_countUsed (rps : ShortTermRps) (n i : Nat) :
    Keeps view (countUsed rps n i) := by
  induction n generalizing i with
  | zero => exact keeps_pure _
  | succ n ih => exact (keeps_access _ _).bind fun _ => (ih _).bind fun _ => keeps_pure _

@[simp] theorem keeps_parseListsModification (pps : Pps) (sps : Sps) :
    Keeps view (parseListsModification pps sps) := by
  unfold parseListsModification
  with_reducible repeat' first
    | assumption | refine .bind ?_ fun _ => ?_ | refine .cond ?_ fun _ => ?_ | refine .skip ?_ _
    | simp

@[simp] theorem keeps_parseListWeights (chroma : Bool) (n : Nat) :
    Keeps view (parseListWeights chroma n) := by
  have hflags (n i : Nat) : Keeps view (parseWeightFlags n i) := by
    induction n generalizing i with
    | zero => exact keeps_pure _
    | succ n ih =>
      refine (keeps_access _ _).bind fun _ => keeps_flag.bind fun _ => ?_
      exact (ih _).bind fun _ => keeps_pure _
  have hskip (n i : Nat) (luma chroma : List Bool) : Keeps view (skipWeights n i luma chroma) := by
    induction n generalizing i with
    | zero => exact keeps_pure _
    | succ n ih =>
      unfold skipWeights
      with_reducible repeat' first
        | assumption | exact ih _ | refine .bind ?_ fun _ => ?_ | refine .cond ?_ fun _ => ?_ | simp
  refine (hflags _ _).bind fun _ => .cond ?_ fun _ => ?_
  · exact (keeps_pure _).bind fun _ => hskip _ _ _ _
  · exact (hflags _ _).bind fun _ => hskip _ _ _ _

@[simp] theorem keeps_parsePredWeightTable (sps : Sps) : Keeps view (parsePredWeightTable sps) := by
  unfold parsePredWeightTable
  with_reducible repeat' first
    | assumption | refine .bind ?_ fun _ => ?_ | refine .cond ?_ fun _ => ?_ | simp

@[simp] theorem keeps_parseCollocated : Keeps sansDetails parseCollocated := by
  unfold parseCollocated
  with_reducible repeat' first
    | assumption | exact keeps_setDetail fun _ => rfl | refine .bind ?_ fun _ => ?_
    | refine .cond ?_ fun _ => ?_ | simp

@[simp] theorem keeps_parseInterSlice (pps : Pps) (sps : Sps) (st : Nat) :
    Keeps sansDetails (parseInterSlice pps sps st) := by
  unfold parseInterSlice
  with_reducible repeat' first
    | assumption | exact keeps_setDetail fun _ => rfl | refine .bind ?_ fun _ => ?_
    | refine .cond ?_ fun _ => ?_ | simp

@[simp] theorem keeps_parseSliceDeblocking (pps : Pps) :
    Keeps sansDetails (parseSliceDeblocking pps) := by
  unfold parseSliceDeblocking
  with_reducible repeat' first
    | assumption | exact keeps_setDetail fun _ => rfl | refine .bind ?_ fun _ => ?_
    | refine .cond ?_ fun _ => ?_ | simp

@[simp] theorem keeps_parseIndependent (nalUnitType : Nat) (pps : Pps) (sps : Sps) :
    Keeps sansSlice (parseIndependent nalUnitType pps sps) := by
  unfold parseIndependent
  with_reducible repeat' first
    | assumption | exact keeps_of_details (keeps_parseInterSlice _ _ _)
    | exact keeps_of_details (keeps_parseSliceDeblocking _) | refine .bind ?_ fun _ => ?_
    | refine .cond ?_ fun _ => ?_ | refine .skip ?_ _ | simp

@[simp] theorem keeps_parseEntryPoints (pps : Pps) (sps : Sps) :
    Keeps sansDetails (parseEntryPoints pps sps) := by
  unfold parseEntryPoints
  with_reducible repeat' first
    | assumption | exact keeps_setDetail fun _ => rfl | refine .bind ?_ fun _ => ?_
    | refine .cond ?_ fun _ => ?_ | refine .skip ?_ _ | simp

@[simp] theorem keeps_parseHeaderExtension (pps : Pps) : Keeps view (parseHeaderExtension pps) := by
  unfold parseHeaderExtension
  with_reducible repeat' first
    | assumption | refine .bind ?_ fun _ => ?_ | refine .cond ?_ fun _ => ?_ | refine .skip ?_ _
    | simp

@[simp] theorem keeps_alignLoop (turns : Nat) : Keeps view (alignLoop turns) := by
  induction turns with
  | zero => exact keeps_pure ()
  | succ turns ih =>
    refine keeps_brBitPos.bind fun _ => .cond (keeps_pure ()) fun _ => ?_
    exact keeps_brU1.bind fun _ => ih

theorem keeps_parseSliceHeader (nalUnitType : Nat) :
    Keeps sansSlice (parseSliceHeader nalUnitType) := by
  refine (keeps_parseSliceSets _).bind fun sets => (keeps_parseSegmentAddress _ _).bind fun _ => ?_
  with_reducible repeat' first
    | assumption | exact keeps_of_details (keeps_parseEntryPoints _ _) | refine .bind ?_ fun _ => ?_
    | refine .cond ?_ fun _ => ?_ | simp

end Slices

end H265

end Rkvdec.Bitstream
