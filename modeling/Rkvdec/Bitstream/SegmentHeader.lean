import Rkvdec.Bitstream.Rejection

/-! What the header of an H.265 slice segment says about the picture: it does not depend on the
segments before it, and a dependent segment says nothing. -/
namespace Rkvdec.Bitstream

section Rules

variable {σ α β : Type}

theorem exec_pure (a : α) (s : σ) (br : BitReader) :
    exec (pure a : Parser σ α) s br = ((.ok a, s), br) := rfl

theorem exec_throw (e : ParseError) (s : σ) (br : BitReader) :
    exec (throw e : Parser σ α) s br = ((.error e, s), br) := rfl

theorem exec_modify (g : σ → σ) (s : σ) (br : BitReader) :
    exec (modify g : Parser σ PUnit) s br = ((.ok (), g s), br) := rfl

theorem exec_get (s : σ) (br : BitReader) : exec (get : Parser σ σ) s br = ((.ok s, s), br) := rfl

theorem exec_ask (op : ReadOp) (s : σ) (br : BitReader) :
    exec (ask op : Parser σ op.Ans) s br = ((.ok (op.handle br).1, s), (op.handle br).2) := rfl

theorem exec_access (size i : Nat) (s : σ) (br : BitReader) :
    exec (access size i : Parser σ Unit) s br = ((.ok (), s), br) := rfl

theorem exec_ite {c : Prop} [Decidable c] (p q : Parser σ α) (s : σ) (br : BitReader) :
    exec (if c then p else q) s br = if c then exec p s br else exec q s br := by
  split
  · rfl
  · rfl

/-- From a result with `P` the parser, if it does not give up, returns with `Q`. -/
def Gives (P : σ → Prop) (p : Parser σ α) (Q : α → σ → Prop) : Prop :=
  ∀ s br a s' br', P s → exec p s br = ((.ok a, s'), br') → Q a s'

variable {P : σ → Prop}

theorem Gives.bind {p : Parser σ α} {f : α → Parser σ β} {Q : α → σ → Prop} {R : β → σ → Prop}
    (hp : Gives P p Q) (hf : ∀ a, Gives (Q a) (f a) R) : Gives P (p >>= f) R := by
  intro s br b s₂ br₂ hs hexec
  rw [exec_bind] at hexec
  cases hfirst : exec p s br with
  | mk r br₁ =>
    obtain ⟨res, s₁⟩ := r
    rw [hfirst] at hexec
    cases res with
    | ok a => exact hf a s₁ br₁ b s₂ br₂ (hp s br a s₁ br₁ hs hfirst) hexec
    | error e => cases hexec

theorem Gives.cond {c : Prop} [Decidable c] {p q : Parser σ α} {Q : α → σ → Prop}
    (hp : c → Gives P p Q) (hq : ¬ c → Gives P q Q) : Gives P (if c then p else q) Q := by
  split
  · exact hp ‹_›
  · exact hq ‹_›

/-- What only depends on a part that is kept stays so. -/
theorem Keeps.gives {γ : Type} {view : σ → γ} {p : Parser σ α} (hp : Keeps view p) (Q : γ → Prop)
    (hQ : ∀ s, P s → Q (view s)) : Gives P p fun _ s => Q (view s) := by
  intro s br a s' br' hs hexec
  have hview := hp s br
  rw [hexec] at hview
  change Q (view s')
  rw [show view s' = view s from hview]
  exact hQ s hs

theorem gives_get : Gives P (get : Parser σ σ) fun a s => a = s ∧ P s := by
  intro s br a s' br' hs hexec
  cases hexec
  exact ⟨rfl, hs⟩

theorem gives_modify {g : σ → σ} {Q : σ → Prop} (h : ∀ s, P s → Q (g s)) :
    Gives P (modify g : Parser σ PUnit) fun _ => Q := by
  intro s br a s' br' hs hexec
  cases hexec
  exact h s hs

/-- What holds of the result stays so. -/
def Leaves (P : σ → Prop) (p : Parser σ α) : Prop := Gives P p fun _ => P

theorem Leaves.bind {p : Parser σ α} {f : α → Parser σ β} (hp : Leaves P p)
    (hf : ∀ a, Leaves P (f a)) : Leaves P (p >>= f) := Gives.bind hp hf

theorem Leaves.cond {c : Prop} [Decidable c] {p q : Parser σ α} (hq : Leaves P q)
    (hp : Leaves P q → Leaves P p) : Leaves P (if c then p else q) :=
  Gives.cond (fun _ => hp hq) fun _ => hq

end Rules

namespace H265

section OnSlice

variable {α β : Type}

/-- A parser that reads and writes nothing of the result but the slice header. -/
def OnSlice (p : P α) : Prop :=
  ∀ slice br, ∃ res slice' br', ∀ o : ParseResult, o.slice = slice →
    exec p o br = ((res, { o with slice := slice' }), br')

theorem OnSlice.bind {p : P α} {f : α → P β} (hp : OnSlice p) (hf : ∀ a, OnSlice (f a)) :
    OnSlice (p >>= f) := by
  intro slice br
  obtain ⟨res, slice₁, br₁, hfirst⟩ := hp slice br
  cases res with
  | error e =>
    refine ⟨.error e, slice₁, br₁, fun o ho => ?_⟩
    rw [exec_bind, hfirst o ho]
  | ok a =>
    obtain ⟨res, slice₂, br₂, hnext⟩ := hf a slice₁ br₁
    refine ⟨res, slice₂, br₂, fun o ho => ?_⟩
    rw [exec_bind, hfirst o ho]
    exact hnext _ rfl

theorem OnSlice.cond {c : Prop} [Decidable c] {p q : P α} (hq : OnSlice q)
    (hp : OnSlice q → OnSlice p) : OnSlice (if c then p else q) := by
  split
  · exact hp hq
  · exact hq

theorem OnSlice.reads {p : P α} (h : ∀ br, ∃ res br', ∀ o, exec p o br = ((res, o), br')) :
    OnSlice p := by
  intro slice br
  obtain ⟨res, br', hexec⟩ := h br
  refine ⟨res, slice, br', fun o ho => ?_⟩
  subst ho
  exact hexec o

/-- Of the result only the slice header may be looked at. -/
theorem OnSlice.get {f : ParseResult → P α}
    (hf : ∀ o o' : ParseResult, o.slice = o'.slice → f o = f o') (h : ∀ o, OnSlice (f o)) :
    OnSlice (get >>= f) := by
  intro slice br
  obtain ⟨res, slice', br', hexec⟩ := h { slice := slice } slice br
  refine ⟨res, slice', br', fun o ho => ?_⟩
  rw [exec_bind, exec_get]
  simp only [hf o { slice := slice } ho]
  exact hexec o ho

@[simp] theorem onSlice_setSlice (g : SliceHeader → SliceHeader) : OnSlice (setSlice g) := by
  intro slice br
  refine ⟨.ok (), g slice, br, fun o ho => ?_⟩
  subst ho
  rfl

@[simp] theorem onSlice_pure (a : α) : OnSlice (pure a : P α) :=
  .reads fun br => ⟨_, br, fun _ => rfl⟩

@[simp] theorem onSlice_throw (e : ParseError) : OnSlice (throw e : P α) :=
  .reads fun br => ⟨_, br, fun _ => rfl⟩

theorem onSlice_ask (op : ReadOp) : OnSlice (ask op : P op.Ans) :=
  .reads fun br => ⟨_, _, fun o => exec_ask op o br⟩

@[simp] theorem onSlice_brU (n : Nat) : OnSlice (brU n) := onSlice_ask _
@[simp] theorem onSlice_brU1 : OnSlice brU1 := onSlice_ask _
@[simp] theorem onSlice_brUe : OnSlice brUe := onSlice_ask .ue
@[simp] theorem onSlice_brBitPos : OnSlice brBitPos := onSlice_ask .bitPos
@[simp] theorem onSlice_brLen : OnSlice brLen := onSlice_ask .len
@[simp] theorem onSlice_brFail : OnSlice brFail := onSlice_ask .fail

@[simp] theorem onSlice_access (size i : Nat) : OnSlice (access size i) :=
  onSlice_ask (.access size i)

@[simp] theorem onSlice_flag : OnSlice flag := onSlice_brU1.bind fun _ => onSlice_pure _

@[simp] theorem onSlice_brSe : OnSlice brSe := onSlice_brUe.bind fun _ => onSlice_pure _

@[simp] theorem onSlice_brU8 (n : Nat) : OnSlice (brU8 n) :=
  (onSlice_brU n).bind fun _ => onSlice_pure _

@[simp] theorem onSlice_brUe8 : OnSlice brUe8 := onSlice_brUe.bind fun _ => onSlice_pure _

theorem OnSlice.skip {p : P Unit} (hp : OnSlice p) (n : Nat) : OnSlice (skip n p) := by
  induction n with
  | zero => exact onSlice_pure ()
  | succ n ih => exact hp.bind fun _ => ih

@[simp] theorem onSlice_parsePredictionFlags (n j : Nat) : OnSlice (parsePredictionFlags n j) := by
  induction n generalizing j with
  | zero => exact onSlice_pure _
  | succ n ih =>
    unfold parsePredictionFlags
    with_reducible repeat' first
      | assumption | exact ih _ | refine .bind ?_ fun _ => ?_ | refine .cond ?_ fun _ => ?_ | simp

@[simp] theorem onSlice_predictFrom (ref : ShortTermRps) (flags : List (Nat × Bool))
    (deltaRps : Int) (keep : Int → Bool) (entries : List Nat) :
    OnSlice (predictFrom ref flags deltaRps keep entries) := by
  induction entries with
  | nil => exact onSlice_pure _
  | cons i rest ih =>
    refine (onSlice_access _ _).bind fun _ => (onSlice_access _ _).bind fun _ => ?_
    exact ih.bind fun _ => onSlice_pure _

@[simp] theorem onSlice_parseInterRps (rpsList : List ShortTermRps) (idx num : Nat)
    (out : ShortTermRps) : OnSlice (parseInterRps rpsList idx num out) := by
  unfold parseInterRps
  with_reducible repeat' first
    | assumption | refine .bind ?_ fun _ => ?_ | refine .cond ?_ fun _ => ?_ | simp

@[simp] theorem onSlice_parseDeltas (sign : Int) (n j : Nat) (prev : Int) (out : ShortTermRps) :
    OnSlice (parseDeltas sign n j prev out) := by
  induction n generalizing j prev out with
  | zero => exact onSlice_pure _
  | succ n ih =>
    refine onSlice_brUe.bind fun _ => (onSlice_access _ _).bind fun _ => ?_
    exact (onSlice_brU8 _).bind fun _ => ih _ _ _

@[simp] theorem onSlice_parseDirectRps (out : ShortTermRps) : OnSlice (parseDirectRps out) := by
  unfold parseDirectRps
  with_reducible repeat' first
    | assumption | refine .bind ?_ fun _ => ?_ | refine .cond ?_ fun _ => ?_ | simp

@[simp] theorem onSlice_parseSliceRps (sps : Sps) : OnSlice (parseSliceRps sps) := by
  unfold parseSliceRps parseStRps
  with_reducible repeat' first
    | assumption | refine .bind ?_ fun _ => ?_ | refine .cond ?_ fun _ => ?_ | simp

@[simp] theorem onSlice_countUsed (rps : ShortTermRps) (n i : Nat) :
    OnSlice (countUsed rps n i) := by
  induction n generalizing i with
  | zero => exact onSlice_pure _
  | succ n ih => exact (onSlice_access _ _).bind fun _ => (ih _).bind fun _ => onSlice_pure _

@[simp] theorem onSlice_parseListsModification (pps : Pps) (sps : Sps) :
    OnSlice (parseListsModification pps sps) := by
  refine .get (fun o o' h => by simp only [h]) fun o => ?_
  with_reducible repeat' first
    | assumption | refine .bind ?_ fun _ => ?_ | refine .cond ?_ fun _ => ?_ | refine .skip ?_ _
    | simp

@[simp] theorem onSlice_parseListWeights (chroma : Bool) (n : Nat) :
    OnSlice (parseListWeights chroma n) := by
  have hflags (n i : Nat) : OnSlice (parseWeightFlags n i) := by
    induction n generalizing i with
    | zero => exact onSlice_pure _
    | succ n ih =>
      refine (onSlice_access _ _).bind fun _ => onSlice_flag.bind fun _ => ?_
      exact (ih _).bind fun _ => onSlice_pure _
  have hskip (n i : Nat) (luma chroma : List Bool) : OnSlice (skipWeights n i luma chroma) := by
    induction n generalizing i with
    | zero => exact onSlice_pure _
    | succ n ih =>
      unfold skipWeights
      with_reducible repeat' first
        | assumption | exact ih _ | refine .bind ?_ fun _ => ?_ | refine .cond ?_ fun _ => ?_ | simp
  refine (hflags _ _).bind fun _ => .cond ?_ fun _ => ?_
  · exact (onSlice_pure _).bind fun _ => hskip _ _ _ _
  · exact (hflags _ _).bind fun _ => hskip _ _ _ _

@[simp] theorem onSlice_parsePredWeightTable (sps : Sps) : OnSlice (parsePredWeightTable sps) := by
  refine .get (fun o o' h => by simp only [h]) fun o => ?_
  with_reducible repeat' first
    | assumption | refine .bind ?_ fun _ => ?_ | refine .cond ?_ fun _ => ?_ | simp

@[simp] theorem onSlice_parseCollocated : OnSlice parseCollocated := by
  refine .get (fun o o' h => by simp only [h]) fun o => ?_
  with_reducible repeat' first
    | assumption | refine .bind ?_ fun _ => ?_ | refine .cond ?_ fun _ => ?_ | simp

@[simp] theorem onSlice_parseInterSlice (pps : Pps) (sps : Sps) (st : Nat) :
    OnSlice (parseInterSlice pps sps st) := by
  unfold parseInterSlice
  with_reducible repeat' first
    | assumption | refine .bind ?_ fun _ => ?_ | refine .cond ?_ fun _ => ?_ | simp

@[simp] theorem onSlice_parseSliceDeblocking (pps : Pps) : OnSlice (parseSliceDeblocking pps) := by
  unfold parseSliceDeblocking
  with_reducible repeat' first
    | assumption | refine .get (fun o o' h => by simp only [h]) fun _ => ?_
    | refine .bind ?_ fun _ => ?_ | refine .cond ?_ fun _ => ?_ | simp

@[simp] theorem onSlice_parseIndependent (nalUnitType : Nat) (pps : Pps) (sps : Sps) :
    OnSlice (parseIndependent nalUnitType pps sps) := by
  unfold parseIndependent
  with_reducible repeat' first
    | assumption | refine .get (fun o o' h => by simp only [h]) fun _ => ?_
    | refine .bind ?_ fun _ => ?_ | refine .cond ?_ fun _ => ?_ | refine .skip ?_ _ | simp

@[simp] theorem onSlice_parseEntryPoints (pps : Pps) (sps : Sps) :
    OnSlice (parseEntryPoints pps sps) := by
  unfold parseEntryPoints
  with_reducible repeat' first
    | assumption | refine .bind ?_ fun _ => ?_ | refine .cond ?_ fun _ => ?_ | refine .skip ?_ _
    | simp

@[simp] theorem onSlice_parseHeaderExtension (pps : Pps) : OnSlice (parseHeaderExtension pps) := by
  unfold parseHeaderExtension
  with_reducible repeat' first
    | assumption | refine .bind ?_ fun _ => ?_ | refine .cond ?_ fun _ => ?_ | refine .skip ?_ _
    | simp

@[simp] theorem onSlice_alignLoop (turns : Nat) : OnSlice (alignLoop turns) := by
  induction turns with
  | zero => exact onSlice_pure ()
  | succ turns ih =>
    refine onSlice_brBitPos.bind fun _ => .cond (onSlice_pure ()) fun _ => ?_
    exact onSlice_brU1.bind fun _ => ih

@[simp] theorem onSlice_parseSegmentAddress (pps : Pps) (sps : Sps) :
    OnSlice (parseSegmentAddress pps sps) := by
  refine .get (fun o o' h => by simp only [h]) fun o => ?_
  with_reducible repeat' first
    | assumption | refine .bind ?_ fun _ => ?_ | refine .cond ?_ fun _ => ?_ | simp

end OnSlice

section Header

variable {nalUnitType : Nat} {o : ParseResult} {br br' : BitReader}

/-- The header behind the parameter sets. -/
def parseSegment (nalUnitType : Nat) (pps : Pps) (sps : Sps) : P Unit := do
  parseSegmentAddress pps sps
  if (← get).slice.dependentSliceSegmentFlag = 0 then parseIndependent nalUnitType pps sps
  parseEntryPoints pps sps
  parseHeaderExtension pps
  let _ ← brU1
  alignLoop 8
  let headerBits ← brBitPos
  setSlice fun s => { s with headerBitSize := u32 headerBits }

theorem parseSliceHeader_eq (nalUnitType : Nat) : parseSliceHeader nalUnitType =
    parseSliceSets nalUnitType >>= fun sets => parseSegment nalUnitType sets.1 sets.2 := rfl

theorem onSlice_parseSegment (nalUnitType : Nat) (pps : Pps) (sps : Sps) :
    OnSlice (parseSegment nalUnitType pps sps) := by
  unfold parseSegment
  with_reducible repeat' first
    | assumption | refine .get (fun o o' h => by simp only [h]) fun _ => ?_
    | refine .bind ?_ fun _ => ?_ | refine .cond ?_ fun _ => ?_ | simp

theorem exec_brU8 (n : Nat) : exec (brU8 n) o br = ((.ok (u8 (br.u n).1), o), (br.u n).2) := rfl

theorem exec_brUe8 : exec brUe8 o br = ((.ok (u8 br.ue.1), o), br.ue.2) := rfl

/-- The result with the sets a slice refers to activated. -/
def activate (nalUnitType : Nat) (slice : SliceHeader) (spsId : Nat) (o : ParseResult) :
    ParseResult :=
  { o with
    slice := slice
    isIrap := isIrapType nalUnitType
    isIdr := isIdrType nalUnitType
    activePpsId := slice.slicePicParameterSetId
    activeSpsId := spsId }

/-- The first part of the header gives up, or activates the sets of an empty slice header; which, is
up to the sets that are stored and the bits. -/
theorem exec_parseSliceSets (nalUnitType : Nat) (pps : List Pps) (sps : List Sps) (br : BitReader) :
    (∀ o, o.pps = pps → o.sps = sps →
    ∃ e, (exec (parseSliceSets nalUnitType) o br).1.1 = .error e) ∨
    ∃ slice br', slice.pictureFields = SliceHeader.pictureFields {} ∧
      ∀ o, o.pps = pps → o.sps = sps →
        exec (parseSliceSets nalUnitType) o br =
          ((.ok (pps.getD slice.slicePicParameterSetId {},
            sps.getD (pps.getD slice.slicePicParameterSetId {}).spsId {}),
            activate nalUnitType slice (pps.getD slice.slicePicParameterSetId {}).spsId o),
            br') := by
  -- the reader in front of the id of the PPS, behind a flag that only an IRAP picture has
  let head := br.u 1
  let noOutput := head.2.u 1
  let brId := if isIrapType nalUnitType then noOutput.2 else head.2
  let slice : SliceHeader :=
    { firstSliceSegmentInPicFlag := u8 head.1
      noOutputOfPriorPicsFlag := if isIrapType nalUnitType then u8 noOutput.1 else 0
      slicePicParameterSetId := u8 brId.ue.1 }
  have hexec (o : ParseResult) (hpps : o.pps = pps) (hsps : o.sps = sps) :
      exec (parseSliceSets nalUnitType) o br =
        if maxPps ≤ u8 brId.ue.1 then
          ((.error .invalid, { o with
            slice := slice
            isIrap := isIrapType nalUnitType
            isIdr := isIdrType nalUnitType }), brId.ue.2)
        else if (pps.getD (u8 brId.ue.1) {}).valid = false then
          ((.error .invalid, { o with
            slice := slice
            isIrap := isIrapType nalUnitType
            isIdr := isIdrType nalUnitType }), brId.ue.2)
        else if (sps.getD (pps.getD (u8 brId.ue.1) {}).spsId {}).valid = false then
          ((.error .invalid, { o with
            slice := slice
            isIrap := isIrapType nalUnitType
            isIdr := isIdrType nalUnitType
            activePpsId := u8 brId.ue.1 }), brId.ue.2)
        else
          ((.ok (pps.getD (u8 brId.ue.1) {}, sps.getD (pps.getD (u8 brId.ue.1) {}).spsId {}),
            activate nalUnitType slice (pps.getD (u8 brId.ue.1) {}).spsId o), brId.ue.2) := by
    subst hpps hsps
    unfold parseSliceSets
    simp only [exec_bind, setSlice, exec_modify, exec_brU8, exec_brUe8, exec_ite, exec_get,
      exec_access, exec_throw, exec_pure]
    cases hirap : isIrapType nalUnitType with
    | true =>
      simp only [hirap, if_true, brId, slice, activate]
      split_ifs <;> rfl
    | false =>
      simp only [hirap, Bool.false_eq_true, if_false, brId, slice, activate]
      split_ifs <;> rfl
  by_cases hid : maxPps ≤ u8 brId.ue.1
  · refine .inl fun o hpps hsps => ⟨.invalid, ?_⟩
    rw [hexec o hpps hsps, if_pos hid]
  · by_cases hppsValid : (pps.getD (u8 brId.ue.1) {}).valid = false
    · refine .inl fun o hpps hsps => ⟨.invalid, ?_⟩
      rw [hexec o hpps hsps, if_neg hid, if_pos hppsValid]
    · by_cases hspsValid : (sps.getD (pps.getD (u8 brId.ue.1) {}).spsId {}).valid = false
      · refine .inl fun o hpps hsps => ⟨.invalid, ?_⟩
        rw [hexec o hpps hsps, if_neg hid, if_neg hppsValid, if_pos hspsValid]
      · refine .inr ⟨slice, brId.ue.2, rfl, fun o hpps hsps => ?_⟩
        rw [hexec o hpps hsps, if_neg hid, if_neg hppsValid, if_neg hspsValid]

/-- What the header says about the picture. -/
def SliceHeader.picture (s : SliceHeader) : PictureFields :=
  { s.pictureFields with dependentSliceSegmentFlag := 0 }

def lsbView (o : ParseResult) : Nat := o.slice.slicePicOrderCntLsb

def dependentView (o : ParseResult) : Nat := o.slice.dependentSliceSegmentFlag

def pictureView (o : ParseResult) : PictureFields := o.slice.picture

theorem keeps_setLsb {g : SliceHeader → SliceHeader}
    (hg : ∀ s, (g s).slicePicOrderCntLsb = s.slicePicOrderCntLsb) : Keeps lsbView (setSlice g) :=
  .modify fun _ => hg _

theorem keeps_setDependent {g : SliceHeader → SliceHeader}
    (hg : ∀ s, (g s).dependentSliceSegmentFlag = s.dependentSliceSegmentFlag) :
    Keeps dependentView (setSlice g) := .modify fun _ => hg _

theorem keeps_setPicture {g : SliceHeader → SliceHeader} (hg : ∀ s, (g s).picture = s.picture) :
    Keeps pictureView (setSlice g) := .modify fun _ => hg _

theorem keeps_lsb_of_details {α : Type} {p : P α} (hp : Keeps sansDetails p) : Keeps lsbView p :=
  hp.comp fun x => x.2.2.2.2.2.slicePicOrderCntLsb

theorem keeps_dependent_of_details {α : Type} {p : P α} (hp : Keeps sansDetails p) :
    Keeps dependentView p := hp.comp fun x => x.2.2.2.2.2.dependentSliceSegmentFlag

theorem keeps_picture_of_details {α : Type} {p : P α} (hp : Keeps sansDetails p) :
    Keeps pictureView p := hp.comp fun x => { x.2.2.2.2.2 with dependentSliceSegmentFlag := 0 }

/-- The POC LSB of the slice fits the number of bits it is coded in, and 16. -/
def LsbFits (sps : Sps) (o : ParseResult) : Prop :=
  o.slice.slicePicOrderCntLsb < 2 ^ (sps.log2MaxPicOrderCntLsbMinus4 + 4) ∧
    o.slice.slicePicOrderCntLsb < 2 ^ 16

theorem leaves_of_lsb {α : Type} {sps : Sps} {p : P α} (hp : Keeps lsbView p) :
    Leaves (LsbFits sps) p :=
  hp.gives (fun lsb => lsb < 2 ^ (sps.log2MaxPicOrderCntLsbMinus4 + 4) ∧ lsb < 2 ^ 16) fun _ h => h

theorem gives_parseSliceRps (sps : Sps) :
    Gives (fun _ => True) (parseSliceRps sps) fun _ => LsbFits sps := by
  have hread : Gives (fun _ : ParseResult => True) (brU (sps.log2MaxPicOrderCntLsbMinus4 + 4))
      fun lsb _ => lsb < 2 ^ (sps.log2MaxPicOrderCntLsbMinus4 + 4) := by
    intro s br a s' br' _ hexec
    cases hexec
    have hlt := uLoop_lt (sps.log2MaxPicOrderCntLsbMinus4 + 4) 0 br
    rwa [Nat.zero_add, Nat.one_mul] at hlt
  unfold parseSliceRps parseStRps
  refine hread.bind fun lsb => Gives.bind (Q := fun _ => LsbFits sps) ?_ fun _ => ?_
  · refine gives_modify fun o hlsb => ?_
    exact ⟨lt_of_le_of_lt (Nat.mod_le _ _) hlsb, Nat.mod_lt _ (by decide)⟩
  · refine leaves_of_lsb ?_
    with_reducible repeat' first
      | assumption | exact keeps_setLsb fun _ => rfl | refine .bind ?_ fun _ => ?_
      | refine .cond ?_ fun _ => ?_ | simp

theorem keeps_dependent_parseSliceRps (sps : Sps) : Keeps dependentView (parseSliceRps sps) := by
  unfold parseSliceRps parseStRps
  with_reducible repeat' first
    | assumption | exact keeps_setDependent fun _ => rfl | refine .bind ?_ fun _ => ?_
    | refine .cond ?_ fun _ => ?_ | simp

theorem keeps_dependent_parseIndependent (nalUnitType : Nat) (pps : Pps) (sps : Sps) :
    Keeps dependentView (parseIndependent nalUnitType pps sps) := by
  unfold parseIndependent
  with_reducible repeat' first
    | assumption | exact keeps_setDependent fun _ => rfl | exact keeps_dependent_parseSliceRps _
    | exact keeps_dependent_of_details (keeps_parseInterSlice _ _ _)
    | exact keeps_dependent_of_details (keeps_parseSliceDeblocking _) | refine .bind ?_ fun _ => ?_
    | refine .cond ?_ fun _ => ?_ | refine .skip ?_ _ | simp

/-- An IDR slice has no picture order count and no reference picture set. -/
theorem keeps_details_parseIndependent (pps : Pps) (sps : Sps)
    (hidr : isIdrType nalUnitType = true) :
    Keeps sansDetails (parseIndependent nalUnitType pps sps) := by
  unfold parseIndependent
  simp only [hidr, Bool.true_eq_false, if_false]
  with_reducible repeat' first
    | assumption | exact keeps_setDetail fun _ => rfl | refine .bind ?_ fun _ => ?_
    | refine .cond ?_ fun _ => ?_ | refine .skip ?_ _ | simp

theorem keeps_picture_parseSegmentAddress (pps : Pps) (sps : Sps) :
    Keeps pictureView (parseSegmentAddress pps sps) := by
  unfold parseSegmentAddress
  with_reducible repeat' first
    | assumption | exact keeps_setPicture fun _ => rfl | refine .bind ?_ fun _ => ?_
    | refine .cond ?_ fun _ => ?_ | simp

theorem leaves_parseIndependent (pps : Pps) (sps : Sps) :
    Leaves (LsbFits sps) (parseIndependent nalUnitType pps sps) := by
  have hrps : Leaves (LsbFits sps) (parseSliceRps sps) :=
    fun s br a s' br' _ hexec => gives_parseSliceRps sps s br a s' br' trivial hexec
  unfold parseIndependent
  with_reducible repeat' first
    | assumption | exact leaves_of_lsb (keeps_setLsb fun _ => rfl)
    | exact leaves_of_lsb (keeps_lsb_of_details (keeps_parseInterSlice _ _ _))
    | exact leaves_of_lsb (keeps_lsb_of_details (keeps_parseSliceDeblocking _))
    | refine .bind ?_ fun _ => ?_ | refine .cond ?_ fun _ => ?_ | refine leaves_of_lsb (.skip ?_ _)
    | refine leaves_of_lsb ?_ | simp

/-- What the header of a segment of the type says: a dependent segment and one of an IDR picture say
nothing. -/
structure Says (nalUnitType : Nat) (sps : Sps) (o : ParseResult) : Prop where
  fits : LsbFits sps o
  nothing : dependentView o ≠ 0 ∨ isIdrType nalUnitType = true →
    pictureView o = SliceHeader.picture {}

theorem leaves_says_of_details {α : Type} {sps : Sps} {p : P α} (hp : Keeps sansDetails p) :
    Leaves (Says nalUnitType sps) p := by
  intro s br a s' br' hs hexec
  have hdetails : Keeps sansDetails p := hp
  refine ⟨leaves_of_lsb (keeps_lsb_of_details hp) s br a s' br' hs.fits hexec, fun h => ?_⟩
  have hdependent : dependentView s' = dependentView s := by
    have hview := keeps_dependent_of_details hp s br
    rwa [hexec] at hview
  have hpicture : pictureView s' = pictureView s := by
    have hview := keeps_picture_of_details hp s br
    rwa [hexec] at hview
  rw [hpicture]
  rw [hdependent] at h
  exact hs.nothing h

theorem says_of_nothing {sps : Sps} (h : pictureView o = SliceHeader.picture {}) :
    Says nalUnitType sps o := by
  have hlsb : o.slice.slicePicOrderCntLsb = 0 := congrArg PictureFields.slicePicOrderCntLsb h
  refine ⟨⟨?_, ?_⟩, fun _ => h⟩
  · rw [hlsb]
    exact Nat.two_pow_pos _
  · rw [hlsb]
    decide

/-- An independent segment says something unless the picture is an IDR. -/
theorem gives_parseIndependent (pps : Pps) (sps : Sps) :
    Gives (fun o => dependentView o = 0 ∧ pictureView o = SliceHeader.picture {})
      (parseIndependent nalUnitType pps sps) fun _ => Says nalUnitType sps := by
  intro s br a s' br' hs hexec
  have hdependent : dependentView s' = dependentView s := by
    have hview := keeps_dependent_parseIndependent nalUnitType pps sps s br
    rwa [hexec] at hview
  have hbefore : Says nalUnitType sps s := says_of_nothing hs.2
  refine ⟨leaves_parseIndependent pps sps s br a s' br' hbefore.fits hexec, ?_⟩
  rintro (h | hidr)
  · rw [hdependent] at h
    exact absurd hs.1 h
  · have hview := keeps_picture_of_details (keeps_details_parseIndependent pps sps hidr) s br
    rw [hexec] at hview
    exact hview.trans hs.2

theorem gives_parseSegment (pps : Pps) (sps : Sps) :
    Gives (fun o => pictureView o = SliceHeader.picture {}) (parseSegment nalUnitType pps sps)
      fun _ => Says nalUnitType sps := by
  have htail : Leaves (Says nalUnitType sps) (do
      parseEntryPoints pps sps
      parseHeaderExtension pps
      let _ ← brU1
      alignLoop 8
      let headerBits ← brBitPos
      setSlice fun s => { s with headerBitSize := u32 headerBits }) := by
    refine leaves_says_of_details ?_
    with_reducible repeat' first
      | assumption | exact keeps_setDetail fun _ => rfl | refine .bind ?_ fun _ => ?_ | simp
  refine Gives.bind ((keeps_picture_parseSegmentAddress pps sps).gives
    (· = SliceHeader.picture {}) fun _ h => h) fun _ => gives_get.bind fun o => Gives.cond ?_ ?_
  · intro hdependent
    refine Gives.bind (Q := fun _ => Says nalUnitType sps) ?_ fun _ => htail
    rintro s br a s' br' ⟨rfl, hs⟩ hexec
    exact gives_parseIndependent pps sps o br a s' br' ⟨hdependent, hs⟩ hexec
  · rintro - s br a s' br' ⟨rfl, hs⟩ hexec
    exact htail o br a s' br' (says_of_nothing hs) hexec

/-- Whether a header is accepted and what it then says is up to the sets that are stored and to the
bits. -/
theorem exec_parseSliceHeader (nalUnitType : Nat) (pps : List Pps) (sps : List Sps)
    (br : BitReader) :
    (∀ o, o.pps = pps → o.sps = sps →
      ∃ e, (exec (parseSliceHeader nalUnitType) o br).1.1 = .error e) ∨
    ∃ first slice br' spsId, (∀ o, o.pps = pps → o.sps = sps →
      exec (parseSliceHeader nalUnitType) o br =
        ((.ok (), { activate nalUnitType first spsId o with slice := slice }), br')) ∧
      ∀ o : ParseResult, Says nalUnitType (sps.getD spsId {}) { o with slice := slice } := by
  rcases exec_parseSliceSets nalUnitType pps sps br with herror | ⟨first, br₁, hfirst, hsets⟩
  · refine .inl fun o hpps hsps => ?_
    obtain ⟨e, he⟩ := herror o hpps hsps
    refine ⟨e, ?_⟩
    rw [parseSliceHeader_eq, exec_bind]
    cases hexec : exec (parseSliceSets nalUnitType) o br with
    | mk r br₁ =>
      obtain ⟨res, o₁⟩ := r
      rw [hexec] at he
      cases he
      rfl
  · have hsegment := onSlice_parseSegment nalUnitType (pps.getD first.slicePicParameterSetId {})
      (sps.getD (pps.getD first.slicePicParameterSetId {}).spsId {})
    obtain ⟨res, slice, br', hexec⟩ := hsegment first br₁
    have hrun (o : ParseResult) (hpps : o.pps = pps) (hsps : o.sps = sps) :
        exec (parseSliceHeader nalUnitType) o br = ((res, { activate nalUnitType first
          (pps.getD first.slicePicParameterSetId {}).spsId o with slice := slice }), br') := by
      rw [parseSliceHeader_eq, exec_bind, hsets o hpps hsps]
      exact hexec _ rfl
    cases res with
    | error e =>
      refine .inl fun o hpps hsps => ⟨e, ?_⟩
      rw [hrun o hpps hsps]
    | ok u =>
      refine .inr ⟨first, slice, br', _, hrun, fun o => ?_⟩
      have hpicture : pictureView { o with slice := first } = SliceHeader.picture {} :=
        congrArg (fun f : PictureFields => { f with dependentSliceSegmentFlag := 0 }) hfirst
      exact gives_parseSegment _ _ _ _ _ _ _ hpicture (hexec { o with slice := first } rfl)

end Header

end H265

end Rkvdec.Bitstream
