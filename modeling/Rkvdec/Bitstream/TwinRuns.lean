import Rkvdec.Bitstream.Footprint

/-! Two runs of a slice header parser from results that differ in what earlier slices left behind.
They read the same, and what they store differs only where a list is appended to. -/
namespace Rkvdec.Bitstream

section Rules

variable {σ α β : Type} {R : σ → σ → Prop}

/-- From results related by `R₀` a parser returns the same, reads the same and leaves results
related by `R`. -/
def AlikeFrom (R₀ R : σ → σ → Prop) (p : Parser σ α) : Prop :=
  ∀ s s' br, R₀ s s' → (exec p s br).1.1 = (exec p s' br).1.1 ∧
    (exec p s br).2 = (exec p s' br).2 ∧ R (exec p s br).1.2 (exec p s' br).1.2

/-- The relation is kept. -/
def Alike (R : σ → σ → Prop) (p : Parser σ α) : Prop := AlikeFrom R R p

theorem AlikeFrom.bind {R₀ : σ → σ → Prop} {p : Parser σ α} {f : α → Parser σ β}
    (hp : AlikeFrom R₀ R p) (hf : ∀ a, Alike R (f a)) : AlikeFrom R₀ R (p >>= f) := by
  intro s s' br h
  have hfirst := hp s s' br h
  rw [exec_bind, exec_bind]
  cases hexec : exec p s br with
  | mk r br₁ =>
    cases hexec' : exec p s' br with
    | mk r' br₂ =>
      obtain ⟨res, s₁⟩ := r
      obtain ⟨res', s₂⟩ := r'
      rw [hexec, hexec'] at hfirst
      obtain ⟨rfl, rfl, hrel⟩ := hfirst
      cases res with
      | ok a => exact hf a s₁ s₂ br₁ hrel
      | error status => exact ⟨rfl, rfl, hrel⟩

/-- What a parser overwrites first may differ. -/
theorem AlikeFrom.overwrite {g : σ → σ} :
    AlikeFrom (fun s s' => R (g s) (g s')) R (modify g : Parser σ PUnit) :=
  fun _ _ _ h => ⟨rfl, rfl, h⟩

theorem Alike.bind {p : Parser σ α} {f : α → Parser σ β} (hp : Alike R p)
    (hf : ∀ a, Alike R (f a)) : Alike R (p >>= f) := AlikeFrom.bind hp hf

theorem Alike.cond {c : Prop} [Decidable c] {p q : Parser σ α} (hq : Alike R q)
    (hp : Alike R q → Alike R p) : Alike R (if c then p else q) := by
  split
  · exact hp hq
  · exact hq

theorem Alike.modify {g : σ → σ} (h : ∀ s s', R s s' → R (g s) (g s')) :
    Alike R (modify g : Parser σ PUnit) := fun s s' _ hs => ⟨rfl, rfl, h s s' hs⟩

/-- What is read of the result must be the same in related ones. -/
theorem Alike.get {f : σ → Parser σ α} (h : ∀ s s', R s s' → f s' = f s) (hf : ∀ s, Alike R (f s)) :
    Alike R (get >>= f) := by
  intro s s' br hs
  change (exec (f s) s br).1.1 = (exec (f s') s' br).1.1 ∧
    (exec (f s) s br).2 = (exec (f s') s' br).2 ∧
    R (exec (f s) s br).1.2 (exec (f s') s' br).1.2
  rw [h s s' hs]
  exact hf s s s' br hs

@[simp] theorem alike_pure (a : α) : Alike R (pure a : Parser σ α) := fun _ _ _ h => ⟨rfl, rfl, h⟩

@[simp] theorem alike_throw (e : ParseError) : Alike R (throw e : Parser σ α) :=
  fun _ _ _ h => ⟨rfl, rfl, h⟩

theorem alike_ask (op : ReadOp) : Alike R (ask op : Parser σ op.Ans) := fun _ _ _ h => ⟨rfl, rfl, h⟩

@[simp] theorem alike_brU (n : Nat) : Alike R (brU n : Parser σ Nat) := alike_ask _
@[simp] theorem alike_brU1 : Alike R (brU1 : Parser σ Nat) := alike_ask _
@[simp] theorem alike_brUe : Alike R (brUe : Parser σ Nat) := alike_ask .ue
@[simp] theorem alike_brEof : Alike R (brEof : Parser σ Bool) := alike_ask .eof
@[simp] theorem alike_brLen : Alike R (brLen : Parser σ Nat) := alike_ask .len

@[simp] theorem alike_flag : Alike R (flag : Parser σ Bool) :=
  alike_brU1.bind fun _ => alike_pure _

@[simp] theorem alike_brSe : Alike R (brSe : Parser σ Int) :=
  alike_brUe.bind fun _ => alike_pure _

@[simp] theorem alike_checkFailed : Alike R (checkFailed : Parser σ Unit) :=
  Alike.bind (alike_ask .failed) fun _ => .cond (alike_pure _) fun _ => alike_throw _

theorem Alike.skip {p : Parser σ Unit} (hp : Alike R p) (n : Nat) : Alike R (skip n p) := by
  induction n with
  | zero => exact alike_pure ()
  | succ n ih => exact hp.bind fun _ => ih

end Rules

namespace H264

/-- What the slices of an access unit leave behind, apart from the header of the last one. -/
structure Marks where
  hasSlice : Bool
  sliceData : List Byte
  adaptiveRefPicMarkingModeFlag : Nat
  idrNoOutputOfPriorPicsFlag : Nat
  idrLongTermReferenceFlag : Nat
  mmco : List Mmco
  refPicListModificationFlagL0 : Nat
  refPicListModificationFlagL1 : Nat
  rplmL0 : List RplmOp
  rplmL1 : List RplmOp

def ParseResult.marks (o : ParseResult) : Marks :=
  ⟨o.hasSlice, o.sliceData, o.adaptiveRefPicMarkingModeFlag, o.idrNoOutputOfPriorPicsFlag,
    o.idrLongTermReferenceFlag, o.mmco, o.refPicListModificationFlagL0,
    o.refPicListModificationFlagL1, o.rplmL0, o.rplmL1⟩

def ParseResult.withMarks (o : ParseResult) (m : Marks) : ParseResult :=
  { o with
    hasSlice := m.hasSlice
    sliceData := m.sliceData
    adaptiveRefPicMarkingModeFlag := m.adaptiveRefPicMarkingModeFlag
    idrNoOutputOfPriorPicsFlag := m.idrNoOutputOfPriorPicsFlag
    idrLongTermReferenceFlag := m.idrLongTermReferenceFlag
    mmco := m.mmco
    refPicListModificationFlagL0 := m.refPicListModificationFlagL0
    refPicListModificationFlagL1 := m.refPicListModificationFlagL1
    rplmL0 := m.rplmL0
    rplmL1 := m.rplmL1 }

/-- A flag that both runs have set, or that is still what it was before. -/
def SetOr (before : Nat) (x x' : Nat) : Prop := x' = x ∨ x = 0 ∧ x' = before

/-- What the second run has on top of the first: the operations that were there before, and the
flags it has not set itself. -/
structure Ahead (before x x' : Marks) : Prop where
  mmco : x'.mmco = (before.mmco ++ x.mmco).take 16
  adaptive : SetOr before.adaptiveRefPicMarkingModeFlag x.adaptiveRefPicMarkingModeFlag
    x'.adaptiveRefPicMarkingModeFlag
  noOutput : SetOr before.idrNoOutputOfPriorPicsFlag x.idrNoOutputOfPriorPicsFlag
    x'.idrNoOutputOfPriorPicsFlag
  longTerm : SetOr before.idrLongTermReferenceFlag x.idrLongTermReferenceFlag
    x'.idrLongTermReferenceFlag

/-- Two results of which the second has the marks of earlier slices. -/
def Twin (before : Marks) (o o' : ParseResult) : Prop :=
  ∃ x', o' = o.withMarks x' ∧ Ahead before o.marks x'

variable {before : Marks}

theorem Twin.set {g : ParseResult → ParseResult} (hg : ∀ o m, g (o.withMarks m) = (g o).withMarks m)
    (hmarks : ∀ o, (g o).marks = o.marks) (o o' : ParseResult) (h : Twin before o o') :
    Twin before (g o) (g o') := by
  obtain ⟨x', rfl, hx⟩ := h
  exact ⟨x', hg o x', (hmarks o).symm ▸ hx⟩

@[simp] theorem alike_setSlice (g : SliceParams → SliceParams) : Alike (Twin before) (setSlice g) :=
  .modify (Twin.set (fun _ _ => rfl) fun _ => rfl)

@[simp] theorem alike_setDecode (g : DecodeParams → DecodeParams) :
    Alike (Twin before) (setDecode g) :=
  .modify (Twin.set (fun _ _ => rfl) fun _ => rfl)

/-- A part of the result that holds no marks is the same in both. -/
theorem Twin.same {γ : Type} {f : ParseResult → γ} (hf : ∀ o m, f (o.withMarks m) = f o)
    (o o' : ParseResult) (h : Twin before o o') : f o' = f o := by
  obtain ⟨x', rfl, -⟩ := h
  exact hf o x'

theorem alike_setAdaptive (v : Nat) :
    Alike (Twin before) (modify fun o => { o with adaptiveRefPicMarkingModeFlag := v }) := by
  refine .modify ?_
  rintro o - ⟨x', rfl, hx⟩
  exact ⟨{ x' with adaptiveRefPicMarkingModeFlag := v }, rfl, hx.mmco, .inl rfl, hx.noOutput,
    hx.longTerm⟩

theorem alike_setNoOutput (v : Nat) :
    Alike (Twin before) (modify fun o => { o with idrNoOutputOfPriorPicsFlag := v }) := by
  refine .modify ?_
  rintro o - ⟨x', rfl, hx⟩
  exact ⟨{ x' with idrNoOutputOfPriorPicsFlag := v }, rfl, hx.mmco, hx.adaptive, .inl rfl,
    hx.longTerm⟩

theorem alike_setLongTerm (v : Nat) :
    Alike (Twin before) (modify fun o => { o with idrLongTermReferenceFlag := v }) := by
  refine .modify ?_
  rintro o - ⟨x', rfl, hx⟩
  exact ⟨{ x' with idrLongTermReferenceFlag := v }, rfl, hx.mmco, hx.adaptive, hx.noOutput,
    .inl rfl⟩

theorem alike_setModL0 (v : Nat) :
    Alike (Twin before) (modify fun o => { o with refPicListModificationFlagL0 := v }) := by
  refine .modify ?_
  rintro o - ⟨x', rfl, hx⟩
  exact ⟨{ x' with refPicListModificationFlagL0 := v }, rfl, hx.mmco, hx.adaptive, hx.noOutput,
    hx.longTerm⟩

theorem alike_setModL1 (v : Nat) :
    Alike (Twin before) (modify fun o => { o with refPicListModificationFlagL1 := v }) := by
  refine .modify ?_
  rintro o - ⟨x', rfl, hx⟩
  exact ⟨{ x' with refPicListModificationFlagL1 := v }, rfl, hx.mmco, hx.adaptive, hx.noOutput,
    hx.longTerm⟩

/-- The list operations are stored in each run for itself. -/
theorem twin_storeRplmL0 (op : RplmOp) (o o' : ParseResult) (h : Twin before o o') :
    Twin before (storeRplmL0 op o) (storeRplmL0 op o') := by
  obtain ⟨x', rfl, hx⟩ := h
  have hmarks : Ahead before (storeRplmL0 op o).marks x' := by
    unfold storeRplmL0
    split_ifs
    · exact ⟨hx.mmco, hx.adaptive, hx.noOutput, hx.longTerm⟩
    · exact hx
  refine ⟨{ x' with rplmL0 := (storeRplmL0 op (o.withMarks x')).rplmL0 }, ?_, hmarks.mmco,
    hmarks.adaptive, hmarks.noOutput, hmarks.longTerm⟩
  unfold storeRplmL0
  split_ifs <;> rfl

theorem twin_storeRplmL1 (op : RplmOp) (o o' : ParseResult) (h : Twin before o o') :
    Twin before (storeRplmL1 op o) (storeRplmL1 op o') := by
  obtain ⟨x', rfl, hx⟩ := h
  have hmarks : Ahead before (storeRplmL1 op o).marks x' := by
    unfold storeRplmL1
    split_ifs
    · exact ⟨hx.mmco, hx.adaptive, hx.noOutput, hx.longTerm⟩
    · exact hx
  refine ⟨{ x' with rplmL1 := (storeRplmL1 op (o.withMarks x')).rplmL1 }, ?_, hmarks.mmco,
    hmarks.adaptive, hmarks.noOutput, hmarks.longTerm⟩
  unfold storeRplmL1
  split_ifs <;> rfl

/-- Appending to a list of at most 16. -/
def push16 {α : Type} (l : List α) (a : α) : List α := if l.length < 16 then l ++ [a] else l

theorem push16_ahead {α : Type} (before l : List α) (a : α) :
    push16 ((before ++ l).take 16) a = (before ++ push16 l a).take 16 := by
  unfold push16
  by_cases hl : (before ++ l).length < 16
  · have hlen : l.length < 16 := by
      rw [List.length_append] at hl
      omega
    rw [List.take_of_length_le hl.le, if_pos hl, if_pos hlen, List.append_assoc,
      List.take_of_length_le]
    simp only [List.length_append, List.length_singleton] at hl ⊢
    omega
  · have hfull : ¬ ((before ++ l).take 16).length < 16 := by
      rw [List.length_take]
      omega
    rw [if_neg hfull]
    split_ifs
    · rw [← List.append_assoc]
      exact (List.take_append_of_le_length (Nat.not_lt.mp hl)).symm
    · rfl

theorem storeMmco_eq (m : Mmco) (o : ParseResult) :
    storeMmco m o = { o with mmco := push16 o.mmco m } := by
  unfold storeMmco push16
  split_ifs <;> rfl

theorem twin_storeMmco (m : Mmco) (o o' : ParseResult) (h : Twin before o o') :
    Twin before (storeMmco m o) (storeMmco m o') := by
  obtain ⟨x', rfl, hx⟩ := h
  rw [storeMmco_eq, storeMmco_eq]
  refine ⟨{ x' with mmco := push16 x'.mmco m }, rfl, ?_, hx.adaptive, hx.noOutput, hx.longTerm⟩
  change push16 x'.mmco m = (before.mmco ++ push16 o.mmco m).take 16
  rw [hx.mmco]
  exact push16_ahead _ _ _

theorem alike_rplmLoop {store : RplmOp → ParseResult → ParseResult}
    (hstore : ∀ op o o', Twin before o o' → Twin before (store op o) (store op o')) (turns : Nat) :
    Alike (Twin before) (rplmLoop store turns) := by
  induction turns with
  | zero => exact alike_pure ()
  | succ turns ih =>
    refine alike_brUe.bind fun modOp => .cond ?_ fun _ => alike_pure ()
    refine alike_brUe.bind fun val => Alike.bind (.modify (hstore _)) fun _ => ?_
    exact alike_brEof.bind fun _ => .cond ih fun _ => alike_pure ()

@[simp] theorem alike_ueIf (c : Prop) [Decidable c] : Alike (Twin before) (ueIf c) :=
  .cond (alike_pure _) fun _ => alike_brUe

theorem alike_mmcoLoop (turns : Nat) : Alike (Twin before) (mmcoLoop turns) := by
  induction turns with
  | zero => exact alike_pure ()
  | succ turns ih =>
    unfold mmcoLoop
    with_reducible repeat' first
      | assumption | exact .modify (twin_storeMmco _) | refine .bind ?_ fun _ => ?_
      | refine .cond ?_ fun _ => ?_ | simp

@[simp] theorem alike_brBits : Alike (Twin before) brBits := alike_brLen.bind fun _ => alike_pure _

theorem alike_skipWeights (chroma : Bool) : Alike (Twin before) (skipWeights chroma) := by
  unfold skipWeights
  with_reducible repeat' first
    | assumption | refine .bind ?_ fun _ => ?_ | refine .cond ?_ fun _ => ?_ | simp

theorem alike_parseRefPicLists (st : Nat) : Alike (Twin before) (parseRefPicLists st) := by
  unfold parseRefPicLists
  refine .get (Twin.same fun _ _ => rfl) fun o => ?_
  with_reducible repeat' first
    | assumption | exact alike_rplmLoop twin_storeRplmL0 _ | exact alike_rplmLoop twin_storeRplmL1 _
    | exact alike_setModL0 _ | exact alike_setModL1 _ | refine .bind ?_ fun _ => ?_
    | refine .cond ?_ fun _ => ?_ | simp

/-- The results are twins up to the header of an earlier slice. -/
def TwinBut (before : Marks) (o o' : ParseResult) : Prop :=
  Twin before { o with slice := {}, decode := {} } { o' with slice := {}, decode := {} }

/-- The header of an earlier slice is overwritten first. -/
theorem alike_parseSliceHeader (nalRefIdc nalUnitType : Nat) :
    AlikeFrom (TwinBut before) (Twin before) (parseSliceHeader nalRefIdc nalUnitType) := by
  have hfirst : AlikeFrom (TwinBut before) (Twin before)
      (modify fun o : ParseResult => { o with slice := {}, decode := {} }) := AlikeFrom.overwrite
  refine AlikeFrom.bind ?_ fun _ => alike_checkFailed
  unfold parseSliceFields
  refine hfirst.bind fun _ => (alike_setDecode _).bind fun _ => ?_
  refine .get (Twin.same fun _ _ => rfl) fun o => .get (Twin.same fun _ _ => rfl) fun o' => ?_
  with_reducible repeat' first
    | assumption | exact alike_parseRefPicLists _ | exact alike_mmcoLoop _
    | exact (alike_skipWeights _).skip _ | exact alike_setAdaptive _ | exact alike_setNoOutput _
    | exact alike_setLongTerm _ | refine .get (Twin.same fun _ _ => rfl) fun _ => ?_
    | refine .bind ?_ fun _ => ?_ | refine .cond ?_ fun _ => ?_ | simp

end H264

end Rkvdec.Bitstream
