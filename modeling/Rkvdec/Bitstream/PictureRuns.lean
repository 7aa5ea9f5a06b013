import Rkvdec.Bitstream.Segments

/-! Access units one after the other, each with one picture: what the slices of the picture are
parsed into, and the rule for what they make of the picture order. -/
namespace Rkvdec.Bitstream

section Handing

variable {σ τ : Type} {visit : AuState σ τ → List Byte → AuState σ τ} {s t : AuState σ τ}
  {units : List (List Byte)} {complete : Bool} {r : List Byte}

/-- The switch gets the unit `r` in the state `t`. -/
def Handed (visit : AuState σ τ → List Byte → AuState σ τ) (units : List (List Byte))
    (s t : AuState σ τ) (r : List Byte) : Prop :=
  ∃ pre post, units = pre ++ r :: post ∧ t = feed visit pre true s

theorem Handed.cons {r₀ : List Byte} (hstatus : (visit s r₀).status = none)
    (h : Handed visit units (visit s r₀) t r) : Handed visit (r₀ :: units) s t r := by
  obtain ⟨pre, post, rfl, rfl⟩ := h
  refine ⟨r₀ :: pre, post, rfl, ?_⟩
  simp only [feed, hstatus, Option.isSome_none, Bool.false_eq_true, if_false]

/-- What every unit keeps holds when all of them were accepted. -/
theorem feed_run {P : AuState σ τ → Prop} (h : P s)
    (hok : (feed visit units complete s).status = none)
    (hstep : ∀ t r, Handed visit units s t r → (visit t r).status = none → P t → P (visit t r)) :
    P (feed visit units complete s) := by
  induction units generalizing s with
  | nil =>
    cases complete with
    | true => exact h
    | false => cases hok
  | cons r₀ units ih =>
    simp only [feed] at hok ⊢
    split_ifs at hok ⊢ with hstatus
    · rw [hok] at hstatus
      cases hstatus
    · have hnone : (visit s r₀).status = none := by simpa using hstatus
      refine ih (hstep s r₀ ⟨[], units, rfl, rfl⟩ hnone h) hok ?_
      intro t r hhanded
      exact hstep t r (hhanded.cons hnone)

theorem AuState.parse_staged (s : AuState σ τ) (u : UnitRun σ) :
    (s.parse u).result.2 = s.result.2 := rfl

/-- The units handed to the switch, by their places. -/
theorem handed_iff {P : List Byte → Prop} {S : σ → List Byte → Prop} :
    (∀ o r, (P r ∧ ∃ t, Handed visit units s t r ∧ o = t.result.1) → S o r) ↔
      ∀ i : Fin units.length, P units[i] →
        S (feed visit (units.take i) true s).result.1 units[i] := by
  constructor
  · intro h i hp
    refine h _ _ ⟨hp, _, ⟨units.take i, units.drop (i + 1), ?_, rfl⟩, rfl⟩
    rw [Fin.getElem_fin, List.getElem_cons_drop, List.take_append_drop]
  · rintro h o r ⟨hp, t, ⟨pre, post, rfl, rfl⟩, rfl⟩
    have hlt : pre.length < (pre ++ r :: post).length := by simp
    have hat := h ⟨pre.length, hlt⟩ (by simpa using hp)
    simpa using hat

/-- The units of a buffer, which is given with the size of its scratch buffer. -/
def auNals (header : Nat) (au : List Byte × Nat) : List (List Byte) :=
  (nalUnits header au.1 au.2 au.1.length 0 0).1.map NalUnit.rbsp

/-- Of every picture, in the state it finds. -/
def EachPicture {π ρ : Type} (next : π → ρ → ρ) (Q : π → ρ → Prop) : List π → ρ → Prop
  | [], _ => True
  | pic :: pics, out => Q pic out ∧ EachPicture next Q pics (next pic out)

instance {π ρ : Type} (next : π → ρ → ρ) (Q : π → ρ → Prop) [∀ pic out, Decidable (Q pic out)] :
    ∀ (pics : List π) (out : ρ), Decidable (EachPicture next Q pics out)
  | [], _ => .isTrue trivial
  | pic :: pics, out =>
    have : Decidable (EachPicture next Q pics (next pic out)) :=
      instDecidableEachPicture next Q pics _
    inferInstanceAs (Decidable (_ ∧ _))

/-- What is read off after every picture. -/
def afterEach {π ρ β : Type} (next : π → ρ → ρ) (f : ρ → β) : List π → ρ → List β
  | [], _ => []
  | pic :: pics, out => f (next pic out) :: afterEach next f pics (next pic out)

end Handing

namespace H264

variable {au : List Byte × Nat} {out : ParseResult} {s : Au} {r : List Byte}

/-- The slice `r` is read into the result `o`. -/
def Reads (au : List Byte × Nat) (out o : ParseResult) (r : List Byte) : Prop :=
  IsSlice r ∧ ∃ t, Handed visit (auNals 1 au) (auStart out) t r ∧ o = t.result.1

/-- The access unit is accepted, with a slice. -/
def Accepted (au : List Byte × Nat) (out : ParseResult) : Prop :=
  (parseAccessUnit au.1 au.2 out).1 = .ok

instance : Decidable (Accepted au out) := inferInstanceAs (Decidable (_ = _))

/-- The result after the access unit. -/
def parsed (au : List Byte × Nat) (out : ParseResult) : ParseResult :=
  (parseAccessUnit au.1 au.2 out).2

instance : Decidable (IsSlice r) := inferInstanceAs (Decidable (_ ∨ _))

theorem reads_iff {S : ParseResult → List Byte → Prop} : (∀ o r, Reads au out o r → S o r) ↔
    ∀ i : Fin (auNals 1 au).length, IsSlice (auNals 1 au)[i] →
      S (feed visit ((auNals 1 au).take i) true (auStart out)).result.1 (auNals 1 au)[i] :=
  handed_iff

/-- What other units leave alone. -/
def orderView (o : ParseResult) : Bool × DecodeParams := (o.hasSlice, o.decode)

theorem visit_other (h : ¬ IsSlice r) :
    orderView (visit s r).result.1 = orderView s.result.1 ∧ (visit s r).result.2 = s.result.2 := by
  have hs : ¬ ((r.headD 0).toNat % 2 ^ 5 = 1 ∨ (r.headD 0).toNat % 2 ^ 5 = 5) := h
  simp only [visit, if_neg hs]
  split_ifs
  · exact ⟨AuState.parse_keeps keeps_spsUnit rfl orderView fun _ => rfl,
      AuState.parse_staged s _⟩
  · exact ⟨AuState.parse_keeps keeps_ppsUnit rfl orderView fun _ => rfl,
      AuState.parse_staged s _⟩
  · exact ⟨rfl, rfl⟩

/-- The rule for the order of a picture: `Q` holds of the POC state before the slices, and each
slice leaves what `R` asks of the decode parameters and of the state for the next picture. -/
theorem parse_slices {Q : Staged → Prop} {R : DecodeParams → Staged → Prop} (hok : Accepted au out)
    (hstart : Q (pocState out))
    (hslice : ∀ o r p, Reads au out o r → (Q p ∨ ∃ d, R d p) →
      R (computePoc (coded o r).sps (coded o r).decode (nalRefIdc r) p).1
        (computePoc (coded o r).sps (coded o r).decode (nalRefIdc r) p).2) :
    R (parsed au out).decode (pocState (parsed au out)) := by
  let P : Au → Prop := fun s => (s.result.1.hasSlice = false ∧ Q s.result.2) ∨
      R s.result.1.decode s.result.2
  have hloop : parseAccessUnit au.1 au.2 out = closeAu (auUnits au.1 au.2 out) := rfl
  have hfeed : auUnits au.1 au.2 out = feed visit (auNals 1 au)
      (nalUnits 1 au.1 au.2 au.1.length 0 0).2 (auStart out) := by
    rw [auUnits_eq, auLoop_eq_feed]
    rfl
  obtain ⟨hnone, hhas⟩ := closeAu_accepted (s := auUnits au.1 au.2 out) hok
  have hrun : P (auUnits au.1 au.2 out) := by
    rw [hfeed] at hnone ⊢
    refine feed_run (.inl ⟨rfl, hstart⟩) hnone ?_
    intro t r hhanded hstatus ht
    by_cases hr : IsSlice r
    · obtain ⟨-, -, hstaged, slice, sliceData, hresult⟩ := visit_slice hr hstatus
      right
      rw [hstaged, hresult]
      refine hslice _ r _ ⟨hr, t, hhanded, rfl⟩ ?_
      rcases ht with ⟨-, ht⟩ | ht
      · exact .inl ht
      · exact .inr ⟨_, ht⟩
    · obtain ⟨hview, hstaged⟩ := visit_other (s := t) hr
      have hhas : (visit t r).result.1.hasSlice = t.result.1.hasSlice := congrArg Prod.fst hview
      have hdecode : (visit t r).result.1.decode = t.result.1.decode := congrArg Prod.snd hview
      simpa only [P, hhas, hdecode, hstaged] using ht
  rw [parsed, hloop, closeAu_ok hnone hhas]
  rcases hrun with ⟨hno, -⟩ | hrun
  · rw [hhas] at hno
    cases hno
  · exact hrun

end H264

namespace H265

variable {au : List Byte × Nat} {out : ParseResult} {s : Au} {r : List Byte}

/-- The segment `r` is read into the result `o`. -/
def Reads (au : List Byte × Nat) (out o : ParseResult) (r : List Byte) : Prop :=
  IsSegment r ∧ ∃ t, Handed visit (auNals 2 au) (auStart out) t r ∧ o = t.result.1

def Accepted (au : List Byte × Nat) (out : ParseResult) : Prop :=
  (parseAccessUnit au.1 au.2 out).1 = .ok

instance : Decidable (Accepted au out) := inferInstanceAs (Decidable (_ = _))

def parsed (au : List Byte × Nat) (out : ParseResult) : ParseResult :=
  (parseAccessUnit au.1 au.2 out).2

instance : Decidable (IsSegment r) := inferInstanceAs (Decidable (_ ∈ _))

theorem reads_iff {S : ParseResult → List Byte → Prop} : (∀ o r, Reads au out o r → S o r) ↔
    ∀ i : Fin (auNals 2 au).length, IsSegment (auNals 2 au)[i] →
      S (feed visit ((auNals 2 au).take i) true (auStart out)).result.1 (auNals 2 au)[i] :=
  handed_iff

def orderView (o : ParseResult) : Bool × Int := (o.hasSlice, o.poc)

theorem visit_other (h : ¬ IsSegment r) :
    orderView (visit s r).result.1 = orderView s.result.1 ∧ (visit s r).result.2 = s.result.2 := by
  have hsps : Keeps orderView parseSps :=
    keeps_parseSpsFields.bind fun _ => keeps_checkFailed.bind fun _ => .modify fun _ => rfl
  have hpps : Keeps orderView parsePps :=
    keeps_parsePpsFields.bind fun _ => keeps_checkFailed.bind fun _ => .modify fun _ => rfl
  have hmem : ¬ nalType r ∈ sliceNalTypes := h
  simp only [nalType] at hmem
  simp only [visit, if_neg hmem]
  split_ifs
  · exact ⟨AuState.parse_keeps keeps_parseVps rfl orderView fun _ => rfl, AuState.parse_staged s _⟩
  · exact ⟨AuState.parse_keeps hsps rfl id fun _ => rfl, AuState.parse_staged s _⟩
  · exact ⟨AuState.parse_keeps hpps rfl id fun _ => rfl, AuState.parse_staged s _⟩
  · exact ⟨rfl, rfl⟩

/-- What every accepted segment says. -/
structure Header (r : List Byte) (c : ParseResult) : Prop where
  active : 0 ≤ c.activeSpsId
  isIdr : c.isIdr = isIdrType (nalType r)
  said : Says (nalType r) (activeSps c) c

theorem parse_segments {Q : Staged → Prop} {R : Int → Staged → Prop} (hok : Accepted au out)
    (hstart : Q (pocState out))
    (hsegment : ∀ o r p, Reads au out o r → Header r (coded o r) → (Q p ∨ ∃ poc, R poc p) →
      R (picOrder (activeSps (coded o r)) (coded o r).isIdr (isAnchor r)
          (coded o r).slice.slicePicOrderCntLsb p).1
        (picOrder (activeSps (coded o r)) (coded o r).isIdr (isAnchor r)
          (coded o r).slice.slicePicOrderCntLsb p).2) :
    R (parsed au out).poc (pocState (parsed au out)) := by
  let P : Au → Prop := fun s => (s.result.1.hasSlice = false ∧ Q s.result.2) ∨
      R s.result.1.poc s.result.2
  have hloop : parseAccessUnit au.1 au.2 out = closeAu (auUnits au.1 au.2 out) := rfl
  have hfeed : auUnits au.1 au.2 out = feed visit (auNals 2 au)
      (nalUnits 2 au.1 au.2 au.1.length 0 0).2 (auStart out) := by
    rw [auUnits_eq, auLoop_eq_feed]
    rfl
  obtain ⟨hnone, hhas⟩ := closeAu_accepted (s := auUnits au.1 au.2 out) hok
  have hrun : P (auUnits au.1 au.2 out) := by
    rw [hfeed] at hnone ⊢
    refine feed_run (.inl ⟨rfl, hstart⟩) hnone ?_
    intro t r hhanded hstatus ht
    by_cases hr : IsSegment r
    · obtain ⟨hactive, hcoded, hsaid⟩ := coded_segment (o := t.result.1) hr hstatus rfl rfl
      obtain ⟨hstaged, sliceData, hresult⟩ := (visit_segment hr hstatus).2 hactive
      have hidr : (coded t.result.1 r).isIdr = isIdrType (nalType r) :=
        congrArg ParseResult.isIdr hcoded
      right
      rw [hstaged, hresult]
      refine hsegment _ r _ ⟨hr, t, hhanded, rfl⟩ ⟨hactive, hidr, hsaid⟩ ?_
      rcases ht with ⟨-, ht⟩ | ht
      · exact .inl ht
      · exact .inr ⟨_, ht⟩
    · obtain ⟨hview, hstaged⟩ := visit_other (s := t) hr
      have hhas : (visit t r).result.1.hasSlice = t.result.1.hasSlice := congrArg Prod.fst hview
      have hpoc : (visit t r).result.1.poc = t.result.1.poc := congrArg Prod.snd hview
      simpa only [P, hhas, hpoc, hstaged] using ht
  rw [parsed, hloop, closeAu_ok hnone hhas]
  rcases hrun with ⟨hno, -⟩ | hrun
  · rw [hhas] at hno
    cases hno
  · exact hrun

end H265

end Rkvdec.Bitstream
