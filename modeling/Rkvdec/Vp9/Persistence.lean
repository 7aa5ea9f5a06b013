import Mathlib.Tactic
import Rkvdec.Lib.Trace
import Rkvdec.Vp9.Header

/-! What the deltas of the loop filter and the features of the segments are over a stream, against
the persistent state of the standard. -/
namespace Rkvdec.Vp9

open Headers

/-- The persistent state of the standard. -/
structure Persistent where
  refDeltas : List Int
  modeDeltas : List Int
  absDelta : Bool
  features : Features
deriving DecidableEq, Repr

/-- `setup_past_independence`. -/
def pastIndependence : Persistent := ⟨[1, 0, -1, -1], [0, 0], false, noFeatures⟩

def PicParams.isIndependent (pp : PicParams) : Bool := pp.isIntra || pp.errorResilientMode

/-- The state in effect for a frame: reset where the frame is independent, then changed by the
updates alone. -/
def Persistent.next (p : Persistent) (pp : PicParams) : Persistent :=
  let base := if pp.isIndependent then pastIndependence else p
  { refDeltas := updateDeltas base.refDeltas pp.lfSyntax.refUpdates
    modeDeltas := updateDeltas base.modeDeltas pp.lfSyntax.modeUpdates
    absDelta := (pp.segSyntax.data.map Prod.fst).getD base.absDelta
    features := (pp.segSyntax.data.map Prod.snd).getD base.features }

/-- The frame works with the state of the standard; without segmentation its features are not
used. -/
structure InEffect (p : Persistent) (pp : PicParams) : Prop where
  refDeltas : pp.lf.refDeltas = p.refDeltas
  modeDeltas : pp.lf.modeDeltas = p.modeDeltas
  segments : pp.seg.enabled = true → pp.seg.features = p.features ∧ pp.seg.absDelta = p.absDelta

/-- The parser beside the standard. `dropped` says that features in force were left behind by a
frame without segmentation. -/
structure Tracked where
  st : ParserState := {}
  std : Persistent := ⟨[0, 0, 0, 0], [0, 0], false, noFeatures⟩
  dropped : Bool := false

/-- Features that do nothing. -/
def SegmentParams.Idle (seg : SegmentParams) : Prop := seg.features = noFeatures ∧
    seg.absDelta = false

instance (seg : SegmentParams) : Decidable seg.Idle := inferInstanceAs (Decidable (_ ∧ _))

namespace Tracked

def dropsAt (s : Tracked) (pp : PicParams) : Bool :=
  if pp.isIndependent then false
  else if pp.segSyntax.enabled then s.dropped && pp.segSyntax.data.isNone
  else s.dropped || decide (¬ s.st.prevSeg.Idle)

/-- A frame that is parsed, and for a coded one `Vp9Parser_ApplyDpbUpdate`. -/
def step (s : Tracked) (bits : List Bool) : Tracked :=
  match parse s.st bits with
  | none => s
  | some pp =>
    if pp.showExistingFrame then s
    else { st := applyDpbUpdate s.st pp, std := s.std.next pp, dropped := s.dropsAt pp }

/-- The frame, if it is coded, works with the state of the standard. -/
def Conforms (s : Tracked) (bits : List Bool) : Prop :=
  ∀ pp, parse s.st bits = some pp → pp.showExistingFrame = false → InEffect (s.std.next pp) pp

end Tracked

/-- The deltas that are not updated are the same. -/
def Inherits (updates : List (Option Int)) (deltas deltas' : List Int) : Prop :=
  ∀ i : Nat, updates[i]? = some none → deltas[i]? = deltas'[i]?

/-- What the stream has to keep to: an error-resilient inter frame updates the deltas that are not
at their defaults, and where a frame uses features that it does not bring, an independent frame
finds none and another one has not had them dropped. -/
structure Tracked.KeepsTo (s : Tracked) (pp : PicParams) : Prop where
  refDeltas : pp.errorResilientMode = true → pp.isIntra = false →
    Inherits pp.lfSyntax.refUpdates s.st.prevLf.refDeltas defaultLf.refDeltas
  modeDeltas : pp.errorResilientMode = true → pp.isIntra = false →
    Inherits pp.lfSyntax.modeUpdates s.st.prevLf.modeDeltas defaultLf.modeDeltas
  segments : pp.segSyntax.enabled = true → pp.segSyntax.data = none →
    if pp.isIndependent then s.st.prevSeg.Idle else s.dropped = false

def Tracked.Keeps (s : Tracked) (bits : List Bool) : Prop :=
  ∀ pp, parse s.st bits = some pp → pp.showExistingFrame = false → s.KeepsTo pp

section Parsed

variable {σ : Type} {H : Lib.Prog.Handler Nat (fun n => BitVec n) σ} {r : σ} {st : ParserState}
  {pp pp' : PicParams}

/-- What the header says of the loop filter and of the segmentation. -/
structure Resolved (st : ParserState) (pp : PicParams) : Prop where
  lf : pp.lf = loopFilterParams st pp.isIntra pp.lfSyntax
  seg : pp.seg = segmentationParams st pp.segSyntax
  refUpdates : pp.lfSyntax.refUpdates.length = 4
  modeUpdates : pp.lfSyntax.modeUpdates.length = 2
  disabled : pp.segSyntax.enabled = false → pp.segSyntax.data = none

theorem readUpdates_length (n : Nat) : ((readUpdates n).run H r).1.length = n := by
  induction n generalizing r with
  | zero => rfl
  | succ n ih => simp only [readUpdates, Lib.Prog.run_bind, Lib.Prog.run_pure, List.length_cons, ih]

theorem readDeltaUpdates_length (update : Bool) :
    ((readDeltaUpdates update).run H r).1.1.length = 4 ∧
      ((readDeltaUpdates update).run H r).1.2.length = 2 := by
  unfold readDeltaUpdates
  cases update with
  | false => exact ⟨rfl, rfl⟩
  | true =>
    simp only [if_true, Lib.Prog.run_bind, Lib.Prog.run_pure]
    exact ⟨readUpdates_length 4, readUpdates_length 2⟩

theorem readLoopFilterSyntax_length :
    (readLoopFilterSyntax.run H r).1.refUpdates.length = 4 ∧
      (readLoopFilterSyntax.run H r).1.modeUpdates.length = 2 := by
  simp only [readLoopFilterSyntax, Lib.Prog.run_bind, Lib.Prog.run_pure]
  exact readDeltaUpdates_length _

theorem readSegmentSyntax_disabled (h : (readSegmentSyntax.run H r).1.enabled = false) :
    (readSegmentSyntax.run H r).1.data = none := by
  simp only [readSegmentSyntax, Lib.Prog.run_bind] at h ⊢
  split at h
  · simp only [Lib.Prog.run_bind, Lib.Prog.run_pure] at h
    cases h
  · rename_i hdisabled
    rw [if_neg hdisabled]
    rfl

theorem readTrailer_resolved : Resolved st ((readTrailer st pp).run H r).1 := by
  simp only [readTrailer, Lib.Prog.run_bind, Lib.Prog.run_pure]
  exact ⟨rfl, rfl, readLoopFilterSyntax_length.1, readLoopFilterSyntax_length.2,
    readSegmentSyntax_disabled⟩

theorem readCoded_resolved (h : ((readCoded st pp).run H r).1 = some pp') : Resolved st pp' := by
  simp only [readCoded, Lib.Prog.run_bind] at h
  split at h
  · cases h
  · simp only [Lib.Prog.run_map, Option.some.injEq] at h
    rw [← h]
    exact readTrailer_resolved

/-- Every coded frame that is parsed. -/
theorem parse_resolved {bits : List Bool} (h : parse st bits = some pp)
    (hcoded : pp.showExistingFrame = false) : Resolved st pp := by
  obtain ⟨profile, ⟨idx, rfl⟩ | ⟨r, hread⟩⟩ := parse_cases h
  · cases hcoded
  · exact readCoded_resolved hread

end Parsed

section Law

variable {s : Tracked} {pp : PicParams} {a b : List Int} {u : List (Option Int)}
  {frames : List (List Bool)}

/-- Updates over two lists of deltas come out the same if what they leave is the same. -/
theorem updateDeltas_eq_iff (hb : b.length = a.length) (hu : u.length = a.length) :
    updateDeltas a u = updateDeltas b u ↔ Inherits u a b := by
  induction u generalizing a b with
  | nil =>
    have ha : a = [] := List.length_eq_zero_iff.mp hu.symm
    rw [ha] at hb
    rw [ha, List.length_eq_zero_iff.mp hb]
    exact iff_of_true rfl fun _ _ => rfl
  | cons x u ih =>
    obtain ⟨d, a, rfl⟩ := List.exists_cons_of_length_eq_add_one hu.symm
    obtain ⟨d', b, rfl⟩ := List.exists_cons_of_length_eq_add_one hb
    have hrest := ih (by simpa using hb) (by simpa using hu)
    have hsplit : updateDeltas (d :: a) (x :: u) = updateDeltas (d' :: b) (x :: u) ↔
        x.getD d = x.getD d' ∧ updateDeltas a u = updateDeltas b u := by
      simp [updateDeltas]
    rw [hsplit, hrest]
    constructor
    · rintro ⟨hhead, htail⟩ i hi
      cases i with
      | zero =>
        obtain rfl : x = none := by simpa using hi
        simpa using hhead
      | succ i => simpa using htail i (by simpa using hi)
    · intro h
      refine ⟨?_, fun i hi => by simpa using h (i + 1) (by simpa using hi)⟩
      cases x with
      | some v => rfl
      | none => simpa using h 0 (by simp)

theorem updateDeltas_length (hu : u.length = a.length) : (updateDeltas a u).length = a.length := by
  simp [updateDeltas, hu]

/-- What parser and standard have in common along a stream that keeps to the conditions. -/
structure Tracked.Inv (s : Tracked) : Prop where
  refDeltas : s.st.prevLf.refDeltas = s.std.refDeltas
  modeDeltas : s.st.prevLf.modeDeltas = s.std.modeDeltas
  refLength : s.std.refDeltas.length = 4
  modeLength : s.std.modeDeltas.length = 2
  kept : s.dropped = false →
    s.st.prevSeg.features = s.std.features ∧ s.st.prevSeg.absDelta = s.std.absDelta
  lost : s.dropped = true → s.st.prevSeg.Idle ∧
    ¬ (s.std.features = noFeatures ∧ s.std.absDelta = false)

/-- The deltas of a frame are those of the standard, unless it is error-resilient and not intra. -/
theorem deltas_iff (hinv : s.Inv) (hres : Resolved s.st pp) :
    (pp.lf.refDeltas = (s.std.next pp).refDeltas ∧ pp.lf.modeDeltas = (s.std.next pp).modeDeltas) ↔
      (pp.errorResilientMode = true → pp.isIntra = false →
        Inherits pp.lfSyntax.refUpdates s.st.prevLf.refDeltas defaultLf.refDeltas ∧
        Inherits pp.lfSyntax.modeUpdates s.st.prevLf.modeDeltas defaultLf.modeDeltas) := by
  have hrefs := updateDeltas_eq_iff (a := s.std.refDeltas) (b := defaultLf.refDeltas)
    (by rw [hinv.refLength]; rfl) (by rw [hinv.refLength, hres.refUpdates])
  have hmodes := updateDeltas_eq_iff (a := s.std.modeDeltas) (b := defaultLf.modeDeltas)
    (by rw [hinv.modeLength]; rfl) (by rw [hinv.modeLength, hres.modeUpdates])
  rw [hres.lf, hinv.refDeltas, hinv.modeDeltas, ← hrefs, ← hmodes]
  cases hintra : pp.isIntra with
  | true =>
    have hbase : pp.isIndependent = true := by rw [PicParams.isIndependent, hintra]; rfl
    simp [loopFilterParams, LoopFilterParams.apply, Persistent.next, hbase, defaultLf,
      pastIndependence]
  | false =>
    cases herr : pp.errorResilientMode with
    | true =>
      have hbase : pp.isIndependent = true := by rw [PicParams.isIndependent, herr, Bool.or_true]
      simp [loopFilterParams, LoopFilterParams.apply, Persistent.next, hbase, hinv.refDeltas,
        hinv.modeDeltas, defaultLf, pastIndependence]
    | false =>
      have hbase : pp.isIndependent = false := by rw [PicParams.isIndependent, hintra, herr]; rfl
      simp [loopFilterParams, LoopFilterParams.apply, Persistent.next, hbase, hinv.refDeltas,
        hinv.modeDeltas]

/-- The features of a frame with segmentation are those of the standard, unless it leaves them to a
last frame that did not keep them. -/
theorem segments_iff (hinv : s.Inv) (hres : Resolved s.st pp) :
    (pp.seg.enabled = true → pp.seg.features = (s.std.next pp).features ∧
        pp.seg.absDelta = (s.std.next pp).absDelta) ↔
      (pp.segSyntax.enabled = true → pp.segSyntax.data = none →
        if pp.isIndependent then s.st.prevSeg.Idle else s.dropped = false) := by
  rw [hres.seg]
  cases henabled : pp.segSyntax.enabled with
  | false => simp [segmentationParams, henabled]
  | true =>
    cases hdata : pp.segSyntax.data with
    | some d => simp [segmentationParams, henabled, hdata, Persistent.next]
    | none =>
      simp only [segmentationParams, henabled, hdata, Persistent.next, if_true, Option.map_none,
        Option.getD_none, true_imp_iff]
      cases hindep : pp.isIndependent with
      | true =>
        simp only [if_true]
        exact Iff.rfl
      | false =>
        simp only [Bool.false_eq_true, if_false]
        cases hdropped : s.dropped with
        | false => exact iff_of_true (hinv.kept hdropped) rfl
        | true =>
          refine iff_of_false ?_ (by simp)
          rintro ⟨hfeatures, habs⟩
          obtain ⟨⟨hidle, hidleAbs⟩, hstd⟩ := hinv.lost hdropped
          exact hstd ⟨hfeatures.symm.trans hidle, habs.symm.trans hidleAbs⟩

theorem inEffect_iff (hinv : s.Inv) (hres : Resolved s.st pp) :
    InEffect (s.std.next pp) pp ↔ s.KeepsTo pp := by
  have hdeltas := deltas_iff hinv hres
  have hsegments := segments_iff hinv hres
  constructor
  · rintro ⟨hrefs, hmodes, hsegs⟩
    have hboth := hdeltas.mp ⟨hrefs, hmodes⟩
    exact ⟨fun herr hintra => (hboth herr hintra).1, fun herr hintra => (hboth herr hintra).2,
      hsegments.mp hsegs⟩
  · rintro ⟨hrefs, hmodes, hsegs⟩
    obtain ⟨hrefs', hmodes'⟩ :=
      hdeltas.mpr fun herr hintra => ⟨hrefs herr hintra, hmodes herr hintra⟩
    exact ⟨hrefs', hmodes', hsegments.mpr hsegs⟩

/-- A frame without segmentation leaves no features to the next. -/
theorem seg_disabled (hres : Resolved s.st pp) (h : pp.segSyntax.enabled = false) :
    pp.seg.Idle := by
  rw [hres.seg, segmentationParams, h]
  exact ⟨rfl, rfl⟩

theorem seg_enabled (hres : Resolved s.st pp) (h : pp.segSyntax.enabled = true) :
    pp.seg.enabled = true := by
  rw [hres.seg, segmentationParams, h]
  rfl

/-- The lengths of the deltas stay. -/
theorem next_length (hinv : s.Inv) (hres : Resolved s.st pp) :
    (s.std.next pp).refDeltas.length = 4 ∧ (s.std.next pp).modeDeltas.length = 2 := by
  have hbase : (if pp.isIndependent then pastIndependence else s.std).refDeltas.length = 4 ∧
      (if pp.isIndependent then pastIndependence else s.std).modeDeltas.length = 2 := by
    split
    · exact ⟨rfl, rfl⟩
    · exact ⟨hinv.refLength, hinv.modeLength⟩
  constructor
  · exact (updateDeltas_length (by rw [hres.refUpdates, hbase.1])).trans hbase.1
  · exact (updateDeltas_length (by rw [hres.modeUpdates, hbase.2])).trans hbase.2

/-- A frame that works with the state of the standard keeps the invariant. -/
theorem inv_frame (hinv : s.Inv) (hres : Resolved s.st pp) (heffect : InEffect (s.std.next pp) pp) :
    ({ st := applyDpbUpdate s.st pp, std := s.std.next pp,
       dropped := s.dropsAt pp } : Tracked).Inv := by
  obtain ⟨hrefs, hmodes⟩ := next_length hinv hres
  refine ⟨heffect.refDeltas, heffect.modeDeltas, hrefs, hmodes, ?_, ?_⟩
  · intro hkept
    change s.dropsAt pp = false at hkept
    cases henabled : pp.segSyntax.enabled with
    | true => exact heffect.segments (seg_enabled hres henabled)
    | false =>
      obtain ⟨hfeatures, habs⟩ := seg_disabled hres henabled
      have hnone := hres.disabled henabled
      simp only [applyDpbUpdate, hfeatures, habs, Persistent.next, hnone, Option.map_none,
        Option.getD_none]
      cases hindep : pp.isIndependent with
      | true => exact ⟨rfl, rfl⟩
      | false =>
        simp only [Tracked.dropsAt, hindep, henabled, Bool.false_eq_true, if_false,
          Bool.or_eq_false_iff, decide_eq_false_iff_not, not_not] at hkept
        obtain ⟨hold, hidle, hidleAbs⟩ := hkept
        obtain ⟨hsame, hsameAbs⟩ := hinv.kept hold
        exact ⟨hidle.symm.trans hsame, hidleAbs.symm.trans hsameAbs⟩
  · intro hlost
    change s.dropsAt pp = true at hlost
    cases hindep : pp.isIndependent with
    | true => simp [Tracked.dropsAt, hindep] at hlost
    | false =>
      cases henabled : pp.segSyntax.enabled with
      | true =>
        -- the frame would have used the features that are gone
        simp only [Tracked.dropsAt, hindep, henabled, Bool.false_eq_true, if_false, if_true,
          Bool.and_eq_true, Option.isNone_iff_eq_none] at hlost
        have hkeeps := (segments_iff hinv hres).mp heffect.segments henabled hlost.2
        simp [hindep, hlost.1] at hkeeps
      | false =>
        refine ⟨seg_disabled hres henabled, ?_⟩
        have hnone := hres.disabled henabled
        simp only [Persistent.next, hnone, hindep, Bool.false_eq_true, if_false, Option.map_none,
          Option.getD_none]
        simp only [Tracked.dropsAt, hindep, henabled, Bool.false_eq_true, if_false, Bool.or_eq_true,
          decide_eq_true_eq] at hlost
        rintro ⟨hidle, hidleAbs⟩
        cases hdropped : s.dropped with
        | true => exact (hinv.lost hdropped).2 ⟨hidle, hidleAbs⟩
        | false =>
          obtain ⟨hsame, hsameAbs⟩ := hinv.kept hdropped
          rcases hlost with hlost | hlost
          · rw [hdropped] at hlost
            cases hlost
          · exact hlost ⟨hsame.trans hidle, hsameAbs.trans hidleAbs⟩

end Law

/-- Along every stream the frames work with the deltas and features of the standard exactly when
every frame keeps to the conditions. -/
theorem persistence_iff (frames : List (List Bool)) :
    Lib.Along Tracked.step Tracked.Conforms {} frames ↔
    Lib.Along Tracked.step Tracked.Keeps {} frames := by
  have hinit : Tracked.Inv {} := ⟨rfl, rfl, rfl, rfl, fun _ => ⟨rfl, rfl⟩, by simp⟩
  refine Lib.along_congr ?_ ?_ hinit
  · intro s bits hinv
    constructor
    · intro h pp hparse hcoded
      exact (inEffect_iff hinv (parse_resolved hparse hcoded)).mp (h pp hparse hcoded)
    · intro h pp hparse hcoded
      exact (inEffect_iff hinv (parse_resolved hparse hcoded)).mpr (h pp hparse hcoded)
  · intro s bits hinv h
    unfold Tracked.step
    split
    · exact hinv
    · rename_i pp hparse
      split
      · exact hinv
      · rename_i hcoded
        have hcoded : pp.showExistingFrame = false := by simpa using hcoded
        exact inv_frame hinv (parse_resolved hparse hcoded) (h pp hparse hcoded)

/-- An error-resilient inter frame of the same size that updates nothing. -/
def resilientFrameBits : List Bool :=
  toBits 2 2 ++ toBits 6 0b000111 ++ toBits 8 1 ++ toBits 12 0 ++ toBits 4 0b1001 ++ toBits 2 0 ++
    toBits 10 0 ++ (toBits 11 0 ++ toBits 1 0 ++ toBits 1 0 ++ toBits 16 1)

/-- The error-resilient frame keeps the delta 2, where the standard is back at 1. -/
theorem resilient_frame_keeps_deltas :
    ¬ Lib.Along Tracked.step Tracked.Conforms {} [keyFrameBits, resilientFrameBits] := by
  rintro ⟨-, hinter, -⟩
  have heffect :=
    hinter ((parse (Tracked.step {} keyFrameBits).st resilientFrameBits).get (by decide))
    (Option.some_get _).symm (by decide)
  exact absurd heffect.refDeltas (by decide)

end Rkvdec.Vp9
