import Rkvdec.Bitstream.Footprint

/-! Which parameter sets a slice of H.264 is read with. The parser holds one SPS and one PPS, the
last ones received, and reads the id in a slice header over. -/
namespace Rkvdec.Bitstream.H264

abbrev Unit264 := UnitRun ParseResult

namespace History

variable {h pre post : List Unit264} {o : ParseResult} {u : Unit264}

/-- The result struct after a unit. -/
def stored (u : Unit264) : ParseResult := u.outcome.1.2

def accepted (u : Unit264) : Bool :=
  match u.outcome.1.1 with
  | .ok _ => true
  | .error _ => false

/-- The last unit of a kind, accepted or not. -/
def last (kind : UnitKind) (h : List Unit264) : Option Unit264 :=
  h.reverse.find? fun u => u.kind = kind

/-- The last unit of a kind that was accepted and stored what `p` asks for. -/
def latest (kind : UnitKind) (p : ParseResult → Bool) (h : List Unit264) : Option Unit264 :=
  h.reverse.find? fun u => decide (u.kind = kind) && (accepted u && p (stored u))

/-- The id in a slice header: the third element, after the first macroblock and the type. -/
def codedPpsId (u : Unit264) : Nat := u.reader.ue.2.ue.2.ue.1

/-- The slice is read with the last PPS received under its id and with the last SPS received under
the id in that PPS. -/
def Activated (h : List Unit264) (u : Unit264) : Prop :=
  ∃ p q, latest .pps (fun o => o.pps.picParameterSetId = codedPpsId u) h = some p ∧
    u.before.pps.coded = (stored p).pps.coded ∧
    latest .sps (fun o => o.sps.seqParameterSetId = (stored p).pps.seqParameterSetId) h = some q ∧
    u.before.sps = (stored q).sps

/-- The last PPS was accepted and has the id of the slice, and the last SPS was accepted and has the
id in that PPS. -/
def Selected (h : List Unit264) (u : Unit264) : Prop :=
  ∃ p q, last .pps h = some p ∧ accepted p = true ∧
    (stored p).pps.picParameterSetId = codedPpsId u ∧
    last .sps h = some q ∧ accepted q = true ∧
    (stored q).sps.seqParameterSetId = (stored p).pps.seqParameterSetId

/-- The stored sets are those of the last units of their kinds. -/
structure Holds (h : List Unit264) (o : ParseResult) : Prop where
  sps : ∀ q, last .sps h = some q → o.sps = (stored q).sps
  pps : ∀ p, last .pps h = some p → o.pps.coded = (stored p).pps.coded

/-- They were so whenever a unit was parsed. -/
structure Good (h : List Unit264) (o : ParseResult) : Prop where
  now : Holds h o
  before : ∀ pre u post, h = pre ++ u :: post → Holds pre u.before

theorem stored_keeps {γ δ : Type} {view : ParseResult → γ} {f : ParseResult → δ}
    (hkeeps : Keeps view u.parser) (f' : γ → δ) (hf : ∀ o, f' (view o) = f o) :
    f (stored u) = f u.before := by
  have hkept : view (stored u) = view u.before := hkeeps u.before u.reader
  rw [← hf, hkept, hf]

theorem last_append (kind : UnitKind) (h : List Unit264) (u : Unit264) :
    last kind (h ++ [u]) = if u.kind = kind then some u else last kind h := by
  simp only [last, List.reverse_append, List.reverse_singleton, List.singleton_append,
    List.find?_cons]
  by_cases hk : u.kind = kind
  · simp [hk]
  · simp [hk]

theorem Good.nil (o : ParseResult) : Good [] o := by
  refine ⟨⟨fun q hq => ?_, fun p hp => ?_⟩, fun pre u post hsplit => ?_⟩
  · simp [last] at hq
  · simp [last] at hp
  · simp at hsplit

/-- The sets may be carried over to another result. -/
theorem Holds.congr {o' : ParseResult} (hh : Holds h o) (hsps : o'.sps = o.sps)
    (hpps : o'.pps.coded = o.pps.coded) : Holds h o' :=
  ⟨fun q hq => hsps.trans (hh.sps q hq), fun p hp => hpps.trans (hh.pps p hp)⟩

/-- A unit is parsed. What it does not store it leaves as it was. -/
theorem Good.parse (hh : Good h o) (hu : u.before = o)
    (hsps : u.kind ≠ .sps → (stored u).sps = o.sps)
    (hpps : u.kind ≠ .pps → (stored u).pps.coded = o.pps.coded) : Good (h ++ [u]) (stored u) := by
  refine ⟨⟨fun q hq => ?_, fun p hp => ?_⟩, fun pre v post hsplit => ?_⟩
  · rw [last_append] at hq
    split_ifs at hq with hk
    · cases hq
      rfl
    · exact (hsps hk).trans (hh.now.sps q hq)
  · rw [last_append] at hp
    split_ifs at hp with hk
    · cases hp
      rfl
    · exact (hpps hk).trans (hh.now.pps p hp)
  · rcases List.eq_nil_or_concat post with rfl | ⟨mid, w, rfl⟩
    · obtain ⟨rfl, hlast⟩ := List.append_inj' hsplit rfl
      obtain rfl : u = v := by simpa using hlast
      exact hu ▸ hh.now
    · rw [List.concat_eq_append, ← List.cons_append, ← List.append_assoc] at hsplit
      exact hh.before pre v mid (List.append_inj' hsplit rfl).1

variable {s : Au} {rbsp : List Byte}

theorem finishSlice_good {nalRefIdc headerBits : Nat} {payload : List Byte}
    (hh : Good (h ++ s.units) s.result.1) :
    Good (h ++ (finishSlice s nalRefIdc payload headerBits).units)
      (finishSlice s nalRefIdc payload headerBits).result.1 := by
  simp only [finishSlice]
  split_ifs
  · exact ⟨hh.now.congr rfl rfl, hh.before⟩
  · exact ⟨hh.now.congr rfl rfl, hh.before⟩

/-- The switch parses at most one unit. -/
theorem visit_good (hh : Good (h ++ s.units) s.result.1) :
    Good (h ++ (visit s rbsp).units) (visit s rbsp).result.1 := by
  have hparse (u : Unit264) (hu : u.before = s.result.1)
      (hsps : u.kind ≠ .sps → (stored u).sps = s.result.1.sps)
      (hpps : u.kind ≠ .pps → (stored u).pps.coded = s.result.1.pps.coded) :
      Good (h ++ (s.parse u).units) (s.parse u).result.1 := by
    change Good (h ++ (s.units ++ [u])) (stored u)
    rw [← List.append_assoc]
    exact hh.parse hu hsps hpps
  have hslice (nalRefIdc nalUnitType : Nat) (payload : List Byte) :
      let u : Unit264 :=
        ⟨.slice, parseSliceHeader nalRefIdc nalUnitType, s.result.1, .init payload⟩
      Good (h ++ (s.parse u).units) (s.parse u).result.1 := by
    refine hparse _ rfl (fun _ => ?_) fun _ => ?_
    · exact stored_keeps (keeps_parseSliceHeader _ _) ParseResult.sps fun _ => rfl
    · exact stored_keeps (f := fun o => o.pps.coded) (keeps_parseSliceHeader _ _)
        (fun o => o.pps.coded) fun _ => rfl
  simp only [visit]
  split_ifs
  · refine hparse _ rfl (fun hk => absurd rfl hk) fun _ => ?_
    exact stored_keeps (f := fun o => o.pps.coded) keeps_spsUnit ParseResult.pps fun _ => rfl
  · refine hparse _ rfl (fun _ => ?_) fun hk => absurd rfl hk
    exact stored_keeps keeps_ppsUnit ParseResult.sps fun _ => rfl
  · exact hh
  · exact hslice _ _ _
  · exact finishSlice_good (hslice _ _ _)
  · exact hh

theorem auUnits_good (buf : List Byte) (scratchSize : Nat) (hh : Good h o) :
    Good (h ++ (auUnits buf scratchSize o).units) (auUnits buf scratchSize o).result.1 := by
  refine auLoop_rule (P := fun s => Good (h ++ s.units) s.result.1) (fun s rbsp _ => visit_good)
    (fun s status hs => hs) _ _ _ rfl ?_
  rw [List.append_nil]
  exact ⟨hh.now.congr rfl rfl, hh.before⟩

theorem parseAccessUnit_good {buf : List Byte} {scratchSize : Nat} (hh : Good h o) :
    Good (h ++ (auUnits buf scratchSize o).units) (parseAccessUnit buf scratchSize o).2 := by
  have hunits := auUnits_good buf scratchSize hh
  simp only [parseAccessUnit]
  split
  · exact hunits
  · split_ifs
    · exact hunits
    · exact hunits
    · exact ⟨hunits.now.congr rfl rfl, hunits.before⟩

/-- The units parsed in a run of access units, each given with the size of its scratch buffer. -/
def parseRun : List (List Byte × Nat) → ParseResult → List Unit264
  | [], _ => []
  | (buf, scratchSize) :: rest, out =>
    (auUnits buf scratchSize out).units ++ parseRun rest (parseAccessUnit buf scratchSize out).2

theorem parseRun_good (aus : List (List Byte × Nat)) (hh : Good h o) :
    ∃ o', Good (h ++ parseRun aus o) o' := by
  induction aus generalizing h o with
  | nil => exact ⟨o, by rwa [parseRun, List.append_nil]⟩
  | cons au rest ih =>
    rw [parseRun, ← List.append_assoc]
    exact ih (parseAccessUnit_good hh)

theorem find_of_last {kind : UnitKind} {p : ParseResult → Bool} (hlast : last kind h = some u)
    (haccepted : accepted u = true) (hp : p (stored u) = true) : latest kind p h = some u := by
  obtain ⟨hk, pre, post, hsplit, hpre⟩ := List.find?_eq_some_iff_append.mp hlast
  refine List.find?_eq_some_iff_append.mpr
    ⟨by simp [haccepted, hp, of_decide_eq_true hk], pre, post,
    hsplit, fun v hv => ?_⟩
  have hno := hpre v hv
  simp only [Bool.not_eq_true', decide_eq_false_iff_not] at hno
  simp [hno]

theorem activated_of_selected (hh : Holds h u.before) (hsel : Selected h u) : Activated h u := by
  obtain ⟨p, q, hp, hpok, hpid, hq, hqok, hqid⟩ := hsel
  refine ⟨p, q, find_of_last hp hpok (decide_eq_true hpid), hh.pps p hp, ?_, hh.sps q hq⟩
  exact find_of_last hq hqok (decide_eq_true hqid)

/-- If the sets are those of the slice, they are the last ones; at least if these were accepted. -/
theorem selected_of_activated {p q : Unit264} (hh : Holds h u.before) (hp : last .pps h = some p)
    (hpok : accepted p = true) (hq : last .sps h = some q) (hqok : accepted q = true)
    (hact : Activated h u) : Selected h u := by
  obtain ⟨p', q', hp', hpps, hq', hsps⟩ := hact
  have hsame : (stored p).pps.coded = (stored p').pps.coded := (hh.pps p hp).symm.trans hpps
  have hid : (stored p).pps.picParameterSetId = (stored p').pps.picParameterSetId := by
    have h := congrArg Pps.picParameterSetId hsame
    exact h
  have hspsid : (stored p).pps.seqParameterSetId = (stored p').pps.seqParameterSetId := by
    have h := congrArg Pps.seqParameterSetId hsame
    exact h
  have hcoded := List.find?_some hp'
  have hnamed := List.find?_some hq'
  simp only [Bool.and_eq_true, decide_eq_true_eq] at hcoded hnamed
  refine ⟨p, q, hp, hpok, hid.trans hcoded.2.2, hq, hqok, ?_⟩
  rw [← hh.sps q hq, hsps, hnamed.2.2, hspsid]

/-- The id of the PPS that is read with is the one in the slice header. -/
theorem activated_id (hact : Activated h u) : u.before.pps.picParameterSetId = codedPpsId u := by
  obtain ⟨p, q, hp, hpps, -⟩ := hact
  have hid : u.before.pps.picParameterSetId = (stored p).pps.picParameterSetId := by
    have h := congrArg Pps.picParameterSetId hpps
    exact h
  have hcoded := List.find?_some hp
  simp only [Bool.and_eq_true, decide_eq_true_eq] at hcoded
  exact hid.trans hcoded.2.2

end History

open History in
/-- A slice is read with the parameter sets its header names, in every run of access units, if the
last PPS and the last SPS before it were accepted and are those it names; and only then, where these
two were accepted. -/
theorem slice_sets_iff (aus : List (List Byte × Nat)) (out : ParseResult)
    (pre post : List Unit264) (u : Unit264) (hrun : parseRun aus out = pre ++ u :: post) :
    (Selected pre u → Activated pre u) ∧
    (∀ p q, last .pps pre = some p → accepted p = true → last .sps pre = some q →
      accepted q = true → (Activated pre u ↔ Selected pre u)) := by
  obtain ⟨o, hgood⟩ := parseRun_good aus (Good.nil out)
  rw [List.nil_append] at hgood
  have hh := hgood.before pre u post hrun
  refine ⟨activated_of_selected hh, fun p q hp hpok hq hqok => ⟨?_, activated_of_selected hh⟩⟩
  exact selected_of_activated hh hp hpok hq hqok

section Streams

open History

/-- An SPS, a PPS of id 0, one of id 1 with redundant pictures, and a slice that names the first. -/
abbrev twoPps : List Byte :=
  [0, 0, 1, 0x67, 0x42, 0x00, 0x0a, 0xda, 0x71, 0, 0, 1, 0x68, 0xce, 0x38, 0x80,
    0, 0, 1, 0x68, 0x53, 0x8e, 0x60, 0, 0, 1, 0x65, 0x88, 0x84, 0x21]

theorem twoPps_units : (parseRun [(twoPps, 128)] {}).length = 4 := by decide +kernel

/-- The slice of `twoPps`. -/
abbrev namesFirst : Unit264 := (parseRun [(twoPps, 128)] {}).get ⟨3, by rw [twoPps_units]; decide⟩

/-- The slice is accepted and names PPS 0, which was received, but it is read with PPS 1. -/
theorem other_pps_read :
    parseRun [(twoPps, 128)] {} = (parseRun [(twoPps, 128)] {}).take 3 ++ namesFirst :: [] ∧
    namesFirst.kind = .slice ∧ accepted namesFirst = true ∧ codedPpsId namesFirst = 0 ∧
    (latest .pps (fun o => o.pps.picParameterSetId = 0)
      ((parseRun [(twoPps, 128)] {}).take 3)).isSome = true ∧
    namesFirst.before.pps.picParameterSetId = 1 ∧
    ¬ Activated ((parseRun [(twoPps, 128)] {}).take 3) namesFirst := by
  refine ⟨?_, by decide +kernel, by decide +kernel, by decide +kernel, by decide +kernel,
    by decide +kernel, fun hact => ?_⟩
  · have hlast : (parseRun [(twoPps, 128)] {}).drop 3 = [namesFirst] := by
      rw [List.drop_eq_getElem_cons (by rw [twoPps_units]; decide),
        List.drop_eq_nil_of_le twoPps_units.le]
      rfl
    exact (List.take_append_drop 3 _).symm.trans (by rw [hlast])
  · have hid := activated_id hact
    revert hid
    decide +kernel

/-- The run of one access unit, up to its slice. -/
abbrev plainRun : List Unit264 := parseRun [(h264Au [0x88, 0x84, 0x21], 128)] {}

theorem plainRun_units : plainRun.length = 3 := by decide +kernel

abbrev plainSlice : Unit264 := plainRun.get ⟨2, by rw [plainRun_units]; decide⟩

theorem slice_sets_iff_plain :
    accepted plainSlice = true ∧ Activated (plainRun.take 2) plainSlice := by
  have hsplit : plainRun = plainRun.take 2 ++ plainSlice :: [] := by
    have hlast : plainRun.drop 2 = [plainSlice] := by
      rw [List.drop_eq_getElem_cons (by rw [plainRun_units]; decide),
        List.drop_eq_nil_of_le plainRun_units.le]
      rfl
    exact (List.take_append_drop 2 _).symm.trans (by rw [hlast])
  refine ⟨by decide +kernel, (slice_sets_iff _ _ _ _ _ hsplit).1 ?_⟩
  obtain ⟨p, hp⟩ : ∃ p, last .pps (plainRun.take 2) = some p :=
    Option.isSome_iff_exists.mp (by decide +kernel)
  obtain ⟨q, hq⟩ : ∃ q, last .sps (plainRun.take 2) = some q :=
    Option.isSome_iff_exists.mp (by decide +kernel)
  have hpps : (last .pps (plainRun.take 2)).map (fun p => (accepted p,
      (stored p).pps.picParameterSetId, (stored p).pps.seqParameterSetId)) =
        some (true, codedPpsId plainSlice, 0) := by decide +kernel
  have hsps : (last .sps (plainRun.take 2)).map (fun q => (accepted q,
      (stored q).sps.seqParameterSetId)) = some (true, 0) := by decide +kernel
  simp only [hp, hq, Option.map_some, Option.some.injEq, Prod.mk.injEq] at hpps hsps
  exact ⟨p, q, hp, hpps.1, hpps.2.1, hq, hsps.1, hsps.2.trans hpps.2.2.symm⟩

end Streams

end Rkvdec.Bitstream.H264
