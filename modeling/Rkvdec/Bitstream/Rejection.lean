import Mathlib.Data.List.Basic
import Mathlib.Tactic.Ring
import Rkvdec.Bitstream.Footprint
import Rkvdec.Bitstream.Truncation

/-! What is left of the parser's state when it rejects an access unit: the picture order count of
the last good one, and the parameter sets unless the unit at fault is one that is parsed in
place. -/
namespace Rkvdec.Bitstream

section Feeding

variable {σ τ : Type} {visit : AuState σ τ → List Byte → AuState σ τ} {s : AuState σ τ}

/-- The loop has handed the switch the units before `rbsp`, is in state `s`, and gives up at
`rbsp`. -/
def RejectedAt (header : Nat) (visit : AuState σ τ → List Byte → AuState σ τ) (buf : List Byte)
    (scratchSize : Nat) (start s : AuState σ τ) (rbsp : List Byte) : Prop :=
  ∃ pre post, (nalUnits header buf scratchSize buf.length 0 0).1.map NalUnit.rbsp =
      pre ++ rbsp :: post ∧
    s = feed visit pre true start ∧ s.status = none ∧ (visit s rbsp).status.isSome

theorem feed_one (rbsp : List Byte) : feed visit [rbsp] true s = visit s rbsp := by
  simp only [feed]
  split <;> rfl

/-- The units before one are fed first. -/
theorem feed_append {pre post : List (List Byte)} {complete : Bool}
    (h : (feed visit pre true s).status = none) :
    feed visit (pre ++ post) complete s = feed visit post complete (feed visit pre true s) := by
  induction pre generalizing s with
  | nil => rfl
  | cons rbsp rest ih =>
    simp only [feed, List.cons_append] at h ⊢
    split_ifs at h ⊢ with hstatus
    · rw [h] at hstatus
      exact absurd hstatus (by simp)
    · exact ih h

/-- Of an access unit that is not rejected no unit was. -/
theorem feed_prefix {pre post : List (List Byte)} {complete : Bool}
    (hs : s.status = none) (h : (feed visit (pre ++ post) complete s).status = none) :
    (feed visit pre true s).status = none := by
  induction pre generalizing s with
  | nil => exact hs
  | cons rbsp rest ih =>
    simp only [feed, List.cons_append] at h ⊢
    split_ifs at h ⊢ with hstatus
    · exact h
    · exact ih (by simpa using hstatus) h

/-- A property that the switch keeps holds when the units are fed. -/
theorem feed_rule {P : AuState σ τ → Prop} (hvisit : ∀ s rbsp, P s → P (visit s rbsp))
    (pre : List (List Byte)) (h : P s) : P (feed visit pre true s) := by
  induction pre generalizing s with
  | nil => exact h
  | cons rbsp rest ih =>
    simp only [feed]
    split_ifs
    · exact hvisit s rbsp h
    · exact ih (hvisit s rbsp h)

/-- The loop ends in what the switch made of the unit it gave up at. -/
theorem RejectedAt.loop {header scratchSize : Nat} {buf rbsp : List Byte} {start : AuState σ τ}
    (h : RejectedAt header visit buf scratchSize start s rbsp) :
    auLoop header visit buf scratchSize buf.length 0 0 start = visit s rbsp := by
  obtain ⟨pre, post, hunits, rfl, hnone, hreject⟩ := h
  rw [auLoop_eq_feed, hunits, feed_append hnone]
  simp only [feed, hreject, if_true]

/-- Of an access unit rejected at a unit, the caller gets what that unit left, with what no unit
changes as it was passed in. -/
theorem RejectedAt.left {γ : Type} {header scratchSize : Nat} {buf rbsp : List Byte}
    {start units : AuState σ τ} {parsed : ParseStatus × σ} {view : σ → γ}
    (h : RejectedAt header visit buf scratchSize start s rbsp)
    (hunits : auLoop header visit buf scratchSize buf.length 0 0 start = units)
    (hparsed : ∀ e, units.status = some e → parsed = (e.status, units.result.1))
    (hview : ∀ s rbsp, view (visit s rbsp).result.1 = view s.result.1) :
    (parsed.1 = .invalid ∨ parsed.1 = .unsupported) ∧ parsed.2 = (visit s rbsp).result.1 ∧
      view parsed.2 = view start.result.1 := by
  obtain rfl := hunits.symm.trans h.loop
  obtain ⟨pre, post, -, rfl, -, hreject⟩ := h
  obtain ⟨e, he⟩ := Option.isSome_iff_exists.mp hreject
  obtain rfl := hparsed e he
  refine ⟨?_, rfl, (hview _ _).trans ?_⟩
  · cases e with
    | invalid => exact Or.inl rfl
    | unsupported => exact Or.inr rfl
  · exact feed_rule (P := fun s => view s.result.1 = view start.result.1)
      (fun s rbsp h => (hview s rbsp).trans h) pre rfl

theorem AuState.parse_result (s : AuState σ τ) (u : UnitRun σ) :
    (s.parse u).result = ((exec u.parser u.before u.reader).1.2, s.result.2) := rfl

theorem AuState.parse_error {u : UnitRun σ} {e : ParseError}
    (h : (exec u.parser u.before u.reader).1.1 = .error e) : (s.parse u).status = some e := by
  have h : u.outcome.1.1 = .error e := h
  simp only [AuState.parse, h]

theorem AuState.parse_ok {u : UnitRun σ} (h : (exec u.parser u.before u.reader).1.1 = .ok ()) :
    (s.parse u).status = none := by
  have h : u.outcome.1.1 = .ok () := h
  simp only [AuState.parse, h]

/-- What a unit parser keeps is kept by the unit. -/
theorem AuState.parse_keeps {γ δ : Type} {u : UnitRun σ} {view : σ → γ} {f : σ → δ}
    (hkeeps : Keeps view u.parser) (hu : u.before = s.result.1) (f' : γ → δ)
    (hf : ∀ o, f' (view o) = f o) : f (s.parse u).result.1 = f s.result.1 := by
  have h := hkeeps u.before u.reader
  rw [hu] at h
  change f (exec u.parser u.before u.reader).1.2 = _
  rw [hu, ← hf, h, hf]

end Feeding

section Overwriting

variable {σ α β : Type} {s s' : σ} {br : BitReader}

theorem exec_bind_congr {p : Parser σ α} {f : α → Parser σ β} (h : exec p s br = exec p s' br) :
    exec (p >>= f) s br = exec (p >>= f) s' br := by
  rw [exec_bind, exec_bind, h]

/-- What a read returns does not depend on the result struct. -/
theorem exec_bind_read {p : Parser σ α} {f : α → Parser σ β} {a : α} {br' : BitReader}
    (hs : exec p s br = ((.ok a, s), br')) (hs' : exec p s' br = ((.ok a, s'), br'))
    (h : exec (f a) s br' = exec (f a) s' br') : exec (p >>= f) s br = exec (p >>= f) s' br := by
  rw [exec_bind, exec_bind, hs, hs']
  exact h

/-- A parser that overwrites a field first does not see what was in it. -/
theorem exec_overwrite {g : σ → σ} {f : PUnit → Parser σ α} (h : g s = g s') :
    exec (modify g >>= f) s br = exec (modify g >>= f) s' br := by
  refine exec_bind_congr ?_
  change ((Except.ok PUnit.unit, g s), br) = ((Except.ok PUnit.unit, g s'), br)
  rw [h]

end Overwriting

namespace H264

/-- The parameter sets the parser holds. -/
structure ParamSets where
  sps : Sps
  pps : Pps
  scalingMatrix : ScalingMatrix
  hasSps : Bool
  hasPps : Bool
  hasScalingMatrix : Bool
  hasSpsVuiReorder : Bool
  spsVuiMaxNumReorderFrames : Nat
  hasVuiColour : Bool
  vuiFullRangeFlag : Nat
  hasVuiColourDesc : Bool
  vuiColourPrimaries : Nat
  vuiTransferCharacteristics : Nat
  vuiMatrixCoefficients : Nat

def paramSets (o : ParseResult) : ParamSets :=
  ⟨o.sps, o.pps, o.scalingMatrix, o.hasSps, o.hasPps, o.hasScalingMatrix, o.hasSpsVuiReorder,
    o.spsVuiMaxNumReorderFrames, o.hasVuiColour, o.vuiFullRangeFlag, o.hasVuiColourDesc,
    o.vuiColourPrimaries, o.vuiTransferCharacteristics, o.vuiMatrixCoefficients⟩

/-- The POC state that the next access unit continues from. -/
def pocState (o : ParseResult) : Staged :=
  ⟨o.prevPicOrderCntMsb, o.prevPicOrderCntLsb, o.prevFrameNum, o.prevFrameNumOffset⟩

def nalType (rbsp : List Byte) : Nat := (rbsp.headD 0).toNat % 2 ^ 5

variable {s : Au} {rbsp : List Byte}

theorem finishSlice_pocState (nalRefIdc : Nat) (payload : List Byte) (headerBits : Nat) :
    pocState (finishSlice s nalRefIdc payload headerBits).result.1 = pocState s.result.1 := by
  simp only [finishSlice]
  split_ifs <;> rfl

/-- No unit touches the POC state; it is kept on the stack until the access unit is done. -/
theorem visit_pocState (s : Au) (rbsp : List Byte) :
    pocState (visit s rbsp).result.1 = pocState s.result.1 := by
  simp only [visit]
  split_ifs
  · exact AuState.parse_keeps keeps_spsUnit rfl pocState fun _ => rfl
  · exact AuState.parse_keeps keeps_ppsUnit rfl pocState fun _ => rfl
  · rfl
  · exact AuState.parse_keeps (keeps_parseSliceHeader _ _) rfl pocState fun _ => rfl
  · rw [finishSlice_pocState]
    exact AuState.parse_keeps (keeps_parseSliceHeader _ _) rfl pocState fun _ => rfl
  · rfl

/-- A slice leaves the parameter sets alone. -/
theorem visit_paramSets (h7 : nalType rbsp ≠ 7) (h8 : nalType rbsp ≠ 8) :
    paramSets (visit s rbsp).result.1 = paramSets s.result.1 := by
  have hfinish (s : Au) (nalRefIdc : Nat) (payload : List Byte) (headerBits : Nat) :
      paramSets (finishSlice s nalRefIdc payload headerBits).result.1 = paramSets s.result.1 := by
    simp only [finishSlice]
    split_ifs <;> rfl
  simp only [nalType] at h7 h8
  simp only [visit, if_neg h7, if_neg h8]
  split_ifs
  · rfl
  · exact AuState.parse_keeps (keeps_parseSliceHeader _ _) rfl paramSets fun _ => rfl
  · rw [hfinish]
    exact AuState.parse_keeps (keeps_parseSliceHeader _ _) rfl paramSets fun _ => rfl
  · rfl

/-- The units that are parsed into the stored parameter sets. -/
def InPlace (rbsp : List Byte) : Prop := nalType rbsp = 7 ∨ nalType rbsp = 8

/-- The parser rejects the unit, in some state at least. -/
def Malformed (rbsp : List Byte) : Prop := ∃ s : Au, s.status = none ∧ (visit s rbsp).status.isSome

/-- Whatever was there before, a rejected unit leaves it as it was. -/
def RejectionKeeps (rbsp : List Byte) : Prop :=
  ∀ s : Au, s.status = none → (visit s rbsp).status.isSome →
    paramSets (visit s rbsp).result.1 = paramSets s.result.1 ∧
    pocState (visit s rbsp).result.1 = pocState s.result.1

/-- The state with another SPS, respectively PPS, in place of the stored one. -/
def withSps (s : Au) (sps : Sps) : Au :=
  { s with result := ({ s.result.1 with sps := sps }, s.result.2) }

def withPps (s : Au) (pps : Pps) : Au :=
  { s with result := ({ s.result.1 with pps := pps }, s.result.2) }

/-- An SPS clears the stored one first, so that nothing of it is seen. -/
theorem visit_withSps (h : nalType rbsp = 7) (sps : Sps) :
    (visit (withSps s sps) rbsp).result = (visit s rbsp).result ∧
    (visit (withSps s sps) rbsp).status = (visit s rbsp).status := by
  have houtcome (br : BitReader) :
      UnitRun.outcome ⟨.sps, spsUnit, { s.result.1 with sps := sps }, br⟩ =
        UnitRun.outcome ⟨.sps, spsUnit, s.result.1, br⟩ :=
    exec_bind_congr (exec_bind_congr (exec_overwrite rfl))
  simp only [nalType] at h
  simp only [visit, if_pos h, withSps, AuState.parse, houtcome, and_self]

theorem visit_withPps (h : nalType rbsp = 8) (pps : Pps) :
    (visit (withPps s pps) rbsp).result = (visit s rbsp).result ∧
    (visit (withPps s pps) rbsp).status = (visit s rbsp).status := by
  have houtcome (br : BitReader) :
      UnitRun.outcome ⟨.pps, ppsUnit, { s.result.1 with pps := pps }, br⟩ =
        UnitRun.outcome ⟨.pps, ppsUnit, s.result.1, br⟩ :=
    exec_bind_congr (exec_bind_congr (exec_overwrite rfl))
  simp only [nalType] at h
  have h7 : ¬ (rbsp.headD 0).toNat % 2 ^ 5 = 7 := by omega
  simp only [visit, if_neg h7, if_pos h, withPps, AuState.parse, houtcome, and_self]

theorem rejectionKeeps_iff (rbsp : List Byte) :
    RejectionKeeps rbsp ↔ ¬ (InPlace rbsp ∧ Malformed rbsp) := by
  constructor
  · rintro hkeeps ⟨hplace | hplace, s, hs, hreject⟩
    · -- two states that differ in the stored SPS only are left the same
      have hleft (sps : Sps) :
          paramSets (visit s rbsp).result.1 = paramSets (withSps s sps).result.1 := by
        obtain ⟨hresult, hstatus⟩ := visit_withSps (s := s) hplace sps
        have hkept := (hkeeps (withSps s sps) hs (by rw [hstatus]; exact hreject)).1
        rwa [hresult] at hkept
      have hsame := (hleft { profileIdc := 0 }).symm.trans (hleft { profileIdc := 1 })
      exact absurd (congrArg (fun p => p.sps.profileIdc) hsame) Nat.zero_ne_one
    · have hleft (pps : Pps) :
          paramSets (visit s rbsp).result.1 = paramSets (withPps s pps).result.1 := by
        obtain ⟨hresult, hstatus⟩ := visit_withPps (s := s) hplace pps
        have hkept := (hkeeps (withPps s pps) hs (by rw [hstatus]; exact hreject)).1
        rwa [hresult] at hkept
      have hsame := (hleft { flags := 0 }).symm.trans (hleft { flags := 1 })
      exact absurd (congrArg (fun p => p.pps.flags) hsame) Nat.zero_ne_one
  · intro hno s hs hreject
    refine ⟨visit_paramSets ?_ ?_, visit_pocState s rbsp⟩
    · exact fun h7 => hno ⟨Or.inl h7, s, hs, hreject⟩
    · exact fun h8 => hno ⟨Or.inr h8, s, hs, hreject⟩

end H264

namespace H265

structure ParamSets where
  vps : List Vps
  sps : List Sps
  pps : List Pps

def paramSets (o : ParseResult) : ParamSets := ⟨o.vps, o.sps, o.pps⟩

def pocState (o : ParseResult) : Staged := ⟨o.prevPocMsbTid0, o.prevPocLsbTid0⟩

def nalType (rbsp : List Byte) : Nat :=
  ((rbsp.getD 0 0).toNat * 2 ^ 8 + (rbsp.getD 1 0).toNat) / 2 ^ 9 % 2 ^ 6

variable {s : Au} {rbsp : List Byte}

theorem finishSlice_pocState (nalUnitType temporalIdP1 : Nat) (payload : List Byte)
    (headerBits : Nat) :
    pocState (finishSlice s nalUnitType temporalIdP1 payload headerBits).result.1 =
      pocState s.result.1 := by
  simp only [finishSlice]
  split_ifs <;> rfl

theorem visit_pocState (s : Au) (rbsp : List Byte) :
    pocState (visit s rbsp).result.1 = pocState s.result.1 := by
  have hsps : Keeps pocState parseSps :=
    keeps_parseSpsFields.bind fun _ => keeps_checkFailed.bind fun _ => .modify fun _ => rfl
  have hpps : Keeps pocState parsePps :=
    keeps_parsePpsFields.bind fun _ => keeps_checkFailed.bind fun _ => .modify fun _ => rfl
  simp only [visit]
  split_ifs
  · exact AuState.parse_keeps keeps_parseVps rfl pocState fun _ => rfl
  · exact AuState.parse_keeps hsps rfl id fun _ => rfl
  · exact AuState.parse_keeps hpps rfl id fun _ => rfl
  · exact AuState.parse_keeps (keeps_parseSliceHeader _) rfl pocState fun _ => rfl
  · rw [finishSlice_pocState]
    exact AuState.parse_keeps (keeps_parseSliceHeader _) rfl pocState fun _ => rfl
  · rfl

/-- A set is stored after the check only: the parser gives up and leaves the result, or stores what
it has read. -/
theorem staged_cases {α : Type} {p : P α} (g : α → ParseResult → ParseResult) (o : ParseResult)
    (br : BitReader) (hp : Keeps id p) :
    (exec (p >>= fun a => checkFailed >>= fun _ => modify (g a)) o br).1.2 = o ∨
    ∃ a, (exec (p >>= fun a => checkFailed >>= fun _ => modify (g a)) o br).1 =
    (.ok (), g a o) := by
  have hfirst := hp o br
  rw [exec_bind]
  cases hexec : exec p o br with
  | mk r br₁ =>
    obtain ⟨res, o₁⟩ := r
    simp only [hexec, id_eq] at hfirst ⊢
    subst hfirst
    cases res with
    | error e => exact .inl rfl
    | ok a =>
      have hcheck : id (exec checkFailed o₁ br₁).1.2 = id o₁ := keeps_checkFailed o₁ br₁
      simp only
      rw [exec_bind]
      cases hchecked : exec checkFailed o₁ br₁ with
      | mk r br₂ =>
        obtain ⟨res, o₂⟩ := r
        simp only [hchecked, id_eq] at hcheck ⊢
        subst hcheck
        cases res with
        | error e => exact .inl rfl
        | ok u => exact .inr ⟨a, rfl⟩

theorem staged_reject {α : Type} {p : P α} {g : α → ParseResult → ParseResult} {o : ParseResult}
    {br : BitReader} {e : ParseError} (hp : Keeps id p)
    (h : (exec (p >>= fun a => checkFailed >>= fun _ => modify (g a)) o br).1.1 = .error e) :
    (exec (p >>= fun a => checkFailed >>= fun _ => modify (g a)) o br).1.2 = o := by
  rcases staged_cases g o br hp with hsame | ⟨a, hok⟩
  · exact hsame
  · rw [hok] at h
    cases h

theorem parseSps_reject {o : ParseResult} {br : BitReader} {e : ParseError}
    (h : (exec parseSps o br).1.1 = .error e) : (exec parseSps o br).1.2 = o := by
  unfold parseSps at h ⊢
  exact staged_reject keeps_parseSpsFields h

theorem parsePps_reject {o : ParseResult} {br : BitReader} {e : ParseError}
    (h : (exec parsePps o br).1.1 = .error e) : (exec parsePps o br).1.2 = o := by
  unfold parsePps at h ⊢
  exact staged_reject keeps_parsePpsFields h

/-- The unit parsed into the stored parameter sets. -/
def InPlace (rbsp : List Byte) : Prop := nalType rbsp = nalVps

/-- The array of VPS entries has its size. -/
def Sized (s : Au) : Prop := s.result.1.vps.length = maxVps

def Malformed (rbsp : List Byte) : Prop :=
  ∃ s : Au, s.status = none ∧ Sized s ∧ (visit s rbsp).status.isSome

def RejectionKeeps (rbsp : List Byte) : Prop :=
  ∀ s : Au, s.status = none → Sized s → (visit s rbsp).status.isSome →
    paramSets (visit s rbsp).result.1 = paramSets s.result.1 ∧
    pocState (visit s rbsp).result.1 = pocState s.result.1

theorem parse_staged {u : UnitRun ParseResult} (h : (s.parse u).status.isSome)
    (hparser : ∀ o br e, (exec u.parser o br).1.1 = .error e → (exec u.parser o br).1.2 = o)
    (hu : u.before = s.result.1) : (s.parse u).result.1 = s.result.1 := by
  cases hres : (exec u.parser u.before u.reader).1.1 with
  | error e => exact (hparser _ _ e hres).trans hu
  | ok a =>
    rw [AuState.parse_ok hres] at h
    cases h

theorem visit_paramSets (hvps : nalType rbsp ≠ nalVps) (h : (visit s rbsp).status.isSome) :
    paramSets (visit s rbsp).result.1 = paramSets s.result.1 := by
  have hfinish (s : Au) (nalUnitType temporalIdP1 : Nat) (payload : List Byte) (headerBits : Nat) :
      paramSets (finishSlice s nalUnitType temporalIdP1 payload headerBits).result.1 =
        paramSets s.result.1 := by
    simp only [finishSlice]
    split_ifs <;> rfl
  simp only [nalType] at hvps
  simp only [visit, if_neg hvps] at h ⊢
  split_ifs at h ⊢
  · exact congrArg paramSets (parse_staged h (fun _ _ _ => parseSps_reject) rfl)
  · exact congrArg paramSets (parse_staged h (fun _ _ _ => parsePps_reject) rfl)
  · exact AuState.parse_keeps (keeps_parseSliceHeader _) rfl paramSets fun _ => rfl
  · rw [hfinish]
    exact AuState.parse_keeps (keeps_parseSliceHeader _) rfl paramSets fun _ => rfl
  · rfl

/-- The VPS id a payload starts with. -/
def codedVpsId (rbsp : List Byte) : Nat := u8 ((BitReader.init (rbsp.drop 2)).u 4).1

/-- The state with another VPS stored under an id. -/
def withVps (s : Au) (id : Nat) (vps : Vps) : Au :=
  { s with result := ({ s.result.1 with vps := s.result.1.vps.set id vps }, s.result.2) }

theorem uLoop_lt (n v : Nat) (br : BitReader) : (BitReader.uLoop n v br).1 < (v + 1) * 2 ^ n := by
  induction n generalizing v br with
  | zero => simp [BitReader.uLoop]
  | succ n ih =>
    rw [BitReader.uLoop]
    split_ifs
    · exact lt_of_lt_of_le (Nat.lt_succ_self v) (Nat.le_mul_of_pos_right _ (Nat.two_pow_pos _))
    · refine lt_of_lt_of_le (ih _ _) ?_
      have hbit : (br.bitAt br.bitPos).toNat ≤ 1 := Bool.toNat_le _
      have hmod := Nat.mod_le (2 * v + (br.bitAt br.bitPos).toNat) (2 ^ 32)
      calc ((2 * v + (br.bitAt br.bitPos).toNat) % 2 ^ 32 + 1) * 2 ^ n
          ≤ (2 * (v + 1)) * 2 ^ n := Nat.mul_le_mul_right _ (by omega)
        _ = (v + 1) * 2 ^ (n + 1) := by ring

theorem codedVpsId_lt (rbsp : List Byte) : codedVpsId rbsp < maxVps := by
  have hlt := uLoop_lt 4 0 (.init (rbsp.drop 2))
  have hmod := Nat.mod_le ((BitReader.init (rbsp.drop 2)).u 4).1 (2 ^ 8)
  change ((BitReader.init (rbsp.drop 2)).u 4).1 < (0 + 1) * 2 ^ 4 at hlt
  simp only [codedVpsId, u8, maxVps]
  omega

/-- A VPS clears the entry of its id first. -/
theorem exec_withVps (vps : Vps) :
    exec parseVps (withVps s (codedVpsId rbsp) vps).result.1 (.init (rbsp.drop 2)) =
      exec parseVps s.result.1 (.init (rbsp.drop 2)) := by
  have hid : ¬ maxVps ≤ codedVpsId rbsp := Nat.not_le.mpr (codedVpsId_lt rbsp)
  have hclear (v : Vps) : (s.result.1.vps.set (codedVpsId rbsp) vps).modify (codedVpsId rbsp)
      (fun _ => v) = s.result.1.vps.modify (codedVpsId rbsp) fun _ => v := by
    rw [← List.set_eq_modify, ← List.set_eq_modify, List.set_set]
  unfold parseVps
  refine exec_bind_read (a := codedVpsId rbsp) rfl rfl ?_
  simp only [hid, if_false]
  refine exec_overwrite ?_
  simp only [withVps, hclear]

theorem visit_withVps (h : nalType rbsp = nalVps) (vps : Vps) :
    (visit (withVps s (codedVpsId rbsp) vps) rbsp).result = (visit s rbsp).result ∧
    (visit (withVps s (codedVpsId rbsp) vps) rbsp).status = (visit s rbsp).status := by
  have houtcome : UnitRun.outcome ⟨.vps, parseVps, (withVps s (codedVpsId rbsp) vps).result.1,
      .init (rbsp.drop 2)⟩ =
        UnitRun.outcome ⟨.vps, parseVps, s.result.1, .init (rbsp.drop 2)⟩ := exec_withVps vps
  simp only [nalType] at h
  simp only [visit, if_pos h, AuState.parse, houtcome, and_true]
  rfl

theorem rejectionKeeps_iff (rbsp : List Byte) :
    RejectionKeeps rbsp ↔ ¬ (InPlace rbsp ∧ Malformed rbsp) := by
  constructor
  · rintro hkeeps ⟨hplace, s, hs, hsized, hreject⟩
    have hleft (vps : Vps) : paramSets (visit s rbsp).result.1 =
        paramSets (withVps s (codedVpsId rbsp) vps).result.1 := by
      obtain ⟨hresult, hstatus⟩ := visit_withVps (s := s) hplace vps
      have hsized' : Sized (withVps s (codedVpsId rbsp) vps) := List.length_set.trans hsized
      have hkept :=
        (hkeeps (withVps s (codedVpsId rbsp) vps) hs hsized' (by rw [hstatus]; exact hreject)).1
      rwa [hresult] at hkept
    have hin : codedVpsId rbsp < s.result.1.vps.length := by
      rw [hsized]
      exact codedVpsId_lt rbsp
    have hsame := (hleft { valid := false }).symm.trans (hleft { valid := true })
    have hentry := congrArg (fun p => (p.vps[codedVpsId rbsp]?).map Vps.valid) hsame
    simp [paramSets, withVps, hin] at hentry
  · intro hno s hs hsized hreject
    refine ⟨visit_paramSets (fun hvps => ?_) hreject, visit_pocState s rbsp⟩
    exact hno ⟨hvps, s, hs, hsized, hreject⟩

end H265

section Results

/-- A unit that is rejected leaves the parameter sets and the POC state as they were, whatever they
were, unless it is one the parser works on in place: an SPS or a PPS of H.264, a VPS of H.265. What
the unit leaves is what the caller of the access unit parser gets, with the POC state it passed
in. -/
theorem rejection_keeps_iff (rbsp : List Byte) :
    ((H264.RejectionKeeps rbsp ↔ ¬ (H264.InPlace rbsp ∧ H264.Malformed rbsp)) ∧
      ∀ buf scratchSize out s, RejectedAt 1 H264.visit buf scratchSize (H264.auStart out) s rbsp →
        ((H264.parseAccessUnit buf scratchSize out).1 = .invalid ∨
          (H264.parseAccessUnit buf scratchSize out).1 = .unsupported) ∧
        (H264.parseAccessUnit buf scratchSize out).2 = (H264.visit s rbsp).result.1 ∧
        H264.pocState (H264.parseAccessUnit buf scratchSize out).2 = H264.pocState out) ∧
    ((H265.RejectionKeeps rbsp ↔ ¬ (H265.InPlace rbsp ∧ H265.Malformed rbsp)) ∧
      ∀ buf scratchSize out s, RejectedAt 2 H265.visit buf scratchSize (H265.auStart out) s rbsp →
        ((H265.parseAccessUnit buf scratchSize out).1 = .invalid ∨
          (H265.parseAccessUnit buf scratchSize out).1 = .unsupported) ∧
        (H265.parseAccessUnit buf scratchSize out).2 = (H265.visit s rbsp).result.1 ∧
        H265.pocState (H265.parseAccessUnit buf scratchSize out).2 = H265.pocState out) :=
  ⟨⟨H264.rejectionKeeps_iff rbsp, fun buf size out _ h => h.left
      (rfl : _ = H264.auUnits buf size out) (fun _ he => by simp only [H264.parseAccessUnit, he])
      H264.visit_pocState⟩,
    ⟨H265.rejectionKeeps_iff rbsp, fun buf size out _ h => h.left
      (rfl : _ = H265.auUnits buf size out) (fun _ he => by simp only [H265.parseAccessUnit, he])
      H265.visit_pocState⟩⟩

/-- A result with an SPS of profile 100. -/
abbrev storedSps : H264.ParseResult := { sps := { profileIdc := 100 }, hasSps := true }

/-- An SPS that ends in its id. -/
abbrev cutSps : List Byte := [0x67, 0x42, 0x00, 0x1e, 0x00]

/-- A result with a valid VPS of id 0. -/
abbrev storedVps : H265.ParseResult := { vps := { valid := true } :: List.replicate 15 {} }

/-- A VPS with eight sub-layers. -/
abbrev eightLayers : List Byte := [0x40, 0x01, 0x0c, 0x0f, 0xff, 0xff]

theorem rejected_sps_stays :
    ((H264.parseAccessUnit ([0, 0, 1] ++ cutSps) 16 storedSps).1 = .invalid ∧
      storedSps.sps.profileIdc = 100 ∧
      (H264.parseAccessUnit ([0, 0, 1] ++ cutSps) 16 storedSps).2.sps.profileIdc = 0x42) ∧
    ((H265.parseAccessUnit ([0, 0, 1] ++ eightLayers) 16 storedVps).1 = .invalid ∧
      storedVps.vps.map H265.Vps.valid ≠
        (H265.parseAccessUnit ([0, 0, 1] ++ eightLayers) 16 storedVps).2.vps.map H265.Vps.valid) ∧
    ¬ H264.RejectionKeeps cutSps ∧ ¬ H265.RejectionKeeps eightLayers := by
  refine ⟨by decide +kernel, by decide +kernel, fun h => ?_, fun h => ?_⟩
  · have hkept := (h (H264.auStart storedSps) rfl (by decide +kernel)).1
    have hid := congrArg (fun p => p.sps.profileIdc) hkept
    revert hid
    decide +kernel
  · have hkept := (h (H265.auStart storedVps) rfl rfl (by decide +kernel)).1
    have hvalid := congrArg (fun p => p.vps.map H265.Vps.valid) hkept
    revert hvalid
    decide +kernel

/-- The results after an access unit with its sets, from which the next one continues. -/
abbrev avcHeld : H264.ParseResult :=
  (H264.parseAccessUnit (h264Au [0x88, 0x84, 0x21]) 128 {}).2

abbrev hevcHeld : H265.ParseResult :=
  (H265.parseAccessUnit (h265Au [0xaf, 0x80]) 128 {}).2

/-- A PPS, and a slice that names another one. -/
abbrev avcRepeatedPps : List Byte := [0x68, 0xce, 0x38, 0x80]

abbrev otherPpsSlice : List Byte := [0x65, 0x88, 0x40]

/-- A VPS, and a PPS of id 64. -/
abbrev hevcRepeatedVps : List Byte :=
  [0x40, 0x01, 0x0c, 0x01, 0xff, 0xff, 0x01, 0xff, 0xff, 0xff, 0xff, 0x9f, 0xff, 0xff, 0xff, 0xff,
    0xff, 0x1e, 0xf0, 0x24]

abbrev ppsOfId64 : List Byte := [0x44, 0x01, 0x02, 0x08, 0x80]

/-- The states in which the second units are met: the sets are those stored, one of them stored
anew. -/
abbrev avcMet : H264.Au := H264.visit (H264.auStart avcHeld) avcRepeatedPps

abbrev hevcMet : H265.Au := H265.visit (H265.auStart hevcHeld) hevcRepeatedVps

/-- Both second units are rejected, and what the access unit before them stored is still there. -/
theorem rejection_keeps_iff_stored :
    (avcMet.result.1.hasSps = true ∧ avcMet.result.1.hasPps = true ∧
      (H264.parseAccessUnit ([0, 0, 1] ++ avcRepeatedPps ++ [0, 0, 1] ++ otherPpsSlice) 64
        avcHeld).1 = .invalid ∧
      H264.paramSets (H264.parseAccessUnit ([0, 0, 1] ++ avcRepeatedPps ++ [0, 0, 1] ++
        otherPpsSlice) 64 avcHeld).2 = H264.paramSets avcMet.result.1 ∧
      H264.pocState (H264.parseAccessUnit ([0, 0, 1] ++ avcRepeatedPps ++ [0, 0, 1] ++
        otherPpsSlice) 64 avcHeld).2 = H264.pocState avcHeld) ∧
    ((hevcMet.result.1.pps.map H265.Pps.valid).head? = some true ∧
      (H265.parseAccessUnit ([0, 0, 1] ++ hevcRepeatedVps ++ [0, 0, 1] ++ ppsOfId64) 64
        hevcHeld).1 = .invalid ∧
      H265.paramSets (H265.parseAccessUnit ([0, 0, 1] ++ hevcRepeatedVps ++ [0, 0, 1] ++
        ppsOfId64) 64 hevcHeld).2 = H265.paramSets hevcMet.result.1 ∧
      H265.pocState (H265.parseAccessUnit ([0, 0, 1] ++ hevcRepeatedVps ++ [0, 0, 1] ++
        ppsOfId64) 64 hevcHeld).2 = H265.pocState hevcHeld) := by
  constructor
  · obtain ⟨hkeeps, hresult⟩ := (rejection_keeps_iff otherPpsSlice).1
    have hat : RejectedAt 1 H264.visit ([0, 0, 1] ++ avcRepeatedPps ++ [0, 0, 1] ++ otherPpsSlice)
        64 (H264.auStart avcHeld) avcMet otherPpsSlice :=
      ⟨[avcRepeatedPps], [], by decide +kernel, (feed_one _).symm, by decide +kernel,
        by decide +kernel⟩
    have hslice : ¬ H264.InPlace otherPpsSlice := by
      unfold H264.InPlace
      decide
    obtain ⟨-, hvisit, hpoc⟩ := hresult _ _ _ _ hat
    refine ⟨by decide +kernel, by decide +kernel, by decide +kernel, ?_, hpoc⟩
    rw [hvisit]
    exact (hkeeps.mpr (fun hplace => hslice hplace.1) _ (by decide +kernel) (by decide +kernel)).1
  · obtain ⟨hkeeps, hresult⟩ := (rejection_keeps_iff ppsOfId64).2
    have hat : RejectedAt 2 H265.visit ([0, 0, 1] ++ hevcRepeatedVps ++ [0, 0, 1] ++ ppsOfId64)
        64 (H265.auStart hevcHeld) hevcMet ppsOfId64 :=
      ⟨[hevcRepeatedVps], [], by decide +kernel, (feed_one _).symm, by decide +kernel,
        by decide +kernel⟩
    have hpps : ¬ H265.InPlace ppsOfId64 := by
      unfold H265.InPlace
      decide
    obtain ⟨-, hvisit, hpoc⟩ := hresult _ _ _ _ hat
    refine ⟨by decide +kernel, by decide +kernel, ?_, hpoc⟩
    rw [hvisit]
    have hsized : H265.Sized hevcMet := by
      unfold H265.Sized
      decide +kernel
    exact (hkeeps.mpr (fun hplace => hpps hplace.1) _ (by decide +kernel) hsized
      (by decide +kernel)).1

end Results

end Rkvdec.Bitstream
