import Rkvdec.Bitstream.H264
import Rkvdec.Bitstream.H265

/-! Units that end too early. A read that runs out of bits latches the reader's flag in some cases
only, and not every unit parser looks at the flag. -/
namespace Rkvdec.Bitstream

open Lib

namespace BitReader

/-- The zeros in front of the next set bit, if there is one. -/
def leadingZeros (br : BitReader) : Option Nat :=
  (List.range (br.bits - br.bitPos)).find? fun i => br.bitAt (br.bitPos + i)

@[simp] theorem uLoop_failed (n v : Nat) (br : BitReader) :
    (uLoop n v br).2.failed = br.failed := by
  induction n generalizing v br with
  | zero => rfl
  | succ n ih =>
    simp only [uLoop]
    split_ifs
    · rfl
    · exact ih _ _

@[simp] theorem u_failed (n : Nat) (br : BitReader) : (br.u n).2.failed = br.failed :=
  uLoop_failed n 0 br

/-- A one-bit read before the end. -/
theorem u_one {br : BitReader} (h : br.bitPos < br.bits) :
    br.u 1 = ((br.bitAt br.bitPos).toNat, { br with bitPos := br.bitPos + 1 }) := by
  have hbit : (br.bitAt br.bitPos).toNat % 2 ^ 32 = (br.bitAt br.bitPos).toNat := by
    cases br.bitAt br.bitPos <;> rfl
  simp only [u, uLoop, if_neg (Nat.not_le.mpr h), Nat.mul_zero, Nat.zero_add, hbit]

theorem leadingZeros_lt {br : BitReader} {z : Nat} (h : br.leadingZeros = some z) :
    br.bitPos + z < br.bits := by
  have hmem := List.mem_of_find?_eq_some h
  rw [List.mem_range] at hmem
  omega

theorem leadingZeros_end {br : BitReader} (h : br.bits ≤ br.bitPos) : br.leadingZeros = none := by
  simp [leadingZeros, Nat.sub_eq_zero_of_le h]

/-- The next bit decides, or the search goes on behind it. -/
theorem leadingZeros_step {br : BitReader} (h : br.bitPos < br.bits) :
    br.leadingZeros =
      if br.bitAt br.bitPos then some 0
      else ({ br with bitPos := br.bitPos + 1 } : BitReader).leadingZeros.map (· + 1) := by
  obtain ⟨n, hn⟩ : ∃ n, br.bits - br.bitPos = n + 1 := ⟨br.bits - br.bitPos - 1, by omega⟩
  have hrest : br.bits - (br.bitPos + 1) = n := by omega
  have hbits : ({ br with bitPos := br.bitPos + 1 } : BitReader).bits = br.bits := rfl
  have hbit : ∀ i, ({ br with bitPos := br.bitPos + 1 } : BitReader).bitAt (br.bitPos + 1 + i) =
      br.bitAt (br.bitPos + (i + 1)) := by
    intro i
    rw [Nat.add_assoc, Nat.add_comm 1 i]
    rfl
  simp only [leadingZeros, hn, hbits, hrest, hbit, List.range_succ_eq_map, List.find?_cons,
    List.find?_map, Nat.add_zero]
  cases br.bitAt br.bitPos <;> rfl

/-- The loop of `br_ue` stops behind the first set bit, or at the end. -/
theorem countZeros_eq (br : BitReader) (h : br.bitPos ≤ br.bits) :
    countZeros (br.bits - br.bitPos) br =
      match br.leadingZeros with
      | some z => (z, { br with bitPos := br.bitPos + z + 1 })
      | none => (br.bits - br.bitPos, { br with bitPos := br.bits }) := by
  induction hn : br.bits - br.bitPos generalizing br with
  | zero =>
    have hpos : br.bitPos = br.bits := by omega
    rw [leadingZeros_end (by omega), countZeros, ← hpos]
  | succ n ih =>
    have hlt : br.bitPos < br.bits := by omega
    have heof : br.eof = false := by simpa [eof] using hlt
    have ih := ih { br with bitPos := br.bitPos + 1 } hlt (by simp only [bits] at *; omega)
    rw [leadingZeros_step hlt]
    simp only [countZeros, heof, u_one hlt, Bool.false_eq_true, if_false]
    cases hbit : br.bitAt br.bitPos with
    | true => rfl
    | false =>
      simp only [Bool.toNat_false, if_true, ih, Bool.false_eq_true, if_false]
      cases ({ br with bitPos := br.bitPos + 1 } : BitReader).leadingZeros with
      | none => rfl
      | some z => simp [Nat.add_assoc, Nat.add_comm 1]

end BitReader

namespace ReadOp

/-- The element lies inside the data, and a code has at most 31 leading zeros. -/
def Fits : ReadOp → BitReader → Prop
  | u n, br => br.bitPos + n ≤ br.bits
  | ue, br => ∃ z ∈ br.leadingZeros, z ≤ 31 ∧ br.bitPos + 2 * z + 1 ≤ br.bits
  | _, _ => True

/-- The data ends before the element does and the flag stays down: inside a fixed-length field,
where a code begins, or inside the suffix of a code. -/
def Silent : ReadOp → BitReader → Prop
  | u n, br => br.bits < br.bitPos + n
  | ue, br => br.bits ≤ br.bitPos ∨ ∃ z ∈ br.leadingZeros,
      z ≤ 31 ∧ br.bitPos + z + 1 < br.bits ∧ br.bits < br.bitPos + 2 * z + 1
  | _, _ => False

/-- The reads that raise the flag: the data ends inside or right behind the prefix of a code, or the
prefix has more than 31 zeros. -/
def Latched : ReadOp → BitReader → Prop
  | ue, br => br.bitPos < br.bits ∧ ∀ z ∈ br.leadingZeros,
      31 < z ∨ 0 < z ∧ br.bits = br.bitPos + z + 1
  | _, _ => False

instance : ∀ op br, Decidable (Fits op br)
  | u n, br => inferInstanceAs (Decidable (br.bitPos + n ≤ br.bits))
  | ue, br => inferInstanceAs
      (Decidable (∃ z ∈ br.leadingZeros, z ≤ 31 ∧ br.bitPos + 2 * z + 1 ≤ br.bits))
  | eof, _ | moreRbspData, _ | bitPos, _ | len, _ | failed, _ | fail, _ | access _ _, _ =>
    inferInstanceAs (Decidable True)

variable {op : ReadOp} {br : BitReader}

/-- A read that fits is one that is neither silent nor latched. -/
theorem fits_iff : Fits op br ↔ ¬Silent op br ∧ ¬Latched op br := by
  cases op with
  | u n => simp [Fits, Silent, Latched]
  | ue =>
    cases hz : br.leadingZeros with
    | none =>
      simp only [Fits, Silent, Latched, hz]
      simp
    | some z =>
      have hlt := BitReader.leadingZeros_lt hz
      simp only [Fits, Silent, Latched, hz, Option.mem_some_iff, exists_eq_left', forall_eq']
      omega
  | _ => simp [Fits, Silent, Latched]

theorem ue_failed : br.ue.2.failed = false ↔ br.failed = false ∧ ¬Latched ue br := by
  by_cases hpos : br.bits ≤ br.bitPos
  · -- nothing is left: the loop does not run
    have hzero : br.bits - br.bitPos = 0 := by omega
    simp only [BitReader.ue, hzero, BitReader.countZeros]
    simp [Latched, Nat.not_lt.mpr hpos]
  · have hle : br.bitPos ≤ br.bits := by omega
    simp only [BitReader.ue, BitReader.countZeros_eq br hle]
    cases hz : br.leadingZeros with
    | none =>
      have heof : ({ br with bitPos := br.bits } : BitReader).eof = true := by
        simp [BitReader.eof, BitReader.bits]
      have hsub : 0 < br.bits - br.bitPos := by omega
      simp [heof, hsub, Latched, hz]
      omega
    | some z =>
      have heof : ({ br with bitPos := br.bitPos + z + 1 } : BitReader).eof = true ↔
          br.bits ≤ br.bitPos + z + 1 := decide_eq_true_iff
      have hlt := BitReader.leadingZeros_lt hz
      simp only [Latched, hz, Option.mem_some_iff, forall_eq', heof]
      split_ifs with hend hmany
      · simp
        omega
      · simp
        omega
      · simp
        omega

/-- A read that left the flag down did not latch it. -/
theorem handle_failed (op : ReadOp) (br : BitReader) : (handle op br).2.failed = false ↔
    br.failed = false ∧ ¬Latched op br ∧ op ≠ fail := by
  cases op with
  | u n => simp [handle, Latched]
  | ue => simp [handle, ue_failed]
  | _ => simp [handle, Latched]

end ReadOp

section Units

variable {σ α β : Type}

/-- What a parser returns and leaves, from a result struct and a reader. -/
def exec (p : Parser σ α) (s : σ) (br : BitReader) : (Except ParseError α × σ) × BitReader :=
  (p.run.run s).run ReadOp.handle br

theorem exec_bind (p : Parser σ α) (f : α → Parser σ β) (s : σ) (br : BitReader) :
    exec (p >>= f) s br =
      match exec p s br with
      | ((.ok a, s'), br') => exec (f a) s' br'
      | ((.error status, s'), br') => ((.error status, s'), br') := by
  have hrun : (p >>= f).run.run s = p.run.run s >>= fun r =>
      match r with
      | (.ok a, s') => (f a).run.run s'
      | (.error status, s') => pure (.error status, s') := by
    refine congrArg (p.run.run s >>= ·) (funext fun r => ?_)
    obtain ⟨res, s'⟩ := r
    cases res <;> rfl
  unfold exec
  rw [hrun, Prog.run_bind]
  cases (p.run.run s).run ReadOp.handle br with
  | mk r br' =>
    obtain ⟨res, s'⟩ := r
    cases res <;> rfl

/-- A parser that returns OK only with the reader's flag down. -/
def Guarded (p : Parser σ α) : Prop :=
  ∀ s br a s' br', exec p s br = ((.ok a, s'), br') → br'.failed = false

/-- A parser that reads nothing. -/
def Quiet (p : Parser σ α) : Prop := ∀ s br, (exec p s br).2 = br

/-- A sequence that returns OK has gone through both of its parts. -/
theorem exec_bind_ok {p : Parser σ α} {f : α → Parser σ β} {s s' : σ} {br br' : BitReader} {b : β}
    (h : exec (p >>= f) s br = ((.ok b, s'), br')) :
    ∃ a s₁ br₁, exec p s br = ((.ok a, s₁), br₁) ∧ exec (f a) s₁ br₁ = ((.ok b, s'), br') := by
  rw [exec_bind] at h
  cases hp : exec p s br with
  | mk r br₁ =>
    obtain ⟨res, s₁⟩ := r
    rw [hp] at h
    cases res with
    | ok a => exact ⟨a, s₁, br₁, rfl, h⟩
    | error status => cases h

theorem Guarded.after (p : Parser σ α) {f : α → Parser σ β} (hf : ∀ a, Guarded (f a)) :
    Guarded (p >>= f) := by
  intro s br b s' br' h
  obtain ⟨a, s₁, br₁, -, hrest⟩ := exec_bind_ok h
  exact hf a s₁ br₁ b s' br' hrest

theorem Guarded.then_quiet {p : Parser σ α} {f : α → Parser σ β} (hp : Guarded p)
    (hf : ∀ a, Quiet (f a)) : Guarded (p >>= f) := by
  intro s br b s' br' h
  obtain ⟨a, s₁, br₁, hfirst, hrest⟩ := exec_bind_ok h
  have hsame : br' = br₁ := by
    have hquiet := hf a s₁ br₁
    rwa [hrest] at hquiet
  rw [hsame]
  exact hp s br a s₁ br₁ hfirst

theorem guarded_checkFailed : Guarded (checkFailed : Parser σ Unit) := by
  intro s br a s' br' h
  obtain ⟨raised, s₁, br₁, hread, hrest⟩ := exec_bind_ok h
  cases hread
  cases hfailed : br.failed with
  | false =>
    simp only [ReadOp.handle, hfailed] at hrest
    cases hrest
    exact hfailed
  | true =>
    simp only [ReadOp.handle, hfailed] at hrest
    cases hrest

theorem quiet_pure (a : α) : Quiet (pure a : Parser σ α) := fun _ _ => rfl

theorem quiet_get : Quiet (get : Parser σ σ) := fun _ _ => rfl

theorem quiet_modify (g : σ → σ) : Quiet (modify g : Parser σ PUnit) := fun _ _ => rfl

theorem Quiet.bind {p : Parser σ α} {f : α → Parser σ β} (hp : Quiet p) (hf : ∀ a, Quiet (f a)) :
    Quiet (p >>= f) := by
  intro s br
  have hfirst := hp s br
  rw [exec_bind]
  cases hexec : exec p s br with
  | mk r br₁ =>
    obtain ⟨res, s₁⟩ := r
    rw [hexec] at hfirst
    cases res with
    | ok a => exact (hf a s₁ br₁).trans hfirst
    | error status => exact hfirst

theorem Quiet.ite {c : Prop} [Decidable c] {p q : Parser σ α} (hp : Quiet p) (hq : Quiet q) :
    Quiet (if c then p else q) := by
  split
  · exact hp
  · exact hq

end Units

section Parsers

theorem H264.guarded_parseSps : Guarded H264.parseSps :=
  .after _ fun sm => .then_quiet guarded_checkFailed fun _ => quiet_pure sm

theorem H264.guarded_spsUnit : Guarded H264.spsUnit := by
  refine .then_quiet H264.guarded_parseSps fun sm => .bind (quiet_modify _) fun _ => ?_
  cases sm with
  | none => exact quiet_pure ()
  | some sm =>
    refine .bind (quiet_modify _) fun _ => .bind quiet_get fun out => ?_
    exact .ite (quiet_modify _) (quiet_pure ())

theorem H264.guarded_parsePps : Guarded H264.parsePps :=
  .after _ fun hasScaling => .then_quiet guarded_checkFailed fun _ => quiet_pure hasScaling

theorem H264.guarded_ppsUnit : Guarded H264.ppsUnit := by
  refine .then_quiet H264.guarded_parsePps fun hasScaling => .bind (quiet_modify _) fun _ => ?_
  refine .ite (quiet_modify _) (.bind quiet_get fun out => ?_)
  exact .ite (quiet_modify _) (quiet_pure ())

theorem H264.guarded_parseSliceHeader (nalRefIdc nalUnitType : Nat) :
    Guarded (H264.parseSliceHeader nalRefIdc nalUnitType) :=
  .after _ fun _ => guarded_checkFailed

theorem H265.guarded_parseSps : Guarded H265.parseSps :=
  .after _ fun _ => .then_quiet guarded_checkFailed fun _ => quiet_modify _

theorem H265.guarded_parsePps : Guarded H265.parsePps :=
  .after _ fun _ => .then_quiet guarded_checkFailed fun _ => quiet_modify _

end Parsers

section AccessUnits

variable {σ τ : Type}

/-- A parser that checks the flag overlooks the silent reads, one that does not every cut read. -/
def ReadOp.Overlooked (checks : Bool) (op : ReadOp) (br : BitReader) : Prop :=
  op.Silent br ∨ checks = false ∧ op.Latched br

namespace UnitRun

/-- Every element the parser reads lies inside the unit, and no code has more than 31 zeros. -/
def Whole (u : UnitRun σ) : Prop := u.program.All ReadOp.handle ReadOp.Fits u.reader

/-- The unit is not cut where its parser overlooks it. -/
def Heard (checks : Bool) (u : UnitRun σ) : Prop :=
  u.program.All ReadOp.handle (fun op br => ¬op.Overlooked checks br) u.reader

def Accepted (u : UnitRun σ) : Prop := ∃ a s br, u.outcome = ((.ok a, s), br)

instance (u : UnitRun σ) : Decidable u.Whole :=
  inferInstanceAs (Decidable (u.program.All ReadOp.handle ReadOp.Fits u.reader))

/-- A unit whose parser found the flag down has no latched read. -/
theorem not_latched {u : UnitRun σ} (h : u.Accepted) (hguard : Guarded u.parser) :
    u.program.All ReadOp.handle (fun op br => ¬op.Latched br) u.reader := by
  obtain ⟨a, s, br, hout⟩ := h
  have hdown : (u.program.run ReadOp.handle u.reader).2.failed = false := by
    rw [show u.program.run ReadOp.handle u.reader = ((.ok a, s), br) from hout]
    exact hguard u.before u.reader a s br hout
  have hall := ((Prog.sticky ReadOp.handle_failed).mp hdown).2
  exact hall.mono fun op br hop => hop.1

theorem whole_iff {checks : Bool} {u : UnitRun σ} (h : u.Accepted)
    (hguard : checks = true → Guarded u.parser) : u.Whole ↔ u.Heard checks := by
  constructor
  · intro hwhole
    refine hwhole.mono fun op br hfits => ?_
    obtain ⟨hsilent, hlatched⟩ := ReadOp.fits_iff.mp hfits
    rintro (hs | ⟨-, hl⟩)
    · exact hsilent hs
    · exact hlatched hl
  · intro hheard
    cases checks with
    | false =>
      refine hheard.mono fun op br hop => ReadOp.fits_iff.mpr ⟨?_, ?_⟩
      · exact fun hs => hop (.inl hs)
      · exact fun hl => hop (.inr ⟨rfl, hl⟩)
    | true =>
      refine ((not_latched h (hguard rfl)).and hheard).mono fun op br hop => ?_
      exact ReadOp.fits_iff.mpr ⟨fun hs => hop.2 (.inl hs), hop.1⟩

end UnitRun

/-- The units of an access unit so far: those whose kind is checked have a guarded parser, and as
long as the access unit parser goes on they were all accepted. -/
structure Parsed (checks : UnitKind → Bool) (s : AuState σ τ) : Prop where
  guarded : ∀ u ∈ s.units, checks u.kind = true → Guarded u.parser
  accepted : s.status = none → ∀ u ∈ s.units, u.Accepted

namespace Parsed

variable {checks : UnitKind → Bool} {s : AuState σ τ}

theorem parse (h : Parsed checks s) (hs : s.status = none) {u : UnitRun σ}
    (hguard : checks u.kind = true → Guarded u.parser) : Parsed checks (s.parse u) where
  guarded v hv := by
    rcases List.mem_append.mp hv with hold | hnew
    · exact h.guarded v hold
    · rw [List.mem_singleton] at hnew
      exact hnew ▸ hguard
  accepted hnone v hv := by
    rcases List.mem_append.mp hv with hold | hnew
    · exact h.accepted hs v hold
    · rw [List.mem_singleton] at hnew
      subst hnew
      cases hout : v.outcome with
      | mk r br =>
        obtain ⟨res, out⟩ := r
        cases res with
        | ok a => exact ⟨a, out, br, hout⟩
        | error status => simp [AuState.parse, hout] at hnone

/-- Steps that parse no unit keep the log. -/
theorem keep (h : Parsed checks s) {s' : AuState σ τ} (hunits : s'.units = s.units)
    (hstatus : s'.status = none → s.status = none) : Parsed checks s' where
  guarded u hu := h.guarded u (hunits ▸ hu)
  accepted hnone u hu := h.accepted (hstatus hnone) u (hunits ▸ hu)

theorem whole_iff (h : Parsed checks s) (hs : s.status = none) :
    (∀ u ∈ s.units, u.Whole) ↔ ∀ u ∈ s.units, u.Heard (checks u.kind) := by
  refine forall₂_congr fun u hu => ?_
  exact UnitRun.whole_iff (h.accepted hs u hu) (h.guarded u hu)

end Parsed

end AccessUnits

namespace H264

/-- The unit parsers that check the flag: all of them. -/
def checksFlag (_ : UnitKind) : Bool := true

theorem finishSlice_parsed {s : Au} {nalRefIdc : Nat} {payload : List Byte} {headerBits : Nat}
    (h : Parsed checksFlag s) :
    Parsed checksFlag (finishSlice s nalRefIdc payload headerBits) := by
  simp only [finishSlice]
  split
  · exact h.keep rfl fun hnone => nomatch hnone
  · exact h.keep rfl id

theorem visit_parsed {s : Au} (rbsp : List Byte) (hs : s.status = none)
    (h : Parsed checksFlag s) : Parsed checksFlag (visit s rbsp) := by
  simp only [visit]
  split_ifs with hsps hpps hslice hmissing hfailed
  · exact h.parse hs fun _ => guarded_spsUnit
  · exact h.parse hs fun _ => guarded_ppsUnit
  · exact h.keep rfl fun hnone => nomatch hnone
  · exact h.parse hs fun _ => guarded_parseSliceHeader _ _
  · exact finishSlice_parsed (h.parse hs fun _ => guarded_parseSliceHeader _ _)
  · exact h

theorem auUnits_parsed (buf : List Byte) (scratchSize : Nat) (out : ParseResult) :
    Parsed checksFlag (auUnits buf scratchSize out) := by
  unfold auUnits
  refine auLoop_rule (P := Parsed checksFlag) (fun s rbsp hs h => visit_parsed rbsp hs h) ?_
    _ _ _ rfl ?_
  · exact fun s e h => h.keep rfl fun hnone => nomatch hnone
  · exact ⟨fun _ hu => absurd hu List.not_mem_nil, fun _ _ hu => absurd hu List.not_mem_nil⟩

theorem status_of_ok {buf : List Byte} {scratchSize : Nat} {out : ParseResult}
    (h : (parseAccessUnit buf scratchSize out).1 = .ok) :
    (auUnits buf scratchSize out).status = none := by
  cases hstatus : (auUnits buf scratchSize out).status with
  | none => rfl
  | some e => cases e <;> simp [parseAccessUnit, hstatus, ParseError.status] at h

end H264

namespace H265

/-- The unit parsers that check the flag: those of the SPS and the PPS. -/
def checksFlag : UnitKind → Bool
  | .sps | .pps => true
  | .vps | .slice => false

theorem finishSlice_parsed {s : Au} {nalUnitType temporalIdP1 : Nat} {payload : List Byte}
    {headerBits : Nat} (h : Parsed checksFlag s) :
    Parsed checksFlag (finishSlice s nalUnitType temporalIdP1 payload headerBits) := by
  simp only [finishSlice]
  split
  · exact h.keep rfl fun hnone => nomatch hnone
  · exact h.keep rfl id

theorem visit_parsed {s : Au} (rbsp : List Byte) (hs : s.status = none)
    (h : Parsed checksFlag s) : Parsed checksFlag (visit s rbsp) := by
  simp only [visit]
  split_ifs with hvps hsps hpps hslice hfailed
  · exact h.parse hs fun hc => absurd hc Bool.false_ne_true
  · exact h.parse hs fun _ => guarded_parseSps
  · exact h.parse hs fun _ => guarded_parsePps
  · exact h.parse hs fun hc => absurd hc Bool.false_ne_true
  · exact finishSlice_parsed (h.parse hs fun hc => absurd hc Bool.false_ne_true)
  · exact h

theorem auUnits_parsed (buf : List Byte) (scratchSize : Nat) (out : ParseResult) :
    Parsed checksFlag (auUnits buf scratchSize out) := by
  unfold auUnits
  refine auLoop_rule (P := Parsed checksFlag) (fun s rbsp hs h => visit_parsed rbsp hs h) ?_
    _ _ _ rfl ?_
  · exact fun s e h => h.keep rfl fun hnone => nomatch hnone
  · exact ⟨fun _ hu => absurd hu List.not_mem_nil, fun _ _ hu => absurd hu List.not_mem_nil⟩

theorem status_of_ok {buf : List Byte} {scratchSize : Nat} {out : ParseResult}
    (h : (parseAccessUnit buf scratchSize out).1 = .ok) :
    (auUnits buf scratchSize out).status = none := by
  cases hstatus : (auUnits buf scratchSize out).status with
  | none => rfl
  | some e => cases e <;> simp [parseAccessUnit, hstatus, ParseError.status] at h

end H265

section Streams

/-- An SPS, a PPS and, in front of `slice`, the start code of an IDR slice. -/
def h264Au (slice : List Byte) : List Byte :=
  [0, 0, 1, 0x67, 0x42, 0x00, 0x0a, 0xda, 0x71, 0, 0, 1, 0x68, 0xce, 0x38, 0x80,
    0, 0, 1, 0x65] ++ slice

/-- The same for H.265, with a VPS in front. -/
def h265Au (slice : List Byte) : List Byte :=
  [0, 0, 1, 0x40, 0x01, 0x0c, 0x01, 0xff, 0xff, 0x01, 0xff, 0xff, 0xff, 0xff, 0x9f, 0xff, 0xff,
    0xff, 0xff, 0xff, 0x1e, 0xf0, 0x24,
    0, 0, 1, 0x42, 0x01, 0x01, 0x01, 0xff, 0xff, 0xff, 0xff, 0x9f, 0xff, 0xff, 0xff, 0xff, 0xff,
    0x1e, 0xa0, 0x88, 0x45, 0xfe, 0xbc, 0x20, 0x80,
    0, 0, 1, 0x44, 0x01, 0xc0, 0x71, 0x80, 0x12,
    0, 0, 1, 0x26, 0x01] ++ slice

end Streams

/-- What an accepted access unit says about its units: none was cut, iff none was cut where its
parser overlooks it. -/
theorem truncation_rejected_iff (buf : List Byte) (scratchSize : Nat) (avc : H264.ParseResult)
    (hevc : H265.ParseResult) :
    ((H264.parseAccessUnit buf scratchSize avc).1 = .ok →
      ((∀ u ∈ (H264.auUnits buf scratchSize avc).units, u.Whole) ↔
        ∀ u ∈ (H264.auUnits buf scratchSize avc).units, u.Heard (H264.checksFlag u.kind))) ∧
    ((H265.parseAccessUnit buf scratchSize hevc).1 = .ok →
      ((∀ u ∈ (H265.auUnits buf scratchSize hevc).units, u.Whole) ↔
        ∀ u ∈ (H265.auUnits buf scratchSize hevc).units, u.Heard (H265.checksFlag u.kind))) := by
  constructor
  · intro h
    exact (H264.auUnits_parsed buf scratchSize avc).whole_iff (H264.status_of_ok h)
  · intro h
    exact (H265.auUnits_parsed buf scratchSize hevc).whole_iff (H265.status_of_ok h)

/-- The theorem on two whole access units. -/
theorem truncation_rejected_iff_whole :
    ((H264.parseAccessUnit (h264Au [0x88, 0x84, 0x21]) 128 {}).1 = .ok ∧
      ∀ u ∈ (H264.auUnits (h264Au [0x88, 0x84, 0x21]) 128 {}).units,
        u.Heard (H264.checksFlag u.kind)) ∧
    ((H265.parseAccessUnit (h265Au [0xaf, 0x80]) 128 {}).1 = .ok ∧
      ∀ u ∈ (H265.auUnits (h265Au [0xaf, 0x80]) 128 {}).units,
        u.Heard (H265.checksFlag u.kind)) := by
  have h264 : (H264.parseAccessUnit (h264Au [0x88, 0x84, 0x21]) 128 {}).1 = .ok := by
    decide +kernel
  have h265 : (H265.parseAccessUnit (h265Au [0xaf, 0x80]) 128 {}).1 = .ok := by decide +kernel
  refine ⟨⟨h264, ?_⟩, ⟨h265, ?_⟩⟩
  · exact ((truncation_rejected_iff _ _ _ {}).1 h264).mp (by decide +kernel)
  · exact ((truncation_rejected_iff _ _ {} _).2 h265).mp (by decide +kernel)

/-- Both access units are still accepted when the slice header is cut: of the H.264 one only the
first byte is left, of the H.265 one nothing. -/
theorem cut_slice_accepted :
    ((H264.parseAccessUnit (h264Au [0x88]) 128 {}).1 = .ok ∧
      ¬∀ u ∈ (H264.auUnits (h264Au [0x88]) 128 {}).units, u.Whole) ∧
    ((H265.parseAccessUnit (h265Au []) 128 {}).1 = .ok ∧
      ¬∀ u ∈ (H265.auUnits (h265Au []) 128 {}).units, u.Whole) := by
  refine ⟨⟨?_, ?_⟩, ⟨?_, ?_⟩⟩ <;> decide +kernel

end Rkvdec.Bitstream
