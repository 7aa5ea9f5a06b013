import Mathlib.Tactic
import Rkvdec.Lib.Trace
import Rkvdec.Vp9.Engine

/-! The two buffers of the segmentation map. A frame that writes the map anew writes one of them,
and the frames after it read the map there until the next. -/
namespace Rkvdec.Vp9

/-- The frame that last wrote the map: its buffer, its POC, and whether a later frame was given the
buffer to write. -/
structure MapRecord where
  buffer : Buf
  poc : Nat
  overwritten : Bool := false
deriving DecidableEq, Repr

/-- A frame with other buffers leaves the map. -/
def MapRecord.meet (m : MapRecord) (regs : Regs) : MapRecord :=
  { m with overwritten := m.overwritten || decide (regs.segidCurBase = m.buffer) }

/-- The engine and the map since the last flush. -/
structure Mapped where
  engine : Engine
  map : Option MapRecord := none
  flushed : Bool := false

namespace Mapped

/-- The map after a frame was submitted. -/
def submitted (s : Mapped) (pp : PicParams) (regs : Regs) (ok : Bool) : Option MapRecord :=
  if ok && pp.segIdUpdate then some ⟨regs.segidCurBase, regs.curPoc, false⟩
  else s.map.map fun m => m.meet regs

def decode (s : Mapped) (bits : List Bool) (out : Outcome) : Mapped where
  engine := out.engine
  map := match parse s.engine.parserState bits, out.submitted with
    | some pp, some regs => s.submitted pp regs (out.status == .ok)
    | _, _ => s.map
  flushed := s.flushed

def step (s : Mapped) : Event → Mapped
  | .decode bits kickOk => s.decode bits (s.engine.decodeOne bits kickOk)
  | .release slot => { s with engine := s.engine.step (.release slot) }
  | .flush => { engine := s.engine.step .flush, flushed := true }

/-- The registers give the frame the map as the last frame that wrote it left it. -/
def Reads (s : Mapped) (regs : Regs) : Prop :=
  ∃ m, s.map = some m ∧ m.overwritten = false ∧ regs.segidLastBase = m.buffer ∧
    regs.segidRefPoc = m.poc

/-- Every inter frame that goes on with the map is given it. -/
def Parked (s : Mapped) : Event → Prop
  | .decode bits kickOk => ∀ pp regs, parse s.engine.parserState bits = some pp →
      (s.engine.decodeOne bits kickOk).submitted = some regs → pp.segIdUpdate = false → s.Reads regs
  | _ => True

/-- Before the first flush no inter frame goes on with a map that no frame has written. -/
def Started (s : Mapped) : Event → Prop
  | .decode bits _ => ∀ pp target, s.engine.Submits bits pp target → pp.segIdUpdate = false →
      s.flushed = true ∨ s.map.isSome = true
  | _ => True

/-- The map lies in the buffer that is not written; after a flush the gate waits for one. -/
structure Inv (s : Mapped) : Prop where
  parked : ∀ m ∈ s.map, m.buffer = .segid (!s.engine.segidPhase) ∧ m.overwritten = false ∧
    s.engine.segidRefPoc = m.poc
  gate : s.flushed = true → s.engine.waitForKeyframe = true ∨ s.map.isSome = true

variable {s : Mapped} {bits : List Bool} {pp : PicParams} {target : PoolSlot} {regs : Regs}

theorem fill_segid {e : Engine} (h : e.fill pp target = some regs) :
    regs.segidCurBase = .segid e.segidPhase ∧ regs.segidLastBase = .segid (!e.segidPhase) ∧
      regs.curPoc = e.dpb.nextPoc + 1 ∧
      regs.segidRefPoc = if pp.segIdUpdate then 0 else e.segidRefPoc := by
  unfold Engine.fill at h
  split at h
  · cases h
    exact ⟨rfl, rfl, rfl, rfl⟩
  · cases h

theorem isIntra_segIdUpdate (h : pp.isIntra = true) : pp.segIdUpdate = true := by
  rw [PicParams.segIdUpdate, h]
  rfl

/-- A frame that goes on with the map is given it if there is one. -/
theorem reads_iff (hinv : s.Inv) (hsub : s.engine.Submits bits pp target)
    (hfill : s.engine.fill pp target = some regs) (hkeep : pp.segIdUpdate = false) :
    s.Reads regs ↔ s.flushed = true ∨ s.map.isSome = true := by
  obtain ⟨-, hlast, -, hpoc⟩ := fill_segid hfill
  rw [hkeep] at hpoc
  constructor
  · rintro ⟨m, hm, -⟩
    rw [hm]
    exact .inr rfl
  · intro h
    have hsome : s.map.isSome = true := by
      rcases h with hflushed | hsome
      · rcases hinv.gate hflushed with hwait | hsome
        · have hupdate := isIntra_segIdUpdate (hsub.passes hwait)
          rw [hkeep] at hupdate
          cases hupdate
        · exact hsome
      · exact hsome
    obtain ⟨m, hm⟩ := Option.isSome_iff_exists.mp hsome
    obtain ⟨hbuffer, hclean, hrefPoc⟩ := hinv.parked m hm
    exact ⟨m, hm, hclean, hlast.trans hbuffer.symm, hpoc.trans hrefPoc⟩

theorem parked_iff (hinv : s.Inv) (ev : Event) : s.Parked ev ↔ s.Started ev := by
  cases ev with
  | release slot => exact Iff.rfl
  | flush => exact Iff.rfl
  | decode bits kickOk =>
    constructor
    · intro h pp target hsub hkeep
      obtain ⟨regs, hfill, -⟩ := hsub.outcome kickOk
      have hreads :=
        h pp regs hsub.parsed (Engine.submitted_iff.mpr ⟨pp, target, hsub, hfill⟩) hkeep
      exact (reads_iff hinv hsub hfill hkeep).mp hreads
    · intro h pp regs hparse hsubmitted hkeep
      obtain ⟨pp', target, hsub, hfill⟩ := Engine.submitted_iff.mp hsubmitted
      obtain rfl : pp' = pp := Option.some.inj (hsub.parsed.symm.trans hparse)
      exact (reads_iff hinv hsub hfill hkeep).mpr (h pp' target hsub hkeep)

/-- A frame that is submitted is given the other buffer to write. -/
theorem meet_parked {m : MapRecord} (hinv : s.Inv) (hm : m ∈ s.map)
    (hfill : s.engine.fill pp target = some regs) : m.meet regs = m := by
  obtain ⟨hbuffer, hclean, -⟩ := hinv.parked m hm
  have hother : regs.segidCurBase ≠ m.buffer := by
    rw [(fill_segid hfill).1, hbuffer]
    cases s.engine.segidPhase <;> decide
  simp [MapRecord.meet, hother]

theorem map_meet (hinv : s.Inv) (hfill : s.engine.fill pp target = some regs) :
    s.map.map (fun m => m.meet regs) = s.map := by
  cases hm : s.map with
  | none => rfl
  | some m => rw [Option.map_some, meet_parked hinv hm hfill]

/-- A frame that came back: either it wrote the map, or the map stays. -/
theorem inv_kickDone (hinv : s.Inv) (hfill : s.engine.fill pp target = some regs) :
    ({ s with engine := s.engine.kickDone pp target,
              map := s.submitted pp regs true } : Mapped).Inv := by
  obtain ⟨hcur, -, hpoc, -⟩ := fill_segid hfill
  cases hupdate : pp.segIdUpdate with
  | true =>
    have hmap : s.submitted pp regs true = some ⟨regs.segidCurBase, regs.curPoc, false⟩ := by
      rw [submitted, hupdate]
      rfl
    refine ⟨?_, ?_⟩
    · intro m hm
      obtain rfl := Option.some.inj (hmap.symm.trans hm)
      simp [Engine.kickDone, hupdate, hcur, hpoc]
    · intro _
      exact .inr (by rw [hmap]; rfl)
  | false =>
    have hmap : s.submitted pp regs true = s.map := by
      rw [submitted, hupdate]
      exact map_meet hinv hfill
    have hintra : pp.isIntra = false := by
      by_contra hintra
      rw [isIntra_segIdUpdate (by simpa using hintra)] at hupdate
      cases hupdate
    rw [hmap]
    refine ⟨?_, ?_⟩
    · simpa [Engine.kickDone, hupdate] using hinv.parked
    · simpa [Engine.kickDone, hintra] using hinv.gate

theorem decode_silent {out : Outcome} (h : out.submitted = none) :
    s.decode bits out = { s with engine := out.engine } := by
  unfold decode
  rw [h]
  cases parse s.engine.parserState bits <;> rfl

theorem inv_step (hinv : s.Inv) (ev : Event) : (s.step ev).Inv := by
  cases ev with
  | release slot => exact ⟨hinv.parked, hinv.gate⟩
  | flush =>
    refine ⟨?_, fun _ => .inl rfl⟩
    intro m hm
    cases hm
  | decode bits kickOk =>
    change (s.decode bits (s.engine.decodeOne bits kickOk)).Inv
    rcases s.engine.decodeOne_cases bits kickOk with ⟨pp, target, hsub⟩ |
      ⟨pp, d, slot, hshow⟩ | hidle
    · obtain ⟨regs, hfill, hout⟩ := hsub.outcome kickOk
      simp only [decode, hout, hsub.parsed, Engine.kicked_submitted]
      cases kickOk with
      | true => exact inv_kickDone hinv hfill
      | false =>
        have hmap : s.submitted pp regs false = s.map := map_meet hinv hfill
        simp only [Engine.kicked, Bool.false_eq_true, if_false]
        refine ⟨?_, fun _ => .inl rfl⟩
        intro m hm
        exact hinv.parked m (hmap ▸ hm)
    · rw [hshow.outcome, decode_silent rfl]
      exact ⟨hinv.parked, hinv.gate⟩
    · rw [decode_silent hidle.submitted]
      rcases hidle.engine with he | he
      · rw [he]
        exact hinv
      · rw [he]
        exact ⟨hinv.parked, fun _ => .inl rfl⟩

end Mapped

/-- Along every run an inter frame that goes on with the map is given the buffer and the POC of the
frame that last wrote it, exactly when no such frame comes before the first map and the first
flush. -/
theorem segment_map_iff (width height : Nat) (events : List Event) :
    Lib.Along Mapped.step Mapped.Parked { engine := .init width height } events ↔
      Lib.Along Mapped.step Mapped.Started { engine := .init width height } events := by
  have hinit : Mapped.Inv { engine := .init width height } := by
    refine ⟨?_, ?_⟩
    · intro m hm
      cases hm
    · intro hflushed
      cases hflushed
  exact Lib.along_congr (fun s ev hinv => Mapped.parked_iff hinv ev)
    (fun s ev hinv _ => Mapped.inv_step hinv ev) hinit

/-- The first frame of a stream is an inter frame: it is submitted with a map that nobody wrote. -/
theorem inter_frame_first_has_no_map :
    ¬ Lib.Along Mapped.step Mapped.Parked { engine := .init 64 64 }
      [.decode (interFrameBits 1 0 true 0) true] := by
  rintro ⟨hparked, -⟩
  obtain ⟨m, hm, -⟩ := hparked ((parse {} (interFrameBits 1 0 true 0)).get (by decide +kernel))
    (((Engine.init 64 64).decodeOne (interFrameBits 1 0 true 0) true).submitted.get
      (by decide +kernel))
    (Option.some_get _).symm (Option.some_get _).symm (by decide +kernel)
  cases hm

end Rkvdec.Vp9
