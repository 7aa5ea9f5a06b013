import Mathlib.Tactic
import Rkvdec.Lib.Trace
import Rkvdec.Vp9.Engine

/-! The firebreak. After a flush or a kick that failed the references are not to be trusted, and the
gate of `DecodeOne` is to hold back what builds on them. -/
namespace Rkvdec.Vp9

open Headers

/-- The reference slots whose pictures a frame shows or predicts from. -/
def PicParams.refers (pp : PicParams) : List RefSlot :=
  if pp.showExistingFrame then [pp.showExistingFrameIdx]
  else if pp.isIntra then []
  else pp.frameRefs.map RefFrameDesc.index

/-- The engine, whether it was flushed or a kick failed, and the reference slots whose pictures were
decoded since that last happened. -/
structure Fenced where
  engine : Engine
  troubled : Bool := false
  clean : RefSlot → Bool := fun _ => false

namespace Fenced

/-- A frame that came back leaves its picture in the slots it refreshes. -/
def refresh (s : Fenced) (bits : List Bool) (out : Outcome) : RefSlot → Bool :=
  match parse s.engine.parserState bits, out.submitted with
  | some pp, some _ => fun r => pp.refreshFrameFlags.getLsbD r || s.clean r
  | _, _ => s.clean

def decode (s : Fenced) (bits : List Bool) (out : Outcome) : Fenced :=
  if out.status = .kickFailed then { engine := out.engine, troubled := true }
  else { s with engine := out.engine, clean := s.refresh bits out }

def step (s : Fenced) : Event → Fenced
  | .decode bits kickOk => s.decode bits (s.engine.decodeOne bits kickOk)
  | .release slot => { s with engine := s.engine.step (.release slot) }
  | .flush => { engine := s.engine.step .flush, troubled := true }

/-- Nothing is submitted or shown that builds on a picture from before the trouble. -/
def Holds (s : Fenced) : Event → Prop
  | .decode bits kickOk => ∀ pp, parse s.engine.parserState bits = some pp →
      ((s.engine.decodeOne bits kickOk).submitted.isSome = true ∨
        ∃ f, (s.engine.decodeOne bits kickOk).frame = some f ∧ f.shown = true) →
      s.troubled = true → ∀ r ∈ pp.refers, s.clean r = true
  | _ => True

/-- While the gate waits, no frame is shown again, and an intra-only frame that comes back refreshes
all slots. -/
def Quiet (s : Fenced) : Event → Prop
  | .decode bits kickOk => ∀ pp, parse s.engine.parserState bits = some pp →
      s.engine.waitForKeyframe = true →
      pp.showExistingFrame = false ∧
        (pp.isKey = false → pp.intraOnly = true → kickOk = true → pp.refreshFrameFlags = 0xff)
  | _ => True

instance (s : Fenced) : ∀ ev, Decidable (s.Quiet ev)
  | .decode bits kickOk => inferInstanceAs (Decidable (∀ pp ∈ parse s.engine.parserState bits,
      s.engine.waitForKeyframe = true → pp.showExistingFrame = false ∧
        (pp.isKey = false → pp.intraOnly = true → kickOk = true → pp.refreshFrameFlags = 0xff)))
  | .release _ => inferInstanceAs (Decidable True)
  | .flush => inferInstanceAs (Decidable True)

/-- The gate waits until every slot is clean. -/
def Inv (s : Fenced) : Prop :=
  s.troubled = true → s.engine.waitForKeyframe = true ∨ ∀ r, s.clean r = true

end Fenced

section Parsed

variable {σ : Type} {H : Lib.Prog.Handler Nat (fun n => BitVec n) σ} {r : σ} {st : ParserState}
  {pp pp' : PicParams}

theorem readTrailer_flags : ((readTrailer st pp).run H r).1.isKey = pp.isKey ∧
    ((readTrailer st pp).run H r).1.refreshFrameFlags = pp.refreshFrameFlags := by
  simp only [readTrailer, Lib.Prog.run_bind, Lib.Prog.run_pure, PicParams.isKey, and_self]

theorem readKeyFrame_flags (h : ((readKeyFrame pp).run H r).1 = some pp') :
    pp'.refreshFrameFlags = 0xff := by
  simp only [readKeyFrame, Lib.Prog.run_bind] at h
  split at h
  · cases h
  simp only [Lib.Prog.run_bind] at h
  split at h
  · cases h
  · simp only [Lib.Prog.run_bind, Lib.Prog.run_pure, Option.some.injEq] at h
    rw [← h]

theorem readColorConfig_isKey (profile : Nat) :
    ((readColorConfig profile pp).run H r).1.isKey = pp.isKey := by
  simp only [readColorConfig, Lib.Prog.run_bind, PicParams.isKey]
  split
  · simp only [Lib.Prog.run_bind]
    split <;> simp only [Lib.Prog.run_bind, Lib.Prog.run_pure]
  · split <;> simp only [Lib.Prog.run_bind, Lib.Prog.run_pure]

theorem readIntraColor_isKey : ((readIntraColor pp).run H r).1.isKey = pp.isKey := by
  unfold readIntraColor
  split
  · exact readColorConfig_isKey _
  · rfl

theorem readNonKey_isKey (h : ((readNonKey st pp).run H r).1 = some pp') :
    pp'.isKey = pp.isKey := by
  simp only [readNonKey, Lib.Prog.run_bind] at h
  split at h
  · simp only [readIntraOnly, Lib.Prog.run_bind] at h
    split at h
    · cases h
    simp only [Lib.Prog.run_bind] at h
    split at h
    · cases h
    · simp only [Lib.Prog.run_bind, Lib.Prog.run_pure, Option.some.injEq] at h
      rw [← h]
      exact readIntraColor_isKey
  · simp only [readInter, Lib.Prog.run_bind, Lib.Prog.run_pure, Option.some.injEq] at h
    rw [← h]
    rfl

theorem readCoded_flags (h : ((readCoded st pp).run H r).1 = some pp') (hkey : pp'.isKey = true) :
    pp'.refreshFrameFlags = 0xff := by
  simp only [readCoded, Lib.Prog.run_bind] at h
  split at h
  · cases h
  · rename_i body hbody
    simp only [Lib.Prog.run_map, Option.some.injEq] at h
    rw [← h] at hkey ⊢
    rw [readTrailer_flags.1] at hkey
    rw [readTrailer_flags.2]
    unfold readBody at hbody
    split at hbody
    · exact readKeyFrame_flags hbody
    · rename_i hnonKey
      rw [readNonKey_isKey hbody] at hkey
      exact absurd hkey hnonKey

/-- A key frame refreshes every slot. -/
theorem parse_key_flags {bits : List Bool} (h : parse st bits = some pp)
    (hcoded : pp.showExistingFrame = false) (hkey : pp.isKey = true) :
    pp.refreshFrameFlags = 0xff := by
  obtain ⟨profile, ⟨idx, rfl⟩ | ⟨r, hread⟩⟩ := parse_cases h
  · cases hcoded
  · exact readCoded_flags hread hkey

end Parsed

namespace Fenced

variable {s : Fenced} {bits : List Bool} {pp : PicParams} {target : PoolSlot} {kickOk : Bool}

/-- A frame that passes the waiting gate and is coded leaves no slot as it was. -/
theorem refreshes_all (hquiet : s.Quiet (.decode bits true))
    (hsub : s.engine.Submits bits pp target) (hwait : s.engine.waitForKeyframe = true) :
    pp.refreshFrameFlags = 0xff := by
  cases hkey : pp.isKey with
  | true => exact parse_key_flags hsub.parsed hsub.coded hkey
  | false =>
    have hintra : pp.intraOnly = true := by
      have hpasses := hsub.passes hwait
      rw [PicParams.isIntra, hkey] at hpasses
      exact hpasses
    exact (hquiet pp hsub.parsed hwait).2 hkey hintra rfl

/-- What passes an open gate finds every slot clean. -/
theorem holds_of_quiet (hinv : s.Inv) (ev : Event) (hquiet : s.Quiet ev) : s.Holds ev := by
  cases ev with
  | release slot => trivial
  | flush => trivial
  | decode bits kickOk =>
    intro pp hparse hout htroubled r hr
    rcases hinv htroubled with hwait | hclean
    · have hcoded := (hquiet pp hparse hwait).1
      rcases s.engine.decodeOne_cases bits kickOk with ⟨pp', target, hsub⟩ |
        ⟨pp', d, slot, hshow⟩ | hidle
      · obtain rfl : pp' = pp := Option.some.inj (hsub.parsed.symm.trans hparse)
        rw [PicParams.refers, hcoded, hsub.passes hwait] at hr
        cases hr
      · obtain rfl : pp' = pp := Option.some.inj (hshow.parsed.symm.trans hparse)
        rw [hshow.existing] at hcoded
        cases hcoded
      · rw [hidle.submitted] at hout
        rcases hout with hout | ⟨f, hf, hshown⟩
        · cases hout
        · rcases hidle.frame with hframe | hframe
          · rw [hframe] at hf
            cases hf
          · rw [hframe] at hf
            obtain rfl := Option.some.inj hf
            cases hshown
    · exact hclean r

theorem decode_silent {out : Outcome} (h : out.submitted = none)
    (hstatus : out.status ≠ .kickFailed) :
    s.decode bits out = { s with engine := out.engine } := by
  unfold decode refresh
  rw [if_neg hstatus, h]
  cases parse s.engine.parserState bits <;> rfl

theorem inv_step (hinv : s.Inv) (ev : Event) (hquiet : s.Quiet ev) : (s.step ev).Inv := by
  cases ev with
  | release slot => exact hinv
  | flush => exact fun _ => .inl rfl
  | decode bits kickOk =>
    change (s.decode bits (s.engine.decodeOne bits kickOk)).Inv
    rcases s.engine.decodeOne_cases bits kickOk with ⟨pp, target, hsub⟩ |
      ⟨pp, d, slot, hshow⟩ | hidle
    · obtain ⟨regs, hfill, hout⟩ := hsub.outcome kickOk
      rw [hout]
      cases kickOk with
      | false => exact fun _ => .inl rfl
      | true =>
        have hclean : (s.decode bits (s.engine.kicked pp target regs true)).clean =
            fun r : RefSlot => pp.refreshFrameFlags.getLsbD r || s.clean r := by
          simp only [decode, refresh, hsub.parsed, Engine.kicked_submitted]
          rfl
        intro htroubled
        refine .inr fun r => ?_
        rw [hclean]
        change (pp.refreshFrameFlags.getLsbD r || s.clean r) = true
        have hbits : ∀ r : RefSlot, (0xff : BitVec 8).getLsbD r = true := by decide
        rcases hinv htroubled with hwait | hall
        · rw [refreshes_all hquiet hsub hwait, hbits r, Bool.true_or]
        · rw [hall r, Bool.or_true]
    · rw [hshow.outcome, decode_silent rfl (by intro h; cases h)]
      exact hinv
    · by_cases hstatus : (s.engine.decodeOne bits kickOk).status = .kickFailed
      · intro _
        rw [decode, if_pos hstatus]
        exact .inl (hidle.armed hstatus)
      · rw [decode_silent hidle.submitted hstatus]
        intro htroubled
        rcases hidle.engine with he | he
        · rw [he]
          exact hinv htroubled
        · rw [he]
          exact .inl rfl

end Fenced

/-- Along every run in which the gate meets no frame to show and no intra-only frame that refreshes
some slots alone, nothing is submitted or shown that builds on a picture from before the trouble. -/
theorem firebreak_holds (width height : Nat) (events : List Event)
    (h : Lib.Along Fenced.step Fenced.Quiet { engine := .init width height } events) :
    Lib.Along Fenced.step Fenced.Holds { engine := .init width height } events := by
  have hinit : Fenced.Inv { engine := .init width height } := nofun
  refine Lib.Along.of_inv ?_ hinit h
  intro s ev hinv hquiet
  exact ⟨Fenced.holds_of_quiet hinv ev hquiet, Fenced.inv_step hinv ev hquiet⟩

/-- A key frame, a kick that fails, a frame that the gate drops and a key frame again. -/
theorem firebreak_holds_recovered :
    Lib.Along Fenced.step Fenced.Holds { engine := .init 64 64 }
      [.decode keyFrameBits true, .decode (interFrameBits 1 0 true 0) false,
        .decode (interFrameBits 1 0 true 0) true, .decode keyFrameBits true] := by
  exact firebreak_holds 64 64 _ (by decide +kernel)

/-- A frame from before the flush is shown after it. -/
theorem shown_again_after_flush :
    ¬ Lib.Along Fenced.step Fenced.Holds { engine := .init 64 64 }
      [.decode keyFrameBits true, .flush, .decode (showExistingBits 0) true] := by
  rintro ⟨-, -, hholds, -⟩
  have hclean := hholds ((parse (Fenced.step (Fenced.step { engine := .init 64 64 }
    (.decode keyFrameBits true)) .flush).engine.parserState (showExistingBits 0)).get
      (by decide +kernel))
    (Option.some_get _).symm
    (.inr ⟨_, (Option.some_get (by decide +kernel)).symm, by decide +kernel⟩) rfl 0
      (by decide +kernel)
  cases hclean

end Rkvdec.Vp9
