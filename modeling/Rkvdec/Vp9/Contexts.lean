import Mathlib.Tactic
import Rkvdec.Lib.Trace
import Rkvdec.Vp9.Engine

/-! The four probability contexts: which buffer a frame starts from, against the saved contexts of
the standard. What a context holds is the POC of the frame that was saved there, and `none` is the
default. -/
namespace Rkvdec.Vp9

namespace PicParams

/-- The context that the frame sets back to the default. -/
def resets (pp : PicParams) (c : FrameContext) : Bool :=
  pp.isKey || pp.errorResilientMode || (pp.intraOnly && pp.resetFrameContext == 3) ||
    (pp.intraOnly && pp.resetFrameContext == 2 && c == pp.frameContextIdx)

/-- The context of the frame: 0 for an intra or an error-resilient one. -/
def usedContext (pp : PicParams) : FrameContext :=
  if pp.isIntra || pp.errorResilientMode then 0 else pp.frameContextIdx

/-- The saved contexts of the standard after a frame. -/
def saveContexts (pp : PicParams) (poc : Nat) (saved : FrameContext → Option Nat) :
    FrameContext → Option Nat := fun c =>
  if pp.refreshFrameContext = true ∧ c = pp.usedContext then some poc
  else if pp.resets c then none
  else saved c

end PicParams

/-- The engine, the saved contexts of the standard, and the POC of the frame that the hardware
stored last to each buffer. -/
structure Probed where
  engine : Engine
  saved : FrameContext → Option Nat := fun _ => none
  stored : Buf → Option Nat := fun _ => none

/-- A stream is fed to the engine: its frames, whose kicks succeed, and the releases between
them. -/
inductive Feed
  | frame (bits : List Bool)
  | release (slot : PoolSlot)

namespace Probed

/-- The buffers after a frame: it is stored where its registers say, if it refreshes its context. -/
def store (s : Probed) (pp : PicParams) (regs : Regs) : Buf → Option Nat :=
  if pp.refreshFrameContext then Function.update s.stored regs.updateProbWrBase (some regs.curPoc)
  else s.stored

def decode (s : Probed) (bits : List Bool) (out : Outcome) : Probed :=
  match parse s.engine.parserState bits, out.submitted with
  | some pp, some regs =>
    { engine := out.engine, saved := pp.saveContexts regs.curPoc s.saved,
      stored := s.store pp regs }
  | _, _ => { s with engine := out.engine }

def step (s : Probed) : Feed → Probed
  | .frame bits => s.decode bits (s.engine.decodeOne bits true)
  | .release slot => { s with engine := s.engine.step (.release slot) }

/-- What a buffer holds. -/
def content (s : Probed) (b : Buf) : Option Nat := if b = .probDefault then none else s.stored b

/-- The registers denote a content for a context: the buffer, the index it is read by and its
POC. -/
structure Denotes (s : Probed) (regs : Regs) (c : FrameContext) (content : Option Nat) : Prop where
  buffer : s.content regs.lastProbBase = content
  index : regs.filmIdx / 16 = if content.isSome then c.val + 1 else 0
  poc : regs.probRefPoc = (content.map (· % 2 ^ 16)).getD 0

/-- Every inter frame that is not error-resilient starts from the saved content of its context. -/
def Starts (s : Probed) : Feed → Prop
  | .frame bits => ∀ pp regs, parse s.engine.parserState bits = some pp →
      (s.engine.decodeOne bits true).submitted = some regs → pp.isIntra = false →
      pp.errorResilientMode = false → s.Denotes regs pp.frameContextIdx (s.saved pp.frameContextIdx)
  | _ => True

/-- A frame is stored where it is coded, and it resets no context that is valid but the one it
stores. -/
structure KeepsContexts (s : Probed) (pp : PicParams) : Prop where
  place : pp.refreshFrameContext = true → pp.usedContext = pp.frameContextIdx
  resets : ∀ c, pp.resets c = true → s.engine.probCtxValid c = true →
    pp.refreshFrameContext = true ∧ c = pp.frameContextIdx

instance (s : Probed) (pp : PicParams) : Decidable (s.KeepsContexts pp) :=
  decidable_of_iff ((pp.refreshFrameContext = true → pp.usedContext = pp.frameContextIdx) ∧
    ∀ c, pp.resets c = true → s.engine.probCtxValid c = true →
      pp.refreshFrameContext = true ∧ c = pp.frameContextIdx)
    ⟨fun h => ⟨h.1, h.2⟩, fun h => ⟨h.place, h.resets⟩⟩

def Keeps (s : Probed) : Feed → Prop
  | .frame bits => ∀ pp target, s.engine.Submits bits pp target → s.KeepsContexts pp
  | _ => True

/-- What the engine takes a context for. -/
def tracked (s : Probed) (c : FrameContext) : Option Nat :=
  if s.engine.probCtxValid c then some (s.engine.probRefPoc c) else none

/-- The engine tracks the saved contexts, and the buffers hold what it tracks. -/
structure Inv (s : Probed) : Prop where
  saved : ∀ c, s.tracked c = s.saved c
  stored : ∀ c, s.engine.probCtxValid c = true →
    s.stored (.probLoop c) = some (s.engine.probRefPoc c)

variable {s : Probed} {bits : List Bool} {pp : PicParams} {target : PoolSlot} {regs : Regs}

theorem fill_contexts {e : Engine} (h : e.fill pp target = some regs) :
    regs.lastProbBase = (if e.ctxValid pp then .probLoop pp.frameContextIdx else .probDefault) ∧
      regs.filmIdx = pp.frameContextIdx.val + 1 +
        (if e.ctxValid pp then pp.frameContextIdx.val + 1 else 0) * 16 ∧
      regs.probRefPoc = (if e.ctxValid pp then e.probRefPoc pp.frameContextIdx % 2 ^ 16 else 0) ∧
      regs.updateProbWrBase = .probLoop pp.frameContextIdx ∧ regs.curPoc = e.dpb.nextPoc + 1 := by
  unfold Engine.fill at h
  split at h
  · cases h
    exact ⟨rfl, rfl, rfl, rfl, rfl⟩
  · cases h

/-- The registers denote what the engine tracks. -/
theorem denotes_tracked (hinv : s.Inv) (hfill : s.engine.fill pp target = some regs)
    (hintra : pp.isIntra = false) (herr : pp.errorResilientMode = false) :
    s.Denotes regs pp.frameContextIdx (s.tracked pp.frameContextIdx) := by
  obtain ⟨hbase, hindex, hpoc, -, -⟩ := fill_contexts hfill
  have hvalid : s.engine.ctxValid pp = s.engine.probCtxValid pp.frameContextIdx := by
    simp [Engine.ctxValid, PicParams.readsContext, hintra, herr]
  rw [hvalid] at hbase hindex hpoc
  have hctx := pp.frameContextIdx.isLt
  cases hcase : s.engine.probCtxValid pp.frameContextIdx with
  | true =>
    simp only [hcase, if_true] at hbase hindex hpoc
    have htracked : s.tracked pp.frameContextIdx =
        some (s.engine.probRefPoc pp.frameContextIdx) := by
      rw [tracked, if_pos hcase]
    rw [htracked]
    refine ⟨?_, ?_, hpoc⟩
    · rw [hbase, content, if_neg (by simp)]
      exact hinv.stored _ hcase
    · rw [hindex, Option.isSome_some, if_pos rfl]
      omega
  | false =>
    simp only [hcase, Bool.false_eq_true, if_false] at hbase hindex hpoc
    have htracked : s.tracked pp.frameContextIdx = none := by
      rw [tracked, if_neg (by simp [hcase])]
    rw [htracked]
    refine ⟨?_, ?_, hpoc⟩
    · rw [hbase, content, if_pos rfl]
    · rw [hindex, Option.isSome_none, if_neg (by simp)]
      omega

theorem starts_of_inv (hinv : s.Inv) (feed : Feed) : s.Starts feed := by
  cases feed with
  | release slot => trivial
  | frame bits =>
    intro pp regs hparse hsubmitted hintra herr
    obtain ⟨pp', target, hsub, hfill⟩ := Engine.submitted_iff.mp hsubmitted
    obtain rfl : pp' = pp := Option.some.inj (hsub.parsed.symm.trans hparse)
    rw [← hinv.saved]
    exact denotes_tracked hinv hfill hintra herr

/-- What the engine tracks after a frame. -/
theorem tracked_kickDone (c : FrameContext) :
    ({ s with engine := s.engine.kickDone pp target } : Probed).tracked c =
      if pp.refreshFrameContext = true ∧ c = pp.frameContextIdx then some (s.engine.dpb.nextPoc + 1)
      else s.tracked c := by
  unfold tracked Engine.kickDone
  cases pp.refreshFrameContext with
  | false => simp
  | true =>
    rcases eq_or_ne c pp.frameContextIdx with rfl | hne
    · simp
    · simp [hne]

/-- The contexts of the standard after a frame that keeps to the conditions are the ones tracked. -/
theorem saved_kickDone (hinv : s.Inv) (hkeeps : s.KeepsContexts pp) (c : FrameContext) :
    (if pp.refreshFrameContext = true ∧ c = pp.frameContextIdx then some (s.engine.dpb.nextPoc + 1)
      else s.tracked c) = pp.saveContexts (s.engine.dpb.nextPoc + 1) s.saved c := by
  unfold PicParams.saveContexts
  by_cases hstores : pp.refreshFrameContext = true ∧ c = pp.frameContextIdx
  · have hused : c = pp.usedContext := hstores.2.trans (hkeeps.place hstores.1).symm
    rw [if_pos hstores, if_pos ⟨hstores.1, hused⟩]
  · have hother : ¬ (pp.refreshFrameContext = true ∧ c = pp.usedContext) := by
      rintro ⟨hrefresh, hc⟩
      exact hstores ⟨hrefresh, hc.trans (hkeeps.place hrefresh)⟩
    rw [if_neg hstores, if_neg hother]
    split
    · rename_i hresets
      have hinvalid : s.engine.probCtxValid c ≠ true := fun h => hstores (hkeeps.resets c hresets h)
      rw [tracked, if_neg hinvalid]
    · exact hinv.saved c

theorem store_kickDone (hinv : s.Inv) (hfill : s.engine.fill pp target = some regs)
    (c : FrameContext) (hvalid : (s.engine.kickDone pp target).probCtxValid c = true) :
    s.store pp regs (.probLoop c) = some ((s.engine.kickDone pp target).probRefPoc c) := by
  obtain ⟨-, -, -, hwrite, hpoc⟩ := fill_contexts hfill
  unfold Engine.kickDone at hvalid ⊢
  rw [store, hwrite, hpoc]
  cases hrefresh : pp.refreshFrameContext with
  | false =>
    simp only [hrefresh, Bool.false_eq_true, if_false] at hvalid ⊢
    exact hinv.stored c hvalid
  | true =>
    simp only [hrefresh, if_true] at hvalid ⊢
    rcases eq_or_ne c pp.frameContextIdx with rfl | hne
    · rw [Function.update_self, Function.update_self]
    · rw [Function.update_of_ne hne] at hvalid
      rw [Function.update_of_ne hne, Function.update_of_ne (by simpa using hne)]
      exact hinv.stored c hvalid

theorem decode_silent {out : Outcome} (h : out.submitted = none) :
    s.decode bits out = { s with engine := out.engine } := by
  unfold decode
  rw [h]
  cases parse s.engine.parserState bits <;> rfl

theorem inv_step (hinv : s.Inv) (feed : Feed) (hkeeps : s.Keeps feed) : (s.step feed).Inv := by
  cases feed with
  | release slot => exact ⟨hinv.saved, hinv.stored⟩
  | frame bits =>
    change (s.decode bits (s.engine.decodeOne bits true)).Inv
    rcases s.engine.decodeOne_cases bits true with ⟨pp, target, hsub⟩ | ⟨pp, d, slot, hshow⟩ | hidle
    · obtain ⟨regs, hfill, hout⟩ := hsub.outcome true
      simp only [decode, hout, hsub.parsed, Engine.kicked_submitted]
      refine ⟨?_, fun c hvalid => store_kickDone hinv hfill c hvalid⟩
      intro c
      rw [(fill_contexts hfill).2.2.2.2]
      exact (tracked_kickDone c).trans (saved_kickDone hinv (hkeeps pp target hsub) c)
    · rw [hshow.outcome, decode_silent rfl]
      exact ⟨hinv.saved, hinv.stored⟩
    · rw [decode_silent hidle.submitted]
      rcases hidle.engine with he | he
      · rw [he]
        exact hinv
      · rw [he]
        exact ⟨hinv.saved, hinv.stored⟩

theorem keeps_of_parse (h : ∀ pp ∈ parse s.engine.parserState bits, s.KeepsContexts pp) :
    s.Keeps (.frame bits) :=
  fun pp _ hsub => h pp hsub.parsed

end Probed

/-- Along every stream whose frames keep to the conditions, the buffer, the index and the POC that
an inter frame is given are those of the saved content of its context. -/
theorem contexts_denote_saved (width height : Nat) (feeds : List Feed)
    (h : Lib.Along Probed.step Probed.Keeps { engine := .init width height } feeds) :
    Lib.Along Probed.step Probed.Starts { engine := .init width height } feeds := by
  have hinit : Probed.Inv { engine := .init width height } := ⟨fun _ => rfl, fun _ h => nomatch h⟩
  refine Lib.Along.of_inv ?_ hinit h
  intro s feed hinv hkeeps
  exact ⟨Probed.starts_of_inv hinv feed, Probed.inv_step hinv feed hkeeps⟩

/-- A key frame and inter frames with contexts of their own. -/
theorem contexts_denote_saved_inter :
    Lib.Along Probed.step Probed.Starts { engine := .init 64 64 }
      [.frame keyFrameBits, .frame (interFrameBits 1 0 true 1),
        .frame (interFrameBits 1 0 true 1)] := by
  refine contexts_denote_saved 64 64 _ ⟨?_, ?_, ?_, trivial⟩
  · exact Probed.keeps_of_parse (by decide +kernel)
  · exact Probed.keeps_of_parse (by decide +kernel)
  · exact Probed.keeps_of_parse (by decide +kernel)

/-- The second key frame leaves context 1 valid, and the next frame starts from what was saved there
before it. -/
theorem key_frame_keeps_old_context :
    ¬ Lib.Along Probed.step Probed.Starts { engine := .init 64 64 }
      [.frame keyFrameBits, .frame (interFrameBits 1 0 true 1), .frame keyFrameBits,
        .frame (interFrameBits 1 0 true 1)] := by
  rintro ⟨-, -, -, hstarts, -⟩
  have hdenotes := hstarts _ _ (Option.some_get (by decide +kernel)).symm
    (Option.some_get (by decide +kernel)).symm (by decide +kernel) (by decide +kernel)
  exact absurd hdenotes.buffer (by decide +kernel)

end Rkvdec.Vp9
