import Mathlib.Tactic
import Rkvdec.Lib.Trace
import Rkvdec.Vp9.Engine

/-! What a frame needs of its buffer in the pool, which `Vp9DecodeEngine_Init` sized for the
container, and what the engine says of the size of the frame before. -/
namespace Rkvdec.Vp9

open Headers Repack

/-- `frame_bytes`: ten bits a sample, and the height up to a multiple of 64. -/
def frameBytes (width height : Nat) : Nat :=
  let hpad := (height + 63) % 2 ^ 32 / 64 * 64
  let pitch := (width * 10 + 511) % 2 ^ 32 / 512 * 512 / 8
  max (64 * 1024) (pitch * hpad * 3 % 2 ^ 32 / 2)

def Engine.bufferBytes (e : Engine) : Nat := frameBytes e.frameWidth e.frameHeight

/-- What the hardware writes: the luma of the strides it is given, and half as much chroma. -/
def Regs.writtenBytes (regs : Regs) : Nat := regs.yVirstride * 16 * 3 / 2

/-- The engine and the size of the frame it decoded last, since `Init` or `Flush`. -/
structure Sized where
  engine : Engine
  previous : Option (Nat × Nat) := none

namespace Sized

/-- A frame that was submitted and came back is the previous one for the next. -/
def decode (s : Sized) (out : Outcome) : Sized where
  engine := out.engine
  previous :=
    if out.submitted.isSome && out.status == .ok then out.frame.map fun f => (f.width, f.height)
    else s.previous

def step (s : Sized) : Event → Sized
  | .decode bits kickOk => s.decode (s.engine.decodeOne bits kickOk)
  | .release slot => { s with engine := s.engine.step (.release slot) }
  | .flush => { engine := s.engine.step .flush }

/-- A call writes and reads inside the buffer, and tells the hardware the truth about the previous
size. -/
structure SafeCall (s : Sized) (bits : List Bool) (out : Outcome) : Prop where
  written : ∀ regs, out.submitted = some regs → regs.writtenBytes ≤ s.engine.bufferBytes
  read : ∀ row ∈ out.reads, row.stop ≤ s.engine.bufferBytes
  flag : ∀ regs pp, out.submitted = some regs → parse s.engine.parserState bits = some pp →
    (regs.lastWidthheightEqcur = true ↔ s.previous = some (pp.width, pp.height))

def Safe (s : Sized) : Event → Prop
  | .decode bits kickOk => s.SafeCall bits (s.engine.decodeOne bits kickOk)
  | _ => True

end Sized

/-- What a coded frame takes: its own strides, and after a kick the byte that the repack reads past
the last row of ten bits where the row is as long as its stride but for half a byte. -/
def PicParams.extent (pp : PicParams) (kickOk : Bool) : Nat :=
  alignedPitch pp.width pp.depth * pp.height * 3 / 2 +
    if kickOk = true ∧ pp.depth = 10 ∧ pp.width % 256 = 102 then 1 else 0

/-- Every frame that is submitted fits the buffer and has the size of the frame before. -/
def Sized.Fitting (s : Sized) : Event → Prop
  | .decode bits kickOk => ∀ pp target, s.engine.Submits bits pp target →
      pp.extent kickOk ≤ s.engine.bufferBytes ∧
      ∀ size, s.previous = some size → size = (pp.width, pp.height)
  | _ => True

section Depth

variable {σ : Type} {H : Lib.Prog.Handler Nat (fun n => BitVec n) σ} {r : σ} {st : ParserState}
  {pp pp' : PicParams}

/-- Eight or ten bits. -/
def DepthOk (d : Nat) : Prop := d = 8 ∨ d = 10

theorem readTrailer_bitDepth : ((readTrailer st pp).run H r).1.bitDepth = pp.bitDepth := by
  simp only [readTrailer, Lib.Prog.run_bind, Lib.Prog.run_pure]

theorem readBitDepth_cases (profile : Nat) : DepthOk ((readBitDepth profile).run H r).1 ∨
    ((readBitDepth profile).run H r).1 = 12 := by
  unfold readBitDepth
  split
  · simp only [Lib.Prog.run_map]
    split
    · exact .inr rfl
    · exact .inl (.inr rfl)
  · exact .inl (.inl rfl)

theorem readColorConfig_bitDepth (profile : Nat) :
    ((readColorConfig profile pp).run H r).1.bitDepth = ((readBitDepth profile).run H r).1 := by
  simp only [readColorConfig, Lib.Prog.run_bind]
  split
  · simp only [Lib.Prog.run_bind]
    split <;> simp only [Lib.Prog.run_bind, Lib.Prog.run_pure]
  · split <;> simp only [Lib.Prog.run_bind, Lib.Prog.run_pure]

theorem readKeyFrame_bitDepth (h : ((readKeyFrame pp).run H r).1 = some pp') :
    DepthOk pp'.bitDepth := by
  simp only [readKeyFrame, Lib.Prog.run_bind] at h
  split at h
  · cases h
  simp only [Lib.Prog.run_bind] at h
  split at h
  · cases h
  · rename_i hdepth
    simp only [Lib.Prog.run_bind, Lib.Prog.run_pure, Option.some.injEq] at h
    rw [← h]
    rw [readColorConfig_bitDepth] at hdepth ⊢
    exact (readBitDepth_cases _).resolve_right hdepth

theorem readIntraColor_bitDepth : DepthOk ((readIntraColor pp).run H r).1.bitDepth ∨
    ((readIntraColor pp).run H r).1.bitDepth = 12 := by
  unfold readIntraColor
  split
  · rw [readColorConfig_bitDepth]
    exact readBitDepth_cases _
  · exact .inl (.inl rfl)

theorem readIntraOnly_bitDepth (h : ((readIntraOnly pp).run H r).1 = some pp') :
    DepthOk pp'.bitDepth := by
  simp only [readIntraOnly, Lib.Prog.run_bind] at h
  split at h
  · cases h
  simp only [Lib.Prog.run_bind] at h
  split at h
  · cases h
  · rename_i hdepth
    simp only [Lib.Prog.run_bind, Lib.Prog.run_pure, Option.some.injEq] at h
    rw [← h]
    exact readIntraColor_bitDepth.resolve_right hdepth

theorem readNonKey_bitDepth (hpp : DepthOk pp.bitDepth)
    (h : ((readNonKey st pp).run H r).1 = some pp') :
    DepthOk pp'.bitDepth := by
  simp only [readNonKey, Lib.Prog.run_bind] at h
  split at h
  · exact readIntraOnly_bitDepth h
  · simp only [readInter, Lib.Prog.run_bind, Lib.Prog.run_pure, Option.some.injEq] at h
    rw [← h]
    exact hpp

theorem readBody_bitDepth (hpp : DepthOk pp.bitDepth)
    (h : ((readBody st pp).run H r).1 = some pp') :
    DepthOk pp'.bitDepth := by
  unfold readBody at h
  split at h
  · exact readKeyFrame_bitDepth h
  · exact readNonKey_bitDepth hpp h

theorem readCoded_bitDepth (hpp : DepthOk pp.bitDepth)
    (h : ((readCoded st pp).run H r).1 = some pp') :
    DepthOk pp'.bitDepth := by
  simp only [readCoded, Lib.Prog.run_bind] at h
  split at h
  · cases h
  · rename_i body hbody
    simp only [Lib.Prog.run_map, Option.some.injEq] at h
    rw [← h, readTrailer_bitDepth]
    refine readBody_bitDepth ?_ hbody
    exact hpp

/-- A frame has eight or ten bits, since twelve are refused where a depth is coded. -/
theorem parse_bitDepth {bits : List Bool} (hst : DepthOk st.lastBitDepth)
    (h : parse st bits = some pp) : DepthOk pp.bitDepth := by
  have hinit : ∀ profile, DepthOk (PicParams.initial st profile).bitDepth := by
    intro profile
    change DepthOk (if st.lastBitDepth = 0 then 8 else st.lastBitDepth)
    split
    · exact .inl rfl
    · exact hst
  obtain ⟨profile, ⟨idx, rfl⟩ | ⟨r, hread⟩⟩ := parse_cases h
  · exact hinit profile
  · exact readCoded_bitDepth (hinit profile) hread

end Depth

section Law

variable {s : Sized} {bits : List Bool} {pp : PicParams} {target : PoolSlot} {kickOk : Bool}
  {w h d : Nat}

/-- Ten bits a sample: a row ends inside its stride, or one byte behind it. -/
theorem rowBytes_ten (heven : w % 2 = 0) :
    rowBytes w 10 - alignedPitch w 10 = if w % 256 = 102 then 1 else 0 := by
  have hrow : rowBytes w 10 = 5 * (w / 4) + if w % 4 = 0 then 0 else 4 := rfl
  rw [hrow, alignedPitch]
  by_cases hgroup : w % 4 = 0
  · rw [if_pos hgroup, if_neg (by omega)]
    omega
  · rw [if_neg hgroup]
    by_cases hlong : w % 256 = 102
    · rw [if_pos hlong]
      omega
    · rw [if_neg hlong]
      omega

theorem rowBytes_eight : rowBytes w 8 - alignedPitch w 8 = 0 := by
  have hrow : rowBytes w 8 = w := rfl
  rw [hrow, alignedPitch]
  omega

/-- How far the last row ends behind its stride. -/
theorem rowBytes_sub (hd : DepthOk d) (heven : w % 2 = 0) :
    rowBytes w d - alignedPitch w d = if d = 10 ∧ w % 256 = 102 then 1 else 0 := by
  rcases hd with rfl | rfl
  · rw [rowBytes_eight]
    simp
  · rw [rowBytes_ten heven]
    simp

theorem alignedPitch_le (hd : DepthOk d) (hw : w ≤ 8192) : alignedPitch w d ≤ 10240 := by
  unfold alignedPitch
  rcases hd with rfl | rfl <;> omega

/-- The rows of a frame are inside a buffer as long as the written bytes and the rest of the last
row. -/
theorem frameRows_iff (size : Nat) (hd : DepthOk d) (hvalid : validateResolution w h = true) :
    (alignedPitch w d * h * 3 / 2 ≤ size ∧ ∀ row ∈ Engine.frameRows w h d, row.stop ≤ size) ↔
      alignedPitch w d * h * 3 / 2 + (if d = 10 ∧ w % 256 = 102 then 1 else 0) ≤ size := by
  simp only [validateResolution, decide_eq_true_eq] at hvalid
  obtain ⟨-, hh, hw, hhMax, hwEven, hhEven⟩ := hvalid
  have hwrap : h * alignedPitch w d < 2 ^ 32 := by
    have hle : h * alignedPitch w d ≤ 8192 * 10240 := Nat.mul_le_mul hhMax (alignedPitch_le hd hw)
    omega
  unfold Engine.frameRows
  rw [rows_inside_iff (by omega) le_rfl hwrap, readEnd, ← rowBytes_sub hd hwEven]
  obtain ⟨k, rfl⟩ : ∃ k, h = 2 * (k + 1) := ⟨h / 2 - 1, by omega⟩
  have hhalf : 2 * (k + 1) / 2 - 1 = k := by omega
  have hall : alignedPitch w d * (2 * (k + 1)) * 3 / 2 =
      alignedPitch w d * (2 * (k + 1)) + k * alignedPitch w d + alignedPitch w d := by
    have hdouble : alignedPitch w d * (2 * (k + 1)) * 3 =
        2 * (alignedPitch w d * (2 * (k + 1)) + k * alignedPitch w d + alignedPitch w d) := by ring
    omega
  rw [hhalf, hall]
  omega

/-- The flag is up after the first frame; what is a reference can be read where it is. -/
structure Sized.Inv (s : Sized) : Prop where
  flag : s.engine.lastWidthheightEqcur = s.previous.isSome
  depth : DepthOk s.engine.parserState.lastBitDepth
  entries : ∀ r d, s.engine.dpb.slots r = some d →
    ∀ row ∈ Engine.frameRows d.width d.height d.depth, row.stop ≤ s.engine.bufferBytes

theorem depth_eq (hd : DepthOk pp.bitDepth) : pp.depth = pp.bitDepth := by
  unfold PicParams.depth
  rcases hd with hd | hd <;> rw [hd] <;> rfl

theorem depthOk_depth (hinv : s.Inv) (hparse : parse s.engine.parserState bits = some pp) :
    DepthOk pp.depth := by
  have hd := parse_bitDepth hinv.depth hparse
  rw [depth_eq hd]
  exact hd

/-- The hardware is given the strides of the frame, in units of 16 bytes. -/
theorem fill_writtenBytes {e : Engine} {regs : Regs} (hfill : e.fill pp target = some regs) :
    regs.writtenBytes = alignedPitch pp.width pp.depth * pp.height * 3 / 2 ∧
      regs.lastWidthheightEqcur = e.lastWidthheightEqcur := by
  unfold Engine.fill at hfill
  split at hfill
  · cases hfill
    refine ⟨?_, rfl⟩
    have hpitch : alignedPitch pp.width pp.depth = 16 * (alignedPitch pp.width pp.depth / 16) := by
      unfold alignedPitch
      omega
    have hluma : pp.height * alignedPitch pp.width pp.depth / 16 * 16 =
        alignedPitch pp.width pp.depth * pp.height := by
      rw [hpitch, Nat.mul_left_comm, Nat.mul_div_cancel_left _ (by decide)]
      ring
    simp only [Regs.writtenBytes, hluma]
  · cases hfill

/-- The flag tells the truth when the previous frame, if there is one, has the size of this. -/
theorem flag_iff (size : Nat × Nat) (hflag : s.engine.lastWidthheightEqcur = s.previous.isSome) :
    (s.engine.lastWidthheightEqcur = true ↔ s.previous = some size) ↔
      ∀ other, s.previous = some other → other = size := by
  rw [hflag]
  cases s.previous with
  | none => simp
  | some other => simp

theorem safe_submits (hinv : s.Inv) (hsub : s.engine.Submits bits pp target) :
    s.SafeCall bits (s.engine.decodeOne bits kickOk) ↔
      pp.extent kickOk ≤ s.engine.bufferBytes ∧
        ∀ size, s.previous = some size → size = (pp.width, pp.height) := by
  obtain ⟨regs, hfill, hout⟩ := hsub.outcome kickOk
  obtain ⟨hwritten, hflag⟩ := fill_writtenBytes hfill
  have hdepth := depthOk_depth hinv hsub.parsed
  have hextent : (regs.writtenBytes ≤ s.engine.bufferBytes ∧
      ∀ row ∈ (s.engine.kicked pp target regs kickOk).reads, row.stop ≤ s.engine.bufferBytes) ↔
        pp.extent kickOk ≤ s.engine.bufferBytes := by
    rw [hwritten, PicParams.extent]
    cases kickOk with
    | true =>
      simp only [Engine.kicked, if_true, true_and]
      exact frameRows_iff _ hdepth hsub.size
    | false => simp [Engine.kicked]
  have hsubmitted : (s.engine.kicked pp target regs kickOk).submitted = some regs := by
    cases kickOk <;> rfl
  have hflags := flag_iff (pp.width, pp.height) hinv.flag
  rw [hout, ← hextent, ← hflags, ← hflag]
  constructor
  · intro h
    exact ⟨⟨h.written regs hsubmitted, h.read⟩, h.flag regs pp hsubmitted hsub.parsed⟩
  · rintro ⟨⟨hwrite, hread⟩, hsame⟩
    refine ⟨?_, hread, ?_⟩
    · intro regs' hregs
      rw [hsubmitted] at hregs
      cases hregs
      exact hwrite
    · intro regs' pp' hregs hparse
      rw [hsubmitted] at hregs
      cases hregs
      rw [hsub.parsed] at hparse
      cases hparse
      exact hsame

/-- A call that submits nothing is safe. -/
theorem safe_shows {d : DpbSlot} (hinv : s.Inv) (hshow : s.engine.Shows bits pp d target) :
    s.SafeCall bits (s.engine.decodeOne bits kickOk) := by
  rw [hshow.outcome]
  refine ⟨?_, hinv.entries _ d hshow.entry, ?_⟩
  · intro regs hregs
    cases hregs
  · intro regs pp' hregs
    cases hregs

theorem safe_idles (hidle : s.engine.Idles bits (s.engine.decodeOne bits kickOk)) :
    s.SafeCall bits (s.engine.decodeOne bits kickOk) := by
  refine ⟨?_, ?_, ?_⟩
  · intro regs hregs
    rw [hidle.submitted] at hregs
    cases hregs
  · intro row hrow
    rw [hidle.reads] at hrow
    cases hrow
  · intro regs pp' hregs
    rw [hidle.submitted] at hregs
    cases hregs

theorem safe_iff (hinv : s.Inv) (ev : Event) : s.Safe ev ↔ s.Fitting ev := by
  cases ev with
  | release slot => exact Iff.rfl
  | flush => exact Iff.rfl
  | decode bits kickOk =>
    rcases s.engine.decodeOne_cases bits kickOk with ⟨pp, target, hsub⟩ |
      ⟨pp, d, slot, hshow⟩ | hidle
    · refine (safe_submits hinv hsub).trans ⟨?_, fun h => h pp target hsub⟩
      intro h pp' target' hsub'
      obtain ⟨rfl, -⟩ := hsub.unique hsub'
      exact h
    · refine iff_of_true (safe_shows hinv hshow) ?_
      intro pp' target' hsub'
      exact absurd hshow hsub'.not_shows
    · refine iff_of_true (safe_idles hidle) ?_
      intro pp' target' hsub'
      exact absurd hsub' (hidle.silent pp' target')

/-- A frame that was decoded inside its buffer can be read there as a reference. -/
theorem inv_kickDone (hinv : s.Inv) (hsub : s.engine.Submits bits pp target)
    (hread : ∀ row ∈ Engine.frameRows pp.width pp.height pp.depth, row.stop ≤
    s.engine.bufferBytes) :
    ({ engine := s.engine.kickDone pp target,
       previous := some (pp.width, pp.height) } : Sized).Inv := by
  have hd := parse_bitDepth hinv.depth hsub.parsed
  refine ⟨rfl, ?_, ?_⟩
  · change DepthOk (if pp.bitDepth = 0 then 8 else pp.bitDepth)
    split
    · exact .inl rfl
    · exact hd
  · intro r d hslot
    change (if _ then some _ else s.engine.dpb.slots r) = some d at hslot
    split at hslot
    · cases hslot
      have hdepth : (s.engine.dpb.entry pp target).depth = pp.depth := by
        have hpos : pp.depth ≠ 0 := by
          rw [depth_eq hd]
          rcases hd with hd | hd <;> rw [hd] <;> decide
        exact if_neg hpos
      rw [hdepth]
      exact hread
    · exact hinv.entries r d hslot

theorem inv_step (hinv : s.Inv) (ev : Event) (hsafe : s.Safe ev) : (s.step ev).Inv := by
  cases ev with
  | release slot => exact ⟨hinv.flag, hinv.depth, hinv.entries⟩
  | flush => exact ⟨rfl, hinv.depth, hinv.entries⟩
  | decode bits kickOk =>
    have hread := hsafe.read
    change (s.decode (s.engine.decodeOne bits kickOk)).Inv
    rcases s.engine.decodeOne_cases bits kickOk with ⟨pp, target, hsub⟩ |
      ⟨pp, d, slot, hshow⟩ | hidle
    · obtain ⟨regs, -, hout⟩ := hsub.outcome kickOk
      rw [hout] at hread ⊢
      cases kickOk with
      | true => exact inv_kickDone hinv hsub hread
      | false => exact ⟨hinv.flag, hinv.depth, hinv.entries⟩
    · rw [hshow.outcome]
      exact ⟨hinv.flag, hinv.depth, hinv.entries⟩
    · have hprevious : (s.decode (s.engine.decodeOne bits kickOk)).previous = s.previous := by
        simp only [Sized.decode, hidle.submitted]
        rfl
      refine ⟨?_, ?_, ?_⟩
      · rw [hprevious, ← hinv.flag]
        rcases hidle.engine with he | he <;> simp only [Sized.decode, he]
      · rcases hidle.engine with he | he <;> simp only [Sized.decode, he] <;> exact hinv.depth
      · rcases hidle.engine with he | he <;> simp only [Sized.decode, he] <;> exact hinv.entries

end Law

/-- Along every run the frames stay inside their buffers and the hardware is told the truth about
the previous size exactly when every frame fits and has the size of the frame before. -/
theorem extents_iff (width height : Nat) (events : List Event) :
    Lib.Along Sized.step Sized.Safe { engine := .init width height } events ↔
      Lib.Along Sized.step Sized.Fitting { engine := .init width height } events := by
  have hinit : Sized.Inv { engine := .init width height } := by
    refine ⟨rfl, .inl rfl, ?_⟩
    intro r d hslot
    cases hslot
  exact Lib.along_congr (fun s ev hinv => safe_iff hinv ev)
    (fun s ev hinv => inv_step hinv ev) hinit

/-- A key frame of another size. -/
def largeKeyFrameBits : List Bool :=
  toBits 2 2 ++ toBits 6 0b000010 ++ toBits 24 0x498342 ++ toBits 4 0b0010 ++ toBits 16 511 ++
    toBits 16 511 ++ toBits 1 0 ++ toBits 4 0b1000 ++ toBits 64 0

/-- A frame of 512x512 in a stream of 64x64 is written far past its buffer. -/
theorem large_frame_overruns_buffer :
    ¬ Lib.Along Sized.step Sized.Safe { engine := .init 64 64 }
      [.decode largeKeyFrameBits true] := by
  rintro ⟨hsafe, -⟩
  have hwritten := hsafe.written
    (((Engine.init 64 64).decodeOne largeKeyFrameBits true).submitted.get (by decide +kernel))
    (Option.some_get _).symm
  exact absurd hwritten (by decide +kernel)

end Rkvdec.Vp9
