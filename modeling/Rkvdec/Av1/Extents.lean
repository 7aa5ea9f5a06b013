import Mathlib.Tactic
import Rkvdec.Engine.Repack
import Rkvdec.Lib.Trace
import Rkvdec.Av1.References

/-! What the frames of the AV1 engine take of the buffers that `Av1DecodeEngine_Init` sized, and how
much picture they come with. -/
namespace Rkvdec.Av1

open Repack

/-- `(v + a - 1) & ~(a - 1)`. -/
def alignUp (a v : Nat) : Nat := (v + (a - 1)) / a * a

/-- What the engine reads of the format in `Dav1dSequenceHeader`. -/
structure SeqFormat where
  hbd : Nat
  monochrome : Bool
deriving DecidableEq, Repr

def SeqFormat.bitDepth (seq : SeqFormat) : Nat := if seq.hbd = 0 then 8 else 10

/-- The size in a header: a denominator is coded with superres, from 9 on. -/
structure FrameSize where
  upscaledWidth : Nat
  height : Nat
  superres : Option (Fin 8)
deriving DecidableEq, Repr

/-- `width[0]`. -/
def FrameSize.width (size : FrameSize) : Nat :=
  match size.superres with
  | none => size.upscaledWidth
  | some d =>
    max ((size.upscaledWidth * 8 + (9 + d.val) / 2) / (9 + d.val)) (min 16 size.upscaledWidth)

/-- Superres only widens. -/
theorem FrameSize.width_le (size : FrameSize) : size.width ≤ size.upscaledWidth := by
  unfold FrameSize.width
  split
  · exact le_rfl
  · rename_i d _
    refine max_le ?_ (min_le_right _ _)
    rw [← Nat.lt_succ_iff, Nat.div_lt_iff_lt_mul (by omega)]
    have hmul : (size.upscaledWidth + 1) * (9 + d.val) =
        size.upscaledWidth * 8 + size.upscaledWidth * (d.val + 1) + (9 + d.val) := by ring
    rw [Nat.succ_eq_add_one, hmul]
    omega

/-- What `rkmpp_av1_build_regs` accepts of a coded frame. -/
def accepts (seq : SeqFormat) (size : FrameSize) : Bool :=
  decide (seq.hbd ≤ 1) && !seq.monochrome && validateResolution size.upscaledWidth size.height

/-- Luma inside the codec; chroma is half of it. -/
def lumaBytes (width height bitDepth : Nat) : Nat :=
  alignUp 64 width * alignUp 16 height * bitDepth % 2 ^ 32 / 8

/-- `dir_mvs`. -/
def dirMvs (width height : Nat) : Nat :=
  alignUp 16 (((width + 63) / 64 + 1) * ((height + 63) / 64 + 1) * 384 % 2 ^ 32) * 2

/-- `internal_size` in `Av1DecodeEngine_Init`, for ten bits. -/
def internalSize (width height : Nat) : Nat :=
  let luma := lumaBytes width height 10
  alignUp 4096 ((luma + luma / 2 + dirMvs width height + 512) % 2 ^ 32)

/-- The rows of the output. -/
def ppStride (width bitDepth : Nat) : Nat :=
  alignUp 16 ((alignUp 64 width * bitDepth + 7) % 2 ^ 32 / 8)

/-- `output_size` in `Av1DecodeEngine_Init`, for samples of two bytes. -/
def outputSize (width height : Nat) : Nat :=
  ppStride width 16 * alignUp 16 height * 3 % 2 ^ 32 / 2

def filterMemSize : Nat := 4 * 1024 * 1024
def tileBufSize : Nat := 256 * 1024

/-- The columns of the loop filters in `filter_mem`: the deblocking data and control, the
directional filter and superres, each for all tile columns. -/
def dbDataBytes (height cols : Nat) : Nat := alignUp 128 (alignUp 64 height * 12 * 10 / 8) * cols
def dbCtrlBytes (height cols : Nat) : Nat := alignUp 128 (alignUp 64 height * 2 * 16 / 4) * cols
def cdefBytes (height cols : Nat) : Nat :=
  alignUp 128 (alignUp 64 height / 64 * 44 * 10 * 16 / 8) * cols
def srBytes (height cols : Nat) : Nat := alignUp 128 (alignUp 64 height / 64 * (3040 + 1280)) * cols

/-- What the hardware takes for restoration (`lr`) and for `mc_sync`, by height and tile columns. -/
structure Scratch where
  lrBytes : Nat → Nat → Nat
  mcSyncBytes : Nat → Nat → Nat

/-- A buffer with a place in it that a register points to. -/
structure DmaWrite where
  size : Nat
  region : Region

def DmaWrite.Inside (w : DmaWrite) : Prop := w.region.stop ≤ w.size

instance (w : DmaWrite) : Decidable w.Inside := inferInstanceAs (Decidable (_ ≤ _))

/-- A frame as it is put out, with the size of its picture. -/
structure OutFrame where
  width : Nat
  height : Nat
  yuvBytes : Nat
deriving DecidableEq, Repr

/-- What a step does with the buffers and puts out. -/
structure Output where
  dma : List DmaWrite := []
  reads : List Region := []
  frame : Option OutFrame := none

/-- The engine: the size of `Init`, the format of the last sequence header and the references. -/
structure SizedEngine where
  frameWidth : Nat
  frameHeight : Nat
  format : SeqFormat := ⟨0, false⟩
  refs : RefState

/-- The events of the engine, with the sizes in the headers. -/
inductive SizedEvent
  | sequenceHeader (orderHintBits : Nat) (format : SeqFormat)
  | unparsed
  | coded (x : CodedSyntax) (size : FrameSize) (tileCols : Nat) (r : KickResult)
  | showExisting (idx : Slot)
  | flush

/-- The header with its size. -/
def CodedSyntax.sized (x : CodedSyntax) (size : FrameSize) : CodedSyntax :=
  { x with width := size.width, upscaledWidth := size.upscaledWidth, height := size.height }

namespace SizedEngine

/-- The columns of `filter_mem`. They are laid out for the height of `Init`, and taken for the
frame's. -/
def filterWrites (scratch : Scratch) (e : SizedEngine) (size : FrameSize) (cols : Nat) :
    List DmaWrite :=
  let dbCtrlOff := dbDataBytes e.frameHeight cols % 2 ^ 32
  let cdefOff := (dbCtrlOff + dbCtrlBytes e.frameHeight cols) % 2 ^ 32
  let srOff := (cdefOff + cdefBytes e.frameHeight cols) % 2 ^ 32
  let lrOff := (srOff + srBytes e.frameHeight cols) % 2 ^ 32
  [⟨filterMemSize, ⟨0, dbDataBytes size.height cols⟩⟩,
    ⟨filterMemSize, ⟨dbCtrlOff, dbCtrlBytes size.height cols⟩⟩,
    ⟨filterMemSize, ⟨cdefOff, cdefBytes size.height cols⟩⟩,
    ⟨filterMemSize, ⟨srOff, srBytes size.height cols⟩⟩,
    ⟨filterMemSize, ⟨lrOff, scratch.lrBytes size.height cols⟩⟩]

/-- Luma, chroma and motion vectors in a buffer of `pool_internal`. They are laid out for the size
of `Init`; what the frame takes goes by `width[1]`, after superres. -/
def internalWrites (e : SizedEngine) (size : FrameSize) : List DmaWrite :=
  let bytes := internalSize e.frameWidth e.frameHeight
  let luma := lumaBytes e.frameWidth e.frameHeight e.format.bitDepth
  let own := lumaBytes size.upscaledWidth size.height e.format.bitDepth
  [⟨bytes, ⟨0, own⟩⟩, ⟨bytes, ⟨luma, own / 2⟩⟩,
    ⟨bytes, ⟨luma + luma / 2 + 64, dirMvs size.upscaledWidth size.height⟩⟩]

/-- The references of an inter frame that are in the pool. -/
def refWrites (e : SizedEngine) (x : CodedSyntax) (size : FrameSize) : List DmaWrite :=
  if !x.frameType.isKeyOrIntra && !x.allowIntrabc then
    (List.finRange 7).flatMap fun r =>
      if (e.refs.dpbToPool (x.refidx r)).isSome then e.internalWrites size else []
  else []

def dmaWrites (scratch : Scratch) (e : SizedEngine) (x : CodedSyntax) (size : FrameSize)
    (cols : Nat) :
    List DmaWrite :=
  e.internalWrites size ++ filterWrites scratch e size cols ++
    [⟨tileBufSize, ⟨0, scratch.mcSyncBytes size.height cols⟩⟩] ++ e.refWrites x size

/-- The rows that are read of a picture in the pool. -/
def outputRows (width height bitDepth : Nat) : List Region :=
  rows (ppStride width bitDepth) (alignUp 16 height) width height bitDepth

/-- `Av1HwKickPicture`: it reads and crops the picture by the size of `Init`. -/
def kickOutput (scratch : Scratch) (e : SizedEngine) (x : CodedSyntax) (size : FrameSize)
    (cols : Nat) (ok : Bool) : Output :=
  if accepts e.format size then
    { dma := dmaWrites scratch e x size cols
      reads := if ok then outputRows e.frameWidth e.frameHeight e.format.bitDepth else []
      frame := if ok && x.showFrame then
        some ⟨size.width, size.height, yuvBytes e.frameWidth e.frameHeight e.format.bitDepth⟩
          else none }
  else {}

/-- A coded frame. Software mode puts it out without a picture. -/
def codedOutput (scratch : Scratch) (e : SizedEngine) (x : CodedSyntax) (size : FrameSize)
    (cols : Nat) (ok : Bool) : Output :=
  if e.refs.hardware then kickOutput scratch e x size cols ok
  else { frame := if x.showFrame then some ⟨size.width, size.height, 0⟩ else none }

/-- `show_existing_frame`: the picture is read and cropped by the size that was saved with its
header. -/
def shownOutput (e : SizedEngine) (idx : Slot) : Output :=
  if (e.refs.dpbToPool idx).isSome then
    let saved := (e.refs.savedStates idx).getD {}
    { reads := outputRows saved.width saved.height e.format.bitDepth
      frame :=
        some ⟨saved.width, saved.height, yuvBytes saved.width saved.height e.format.bitDepth⟩ }
  else {}

/-- What `DrainPictures` does with an event. -/
def output (scratch : Scratch) (e : SizedEngine) : SizedEvent → Output
  | .coded x size cols r =>
    if e.refs.seqHdr.isSome then codedOutput scratch e x size cols r.ok else {}
  | .showExisting idx => if e.refs.seqHdr.isSome then e.shownOutput idx else {}
  | _ => {}

/-- The event as the references see it: a kick can only succeed if its registers were built. -/
def refEvent (e : SizedEngine) : SizedEvent → RefEvent
  | .sequenceHeader bits _ => .sequenceHeader bits
  | .unparsed => .unparsed
  | .coded x size _ r =>
    .picture (.coded (x.sized size)) { r with ok := r.ok && accepts e.format size }
  | .showExisting idx => .picture (.showExisting idx) ⟨true, []⟩
  | .flush => .flush

def step (defaultCdfs : Fin 4 → Cdf) (e : SizedEngine) (ev : SizedEvent) : SizedEngine :=
  { e with
    format := match ev with | .sequenceHeader _ format => format | _ => e.format
    refs := e.refs.step defaultCdfs (e.refEvent ev) }

/-- A step puts out as many samples as its frame says, reads inside the picture's buffer and points
inside the scratch buffers. -/
structure Inside (scratch : Scratch) (e : SizedEngine) (ev : SizedEvent) : Prop where
  samples : ∀ f ∈ (e.output scratch ev).frame,
    f.yuvBytes = f.width * f.height * 3 / 2 * if e.format.hbd = 0 then 1 else 2
  reads : ∀ row ∈ (e.output scratch ev).reads, row.stop ≤ outputSize e.frameWidth e.frameHeight
  dma : ∀ w ∈ (e.output scratch ev).dma, w.Inside

/-- The columns before those of restoration. -/
def columnBytes (height cols : Nat) : Nat :=
  dbDataBytes height cols + dbCtrlBytes height cols + cdefBytes height cols + srBytes height cols

/-- No frame of the hardware is larger than the size of `Init`, after superres, and its height is
even. Where it is accepted, the size of `Init` is one that would be, its tile columns fit the
scratch buffers, and if it is shown it has the size of `Init` before superres as well. -/
structure FrameFits (scratch : Scratch) (e : SizedEngine) (x : CodedSyntax) (size : FrameSize)
    (cols : Nat) (ok : Bool) : Prop where
  upscaledWidth : size.upscaledWidth ≤ e.frameWidth
  height : size.height ≤ e.frameHeight
  even : size.height % 2 = 0
  engine : accepts e.format size = true → e.frameWidth ≤ 8192 ∧ e.frameHeight ≤ 8192
  columns : accepts e.format size = true →
    columnBytes e.frameHeight cols + scratch.lrBytes size.height cols ≤ filterMemSize
  sync : accepts e.format size = true → scratch.mcSyncBytes size.height cols ≤ tileBufSize
  shown : accepts e.format size = true → ok = true → x.showFrame = true →
    size.width = e.frameWidth ∧ size.height = e.frameHeight

/-- Software mode only has frames that are not shown. -/
def Fits (scratch : Scratch) (e : SizedEngine) : SizedEvent → Prop
  | .coded x size cols r => e.refs.seqHdr.isSome = true →
      if e.refs.hardware then e.FrameFits scratch x size cols r.ok else x.showFrame = false
  | _ => True

end SizedEngine

section Sizes

variable {a v v' w w' h h' d : Nat}

theorem alignUp_mono (hv : v ≤ v') : alignUp a v ≤ alignUp a v' :=
  Nat.mul_le_mul_right _ (Nat.div_le_div_right (Nat.add_le_add_right hv _))

theorem SeqFormat.bitDepth_cases (seq : SeqFormat) : seq.bitDepth = 8 ∨ seq.bitDepth = 10 := by
  unfold SeqFormat.bitDepth
  split
  · exact .inl rfl
  · exact .inr rfl

/-- Up to 8192 the luma does not wrap. -/
theorem lumaBytes_eq (hw : w ≤ 8192) (hh : h ≤ 8192) (hd : d ≤ 10) :
    lumaBytes w h d = alignUp 64 w * alignUp 16 h * d / 8 := by
  have hw' : alignUp 64 w ≤ 8192 := by unfold alignUp; omega
  have hh' : alignUp 16 h ≤ 8192 := by unfold alignUp; omega
  have hle : alignUp 64 w * alignUp 16 h * d ≤ 8192 * 8192 * 10 :=
    Nat.mul_le_mul (Nat.mul_le_mul hw' hh') hd
  unfold lumaBytes
  rw [Nat.mod_eq_of_lt (by omega)]

theorem lumaBytes_mono (hw : w ≤ w') (hh : h ≤ h') (hwMax : w' ≤ 8192)
    (hhMax : h' ≤ 8192) {d' : Nat} (hd : d ≤ d') (hdMax : d' ≤ 10) :
    lumaBytes w h d ≤ lumaBytes w' h' d' := by
  rw [lumaBytes_eq (by omega) (by omega) (by omega), lumaBytes_eq hwMax hhMax hdMax]
  have harea := Nat.mul_le_mul (alignUp_mono (a := 64) hw) (alignUp_mono (a := 16) hh)
  exact Nat.div_le_div_right (Nat.mul_le_mul harea hd)

/-- At most 129 by 129 blocks of 384 bytes. -/
theorem blocks_le (hw : w ≤ 8192) (hh : h ≤ 8192) :
    ((w + 63) / 64 + 1) * ((h + 63) / 64 + 1) ≤ 129 * 129 := Nat.mul_le_mul (by omega) (by omega)

theorem dirMvs_mono (hw : w ≤ w') (hh : h ≤ h') (hwMax : w' ≤ 8192) (hhMax : h' ≤ 8192) :
    dirMvs w h ≤ dirMvs w' h' := by
  have hblocks : ((w + 63) / 64 + 1) * ((h + 63) / 64 + 1) ≤
      ((w' + 63) / 64 + 1) * ((h' + 63) / 64 + 1) :=
    Nat.mul_le_mul (by omega) (by omega)
  have hmax := blocks_le hwMax hhMax
  unfold dirMvs
  rw [Nat.mod_eq_of_lt (by omega), Nat.mod_eq_of_lt (by omega)]
  exact Nat.mul_le_mul_right _ (alignUp_mono (Nat.mul_le_mul_right _ hblocks))

/-- The buffer of `pool_internal` has its three parts in it. -/
theorem internalSize_ge (hw : w ≤ 8192) (hh : h ≤ 8192) :
    lumaBytes w h 10 + lumaBytes w h 10 / 2 + dirMvs w h + 512 ≤ internalSize w h := by
  have hluma : lumaBytes w h 10 ≤ lumaBytes 8192 8192 10 :=
    lumaBytes_mono hw hh le_rfl le_rfl le_rfl le_rfl
  have hmvs : dirMvs w h ≤ dirMvs 8192 8192 := dirMvs_mono hw hh le_rfl le_rfl
  have hlumaMax : lumaBytes 8192 8192 10 = 83886080 := by decide
  have hmvsMax : dirMvs 8192 8192 = 12780288 := by decide
  simp only [internalSize]
  rw [Nat.mod_eq_of_lt (by omega)]
  unfold alignUp
  omega

/-- A lower frame takes less of each column. -/
theorem columns_mono (cols : Nat) (hh : h ≤ h') :
    dbDataBytes h cols ≤ dbDataBytes h' cols ∧ dbCtrlBytes h cols ≤ dbCtrlBytes h' cols ∧
      cdefBytes h cols ≤ cdefBytes h' cols ∧ srBytes h cols ≤ srBytes h' cols := by
  have hpad : alignUp 64 h ≤ alignUp 64 h' := alignUp_mono hh
  refine ⟨?_, ?_, ?_, ?_⟩ <;>
    exact Nat.mul_le_mul_right _ (alignUp_mono (by omega))

/-- A row of the output ends in its stride, which is one of `Init` at most. -/
theorem ppStride_le (hd : d = 8 ∨ d = 10) (hle : w ≤ w') (hw' : w' ≤ 8192) :
    rowBytes w d ≤ ppStride w d ∧ ppStride w d ≤ ppStride w' 16 ∧ ppStride w d ≤ 10240 := by
  have hmono : alignUp 64 w ≤ alignUp 64 w' := alignUp_mono hle
  have hmax : alignUp 64 w' ≤ 8192 := by unfold alignUp; omega
  have hge : w ≤ alignUp 64 w := by unfold alignUp; omega
  have hmul : alignUp 64 w % 64 = 0 := Nat.mul_mod_left _ _
  have hwrap : ∀ {c k}, c ≤ 8192 → k ≤ 16 → (c * k + 7) % 2 ^ 32 = c * k + 7 := by
    intro c k hc hk
    have hle : c * k ≤ 8192 * 16 := Nat.mul_le_mul hc hk
    exact Nat.mod_eq_of_lt (by omega)
  unfold ppStride
  rw [hwrap (by omega) (by omega), hwrap hmax le_rfl]
  generalize alignUp 64 w = c at *
  generalize alignUp 64 w' = c' at *
  unfold rowBytes alignUp
  rcases hd with rfl | rfl
  · simp only [↓reduceIte]
    omega
  · simp only [Nat.reduceEqDiff, ↓reduceIte]
    split <;> omega

/-- The rows of a picture no larger than `Init` are inside a buffer of the pool. -/
theorem outputRows_inside (hd : d = 8 ∨ d = 10) (hw : w ≤ w') (hw' : w' ≤ 8192) (hh : h ≤ h')
    (hh' : h' ≤ 8192) (hone : h ≠ 1) :
    ∀ row ∈ SizedEngine.outputRows w h d, row.stop ≤ outputSize w' h' := by
  rcases Nat.eq_zero_or_pos h with rfl | hpos
  · intro row hrow
    cases hrow
  have hpad : h ≤ alignUp 16 h := by unfold alignUp; omega
  have hpads : alignUp 16 h ≤ alignUp 16 h' := alignUp_mono hh
  have hpadMax : alignUp 16 h' ≤ 8192 := by unfold alignUp; omega
  obtain ⟨hrow, hstride, hstrideMax⟩ := ppStride_le hd hw hw'
  have hwide : ppStride w' 16 ≤ 16384 := by
    unfold ppStride alignUp
    omega
  have hwrap : h * ppStride w d < 2 ^ 32 := by
    have hle : h * ppStride w d ≤ 8192 * 10240 := Nat.mul_le_mul (by omega) hstrideMax
    omega
  unfold SizedEngine.outputRows
  rw [rows_inside_iff (by omega) hpad hwrap, readEnd]
  have hhalf : (h / 2 - 1) * ppStride w d + ppStride w d = h / 2 * ppStride w d := by
    rw [← Nat.succ_mul]
    congr 1
    omega
  have hread : 2 * (ppStride w d * alignUp 16 h + h / 2 * ppStride w d) ≤
      ppStride w' 16 * alignUp 16 h' * 3 := by
    calc 2 * (ppStride w d * alignUp 16 h + h / 2 * ppStride w d)
        = ppStride w d * (2 * alignUp 16 h + 2 * (h / 2)) := by ring
      _ ≤ ppStride w' 16 * (alignUp 16 h' * 3) := Nat.mul_le_mul hstride (by omega)
      _ = ppStride w' 16 * alignUp 16 h' * 3 := (Nat.mul_assoc _ _ _).symm
  have hsize : ppStride w' 16 * alignUp 16 h' * 3 ≤ 16384 * 8192 * 3 :=
    Nat.mul_le_mul_right _ (Nat.mul_le_mul hwide hpadMax)
  unfold outputSize
  rw [Nat.mod_eq_of_lt (by omega)]
  omega

/-- A picture of even height comes with half as many chroma as luma samples. -/
theorem yuvBytes_eq (seq : SeqFormat) (hw : w ≤ 8192) (hh : h ≤ 8192) (heven : h % 2 = 0) :
    yuvBytes w h seq.bitDepth = w * h * 3 / 2 * if seq.hbd = 0 then 1 else 2 := by
  obtain ⟨k, rfl⟩ : ∃ k, h = 2 * k := ⟨h / 2, by omega⟩
  have harea : w * k ≤ 8192 * 4096 := Nat.mul_le_mul hw (by omega)
  have hplane : w * (2 * k) = 2 * (w * k) := by ring
  have hplanes : w * 2 * (2 * k) = 4 * (w * k) := by ring
  have hhalf : w * 2 * k = 2 * (w * k) := by ring
  simp only [yuvBytes, SeqFormat.bitDepth, Nat.mul_div_cancel_left k (by decide : 0 < 2)]
  by_cases hbd : seq.hbd = 0
  · simp only [hbd, ↓reduceIte]
    omega
  · simp only [hbd, ↓reduceIte, Nat.reduceEqDiff]
    rw [Nat.mod_eq_of_lt (a := w * 2) (by omega)]
    omega

end Sizes

namespace SizedEngine

variable {scratch : Scratch} {e : SizedEngine} {x : CodedSyntax} {size : FrameSize} {cols : Nat}

theorem internalWrites_inside (hw : size.upscaledWidth ≤ e.frameWidth)
    (hh : size.height ≤ e.frameHeight) (hwMax : e.frameWidth ≤ 8192)
    (hhMax : e.frameHeight ≤ 8192) :
    ∀ w ∈ e.internalWrites size, w.Inside := by
  have hdepth : e.format.bitDepth ≤ 10 := by
    rcases e.format.bitDepth_cases with hd | hd <;> omega
  have hown : lumaBytes size.upscaledWidth size.height e.format.bitDepth ≤
      lumaBytes e.frameWidth e.frameHeight e.format.bitDepth :=
    lumaBytes_mono hw hh hwMax hhMax le_rfl hdepth
  have hluma : lumaBytes e.frameWidth e.frameHeight e.format.bitDepth ≤
      lumaBytes e.frameWidth e.frameHeight 10 :=
        lumaBytes_mono le_rfl le_rfl hwMax hhMax hdepth le_rfl
  have hmvs := dirMvs_mono hw hh hwMax hhMax
  have hsize := internalSize_ge hwMax hhMax
  intro w hmem
  simp only [internalWrites, List.mem_cons, List.not_mem_nil, or_false] at hmem
  rcases hmem with rfl | rfl | rfl
  all_goals
    simp only [DmaWrite.Inside, Region.stop]
    omega

/-- Coded as narrow as `Init`, and wider after superres. -/
example : ∃ w ∈ internalWrites ⟨1280, 720, ⟨1, false⟩, { hardware := true }⟩ ⟨2560, 720, some 7⟩,
    ¬ w.Inside := by
  decide

theorem refWrites_inside (h : ∀ w ∈ e.internalWrites size, w.Inside) :
    ∀ w ∈ e.refWrites x size, w.Inside := by
  intro w hmem
  unfold refWrites at hmem
  split at hmem
  · obtain ⟨r, -, hmem⟩ := List.mem_flatMap.mp hmem
    split at hmem
    · exact h w hmem
    · cases hmem
  · cases hmem

/-- Where all columns fit, no offset wraps and each column ends before the next. -/
theorem filterWrites_inside (hh : size.height ≤ e.frameHeight)
    (hfit : columnBytes e.frameHeight cols + scratch.lrBytes size.height cols ≤ filterMemSize) :
    ∀ w ∈ e.filterWrites scratch size cols, w.Inside := by
  obtain ⟨hdata, hctrl, hcdef, hsr⟩ := columns_mono cols hh
  unfold columnBytes filterMemSize at hfit
  intro w hmem
  simp only [filterWrites, List.mem_cons, List.not_mem_nil, or_false] at hmem
  rcases hmem with rfl | rfl | rfl | rfl | rfl
  all_goals
    simp only [DmaWrite.Inside, Region.stop, filterMemSize]
    omega

theorem dmaWrites_inside (hw : size.upscaledWidth ≤ e.frameWidth) (hh : size.height ≤ e.frameHeight)
    (hmax : e.frameWidth ≤ 8192 ∧ e.frameHeight ≤ 8192)
    (hfit : columnBytes e.frameHeight cols + scratch.lrBytes size.height cols ≤ filterMemSize)
    (hsync : scratch.mcSyncBytes size.height cols ≤ tileBufSize) :
    ∀ w ∈ e.dmaWrites scratch x size cols, w.Inside := by
  have hinternal := internalWrites_inside hw hh hmax.1 hmax.2
  intro w hmem
  simp only [dmaWrites, List.mem_append, List.mem_singleton] at hmem
  rcases hmem with ((hmem | hmem) | rfl) | hmem
  · exact hinternal w hmem
  · exact filterWrites_inside hh hfit w hmem
  · simp only [DmaWrite.Inside, Region.stop]
    omega
  · exact refWrites_inside hinternal w hmem

/-- What a slot was left with is no larger than `Init`, and a slot that has a picture only comes of
a size that the register builder takes. -/
structure Inv (e : SizedEngine) : Prop where
  saved : e.refs.hardware = true → ∀ s hdr, e.refs.savedStates s = some hdr →
    hdr.width ≤ e.frameWidth ∧ hdr.height ≤ e.frameHeight ∧ hdr.height % 2 = 0
  mapped : ∀ s, (e.refs.dpbToPool s).isSome = true →
    e.refs.hardware = true ∧ e.frameWidth ≤ 8192 ∧ e.frameHeight ≤ 8192

variable {defaultCdfs : Fin 4 → Cdf} {ev : SizedEvent} {r : KickResult} {idx : Slot}

theorem kickOutput_inside (hseq : e.refs.seqHdr.isSome = true) (hhw : e.refs.hardware = true)
    (hfits : e.FrameFits scratch x size cols r.ok) : e.Inside scratch (.coded x size cols r) := by
  have hout : e.output scratch (.coded x size cols r) = kickOutput scratch e x size cols r.ok := by
    simp only [output, codedOutput, hseq, hhw, ↓reduceIte]
  by_cases hacc : accepts e.format size = true
  · have hvalid : validateResolution size.upscaledWidth size.height = true := by
      unfold accepts at hacc
      exact (Bool.and_eq_true_iff.mp hacc).2
    simp only [validateResolution, decide_eq_true_eq] at hvalid
    obtain ⟨hwMax, hhMax⟩ := hfits.engine hacc
    have hheight := hfits.height
    refine ⟨?_, ?_, ?_⟩ <;> rw [hout] <;> simp only [kickOutput, hacc, ↓reduceIte]
    · intro f hf
      split at hf
      · rename_i hok
        obtain ⟨hok, hshow⟩ := Bool.and_eq_true_iff.mp hok
        obtain ⟨hw, hh⟩ := hfits.shown hacc hok hshow
        cases hf
        simp only [hw, hh]
        exact yuvBytes_eq _ hwMax hhMax (hh ▸ hfits.even)
      · cases hf
    · intro row hrow
      split at hrow
      · exact outputRows_inside e.format.bitDepth_cases le_rfl hwMax le_rfl hhMax
          (by omega) row hrow
      · cases hrow
    · exact dmaWrites_inside hfits.upscaledWidth hheight ⟨hwMax, hhMax⟩ (hfits.columns hacc)
        (hfits.sync hacc)
  · refine ⟨?_, ?_, ?_⟩ <;> rw [hout] <;> simp [kickOutput, hacc]

theorem codedOutput_inside (hseq : e.refs.seqHdr.isSome = true)
    (hfits : e.Fits scratch (.coded x size cols r)) : e.Inside scratch (.coded x size cols r) := by
  have hfits := hfits hseq
  by_cases hhw : e.refs.hardware = true
  · rw [if_pos hhw] at hfits
    exact kickOutput_inside hseq hhw hfits
  · rw [if_neg hhw] at hfits
    have hout : e.output scratch (.coded x size cols r) = {} := by
      simp [output, codedOutput, hseq, hhw, hfits]
    refine ⟨?_, ?_, ?_⟩ <;> rw [hout] <;> simp

/-- A slot whose header was never saved is shown with no rows at all. -/
theorem shownOutput_inside (hinv : e.Inv) (hseq : e.refs.seqHdr.isSome = true) :
    e.Inside scratch (.showExisting idx) := by
  have hout : e.output scratch (.showExisting idx) = e.shownOutput idx := if_pos hseq
  by_cases hmapped : (e.refs.dpbToPool idx).isSome = true
  · obtain ⟨hhw, hwMax, hhMax⟩ := hinv.mapped idx hmapped
    obtain ⟨hw, hh, heven⟩ : ((e.refs.savedStates idx).getD {}).width ≤ e.frameWidth ∧
        ((e.refs.savedStates idx).getD {}).height ≤ e.frameHeight ∧
        ((e.refs.savedStates idx).getD {}).height % 2 = 0 := by
      cases hsaved : e.refs.savedStates idx with
      | none => exact ⟨Nat.zero_le _, Nat.zero_le _, rfl⟩
      | some hdr => exact hinv.saved hhw idx hdr hsaved
    refine ⟨?_, ?_, ?_⟩ <;> rw [hout] <;> simp only [shownOutput, hmapped, ↓reduceIte]
    · intro f hf
      cases hf
      exact yuvBytes_eq _ (by omega) (by omega) heven
    · exact outputRows_inside e.format.bitDepth_cases hw hwMax hh hhMax (by omega)
    · intro w hmem
      cases hmem
  · refine ⟨?_, ?_, ?_⟩ <;> rw [hout] <;> simp [shownOutput, hmapped]

theorem output_inside (hinv : e.Inv) (hfits : e.Fits scratch ev) : e.Inside scratch ev := by
  by_cases hseq : e.refs.seqHdr.isSome = true
  · cases ev with
    | coded x size cols r => exact codedOutput_inside hseq hfits
    | showExisting idx => exact shownOutput_inside hinv hseq
    | _ => exact ⟨by simp [output], by simp [output], by simp [output]⟩
  · have hout : e.output scratch ev = {} := by
      cases ev with
      | coded x size cols r => exact if_neg hseq
      | showExisting idx => exact if_neg hseq
      | _ => rfl
    refine ⟨?_, ?_, ?_⟩ <;> rw [hout] <;> simp

/-- A step that leaves the tables alone. -/
theorem inv_of_tables {e' : SizedEngine} (hinv : e.Inv) (hwidth : e'.frameWidth = e.frameWidth)
    (hheight : e'.frameHeight = e.frameHeight) (hhw : e'.refs.hardware = e.refs.hardware)
    (hsaved : ∀ s hdr, e'.refs.savedStates s = some hdr → e.refs.savedStates s = some hdr)
    (hmapped : ∀ s, (e'.refs.dpbToPool s).isSome = true → (e.refs.dpbToPool s).isSome = true) :
    e'.Inv where
  saved := by
    intro hhw' s hdr h
    rw [hwidth, hheight]
    exact hinv.saved (hhw ▸ hhw') s hdr (hsaved s hdr h)
  mapped := by
    intro s h
    rw [hwidth, hheight, hhw]
    exact hinv.mapped s (hmapped s h)

/-- Only a kick that succeeds gives a slot a picture; the header is saved either way. -/
theorem decode_tables (defaultCdfs : Fin 4 → Cdf) (refs : RefState) (bits : Nat) (hdr : FrameHeader)
    (r : KickResult) :
    (refs.decode defaultCdfs bits hdr r).hardware = refs.hardware ∧
      (refs.decode defaultCdfs bits hdr r).savedStates = updateSavedStates refs.savedStates hdr ∧
      ∀ s, ((refs.decode defaultCdfs bits hdr r).dpbToPool s).isSome = true →
        (refs.dpbToPool s).isSome = true ∨ refs.hardware = true ∧ r.ok = true := by
  by_cases hhw : refs.hardware = true
  · by_cases hok : r.ok = true
    · simp [RefState.decode, RefState.postDecode, RefState.hwKick, hhw, hok]
    · simp [RefState.decode, RefState.postDecode, RefState.hwKick, hhw, hok]
  · rw [RefState.decode, if_neg hhw]
    exact ⟨rfl, rfl, fun _ h => .inl h⟩

theorem inv_coded (hinv : e.Inv) (hfits : e.Fits scratch (.coded x size cols r)) :
    (e.step defaultCdfs (.coded x size cols r)).Inv := by
  cases hseq : e.refs.seqHdr with
  | none =>
    have hrefs : (e.step defaultCdfs (.coded x size cols r)).refs = e.refs := by
      simp [step, refEvent, RefState.step, hseq]
    refine inv_of_tables hinv rfl rfl ?_ ?_ ?_ <;> rw [hrefs]
    · exact fun _ _ h => h
    · exact fun _ h => h
  | some bits =>
    have hfits := hfits (by rw [hseq]; rfl)
    have hrefs : (e.step defaultCdfs (.coded x size cols r)).refs =
        e.refs.decode defaultCdfs bits (x.sized size).header
          { r with ok := r.ok && accepts e.format size } := by
      simp [step, refEvent, RefState.step, hseq]
    obtain ⟨hmode, hsaved, hmapped⟩ := decode_tables defaultCdfs e.refs bits (x.sized size).header
      { r with ok := r.ok && accepts e.format size }
    refine ⟨?_, ?_⟩ <;> rw [hrefs, hmode]
    · intro hhw s hdr h
      rw [if_pos hhw] at hfits
      rw [hsaved, updateSavedStates, refresh] at h
      split at h
      · cases h
        exact ⟨size.width_le.trans hfits.upscaledWidth, hfits.height, hfits.even⟩
      · exact hinv.saved hhw s hdr h
    · intro s h
      rcases hmapped s h with h | ⟨hhw, hok⟩
      · exact hinv.mapped s h
      · rw [if_pos hhw] at hfits
        exact ⟨hhw, hfits.engine (Bool.and_eq_true_iff.mp hok).2⟩

theorem inv_showExisting (hinv : e.Inv) : (e.step defaultCdfs (.showExisting idx)).Inv := by
  cases hseq : e.refs.seqHdr with
  | none =>
    have hrefs : (e.step defaultCdfs (.showExisting idx)).refs = e.refs := by
      simp [step, refEvent, RefState.step, hseq]
    refine inv_of_tables hinv rfl rfl ?_ ?_ ?_ <;> rw [hrefs]
    · exact fun _ _ h => h
    · exact fun _ h => h
  | some bits =>
    have hrefs : (e.step defaultCdfs (.showExisting idx)).refs = e.refs.showExisting bits idx := by
      simp [step, refEvent, RefState.step, hseq]
    refine inv_of_tables hinv rfl rfl ?_ ?_ ?_ <;> rw [hrefs]
    · unfold RefState.showExisting
      split <;> rfl
    · intro s hdr h
      rwa [(RefState.showExisting_same idx s).savedStates] at h
    · intro s h
      rwa [(RefState.showExisting_same idx s).dpbToPool] at h

theorem inv_step (hinv : e.Inv) (hfits : e.Fits scratch ev) : (e.step defaultCdfs ev).Inv := by
  cases ev with
  | coded x size cols r => exact inv_coded hinv hfits
  | showExisting idx => exact inv_showExisting hinv
  | flush =>
    refine inv_of_tables hinv rfl rfl rfl ?_ ?_
    · intro s hdr h
      cases h
    · intro s h
      cases h
  | _ => exact inv_of_tables hinv rfl rfl rfl (fun _ _ h => h) (fun _ h => h)

/-- `Av1DecodeEngine_Init`. -/
def init (hardware : Bool) (width height : Nat) : SizedEngine where
  frameWidth := width
  frameHeight := height
  refs := { hardware := hardware }

theorem inv_init (hardware : Bool) (width height : Nat) : (init hardware width height).Inv := by
  refine ⟨?_, ?_⟩
  · intro _ s hdr h
    cases h
  · intro s h
    cases h

end SizedEngine

/-- For every size of `Init` and every run: a picture has the samples of its size, the repack reads
inside the pool and the hardware is pointed inside its buffers, as long as the frames fit. -/
theorem frame_extents_inside (scratch : Scratch) (defaultCdfs : Fin 4 → Cdf) (hardware : Bool)
    (width height : Nat) (es : List SizedEvent)
    (hfits : Lib.Along (SizedEngine.step defaultCdfs) (SizedEngine.Fits scratch)
      (SizedEngine.init hardware width height) es) :
    Lib.Along (SizedEngine.step defaultCdfs) (SizedEngine.Inside scratch)
      (SizedEngine.init hardware width height) es := by
  have hstep : ∀ (e : SizedEngine) (ev : SizedEvent), e.Inv → e.Fits scratch ev →
      e.Inside scratch ev ∧ (e.step defaultCdfs ev).Inv := by
    intro e ev hinv hev
    exact ⟨SizedEngine.output_inside hinv hev, SizedEngine.inv_step hinv hev⟩
  exact Lib.Along.of_inv hstep (SizedEngine.inv_init hardware width height) hfits

/-- A key frame that is shown, in one tile. -/
def shownKey : CodedSyntax where
  frameType := .key
  showFrame := true
  errorResilientMode := false
  disableCdfUpdate := false
  refreshContext := false
  allowIntrabc := false
  primaryRefFrame := 7
  refidx := fun _ => 0
  refreshFrameFlags := 0xff
  frameOffset := 0
  width := 0
  upscaledWidth := 0
  height := 0
  yac := 0

def smallScratch : Scratch := ⟨fun _ _ => 4096, fun _ _ => 4096⟩

/-- A key frame of 128 by 128 in an engine for 64 by 64 comes with the samples of 64 by 64. -/
theorem larger_frame_cropped :
    ¬ Lib.Along (SizedEngine.step fun _ => []) (SizedEngine.Inside smallScratch)
    (SizedEngine.init true 64 64)
    [.sequenceHeader 7 ⟨0, false⟩, .coded shownKey ⟨128, 128, none⟩ 1 ⟨true, []⟩] := by
  intro h
  have hsamples := h.2.1.samples ⟨128, 128, 6144⟩ (by decide)
  revert hsamples
  decide

/-- A key frame of the size of `Init` is shown, a hidden frame of half its width is upscaled to it,
and the key frame is shown again. -/
theorem frame_extents_inside_key :
    Lib.Along (SizedEngine.step fun _ => []) (SizedEngine.Inside smallScratch)
    (SizedEngine.init true 64 64)
    [.sequenceHeader 7 ⟨0, false⟩, .coded shownKey ⟨64, 64, none⟩ 1 ⟨true, []⟩,
      .coded { shownKey with showFrame := false, refreshFrameFlags := 1 } ⟨64, 64, some 7⟩
        1 ⟨true, []⟩,
      .showExisting 1] := by
  refine frame_extents_inside smallScratch (fun _ => []) true 64 64
    _ ⟨trivial, ?_, ?_, trivial, trivial⟩
  · intro _
    exact ⟨by decide, by decide, by decide, by decide, by decide, by decide, by decide⟩
  · intro _
    exact ⟨by decide, by decide, by decide, by decide, by decide, by decide, by decide⟩

end Rkvdec.Av1
