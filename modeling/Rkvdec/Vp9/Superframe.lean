import Mathlib.Tactic
import Rkvdec.Bitstream.BitReader

/-! Superframes: several frames in one buffer, with an index of their sizes behind them. -/
namespace Rkvdec.Vp9

open Bitstream

/-- A window of the buffer: `frames[i]` as an offset, and `sizes[i]`. -/
structure Window where
  off : Nat
  size : Nat
deriving DecidableEq

/-- A size of `n` bytes, the low byte first. -/
def readSize : Nat → List Byte → Nat
  | 0, _ => 0
  | n + 1, p => (p.getD 0 0).toNat + 256 * readSize n (p.drop 1)

/-- The loop over the sizes in the index: whether it comes to its end, and the windows it writes. -/
def splitLoop (bytesPerSz : Nat) : Nat → List Byte → Nat → Nat → Bool × List Window
  | 0, _, _, _ => (true, [])
  | frames + 1, p, data, remain =>
    let sz := readSize bytesPerSz p
    if sz = 0 then (false, [])
    else if remain < sz then (false, [])
    else
      let later := splitLoop bytesPerSz frames (p.drop bytesPerSz) (data + sz) (remain - sz)
      (later.1, ⟨data, sz⟩ :: later.2)

def bytesPerSize (last : Byte) : Nat := last.toNat / 8 % 4 + 1
def numFrames (last : Byte) : Nat := last.toNat % 8 + 1

/-- `index_sz` -/
def indexSize (last : Byte) : Nat := 2 + numFrames last * bytesPerSize last

/-- The test for the marker in the last byte of a buffer. -/
def isMarker (last : Byte) : Bool := last.toNat / 2 ^ 5 = 6

/-- `Vp9Parser_SuperframeSplit`: what it returns and the windows it writes. -/
def superframeSplit (buf : List Byte) (maxFrames : Int) : Int × List Window :=
  if buf = [] ∨ maxFrames < 1 then (-1, [])
  else
    let last := buf.getLastD 0
    if isMarker last = false then (1, [⟨0, buf.length⟩])
    else if maxFrames < numFrames last then (-1, [])
    else if buf.length < indexSize last then (-1, [])
    else
      let indexStart := buf.drop (buf.length - indexSize last)
      if indexStart.getD 0 0 ≠ last then (-1, [])
      else if indexStart.getD (indexSize last - 1) 0 ≠ last then (-1, [])
      else
        let windows := splitLoop (bytesPerSize last) (numFrames last) (indexStart.drop 1) 0
          (buf.length - indexSize last)
        (if windows.1 then numFrames last else -1, windows.2)

section Windows

variable {bytesPerSz frames data remain : Nat} {p : List Byte}

/-- The windows follow each other from `data` on and stay in what remains. -/
theorem splitLoop_windows :
    let windows := splitLoop bytesPerSz frames p data remain
    windows.2.length ≤ frames ∧ (windows.1 = true → windows.2.length = frames) ∧
      (∀ w ∈ windows.2, 0 < w.size ∧ data ≤ w.off ∧ w.off + w.size ≤ data + remain) ∧
      windows.2.Pairwise fun w later => w.off + w.size ≤ later.off := by
  induction frames generalizing p data remain with
  | zero => simp [splitLoop]
  | succ frames ih =>
    simp only [splitLoop]
    split_ifs with hzero hroom
    · simp
    · simp
    · obtain ⟨hcount, hall, hinside, hordered⟩ := @ih (data + readSize bytesPerSz p)
        (remain - readSize bytesPerSz p) (p.drop bytesPerSz)
      refine ⟨Nat.succ_le_succ hcount, ?_, ?_, ?_⟩
      · intro hdone
        rw [List.length_cons, hall hdone]
      · intro w hw
        rcases List.mem_cons.mp hw with rfl | hw
        · dsimp only
          omega
        · obtain ⟨hsize, hoff, hend⟩ := hinside w hw
          omega
      · refine List.pairwise_cons.mpr ⟨?_, hordered⟩
        intro later hlater
        exact (hinside later hlater).2.1

/-- Where the frames of a buffer end: at the index, if there is one. -/
def framesEnd (buf : List Byte) : Nat :=
  if isMarker (buf.getLastD 0) then buf.length - indexSize (buf.getLastD 0) else buf.length

/-- What is said of the windows, whatever the buffer. -/
structure WindowsSafe (buf : List Byte) (maxFrames : Int) (ret : Int)
    (windows : List Window) : Prop where
  returns : ret = -1 ∨ ret = windows.length
  few : (windows.length : Int) ≤ max maxFrames 0
  inside : ∀ w ∈ windows, w.off + w.size ≤ framesEnd buf
  nonempty : ∀ w ∈ windows, 0 < w.size
  ordered : windows.Pairwise fun w later => w.off + w.size ≤ later.off

theorem windowsSafe_nil (buf : List Byte) (maxFrames : Int) :
    WindowsSafe buf maxFrames (-1) [] where
  returns := .inl rfl
  few := le_max_right _ _
  inside := by simp
  nonempty := by simp
  ordered := .nil

/-- The windows that are read off an index. -/
theorem windowsSafe_index {buf index : List Byte} {maxFrames ret : Int}
    (hmarker : isMarker (buf.getLastD 0)) (hmax : (numFrames (buf.getLastD 0) : Int) ≤ maxFrames)
    (hret : ret = -1 ∨
    ret = (splitLoop (bytesPerSize (buf.getLastD 0)) (numFrames (buf.getLastD 0)) index 0
      (buf.length - indexSize (buf.getLastD 0))).2.length) :
    WindowsSafe buf maxFrames ret
      (splitLoop (bytesPerSize (buf.getLastD 0)) (numFrames (buf.getLastD 0))
      index 0 (buf.length - indexSize (buf.getLastD 0))).2 := by
  obtain ⟨hcount, hall, hinside, hordered⟩ := @splitLoop_windows (bytesPerSize (buf.getLastD 0))
    (numFrames (buf.getLastD 0)) 0 (buf.length - indexSize (buf.getLastD 0)) index
  refine ⟨hret, ?_, ?_, ?_, hordered⟩
  · omega
  · intro w hw
    have := (hinside w hw).2.2
    rw [framesEnd, if_pos hmarker]
    omega
  · intro w hw
    exact (hinside w hw).1

theorem windowsSafe_split (buf : List Byte) (maxFrames : Int) :
    WindowsSafe buf maxFrames (superframeSplit buf maxFrames).1
      (superframeSplit buf maxFrames).2 := by
  unfold superframeSplit
  by_cases hnone : buf = [] ∨ maxFrames < 1
  · rw [if_pos hnone]
    exact windowsSafe_nil buf maxFrames
  rw [if_neg hnone]
  dsimp only
  by_cases hmarker : isMarker (buf.getLastD 0) = false
  · have hlen : 0 < buf.length := List.length_pos_iff.mpr fun h => hnone (.inl h)
    have hend : framesEnd buf = buf.length := by
      rw [framesEnd, hmarker, if_neg Bool.false_ne_true]
    rw [if_pos hmarker]
    refine ⟨.inr rfl, ?_, ?_, ?_, List.pairwise_singleton _ _⟩
    · rw [List.length_singleton]
      omega
    · intro w hw
      obtain rfl := List.mem_singleton.mp hw
      rw [hend, Nat.zero_add]
    · intro w hw
      obtain rfl := List.mem_singleton.mp hw
      exact hlen
  · rw [if_neg hmarker]
    have hindexed := Bool.eq_true_of_not_eq_false hmarker
    split_ifs with hmax hindex hfirst hlast hdone
    · exact windowsSafe_nil buf maxFrames
    · exact windowsSafe_nil buf maxFrames
    · exact windowsSafe_nil buf maxFrames
    · exact windowsSafe_nil buf maxFrames
    · refine windowsSafe_index hindexed (Int.not_lt.mp hmax) (.inr ?_)
      rw [splitLoop_windows.2.1 hdone]
    · exact windowsSafe_index hindexed (Int.not_lt.mp hmax) (.inl rfl)

end Windows

section Round

variable {w n : Nat} {frame : List Byte} {frames : List (List Byte)} {rest : List Byte}

/-- A size as `n` bytes, the low byte first. -/
def sizeField : Nat → Nat → List Byte
  | 0, _ => []
  | n + 1, size => BitVec.ofNat 8 (size % 256) :: sizeField n (size / 256)

/-- The marker of an index with sizes of `w` bytes. -/
def marker (w n : Nat) : Byte := BitVec.ofNat 8 (6 * 2 ^ 5 + (w - 1) * 8 + (n - 1))

/-- The index of some frames: their sizes between two markers. -/
def superframeIndex (w : Nat) (frames : List (List Byte)) : List Byte :=
  marker w frames.length :: frames.flatMap (fun frame => sizeField w frame.length) ++
    [marker w frames.length]

/-- The frames and their index. -/
def superframe (w : Nat) (frames : List (List Byte)) : List Byte :=
  frames.flatten ++ superframeIndex w frames

/-- Where frames are that follow each other from an offset on. -/
def windowsFrom : Nat → List (List Byte) → List Window
  | _, [] => []
  | off, frame :: frames => ⟨off, frame.length⟩ :: windowsFrom (off + frame.length) frames

/-- Frames that an index with sizes of `w` bytes can describe. -/
structure Indexable (w : Nat) (frames : List (List Byte)) : Prop where
  width : 1 ≤ w ∧ w ≤ 4
  count : 1 ≤ frames.length ∧ frames.length ≤ 8
  nonempty : ∀ frame ∈ frames, frame ≠ []
  sizes : ∀ frame ∈ frames, frame.length < 256 ^ w

@[simp] theorem length_sizeField (n size : Nat) : (sizeField n size).length = n := by
  induction n generalizing size with
  | zero => rfl
  | succ n ih => rw [sizeField, List.length_cons, ih]

/-- A size is read back, whatever comes behind it. -/
theorem readSize_sizeField {size : Nat} (hsize : size < 256 ^ n) (rest : List Byte) :
    readSize n (sizeField n size ++ rest) = size := by
  induction n generalizing size with
  | zero =>
    rw [Nat.pow_zero] at hsize
    exact (Nat.lt_one_iff.mp hsize).symm
  | succ n ih =>
    have hdiv : size / 256 < 256 ^ n := by
      rw [Nat.pow_succ] at hsize
      exact Nat.div_lt_of_lt_mul (by rwa [Nat.mul_comm] at hsize)
    simp only [sizeField, readSize, List.cons_append, List.getD_cons_zero, List.drop_succ_cons,
      List.drop_zero, ih hdiv, BitVec.toNat_ofNat]
    omega

/-- The loop finds the frames whose sizes it reads. -/
theorem splitLoop_frames (hnonempty : ∀ frame ∈ frames, frame ≠ [])
    (hsizes : ∀ frame ∈ frames, frame.length < 256 ^ w) (data : Nat) :
    splitLoop w frames.length (frames.flatMap (fun frame => sizeField w frame.length) ++ rest) data
      frames.flatten.length = (true, windowsFrom data frames) := by
  induction frames generalizing data with
  | nil => rfl
  | cons frame frames ih =>
    have hpos : frame.length ≠ 0 := by
      intro hzero
      exact hnonempty frame List.mem_cons_self (List.length_eq_zero_iff.mp hzero)
    have hlater := ih (fun f hf => hnonempty f (List.mem_cons_of_mem _ hf))
      (fun f hf => hsizes f (List.mem_cons_of_mem _ hf)) (data + frame.length)
    rw [List.flatMap_cons, List.append_assoc, List.length_cons, splitLoop,
      readSize_sizeField (hsizes frame List.mem_cons_self), List.flatten_cons, List.length_append]
    have hroom : ¬frame.length + frames.flatten.length < frame.length := by omega
    dsimp only
    rw [if_neg hpos, if_neg hroom, List.drop_left' (length_sizeField _ _), Nat.add_sub_cancel_left,
      hlater]
    rfl

theorem marker_toNat (hw : 1 ≤ w ∧ w ≤ 4) (hn : 1 ≤ n ∧ n ≤ 8) :
    (marker w n).toNat = 6 * 2 ^ 5 + (w - 1) * 8 + (n - 1) := by
  rw [marker, BitVec.toNat_ofNat]
  omega

theorem length_index (w : Nat) (frames : List (List Byte)) :
    (superframeIndex w frames).length = 2 + frames.length * w := by
  have hsizes : (frames.flatMap fun frame => sizeField w frame.length).length =
      frames.length * w := by
    induction frames with
    | nil => simp
    | cons frame frames ih =>
      rw [List.flatMap_cons, List.length_append, length_sizeField, ih, List.length_cons,
        Nat.add_one_mul]
      omega
  rw [superframeIndex, List.length_append, List.length_cons, hsizes, List.length_singleton]
  omega

/-- The windows hold the frames. -/
theorem cut_windowsFrom (frames : List (List Byte)) (before rest : List Byte) :
    (windowsFrom before.length frames).map
      (fun w => ((before ++ (frames.flatten ++ rest)).drop w.off).take w.size) = frames := by
  induction frames generalizing before with
  | nil => rfl
  | cons frame frames ih =>
    have hlater := ih (before ++ frame)
    rw [List.length_append] at hlater
    simp only [windowsFrom, List.map_cons, List.flatten_cons]
    rw [List.drop_left, List.append_assoc, List.take_left]
    simp only [List.append_assoc] at hlater
    rw [hlater]

/-- The index is found by its last byte. -/
theorem superframeSplit_superframe {maxFrames : Int} (h : Indexable w frames)
    (hmax : (frames.length : Int) ≤ maxFrames) :
    superframeSplit (superframe w frames) maxFrames =
    ((frames.length : Int), windowsFrom 0 frames) := by
  obtain ⟨⟨hw₁, hw₄⟩, ⟨hn₁, hn₈⟩, hnonempty, hsizes⟩ := h
  have hvalue := marker_toNat ⟨hw₁, hw₄⟩ ⟨hn₁, hn₈⟩
  have hend : (superframeIndex w frames).getLast? = some (marker w frames.length) :=
    List.getLast?_concat
  have hlast : (superframe w frames).getLastD 0 = marker w frames.length := by
    rw [List.getLastD_eq_getLast?, superframe, List.getLast?_append, hend]
    rfl
  have hmarker : isMarker (marker w frames.length) = true := by
    rw [isMarker, hvalue]
    exact decide_eq_true (by omega)
  have hbytes : bytesPerSize (marker w frames.length) = w := by
    rw [bytesPerSize, hvalue]
    omega
  have hframes : numFrames (marker w frames.length) = frames.length := by
    rw [numFrames, hvalue]
    omega
  have hindex : indexSize (marker w frames.length) = (superframeIndex w frames).length := by
    rw [indexSize, hbytes, hframes, length_index]
  have hlen : (superframe w frames).length =
      frames.flatten.length + (superframeIndex w frames).length := by
    rw [superframe, List.length_append]
  have hstart : (superframe w frames).drop ((superframe w frames).length -
      (superframeIndex w frames).length) = superframeIndex w frames := by
    rw [hlen, Nat.add_sub_cancel, superframe, List.drop_left]
  have hsome : ¬(superframe w frames = [] ∨ maxFrames < 1) := by
    rintro (hnil | hfew)
    · rw [hnil, List.length_nil, length_index] at hlen
      omega
    · omega
  have hfront : (superframeIndex w frames).getD 0 0 = marker w frames.length := rfl
  have hback : (superframeIndex w frames).getD ((superframeIndex w frames).length - 1) 0 =
      marker w frames.length := by
    rw [List.getD_eq_getElem?_getD, ← List.getLast?_eq_getElem?, hend]
    rfl
  have hbody : (superframeIndex w frames).drop 1 =
      frames.flatMap (fun frame => sizeField w frame.length) ++ [marker w frames.length] := rfl
  have hmax' : ¬maxFrames < frames.length := by omega
  have hroom : ¬(superframe w frames).length < (superframeIndex w frames).length := by omega
  have hremain : (superframe w frames).length - (superframeIndex w frames).length =
      frames.flatten.length := by omega
  unfold superframeSplit
  rw [if_neg hsome]
  dsimp only
  rw [hlast, hmarker, if_neg Bool.noConfusion, hframes, if_neg hmax', hindex, if_neg hroom, hstart,
    hfront, if_neg (not_not.mpr rfl), hback, if_neg (not_not.mpr rfl), hbytes, hbody, hremain,
    splitLoop_frames hnonempty hsizes]
  rfl

end Round

/-- Frames that go through a superframe come out as they were; and whatever the buffer, the windows
lie before the index, one behind the other, and are no more than there is room for. -/
theorem superframe_split :
    (∀ (w : Nat) (frames : List (List Byte)) (maxFrames : Int), Indexable w frames →
      (frames.length : Int) ≤ maxFrames →
      superframeSplit (superframe w frames) maxFrames =
      ((frames.length : Int), windowsFrom 0 frames) ∧
        (windowsFrom 0 frames).map
          (fun window => ((superframe w frames).drop window.off).take window.size) =
          frames) ∧
    ∀ (buf : List Byte) (maxFrames : Int),
      WindowsSafe buf maxFrames (superframeSplit buf maxFrames).1
        (superframeSplit buf maxFrames).2 := by
  refine ⟨?_, windowsSafe_split⟩
  intro w frames maxFrames h hmax
  exact ⟨superframeSplit_superframe h hmax, cut_windowsFrom frames [] (superframeIndex w frames)⟩

theorem two_frames_split :
    superframeSplit (superframe 1 [[0x82], [0x86, 0x40]]) 8 = (2, [⟨0, 1⟩, ⟨1, 2⟩]) :=
  (superframe_split.1 1 [[0x82], [0x86, 0x40]] 8
    ⟨by decide, by decide, by decide, by decide⟩ (by decide)).1

end Rkvdec.Vp9
