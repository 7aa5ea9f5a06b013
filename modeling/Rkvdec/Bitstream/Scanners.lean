import Mathlib.Data.List.Nodup
import Rkvdec.Bitstream.Framing

/-! The other two scanners of the repository: the slice locator of `au_iter.cpp` and `au_has_irap`
of the engine. What each of them and the loop of the parsers sees, in terms of one list of
headers. -/
namespace Rkvdec.Bitstream

variable {buf au l : List Byte} {i n header scratchSize : Nat}

section Model

/-- The test for a start code of three bytes, at an offset. -/
def isSc3 (au : List Byte) (i : Nat) : Bool :=
  au.getD i 0 = 0 ∧ au.getD (i + 1) 0 = 0 ∧ au.getD (i + 2) 0 = 1

def isSc4 (au : List Byte) (i : Nat) : Bool :=
  au.getD i 0 = 0 ∧ au.getD (i + 1) 0 = 0 ∧ au.getD (i + 2) 0 = 0 ∧ au.getD (i + 3) 0 = 1

/-- The loop of `find_slice_nal_common`, which a turn takes at least one byte further. -/
def findSliceLoop (isSlice : Byte → Bool) (au : List Byte) : Nat → Nat → Option (Nat × Nat)
  | 0, _ => none
  | turns + 1, i =>
    if i + 4 < au.length then
      if isSc3 au i = false ∧ isSc4 au i = false then findSliceLoop isSlice au turns (i + 1)
      else
        let hdrOff := i + if isSc3 au i then 3 else 4
        if au.length ≤ hdrOff then none
        else if isSlice (au.getD hdrOff 0) then some (i, au.length - i)
        else findSliceLoop isSlice au turns (hdrOff + 1)
    else none

/-- `find_slice_nal_common`: the offset of the start code and the size from there on. -/
def findSliceNalCommon (au : List Byte) (isSlice : Byte → Bool) : Option (Nat × Nat) :=
  findSliceLoop isSlice au au.length 0

def h264NalIsSlice (hdr0 : Byte) : Bool := hdr0.toNat % 2 ^ 5 = 1 ∨ hdr0.toNat % 2 ^ 5 = 5

def h265NalIsSlice (hdr0 : Byte) : Bool := hdr0.toNat / 2 % 2 ^ 6 < 32

def h264FindSliceNal (au : List Byte) : Option (Nat × Nat) := findSliceNalCommon au h264NalIsSlice
def h265FindSliceNal (au : List Byte) : Option (Nat × Nat) := findSliceNalCommon au h265NalIsSlice

/-- How the engine tells the two start codes apart: where the header behind the one at `off` is. -/
def sliceHeaderOff (au : List Byte) (off : Nat) : Nat :=
  off + if au.getD (off + 2) 0 = 1 then 3 else 4

inductive Codec where
  | h264
  | h265

/-- The types `au_has_irap` looks for. -/
def irapHeader : Codec → Byte → Bool
  | .h264, hdr => hdr.toNat % 2 ^ 5 = 5
  | .h265, hdr => 16 ≤ hdr.toNat / 2 % 2 ^ 6 ∧ hdr.toNat / 2 % 2 ^ 6 ≤ 23

/-- The loop of `au_has_irap`. -/
def irapLoop (codec : Codec) (au : List Byte) : Nat → Nat → Bool
  | 0, _ => false
  | turns + 1, i =>
    if i + 3 < au.length then
      let sc3 := isSc3 au i
      let sc4 := !sc3 && (decide (i + 4 < au.length) && isSc4 au i)
      if sc3 = false ∧ sc4 = false then irapLoop codec au turns (i + 1)
      else
        let hdr := i + if sc3 then 3 else 4
        if au.length ≤ hdr then false
        else if irapHeader codec (au.getD hdr 0) then true
        else irapLoop codec au turns (hdr + 1)
    else false

def auHasIrap (codec : Codec) (au : List Byte) : Bool :=
  if au.length < 4 then false else irapLoop codec au au.length 0

end Model

section Headers

/-- The start codes from offset `i` on that have a byte behind them, each with the offset of that
byte. The search for the next one goes on after the byte; `skip` bytes are passed over first. -/
def headersFrom : Nat → Nat → List Byte → List (Nat × Nat)
  | _, _, [] => []
  | skip + 1, i, _ :: rest => headersFrom skip (i + 1) rest
  | 0, i, b :: rest =>
    match startCodeLen (b :: rest) with
    | none => headersFrom 0 (i + 1) rest
    | some n => if n ≤ rest.length then (i, i + n) :: headersFrom n (i + 1) rest else []

def headers (buf : List Byte) : List (Nat × Nat) := headersFrom 0 0 buf

theorem startCodeLen_eq (h : startCodeLen l = some n) : n = 3 ∨ n = 4 := by
  rcases l with _ | ⟨b₀, _ | ⟨b₁, _ | ⟨b₂, rest⟩⟩⟩
  · simp [startCodeLen] at h
  · simp [startCodeLen] at h
  · simp [startCodeLen] at h
  · simp only [startCodeLen] at h
    split_ifs at h
    · exact Or.inl (by simpa using h.symm)
    · exact Or.inr (by simpa using h.symm)

theorem headersFrom_skip (skip i : Nat) (l : List Byte) :
    headersFrom skip i l = headersFrom 0 (i + skip) (l.drop skip) := by
  induction skip generalizing i l with
  | zero => rfl
  | succ skip ih =>
    cases l with
    | nil => simp [headersFrom]
    | cons b rest =>
      rw [headersFrom, ih, List.drop_succ_cons, Nat.add_assoc, Nat.add_comm 1 skip]

theorem headersFrom_none (h : startCodeLen (buf.drop i) = none) :
    headersFrom 0 i (buf.drop i) = headersFrom 0 (i + 1) (buf.drop (i + 1)) := by
  rw [← List.drop_drop]
  cases hl : buf.drop i with
  | nil => rfl
  | cons b rest =>
    rw [hl] at h
    simp [headersFrom, h]

theorem headersFrom_some (h : startCodeLen (buf.drop i) = some n) :
    headersFrom 0 i (buf.drop i) =
      if i + n < buf.length then (i, i + n) :: headersFrom 0 (i + n + 1) (buf.drop (i + n + 1))
      else [] := by
  have hlen : (buf.drop i).length = buf.length - i := List.length_drop
  cases hl : buf.drop i with
  | nil => simp [hl, startCodeLen] at h
  | cons b rest =>
    rw [hl] at h hlen
    simp only [List.length_cons] at hlen
    have hrest : rest = buf.drop (i + 1) := by
      rw [← List.drop_drop, hl, List.drop_succ_cons, List.drop_zero]
    simp only [headersFrom, h]
    by_cases hn : n ≤ rest.length
    · have hoff : i + 1 + n = i + n + 1 := by omega
      rw [if_pos hn, if_pos (by omega), headersFrom_skip, hrest, List.drop_drop, hoff]
    · rw [if_neg hn, if_neg (by omega)]

theorem le_of_mem_headersFrom {c : Nat × Nat} {skip : Nat} (h : c ∈ headersFrom skip i l) :
    i ≤ c.1 := by
  induction l generalizing skip i with
  | nil => simp [headersFrom] at h
  | cons b rest ih =>
    cases skip with
    | succ skip =>
      have hle : i + 1 ≤ c.1 := ih h
      omega
    | zero =>
      simp only [headersFrom] at h
      split at h
      · have := ih h
        omega
      · split_ifs at h
        · rcases List.mem_cons.mp h with rfl | h
          · exact le_rfl
          · have := ih h
            omega
        · simp at h

/-- Behind the last three bytes there is no header. -/
theorem headersFrom_short (h : buf.length ≤ i + 3) : headersFrom 0 i (buf.drop i) = [] := by
  have hlen : (buf.drop i).length ≤ 3 := by
    rw [List.length_drop]
    omega
  generalize buf.drop i = l at hlen
  rcases l with _ | ⟨a, _ | ⟨b, _ | ⟨c, rest⟩⟩⟩
  · rfl
  · rfl
  · rfl
  · obtain rfl : rest = [] := by
      simp only [List.length_cons] at hlen
      exact List.length_eq_zero_iff.mp (by omega)
    simp only [headersFrom, startCodeLen, List.head?_nil, reduceCtorEq, and_false, if_false]
    split_ifs <;> simp

/-- A header lies behind the start code before it, inside the buffer. -/
theorem mem_headersFrom {c : Nat × Nat} (h : c ∈ headersFrom 0 i (buf.drop i)) :
    ∃ n, startCodeLen (buf.drop c.1) = some n ∧ c.2 = c.1 + n ∧ c.2 < buf.length := by
  generalize hd : buf.length - i = d
  induction d using Nat.strong_induction_on generalizing i with
  | _ d ih =>
    by_cases hi : i < buf.length
    · cases hcode : startCodeLen (buf.drop i) with
      | none =>
        rw [headersFrom_none hcode] at h
        exact ih (buf.length - (i + 1)) (by omega) h rfl
      | some n =>
        rw [headersFrom_some hcode] at h
        split_ifs at h with hlt
        · rcases List.mem_cons.mp h with rfl | h
          · exact ⟨n, hcode, rfl, hlt⟩
          · exact ih (buf.length - (i + n + 1)) (by omega) h rfl
        · simp at h
    · rw [headersFrom_short (by omega)] at h
      simp at h

/-- A start code comes after the header before it. -/
theorem headersFrom_sorted (buf : List Byte) (i : Nat) :
    (headersFrom 0 i (buf.drop i)).Pairwise fun c d => c.2 < d.1 := by
  generalize hd : buf.length - i = d
  induction d using Nat.strong_induction_on generalizing i with
  | _ d ih =>
    by_cases hi : i < buf.length
    · cases hcode : startCodeLen (buf.drop i) with
      | none =>
        rw [headersFrom_none hcode]
        exact ih (buf.length - (i + 1)) (by omega) (i + 1) rfl
      | some n =>
        rw [headersFrom_some hcode]
        split_ifs with hlt
        · refine List.pairwise_cons.mpr ⟨fun d hd => ?_,
            ih (buf.length - (i + n + 1)) (by omega) (i + n + 1) rfl⟩
          exact le_of_mem_headersFrom hd
        · exact List.Pairwise.nil
    · rw [headersFrom_short (by omega)]
      exact List.Pairwise.nil

end Headers

section Locator

theorem drop_four (h : i + 3 < au.length) : au.drop i =
    au.getD i 0 :: au.getD (i + 1) 0 :: au.getD (i + 2) 0 :: au.getD (i + 3) 0 ::
      au.drop (i + 4) := by
  have hget : ∀ k, k < au.length → au.drop k = au.getD k 0 :: au.drop (k + 1) := by
    intro k hk
    rw [List.drop_eq_getElem_cons hk]
    simp [List.getD, hk]
  rw [hget i (by omega), hget (i + 1) (by omega), hget (i + 2) (by omega), hget (i + 3) (by omega)]

/-- The tests of the scanners, which look at the bytes by offset, are those of the parsers. -/
theorem startCodeLen_drop (h : i + 3 < au.length) : startCodeLen (au.drop i) =
    if isSc3 au i = false ∧ isSc4 au i = false then none
    else some (if isSc3 au i then 3 else 4) := by
  rw [drop_four h]
  simp only [startCodeLen, List.head?_cons, Option.some.injEq]
  by_cases h3 : isSc3 au i = true
  · rw [if_pos (of_decide_eq_true h3)]
    simp [h3]
  · rw [if_neg fun hp => h3 (decide_eq_true hp)]
    by_cases h4 : isSc4 au i = true
    · rw [if_pos (of_decide_eq_true h4)]
      simp [h3, h4]
    · rw [if_neg fun hp => h4 (decide_eq_true hp)]
      simp [h3, h4]

/-- The slice locator stops at the first header of a slice, unless its start code is among the last
four bytes. -/
theorem findSliceLoop_eq (isSlice : Byte → Bool) (au : List Byte) (turns : Nat)
    (h : au.length - i ≤ turns) :
    findSliceLoop isSlice au turns i =
      ((headersFrom 0 i (au.drop i)).find? fun c =>
        decide (c.1 + 4 < au.length) && isSlice (au.getD c.2 0)).map
          fun c => (c.1, au.length - c.1) := by
  induction turns generalizing i with
  | zero =>
    rw [headersFrom_short (by omega)]
    rfl
  | succ turns ih =>
    by_cases hi : i + 4 < au.length
    · have hcode := startCodeLen_drop (by omega : i + 3 < au.length)
      simp only [findSliceLoop, if_pos hi]
      by_cases hsc : isSc3 au i = false ∧ isSc4 au i = false
      · rw [if_pos hsc] at hcode ⊢
        rw [headersFrom_none hcode]
        exact ih (by omega)
      · rw [if_neg hsc] at hcode ⊢
        have hhdr : i + (if isSc3 au i then 3 else 4) < au.length := by split_ifs <;> omega
        rw [headersFrom_some hcode, if_pos hhdr, if_neg (by omega), List.find?_cons]
        cases hs : isSlice (au.getD (i + if isSc3 au i then 3 else 4) 0) with
        | true => simp [hi]
        | false =>
          simp only [Bool.and_false, Bool.false_eq_true, if_false]
          exact ih (by omega)
    · have hnone : ((headersFrom 0 i (au.drop i)).find? fun c =>
          decide (c.1 + 4 < au.length) && isSlice (au.getD c.2 0)) = none := by
        refine List.find?_eq_none.mpr fun c hc => ?_
        have hle := le_of_mem_headersFrom hc
        have hlt : ¬ c.1 + 4 < au.length := by omega
        simp [hlt]
      rw [hnone, findSliceLoop, if_neg hi]
      rfl

/-- `au_has_irap` looks at every header. -/
theorem irapLoop_eq (codec : Codec) (au : List Byte) (turns : Nat) (h : au.length - i ≤ turns) :
    irapLoop codec au turns i =
      (headersFrom 0 i (au.drop i)).any fun c => irapHeader codec (au.getD c.2 0) := by
  induction turns generalizing i with
  | zero =>
    rw [headersFrom_short (by omega)]
    rfl
  | succ turns ih =>
    by_cases hi : i + 3 < au.length
    · have hcode := startCodeLen_drop hi
      simp only [irapLoop, if_pos hi]
      by_cases hsc : isSc3 au i = false ∧ isSc4 au i = false
      · rw [if_pos hsc] at hcode
        rw [headersFrom_none hcode, if_pos ⟨hsc.1, by simp [hsc]⟩]
        exact ih (by omega)
      · rw [if_neg hsc] at hcode
        by_cases hhdr : i + (if isSc3 au i then 3 else 4) < au.length
        · have hseen : ¬ (isSc3 au i = false ∧
              (!isSc3 au i && (decide (i + 4 < au.length) && isSc4 au i)) = false) := by
            rintro ⟨h3, h4⟩
            simp only [h3, Bool.false_eq_true, if_false] at hhdr
            exact hsc ⟨h3, by simpa [h3, hhdr] using h4⟩
          rw [headersFrom_some hcode, if_pos hhdr, if_neg hseen, if_neg (by omega), List.any_cons,
            ih (by omega)]
          cases irapHeader codec (au.getD (i + if isSc3 au i then 3 else 4) 0) <;> rfl
        · -- a start code of four bytes at the very end
          have h3 : isSc3 au i = false := by
            cases h3 : isSc3 au i with
            | false => rfl
            | true =>
              simp only [h3, if_true] at hhdr
              omega
          have hunseen : (!isSc3 au i && (decide (i + 4 < au.length) && isSc4 au i)) = false := by
            simp only [h3, Bool.false_eq_true, if_false] at hhdr
            simp [hhdr]
          rw [if_pos ⟨h3, hunseen⟩, headersFrom_some hcode, if_neg hhdr, ih (by omega),
            headersFrom_short (by simp only [h3, Bool.false_eq_true, if_false] at hhdr; omega)]
    · rw [headersFrom_short (by omega), irapLoop, if_neg hi]
      rfl

end Locator

section Visited

/-- A unit without a byte: the next start code comes at once. -/
def EmptyAt (buf : List Byte) (h : Nat) : Prop := (startCodeLen (buf.drop h)).isSome

/-- A unit of one byte. -/
def ShortAt (buf : List Byte) (h : Nat) : Prop :=
  ¬ EmptyAt buf h ∧ (buf.length = h + 1 ∨ EmptyAt buf (h + 1))

instance (buf : List Byte) (h : Nat) : Decidable (EmptyAt buf h) :=
  inferInstanceAs (Decidable (_ = true))

instance (buf : List Byte) (h : Nat) : Decidable (ShortAt buf h) :=
  inferInstanceAs (Decidable (_ ∧ _))

/-- The headers the loop of a parser comes to. The unit behind an empty one is the rest of the
buffer, and a unit of one byte is rejected where the header has two. -/
def visited (header : Nat) (buf : List Byte) : List (Nat × Nat) → List (Nat × Nat)
  | [] => []
  | c :: rest =>
    if header = 2 ∧ ShortAt buf c.2 then []
    else c :: if EmptyAt buf c.2 then [] else visited header buf rest

variable {pos scratchOff turns cap : Nat} {src out : List Byte} {b : Byte}

/-- Without escapes in the way the scratch buffer holds what is read. -/
theorem ebspLoop_length (src : List Byte) (zeros : Nat) (out : List Byte)
    (hcap : out.length + src.length ≤ cap) :
    ∃ rest, ebspLoop cap src zeros out = some (out ++ rest) ∧ rest.length ≤ src.length := by
  induction src generalizing zeros out with
  | nil => exact ⟨[], by simp [ebspLoop], le_rfl⟩
  | cons b src ih =>
    simp only [List.length_cons] at hcap ⊢
    by_cases hb : 2 ≤ zeros ∧ b = 3
    · obtain ⟨rest, hrest, hlen⟩ := ih 0 out (by omega)
      exact ⟨rest, by rw [ebspLoop, if_pos hb, hrest], by omega⟩
    · obtain ⟨rest, hrest, hlen⟩ := ih (if b = 0 then zeros + 1 else 0) (out ++ [b])
        (by simp only [List.length_append, List.length_singleton]; omega)
      refine ⟨b :: rest, ?_, by simp only [List.length_cons]; omega⟩
      rw [ebspLoop, if_neg hb, if_neg (by omega), hrest, List.append_assoc, List.singleton_append]

/-- The first two bytes of a unit are never escapes. -/
theorem ebspToRbsp_cons (hcap : (b :: src).length ≤ cap) :
    ∃ rest, ebspToRbsp (b :: src) cap = b :: rest ∧ rest.length ≤ src.length ∧
      (rest = [] ↔ src = []) := by
  have hb : ¬ (2 ≤ 0 ∧ b = 3) := by omega
  simp only [List.length_cons] at hcap
  have hroom : ¬ cap ≤ ([] : List Byte).length := by simp only [List.length_nil]; omega
  simp only [ebspToRbsp, ebspLoop, if_neg hb, if_neg hroom, List.nil_append]
  cases src with
  | nil => exact ⟨[], by simp [ebspLoop], le_rfl, by simp⟩
  | cons c src =>
    have hc : ¬ (2 ≤ (if b = 0 then 0 + 1 else 0) ∧ c = 3) := by split_ifs <;> omega
    simp only [List.length_cons] at hcap
    have hroom : ¬ cap ≤ [b].length := by simp only [List.length_singleton]; omega
    have hleft : ([b] ++ [c]).length + src.length ≤ cap := by
      simp only [List.length_append, List.length_singleton]
      omega
    obtain ⟨rest, hrest, hlen⟩ := ebspLoop_length src
      (if c = 0 then (if b = 0 then 0 + 1 else 0) + 1 else 0) ([b] ++ [c]) hleft
    refine ⟨c :: rest, ?_, by simp only [List.length_cons]; omega, by simp⟩
    rw [ebspLoop, if_neg hc, if_neg hroom, hrest]
    rfl

theorem findStartCode_none (hpos : pos < buf.length) (h : ¬ EmptyAt buf pos) :
    findStartCode buf pos = findStartCode buf (pos + 1) := by
  have hcode : startCodeLen (buf.drop pos) = none := by simpa [EmptyAt] using h
  have hcons := List.drop_eq_getElem_cons hpos
  rw [hcons] at hcode
  rw [findStartCode, hcons, scan_none hcode]
  rfl

/-- The search for a start code, as the list of headers sees it: there is none with a byte behind
it, or the first header is that of the code found. -/
theorem findStartCode_headers (hpos : pos ≤ buf.length) :
    (buf.length ≤ (findStartCode buf pos).1 ∧ headersFrom 0 pos (buf.drop pos) = []) ∨
    ((findStartCode buf pos).1 < buf.length ∧ pos < (findStartCode buf pos).1 ∧
      headersFrom 0 pos (buf.drop pos) = (findStartCode buf pos).swap ::
        headersFrom 0 ((findStartCode buf pos).1 + 1)
          (buf.drop ((findStartCode buf pos).1 + 1))) := by
  generalize hd : buf.length - pos = d
  induction d generalizing pos with
  | zero =>
    have hnil : buf.drop pos = [] := List.drop_eq_nil_of_le (by omega)
    exact Or.inl ⟨by simp [findStartCode, hnil, scanStartCode], by rw [hnil]; rfl⟩
  | succ d ih =>
    cases hcode : startCodeLen (buf.drop pos) with
    | none =>
      rw [headersFrom_none hcode, findStartCode_none (by omega) (by simp [EmptyAt, hcode])]
      rcases @ih (pos + 1) (by omega) (by omega) with h | ⟨hlt, hgt, h⟩
      · exact Or.inl h
      · exact Or.inr ⟨hlt, by omega, h⟩
    | some n =>
      have hn : n = 3 ∨ n = 4 := startCodeLen_eq hcode
      rw [headersFrom_some hcode, findStartCode, scan_some hcode]
      by_cases hlt : pos + n < buf.length
      · rw [if_pos hlt]
        exact Or.inr ⟨hlt, by simp only; omega, rfl⟩
      · rw [if_neg hlt]
        exact Or.inl ⟨by simp only; omega, rfl⟩

/-- No header lies before the start code the search finds. -/
theorem findStartCode_end (hpos : pos ≤ buf.length) :
    pos ≤ (findStartCode buf pos).2 ∧ (findStartCode buf pos).2 ≤ buf.length ∧
    headersFrom 0 pos (buf.drop pos) =
      headersFrom 0 (findStartCode buf pos).2 (buf.drop (findStartCode buf pos).2) ∧
    ((findStartCode buf pos).2 = pos ↔ buf.length = pos ∨ EmptyAt buf pos) := by
  generalize hd : buf.length - pos = d
  induction d generalizing pos with
  | zero =>
    have hlen : buf.length = pos := by omega
    have hnil : buf.drop pos = [] := List.drop_eq_nil_of_le (by omega)
    have hend : (findStartCode buf pos).2 = pos := by
      simp [findStartCode, hnil, scanStartCode, hlen]
    rw [hend]
    exact ⟨le_rfl, hpos, rfl, by simp [hlen]⟩
  | succ d ih =>
    by_cases hempty : EmptyAt buf pos
    · obtain ⟨n, hn⟩ := Option.isSome_iff_exists.mp hempty
      have hend : (findStartCode buf pos).2 = pos := by rw [findStartCode, scan_some hn]
      rw [hend]
      exact ⟨le_rfl, hpos, rfl, by simp [hempty]⟩
    · have hcode : startCodeLen (buf.drop pos) = none := by simpa [EmptyAt] using hempty
      obtain ⟨hle, hlen, hheaders, -⟩ := @ih (pos + 1) (by omega) (by omega)
      rw [headersFrom_none hcode, findStartCode_none (by omega) hempty]
      refine ⟨by omega, hlen, hheaders, ?_⟩
      simp only [hempty, or_false]
      omega

/-- Where a unit ends: at the end of the buffer if it is empty, else at the next start code. -/
theorem nalEndAt_cases {h : Nat} (hh : h < buf.length) :
    (EmptyAt buf h ∧ nalEndAt buf h = buf.length ∧ h + 1 < buf.length) ∨
    (¬ EmptyAt buf h ∧ h < nalEndAt buf h ∧ nalEndAt buf h ≤ buf.length ∧
      headersFrom 0 (h + 1) (buf.drop (h + 1)) =
        headersFrom 0 (nalEndAt buf h) (buf.drop (nalEndAt buf h)) ∧
      (nalEndAt buf h = h + 1 ↔ ShortAt buf h)) := by
  by_cases hempty : EmptyAt buf h
  · obtain ⟨n, hn⟩ := Option.isSome_iff_exists.mp hempty
    refine Or.inl ⟨hempty, ?_, ?_⟩
    · simp only [nalEndAt, findStartCode, scan_some hn]
      exact if_neg (lt_irrefl h)
    · by_contra hlt
      have hone : (buf.drop h).length ≤ 1 := by
        rw [List.length_drop]
        omega
      generalize buf.drop h = l at hn hone
      rcases l with _ | ⟨b, _ | ⟨c, l⟩⟩
      · simp [startCodeLen] at hn
      · simp [startCodeLen] at hn
      · simp at hone
  · obtain ⟨hle, hlen, hheaders, hiff⟩ := findStartCode_end (show h + 1 ≤ buf.length by omega)
    have hend : nalEndAt buf h = (findStartCode buf (h + 1)).2 := by
      simp only [nalEndAt, findStartCode_none hh hempty]
      exact if_pos (by omega)
    rw [hend]
    refine Or.inr ⟨hempty, by omega, hlen, hheaders, hiff.trans ?_⟩
    simp [ShortAt, hempty]

/-- A turn that finds a header: the unit starts with its byte, and has no other one only if it ends
there. -/
theorem nalUnits_turn (header turns : Nat) {h : Nat} (hscratch : buf.length ≤ scratchSize)
    (hoff : scratchOff ≤ pos) (hstart : (findStartCode buf pos).1 = h) (hgt : pos < h)
    (hlt : h < buf.length) :
    ∃ rest, (buf.getD h 0 :: rest).length ≤ nalEndAt buf h - h ∧
      (rest = [] ↔ nalEndAt buf h = h + 1) ∧
      nalUnits header buf scratchSize (turns + 1) pos scratchOff =
        if (buf.getD h 0 :: rest).length < header then ([], false)
        else
          let later := nalUnits header buf scratchSize turns (nalEndAt buf h)
            (scratchOff + (buf.getD h 0 :: rest).length)
          (⟨h, buf.getD h 0 :: rest⟩ :: later.1, later.2) := by
  have hend : h < nalEndAt buf h ∧ nalEndAt buf h ≤ buf.length := by
    rcases nalEndAt_cases hlt with ⟨-, hend, -⟩ | ⟨-, hend, hle, -⟩
    · omega
    · exact ⟨hend, hle⟩
  have hbytes : (buf.drop h).take (nalEndAt buf h - h) =
      buf.getD h 0 :: (buf.drop (h + 1)).take (nalEndAt buf h - h - 1) := by
    rw [show nalEndAt buf h - h = nalEndAt buf h - h - 1 + 1 by omega,
      List.drop_eq_getElem_cons hlt, List.take_succ_cons]
    simp [List.getD, hlt]
  have hsize : ((buf.drop (h + 1)).take (nalEndAt buf h - h - 1)).length =
      nalEndAt buf h - h - 1 := by
    rw [List.length_take, List.length_drop]
    omega
  have hroom : (buf.getD h 0 :: (buf.drop (h + 1)).take (nalEndAt buf h - h - 1)).length ≤
      scratchSize - scratchOff := by
    simp only [List.length_cons]
    omega
  obtain ⟨rest, hrbsp, hlen, hnil⟩ := ebspToRbsp_cons hroom
  refine ⟨rest, by simp only [List.length_cons]; omega, ?_, ?_⟩
  · rw [hnil, ← List.length_eq_zero_iff, hsize]
    omega
  · simp only [nalUnits, hstart, hbytes, hrbsp]
    rw [if_neg (by omega), if_neg (by omega), if_neg (by omega)]

/-- With a scratch buffer as long as the input, the loop comes to the headers of `visited`. -/
theorem nalUnits_visited (hheader : header = 1 ∨ header = 2) (hscratch : buf.length ≤ scratchSize)
    (hoff : scratchOff ≤ pos) (hpos : pos ≤ buf.length) (hturns : buf.length - pos ≤ turns) :
    (nalUnits header buf scratchSize turns pos scratchOff).1.map
        (fun u => (u.off, u.rbsp.headD 0)) =
      (visited header buf (headersFrom 0 pos (buf.drop pos))).map
        fun c => (c.2, buf.getD c.2 0) := by
  induction turns generalizing pos scratchOff with
  | zero =>
    rw [headersFrom_short (by omega)]
    rfl
  | succ turns ih =>
    rcases findStartCode_headers hpos with ⟨hend, hheaders⟩ | ⟨hlt, hgt, hheaders⟩
    · simp only [hheaders, nalUnits, if_pos hend, ite_self]
      rfl
    · obtain ⟨rest, hlen, hnil, hturn⟩ := nalUnits_turn header turns hscratch hoff rfl hgt hlt
      rw [hheaders, hturn]
      clear hheaders hturn
      generalize findStartCode buf pos = code at *
      obtain ⟨h, sc⟩ := code
      simp only [visited, Prod.swap_prod_mk] at *
      have hreject : (buf.getD h 0 :: rest).length < header ↔ header = 2 ∧
          nalEndAt buf h = h + 1 := by
        rw [← hnil, ← List.length_eq_zero_iff, List.length_cons]
        omega
      rcases nalEndAt_cases hlt with ⟨hempty, hend, hmore⟩ | ⟨hempty, hend, hle, hnext, hshort⟩
      · -- an empty unit takes the rest of the buffer
        have hlater : nalUnits header buf scratchSize turns buf.length
            (scratchOff + (buf.getD h 0 :: rest).length) = ([], true) := by
          cases turns <;> simp [nalUnits]
        rw [if_neg (by rw [hreject]; omega), if_neg fun hs => hs.2.1 hempty, if_pos hempty, hend,
          hlater]
        simp
      · rw [hnext]
        by_cases hs : header = 2 ∧ ShortAt buf h
        · rw [if_pos (hreject.mpr ⟨hs.1, hshort.mpr hs.2⟩), if_pos hs]
          rfl
        · rw [if_neg fun hr => hs ⟨(hreject.mp hr).1, hshort.mp (hreject.mp hr).2⟩, if_neg hs,
            if_neg hempty]
          simp only [List.map_cons, List.headD_cons]
          rw [ih (by omega) hle (by omega)]

end Visited

section Agreement

variable {c d : Nat × Nat} {hs : List (Nat × Nat)} {p q : Nat × Nat → Bool}

/-- Nothing keeps the loop of a parser from the header at offset `h`: no empty unit comes before it
and, where the header has two bytes, no unit up to there has one only. -/
def Clear (header : Nat) (buf : List Byte) (hs : List (Nat × Nat)) (h : Nat) : Prop :=
  (∀ d ∈ hs, d.2 < h → ¬ EmptyAt buf d.2) ∧
  (header = 2 → ∀ d ∈ hs, d.2 ≤ h → ¬ ShortAt buf d.2)

theorem mem_headers (h : c ∈ headers buf) :
    ∃ n, startCodeLen (buf.drop c.1) = some n ∧ c.2 = c.1 + n ∧ c.2 < buf.length := by
  refine mem_headersFrom (i := 0) ?_
  rwa [List.drop_zero]

theorem headers_sorted (buf : List Byte) : (headers buf).Pairwise fun c d => c.2 < d.2 := by
  have h := headersFrom_sorted buf 0
  rw [List.drop_zero] at h
  refine h.imp_of_mem fun {c d} _ hd hlt => ?_
  obtain ⟨n, -, hn, -⟩ := mem_headers hd
  omega

theorem headers_ordered (buf : List Byte) : (headers buf).Pairwise fun c d => c.1 < d.1 := by
  have h := headersFrom_sorted buf 0
  rw [List.drop_zero] at h
  refine h.imp_of_mem fun {c d} hc _ hlt => ?_
  obtain ⟨n, -, hn, -⟩ := mem_headers hc
  omega

theorem eq_of_offset (hc : c ∈ headers buf) (hd : d ∈ headers buf) (h : c.2 = d.2) : c = d := by
  have hnodup : ((headers buf).map Prod.snd).Nodup :=
    (List.pairwise_map.mpr (headers_sorted buf)).imp fun hlt => hlt.ne
  exact List.inj_on_of_nodup_map hnodup hc hd h

theorem visited_front (header : Nat) (buf : List Byte) (hs : List (Nat × Nat)) :
    visited header buf hs <+: hs := by
  induction hs with
  | nil => exact List.prefix_rfl
  | cons c rest ih =>
    rw [visited]
    split_ifs
    · exact List.nil_prefix
    · exact List.cons_prefix_cons.mpr ⟨rfl, List.nil_prefix⟩
    · exact List.cons_prefix_cons.mpr ⟨rfl, ih⟩

theorem clear_head (hlt : ∀ d ∈ hs, c.2 < d.2) :
    Clear header buf (c :: hs) c.2 ↔ ¬ (header = 2 ∧ ShortAt buf c.2) := by
  constructor
  · rintro ⟨-, hno⟩ ⟨hheader, hshort⟩
    exact hno hheader c List.mem_cons_self le_rfl hshort
  · intro hno
    refine ⟨fun d hd hlt' => ?_, fun hheader d hd hle hshort => ?_⟩
    · rcases List.mem_cons.mp hd with rfl | hd
      · omega
      · have := hlt d hd
        omega
    · rcases List.mem_cons.mp hd with rfl | hd
      · exact hno ⟨hheader, hshort⟩
      · have := hlt d hd
        omega

theorem clear_tail {h : Nat} (hlt : c.2 < h) : Clear header buf (c :: hs) h ↔
    ¬ (header = 2 ∧ ShortAt buf c.2) ∧ ¬ EmptyAt buf c.2 ∧ Clear header buf hs h := by
  simp only [Clear, List.forall_mem_cons, hlt, hlt.le, true_imp_iff, not_and]
  tauto

theorem mem_visited (hsort : hs.Pairwise fun c d => c.2 < d.2) :
    c ∈ visited header buf hs ↔ c ∈ hs ∧ Clear header buf hs c.2 := by
  induction hs with
  | nil => simp [visited]
  | cons e rest ih =>
    obtain ⟨hlt, hsort⟩ := List.pairwise_cons.mp hsort
    have hhead : Clear header buf (e :: rest) e.2 ↔ _ := clear_head hlt
    have htail : c ∈ rest → (Clear header buf (e :: rest) c.2 ↔ _) :=
      fun hc => clear_tail (hlt c hc)
    rw [visited]
    by_cases hshort : header = 2 ∧ ShortAt buf e.2
    · rw [if_pos hshort]
      simp only [List.not_mem_nil, List.mem_cons, false_iff]
      rintro ⟨rfl | hc, hclear⟩
      · exact hhead.mp hclear hshort
      · exact ((htail hc).mp hclear).1 hshort
    · rw [if_neg hshort]
      by_cases hempty : EmptyAt buf e.2
      · rw [if_pos hempty, List.mem_singleton, List.mem_cons]
        constructor
        · rintro rfl
          exact ⟨Or.inl rfl, hhead.mpr hshort⟩
        · rintro ⟨rfl | hc, hclear⟩
          · rfl
          · exact absurd hempty ((htail hc).mp hclear).2.1
      · rw [if_neg hempty, List.mem_cons, List.mem_cons, ih hsort]
        constructor
        · rintro (rfl | ⟨hc, hclear⟩)
          · exact ⟨Or.inl rfl, hhead.mpr hshort⟩
          · exact ⟨Or.inr hc, (htail hc).mpr ⟨hshort, hempty, hclear⟩⟩
        · rintro ⟨rfl | hc, hclear⟩
          · exact Or.inl rfl
          · exact Or.inr ⟨hc, ((htail hc).mp hclear).2.2⟩

/-- The first header of a kind that the loop comes to is the first one there is, or none. -/
theorem visited_find (h : hs.find? p = some c) :
    (visited header buf hs).find? p = if c ∈ visited header buf hs then some c else none := by
  obtain ⟨tail, htail⟩ := visited_front header buf hs
  have happ : hs.find? p = ((visited header buf hs).find? p).or (tail.find? p) := by
    rw [← List.find?_append, htail]
  cases hv : (visited header buf hs).find? p with
  | none =>
    have hc : c ∉ visited header buf hs := by
      intro hc
      exact List.find?_eq_none.mp hv c hc (List.find?_some h)
    rw [if_neg hc]
  | some e =>
    rw [h, hv, Option.some_or, Option.some.injEq] at happ
    subst happ
    rw [if_pos (List.mem_of_find?_eq_some hv)]

theorem visited_find_none (h : hs.find? p = none) : (visited header buf hs).find? p = none := by
  rw [List.find?_eq_none] at h ⊢
  intro c hc
  exact h c ((visited_front header buf hs).subset hc)

/-- A condition that no later header meets once one does not, put in front of the search. -/
theorem find_and (hmono : hs.Pairwise fun c d => q d = true → q c = true)
    (h : hs.find? p = some c) :
    hs.find? (fun d => q d && p d) = if q c then some c else none := by
  induction hs with
  | nil => simp at h
  | cons e rest ih =>
    obtain ⟨hlater, hmono⟩ := List.pairwise_cons.mp hmono
    rw [List.find?_cons] at h ⊢
    cases hp : p e with
    | false =>
      simp only [hp, Bool.and_false] at h ⊢
      exact ih hmono h
    | true =>
      simp only [hp, Option.some.injEq] at h
      subst h
      cases hq : q e with
      | true => simp
      | false =>
        simp only [Bool.false_and, Bool.false_eq_true, if_false]
        refine List.find?_eq_none.mpr fun d hd => ?_
        have hno : q d = false := by
          cases hqd : q d with
          | false => rfl
          | true => exact absurd (hlater d hd hqd) (by simp [hq])
        simp [hno]

theorem findSliceNalCommon_eq (isSlice : Byte → Bool) :
    findSliceNalCommon buf isSlice =
      ((headers buf).find? fun c => decide (c.1 + 4 < buf.length) && isSlice (buf.getD c.2 0)).map
        fun c => (c.1, buf.length - c.1) := by
  have h := findSliceLoop_eq (i := 0) isSlice buf buf.length (Nat.sub_le _ _)
  rwa [List.drop_zero] at h

theorem auHasIrap_eq (codec : Codec) :
    auHasIrap codec buf = (headers buf).any fun c => irapHeader codec (buf.getD c.2 0) := by
  have h := irapLoop_eq (i := 0) codec buf buf.length (Nat.sub_le _ _)
  rw [List.drop_zero] at h
  rw [auHasIrap]
  split_ifs with hlen
  · have hnil : headers buf = [] := by
      have hshort : headersFrom 0 0 (buf.drop 0) = [] := headersFrom_short (by omega)
      rwa [List.drop_zero] at hshort
    rw [hnil]
    rfl
  · exact h

/-- The engine's way from a start code to the header. -/
theorem sliceHeaderOff_eq (h : c ∈ headers buf) : sliceHeaderOff buf c.1 = c.2 := by
  obtain ⟨n, hcode, hn, hlt⟩ := mem_headers h
  have hlen := startCodeLen_eq hcode
  rw [startCodeLen_drop (by omega)] at hcode
  rw [sliceHeaderOff, hn]
  split_ifs at hcode with hsc h3
  · have hbytes := of_decide_eq_true h3
    rw [if_pos hbytes.2.2]
    simp only [Option.some.injEq] at hcode
    omega
  · have h4 : isSc4 buf c.1 = true := by
      by_contra h4
      exact hsc ⟨by simpa using h3, by simpa using h4⟩
    have hbytes := of_decide_eq_true h4
    rw [if_neg (by rw [hbytes.2.2.1]; decide)]
    simp only [Option.some.injEq] at hcode
    omega

/-- The units that the loop of a parser hands to its switch as long as none is rejected: the offset
of the header, and its first byte. -/
def visits (header : Nat) (buf : List Byte) (scratchSize : Nat) : List (Nat × Byte) :=
  (nalUnits header buf scratchSize buf.length 0 0).1.map fun u => (u.off, u.rbsp.headD 0)

theorem visits_eq (hheader : header = 1 ∨ header = 2) (hscratch : buf.length ≤ scratchSize) :
    visits header buf scratchSize =
      (visited header buf (headers buf)).map fun c => (c.2, buf.getD c.2 0) := by
  have h := nalUnits_visited hheader hscratch (Nat.le_refl 0) (Nat.zero_le _) (Nat.sub_le _ _)
  rwa [List.drop_zero] at h

theorem mem_visited_headers :
    c ∈ visited header buf (headers buf) ↔ c ∈ headers buf ∧ Clear header buf (headers buf) c.2 :=
  mem_visited (headers_sorted buf)

/-- Where the slice locator says the first slice of a kind is, as the offset of its header. -/
def located (isSlice : Byte → Bool) (buf : List Byte) : Option Nat :=
  (findSliceNalCommon buf isSlice).map fun f => sliceHeaderOff buf f.1

/-- Where the loop of a parser comes to the first unit of a kind. -/
def firstVisit (isSlice : Byte → Bool) (header : Nat) (buf : List Byte) (scratchSize : Nat) :
    Option Nat :=
  ((visits header buf scratchSize).find? fun u => isSlice u.2).map Prod.fst

theorem located_eq (isSlice : Byte → Bool) :
    located isSlice buf = (((headers buf).find? fun c => isSlice (buf.getD c.2 0)).filter
      fun c => c.1 + 4 < buf.length).map Prod.snd := by
  have hmono : (headers buf).Pairwise fun c d => decide (d.1 + 4 < buf.length) = true →
      decide (c.1 + 4 < buf.length) = true := by
    refine (headers_ordered buf).imp fun {c d} hlt hd => ?_
    simp only [decide_eq_true_eq] at hd ⊢
    omega
  rw [located, findSliceNalCommon_eq, Option.map_map]
  cases hfind : (headers buf).find? fun c => isSlice (buf.getD c.2 0) with
  | none =>
    have hnone : ((headers buf).find? fun c =>
        decide (c.1 + 4 < buf.length) && isSlice (buf.getD c.2 0)) = none := by
      rw [List.find?_eq_none] at hfind ⊢
      intro c hc hboth
      exact hfind c hc (Bool.and_eq_true_iff.mp hboth).2
    rw [hnone]
    rfl
  | some c =>
    rw [find_and (q := fun c => decide (c.1 + 4 < buf.length)) hmono hfind]
    have hoff := sliceHeaderOff_eq (List.mem_of_find?_eq_some hfind)
    by_cases hlt : c.1 + 4 < buf.length
    · simp only [hlt, decide_true, if_true, Option.map_some, Function.comp_apply,
        Option.filter_some, hoff]
    · simp only [hlt, decide_false, Bool.false_eq_true, if_false, Option.map_none,
        Option.filter_some]

theorem firstVisit_eq (hheader : header = 1 ∨ header = 2) (hscratch : buf.length ≤ scratchSize)
    (isSlice : Byte → Bool) :
    firstVisit isSlice header buf scratchSize =
      ((visited header buf (headers buf)).find? fun c => isSlice (buf.getD c.2 0)).map
        Prod.snd := by
  rw [firstVisit, visits_eq hheader hscratch, List.find?_map, Option.map_map]
  rfl

/-- The first header of a kind comes no later than the others. -/
theorem find_le (hfind : (headers buf).find? p = some c) (hd : d ∈ headers buf) (hp : p d = true) :
    c.2 ≤ d.2 := by
  obtain ⟨-, pre, post, hsplit, hpre⟩ := List.find?_eq_some_iff_append.mp hfind
  have hsort := headers_sorted buf
  rw [hsplit] at hsort hd
  rcases List.mem_append.mp hd with hd | hd
  · have hno := hpre d hd
    rw [hp] at hno
    exact Bool.noConfusion hno
  · rcases List.mem_cons.mp hd with rfl | hd
    · exact le_rfl
    · exact ((List.pairwise_cons.mp (List.pairwise_append.mp hsort).2.1).1 d hd).le

/-- A header that the locator is too short for is the last byte. -/
theorem shortAt_end (hc : c ∈ headers buf) (hlt : ¬ c.1 + 4 < buf.length) : ShortAt buf c.2 := by
  obtain ⟨n, hcode, hn, hin⟩ := mem_headers hc
  have hlen := startCodeLen_eq hcode
  refine ⟨fun hempty => ?_, Or.inl (by omega)⟩
  rcases nalEndAt_cases hin with ⟨-, -, hmore⟩ | ⟨hno, -⟩
  · omega
  · exact hno hempty

end Agreement

namespace H265

/-- The types the switch takes for slices. -/
def sliceHeader (hdr : Byte) : Bool := hdr.toNat / 2 % 2 ^ 6 ∈ sliceNalTypes

end H265

section Results

variable {c : Nat × Nat}

/-- The locator and the parser of H.264 agree on the first slice. -/
def H264.LocatorAgrees (buf : List Byte) (scratchSize : Nat) : Prop :=
  (h264FindSliceNal buf).map (fun f => sliceHeaderOff buf f.1) =
    firstVisit h264NalIsSlice 1 buf scratchSize

/-- `au_has_irap` and the parser of H.264 agree on whether there is an IDR slice. -/
def H264.IrapAgrees (buf : List Byte) (scratchSize : Nat) : Prop :=
  auHasIrap .h264 buf = true ↔ ∃ u ∈ visits 1 buf scratchSize, irapHeader .h264 u.2 = true

def H265.LocatorAgrees (buf : List Byte) (scratchSize : Nat) : Prop :=
  (h265FindSliceNal buf).map (fun f => sliceHeaderOff buf f.1) =
    firstVisit H265.sliceHeader 2 buf scratchSize

def H265.IrapAgrees (buf : List Byte) (scratchSize : Nat) : Prop :=
  auHasIrap .h265 buf = true ↔ ∃ u ∈ visits 2 buf scratchSize,
    irapHeader .h265 u.2 = true ∧ H265.sliceHeader u.2 = true

instance : Decidable (H264.LocatorAgrees buf scratchSize) := inferInstanceAs (Decidable (_ = _))

instance : Decidable (H264.IrapAgrees buf scratchSize) := inferInstanceAs (Decidable (_ ↔ _))

instance : Decidable (H265.LocatorAgrees buf scratchSize) := inferInstanceAs (Decidable (_ = _))

instance : Decidable (H265.IrapAgrees buf scratchSize) := inferInstanceAs (Decidable (_ ↔ _))

theorem exists_visit (hheader : header = 1 ∨ header = 2) (hscratch : buf.length ≤ scratchSize)
    (P : Byte → Prop) : (∃ u ∈ visits header buf scratchSize, P u.2) ↔
      ∃ c ∈ headers buf, Clear header buf (headers buf) c.2 ∧ P (buf.getD c.2 0) := by
  rw [visits_eq hheader hscratch]
  constructor
  · rintro ⟨u, hu, hp⟩
    obtain ⟨c, hc, rfl⟩ := List.mem_map.mp hu
    obtain ⟨hc, hclear⟩ := mem_visited_headers.mp hc
    exact ⟨c, hc, hclear, hp⟩
  · rintro ⟨c, hc, hclear, hp⟩
    exact ⟨_, List.mem_map_of_mem (mem_visited_headers.mpr ⟨hc, hclear⟩), hp⟩

theorem H264.locatorAgrees_iff (hscratch : buf.length ≤ scratchSize) :
    H264.LocatorAgrees buf scratchSize ↔
      ∀ c, (headers buf).find? (fun c => h264NalIsSlice (buf.getD c.2 0)) = some c →
        (c.1 + 4 < buf.length ↔ Clear 1 buf (headers buf) c.2) := by
  change located h264NalIsSlice buf = firstVisit h264NalIsSlice 1 buf scratchSize ↔ _
  rw [located_eq, firstVisit_eq (Or.inl rfl) hscratch]
  cases hfind : (headers buf).find? fun c => h264NalIsSlice (buf.getD c.2 0) with
  | none =>
    rw [visited_find_none hfind]
    simp
  | some c =>
    have hc := List.mem_of_find?_eq_some hfind
    have hmem : c ∈ visited 1 buf (headers buf) ↔ Clear 1 buf (headers buf) c.2 := by
      rw [mem_visited_headers]
      exact and_iff_right hc
    simp only [visited_find hfind, ← hmem, Option.filter_some, Option.some.injEq, forall_eq']
    by_cases hlt : c.1 + 4 < buf.length
    · by_cases hv : c ∈ visited 1 buf (headers buf)
      · simp [hlt, hv]
      · simp [hlt, hv]
    · by_cases hv : c ∈ visited 1 buf (headers buf)
      · simp [hlt, hv]
      · simp [hlt, hv]

theorem H264.irapAgrees_iff (hscratch : buf.length ≤ scratchSize) :
    H264.IrapAgrees buf scratchSize ↔
      ∀ c, (headers buf).find? (fun c => irapHeader .h264 (buf.getD c.2 0)) = some c →
        Clear 1 buf (headers buf) c.2 := by
  rw [H264.IrapAgrees, auHasIrap_eq, List.any_eq_true,
    exists_visit (Or.inl rfl) hscratch fun b => irapHeader .h264 b = true]
  constructor
  · intro h c hfind
    have hfirst := List.find?_some hfind
    obtain ⟨d, hd, hclear, hirap⟩ := h.mp ⟨c, List.mem_of_find?_eq_some hfind, hfirst⟩
    have hle := find_le hfind hd hirap
    exact ⟨fun e he hlt => hclear.1 e he (by omega), fun h2 => absurd h2 (by decide)⟩
  · intro h
    constructor
    · rintro ⟨c, hc, hirap⟩
      cases hfind : (headers buf).find? fun c => irapHeader .h264 (buf.getD c.2 0) with
      | none => exact absurd hirap (List.find?_eq_none.mp hfind c hc)
      | some d =>
        have hfirst := List.find?_some hfind
        exact ⟨d, List.mem_of_find?_eq_some hfind, h d hfind, hfirst⟩
    · rintro ⟨c, hc, -, hirap⟩
      exact ⟨c, hc, hirap⟩

theorem H265.irapAgrees_iff (hscratch : buf.length ≤ scratchSize) :
    H265.IrapAgrees buf scratchSize ↔
      ((∃ c ∈ headers buf, irapHeader .h265 (buf.getD c.2 0) = true) →
        ∃ c ∈ headers buf, Clear 2 buf (headers buf) c.2 ∧
          irapHeader .h265 (buf.getD c.2 0) = true ∧ H265.sliceHeader (buf.getD c.2 0) = true) := by
  rw [H265.IrapAgrees, auHasIrap_eq, List.any_eq_true, exists_visit (Or.inr rfl) hscratch
    fun b => irapHeader .h265 b = true ∧ H265.sliceHeader b = true]
  constructor
  · exact fun h => h.mp
  · intro h
    refine ⟨h, ?_⟩
    rintro ⟨c, hc, -, hirap, -⟩
    exact ⟨c, hc, hirap⟩

/-- What the switch takes for a slice the locator takes for one. -/
theorem H265.isSlice_of_sliceHeader {b : Byte} (h : H265.sliceHeader b = true) :
    h265NalIsSlice b = true := by
  have hmem := of_decide_eq_true h
  simp only [h265NalIsSlice, decide_eq_true_eq]
  simp only [sliceNalTypes, List.mem_cons, List.not_mem_nil, or_false] at hmem
  omega

theorem H265.locatorAgrees_iff (hscratch : buf.length ≤ scratchSize) :
    H265.LocatorAgrees buf scratchSize ↔
      ∀ c, (headers buf).find? (fun c => h265NalIsSlice (buf.getD c.2 0)) = some c →
        c.1 + 4 < buf.length →
        H265.sliceHeader (buf.getD c.2 0) = true ∧ Clear 2 buf (headers buf) c.2 := by
  change located h265NalIsSlice buf = firstVisit H265.sliceHeader 2 buf scratchSize ↔ _
  rw [located_eq, firstVisit_eq (Or.inr rfl) hscratch]
  cases hfind : (headers buf).find? fun c => h265NalIsSlice (buf.getD c.2 0) with
  | none =>
    have hnone : ((headers buf).find? fun c => H265.sliceHeader (buf.getD c.2 0)) = none := by
      rw [List.find?_eq_none] at hfind ⊢
      exact fun c hc hs => hfind c hc (H265.isSlice_of_sliceHeader hs)
    rw [visited_find_none hnone]
    simp
  | some c =>
    have hc := List.mem_of_find?_eq_some hfind
    obtain ⟨hp, pre, post, hsplit, hpre⟩ := List.find?_eq_some_iff_append.mp hfind
    simp only [Option.filter_some, Option.some.injEq, forall_eq']
    by_cases hlt : c.1 + 4 < buf.length
    · simp only [hlt, decide_true, if_true, Option.map_some, true_imp_iff]
      constructor
      · intro h
        obtain ⟨d, hd, hoff⟩ := Option.map_eq_some_iff.mp h.symm
        obtain ⟨hd', hclear⟩ := mem_visited_headers.mp (List.mem_of_find?_eq_some hd)
        obtain rfl := eq_of_offset hd' hc hoff
        have hs := List.find?_some hd
        exact ⟨hs, hclear⟩
      · rintro ⟨hs, hclear⟩
        have hfirst : ((headers buf).find? fun c => H265.sliceHeader (buf.getD c.2 0)) =
            some c := by
          refine List.find?_eq_some_iff_append.mpr ⟨hs, pre, post, hsplit, fun d hd => ?_⟩
          have hno := hpre d hd
          simp only [Bool.not_eq_true'] at hno ⊢
          by_contra hs
          rw [H265.isSlice_of_sliceHeader (by simpa using hs)] at hno
          exact Bool.noConfusion hno
        rw [visited_find hfirst, if_pos (mem_visited_headers.mpr ⟨hc, hclear⟩)]
        rfl
    · -- one byte behind the last start code, which the loop rejects
      simp only [hlt, decide_false, Bool.false_eq_true, if_false, Option.map_none, false_imp_iff,
        iff_true]
      have hshort := shortAt_end hc hlt
      rw [eq_comm, Option.map_eq_none_iff, List.find?_eq_none]
      intro d hd hs
      obtain ⟨hd, hclear⟩ := mem_visited_headers.mp hd
      have hle := find_le hfind hd (H265.isSlice_of_sliceHeader hs)
      exact hclear.2 rfl c hc hle hshort

/-- When the scanners agree. The slice locator of H.264 misses a header that is the last byte of the
buffer, and the loop of the parser misses every header behind an empty unit; for H.265 the loop also
stops at a unit of one byte, and the locator and `au_has_irap` take reserved types for slices. -/
theorem scanners_agree_iff (buf : List Byte) (scratchSize : Nat)
    (hscratch : buf.length ≤ scratchSize) :
    (H264.LocatorAgrees buf scratchSize ↔
      ∀ c, (headers buf).find? (fun c => h264NalIsSlice (buf.getD c.2 0)) = some c →
        (c.1 + 4 < buf.length ↔ Clear 1 buf (headers buf) c.2)) ∧
    (H264.IrapAgrees buf scratchSize ↔
      ∀ c, (headers buf).find? (fun c => irapHeader .h264 (buf.getD c.2 0)) = some c →
        Clear 1 buf (headers buf) c.2) ∧
    (H265.LocatorAgrees buf scratchSize ↔
      ∀ c, (headers buf).find? (fun c => h265NalIsSlice (buf.getD c.2 0)) = some c →
        c.1 + 4 < buf.length →
        H265.sliceHeader (buf.getD c.2 0) = true ∧ Clear 2 buf (headers buf) c.2) ∧
    (H265.IrapAgrees buf scratchSize ↔
      ((∃ c ∈ headers buf, irapHeader .h265 (buf.getD c.2 0) = true) →
        ∃ c ∈ headers buf, Clear 2 buf (headers buf) c.2 ∧
          irapHeader .h265 (buf.getD c.2 0) = true ∧
          H265.sliceHeader (buf.getD c.2 0) = true)) :=
  ⟨H264.locatorAgrees_iff hscratch, H264.irapAgrees_iff hscratch, H265.locatorAgrees_iff hscratch,
    H265.irapAgrees_iff hscratch⟩

/-- An IDR slice of one byte at the end, and one behind a start code that follows another. -/
theorem scanners_disagree :
    (h264FindSliceNal [0, 0, 1, 0x65] = none ∧
      firstVisit h264NalIsSlice 1 [0, 0, 1, 0x65] 8 = some 3 ∧
      ¬ H264.LocatorAgrees [0, 0, 1, 0x65] 8) ∧
    (auHasIrap .h264 [0, 0, 1, 0, 0, 0, 1, 0x65, 0x88] = true ∧
      ¬ H264.LocatorAgrees [0, 0, 1, 0, 0, 0, 1, 0x65, 0x88] 18 ∧
      ¬ H264.IrapAgrees [0, 0, 1, 0, 0, 0, 1, 0x65, 0x88] 18) ∧
    (¬ H265.LocatorAgrees [0, 0, 1, 0x46, 0, 0, 1, 0x26, 0x01] 18 ∧
      ¬ H265.IrapAgrees [0, 0, 1, 0x46, 0, 0, 1, 0x26, 0x01] 18) := by
  decide +kernel

/-- Parameter sets and a slice behind them. -/
abbrev plainUnits : List Byte := [0, 0, 0, 1, 0x67, 0x42, 0, 0, 1, 0x65, 0x88, 0x80]

theorem scanners_agree_iff_plain :
    plainUnits.length ≤ 24 ∧ H264.LocatorAgrees plainUnits 24 ∧
      (∀ c, (headers plainUnits).find? (fun c => h264NalIsSlice (plainUnits.getD c.2 0)) = some c →
        (c.1 + 4 < plainUnits.length ↔ Clear 1 plainUnits (headers plainUnits) c.2)) := by
  have h := scanners_agree_iff plainUnits 24 (by decide)
  have hagree : H264.LocatorAgrees plainUnits 24 := by decide +kernel
  exact ⟨by decide, hagree, h.1.mp hagree⟩

end Results

end Rkvdec.Bitstream
