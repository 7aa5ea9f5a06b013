import Mathlib.Tactic
import Rkvdec.Bitstream.Scanners

/-! The stream walker of `au_iter.cpp`, which cuts a stream into access units of one slice each. -/
namespace Rkvdec.Bitstream

section Model

/-- The loop of `find_start_code` at offset `i`: the offset of the header behind the start code. -/
def auScan : List Byte → Nat → Option Nat
  | b₀ :: b₁ :: b₂ :: rest, i =>
    if b₀ = 0 ∧ b₁ = 0 ∧ b₂ = 1 then some (i + 3)
    else if b₀ = 0 ∧ b₁ = 0 ∧ b₂ = 0 ∧ rest.head? = some 1 then some (i + 4)
    else auScan (b₁ :: b₂ :: rest) (i + 1)
  | _, _ => none

def auFindStartCode (buf : List Byte) (start : Nat) : Option Nat := auScan (buf.drop start) start

/-- `backup_to_4byte_sc` -/
def backupTo4byteSc (buf : List Byte) (scAfter3 : Nat) : Nat :=
  if 0 < scAfter3 ∧ buf.getD (scAfter3 - 1) 0 = 0 then scAfter3 - 1 else scAfter3

structure AuIter where
  buf : List Byte
  pos : Nat

def auIterInit (buf : List Byte) : AuIter := { buf := buf, pos := 0 }

structure AuRange where
  auOff : Nat
  auLen : Nat
  sliceOff : Nat
deriving DecidableEq

/-- The loop of `au_next_common`, which goes from header to header: the header of the first slice
and where its unit ends. -/
def sliceWalk (isSlice : Byte → Bool) (buf : List Byte) : Nat → Nat → Option (Nat × Nat)
  | 0, _ => none
  | turns + 1, nh =>
    if nh < buf.length then
      if isSlice (buf.getD nh 0) then
        match auFindStartCode buf (nh + 1) with
        | none => some (nh, buf.length)
        | some nxt => some (nh, backupTo4byteSc buf (nxt - 3))
      else
        match auFindStartCode buf (nh + 1) with
        | none => none
        | some nxt => sliceWalk isSlice buf turns nxt
    else none

def auNextCommon (isSlice : Byte → Bool) (it : AuIter) : Option (AuRange × AuIter) :=
  if it.buf.length ≤ it.pos then none
  else
    match auFindStartCode it.buf it.pos with
    | none => none
    | some firstSc =>
      let scStart := backupTo4byteSc it.buf (firstSc - 3)
      match sliceWalk isSlice it.buf it.buf.length firstSc with
      | none => none
      | some (sliceNh, fin) =>
        some ({ auOff := scStart
                auLen := fin - scStart
                sliceOff := backupTo4byteSc it.buf (sliceNh - 3) }, { it with pos := fin })

def nalIsSlice : Codec → Byte → Bool
  | .h264 => h264NalIsSlice
  | .h265 => h265NalIsSlice

/-- `H264AuNext`, `H265AuNext` -/
def auNext (codec : Codec) : AuIter → Option (AuRange × AuIter) := auNextCommon (nalIsSlice codec)

/-- The ranges that the calls return until one returns 0, if one of the first `calls` does. -/
def AuIter.ranges (next : AuIter → Option (AuRange × AuIter)) : Nat → AuIter → Option (List AuRange)
  | 0, _ => none
  | calls + 1, it =>
    match next it with
    | none => some []
    | some (range, it) => (ranges next calls it).map (range :: ·)

end Model

variable {buf l : List Byte} {i n h pos : Nat}

section StartCodes

theorem auScan_none {b : Byte} (hnone : startCodeLen (b :: l) = none) :
    auScan (b :: l) i = auScan l (i + 1) := by
  rcases l with _ | ⟨b₁, _ | ⟨b₂, rest⟩⟩
  · rfl
  · rfl
  · simp only [startCodeLen] at hnone
    split_ifs at hnone with h3 h4
    simp only [auScan, if_neg h3, if_neg h4]

theorem auScan_some (hsome : startCodeLen l = some n) : auScan l i = some (i + n) := by
  rcases l with _ | ⟨b₀, _ | ⟨b₁, _ | ⟨b₂, rest⟩⟩⟩
  · cases hsome
  · cases hsome
  · cases hsome
  · simp only [startCodeLen] at hsome
    split_ifs at hsome with h3 h4
    · cases hsome
      simp only [auScan, if_pos h3]
    · cases hsome
      simp only [auScan, if_neg h3, if_pos h4]

/-- Bytes where no start code begins are passed over. -/
theorem auScan_skip (k : Nat) (hk : k ≤ l.length)
    (hnone : ∀ j < k, startCodeLen (l.drop j) = none) :
    auScan l i = auScan (l.drop k) (i + k) := by
  induction k generalizing i l with
  | zero => rfl
  | succ k ih =>
    cases l with
    | nil => cases hk
    | cons b l =>
      have hlater : ∀ j < k, startCodeLen (l.drop j) = none := by
        intro j hj
        exact hnone (j + 1) (by omega)
      rw [auScan_none (hnone 0 (by omega)), ih (Nat.le_of_succ_le_succ hk) hlater,
        List.drop_succ_cons, Nat.add_right_comm, Nat.add_assoc]

theorem startCodeLen_le (hsome : startCodeLen l = some n) : n ≤ l.length := by
  rcases l with _ | ⟨b₀, _ | ⟨b₁, _ | ⟨b₂, rest⟩⟩⟩
  · cases hsome
  · cases hsome
  · cases hsome
  · simp only [startCodeLen] at hsome
    split_ifs at hsome with h3 h4
    · cases hsome
      simp
    · cases hsome
      rcases rest with _ | ⟨b₃, rest⟩
      · simp at h4
      · simp

/-- What the search finds is the first start code there is. -/
theorem auScan_spec (hfind : auScan l i = some h) :
    ∃ k n, startCodeLen (l.drop k) = some n ∧ h = i + k + n ∧ k + n ≤ l.length ∧
      ∀ j < k, startCodeLen (l.drop j) = none := by
  induction l generalizing i with
  | nil => cases hfind
  | cons b l ih =>
    cases hcode : startCodeLen (b :: l) with
    | some n =>
      rw [auScan_some hcode] at hfind
      cases hfind
      have hle := startCodeLen_le hcode
      refine ⟨0, n, hcode, rfl, by omega, ?_⟩
      intro j hj
      cases hj
    | none =>
      rw [auScan_none hcode] at hfind
      obtain ⟨k, n, hat, rfl, hle, hnone⟩ := ih hfind
      refine ⟨k + 1, n, hat, by omega, by rw [List.length_cons]; omega, ?_⟩
      intro j hj
      cases j with
      | zero => exact hcode
      | succ j => exact hnone j (by omega)

/-- The same, by offsets in the buffer. -/
theorem auFind_spec (hfind : auFindStartCode buf pos = some h) :
    ∃ i n, pos ≤ i ∧ startCodeLen (buf.drop i) = some n ∧ h = i + n ∧ h ≤ buf.length := by
  obtain ⟨k, n, hat, rfl, hle, -⟩ := auScan_spec hfind
  rw [List.drop_drop] at hat
  have hlong := startCodeLen_le hat
  rw [List.length_drop] at hle hlong
  have hpos : 0 < n := by
    rcases startCodeLen_eq hat with rfl | rfl <;> decide
  exact ⟨pos + k, n, Nat.le_add_right _ _, hat, rfl, by omega⟩

theorem startCodeLen_three (hat : startCodeLen l = some 3) : ∃ rest, l = 0 :: 0 :: 1 :: rest := by
  rcases l with _ | ⟨b₀, _ | ⟨b₁, _ | ⟨b₂, rest⟩⟩⟩
  · cases hat
  · cases hat
  · cases hat
  · simp only [startCodeLen] at hat
    split_ifs at hat with h3 h4
    · obtain ⟨rfl, rfl, rfl⟩ := h3
      exact ⟨rest, rfl⟩
    · cases hat

theorem startCodeLen_four (hat : startCodeLen l = some 4) :
    ∃ rest, l = 0 :: 0 :: 0 :: 1 :: rest := by
  rcases l with _ | ⟨b₀, _ | ⟨b₁, _ | ⟨b₂, rest⟩⟩⟩
  · cases hat
  · cases hat
  · cases hat
  · simp only [startCodeLen] at hat
    split_ifs at hat with h3 h4
    · cases hat
    · obtain ⟨rfl, rfl, rfl, hhead⟩ := h4
      obtain ⟨rest, rfl⟩ := List.head?_eq_some_iff.mp hhead
      exact ⟨rest, rfl⟩

/-- The start code that the walker takes a unit to begin with: the search from there on finds the
same header. -/
theorem backup_found (hfind : auFindStartCode buf pos = some h) :
    let sc := backupTo4byteSc buf (h - 3)
    auFindStartCode buf sc = some h ∧ sc + 3 ≤ h ∧ h ≤ buf.length ∧ pos ≤ sc + 1 := by
  obtain ⟨i, n, hle, hat, rfl, hlen⟩ := auFind_spec hfind
  have hhere : auFindStartCode buf i = some (i + n) := auScan_some hat
  rcases startCodeLen_eq hat with rfl | rfl
  · rw [Nat.add_sub_cancel, backupTo4byteSc]
    split
    · rename_i hback
      obtain ⟨i, rfl⟩ : ∃ k, i = k + 1 := ⟨i - 1, by omega⟩
      obtain ⟨rest, hrest⟩ := startCodeLen_three hat
      have hdrop : buf.drop i = 0 :: 0 :: 0 :: 1 :: rest := by
        rw [List.drop_eq_getElem_cons (by omega : i < buf.length), hrest]
        congr 1
        simpa [List.getD_eq_getElem?_getD,
          List.getElem?_eq_getElem (by omega : i < buf.length)] using
          hback.2
      have hcode : startCodeLen (buf.drop i) = some 4 := by
        rw [hdrop]
        rfl
      refine ⟨?_, by omega, hlen, by omega⟩
      exact auScan_some hcode
    · exact ⟨hhere, le_rfl, hlen, by omega⟩
  · obtain ⟨rest, hrest⟩ := startCodeLen_four hat
    have hzero : buf.getD i 0 = 0 := by
      have := congrArg (fun l => l.getD 0 0) hrest
      simpa [List.getD_eq_getElem?_getD] using this
    have hback : 0 < i + 4 - 3 ∧ buf.getD (i + 4 - 3 - 1) 0 = 0 := ⟨by omega, hzero⟩
    rw [backupTo4byteSc, if_pos hback]
    exact ⟨hhere, by omega, hlen, by omega⟩

end StartCodes

section Walk

variable {isSlice : Byte → Bool} {next : AuIter → Option (AuRange × AuIter)} {it it' : AuIter}
  {range : AuRange} {turns calls fin sliceNh : Nat}

/-- Where the walker stops: at the end of the buffer, or at a start code that the next call takes
for the beginning of its unit. -/
def Settled (buf : List Byte) (pos : Nat) : Prop :=
  pos = buf.length ∨ ∃ h, auFindStartCode buf pos = some h ∧ backupTo4byteSc buf (h - 3) = pos

theorem settled_backup (hfind : auFindStartCode buf pos = some h) :
    Settled buf (backupTo4byteSc buf (h - 3)) :=
  .inr ⟨h, (backup_found hfind).1, rfl⟩

/-- The slice lies in the unit, which ends behind the header of its first NAL unit. -/
theorem sliceWalk_spec (hwalk : sliceWalk isSlice buf turns h = some (sliceNh, fin)) :
    h ≤ fin ∧ fin ≤ buf.length ∧ Settled buf fin := by
  induction turns generalizing h with
  | zero => cases hwalk
  | succ turns ih =>
    rw [sliceWalk] at hwalk
    split at hwalk
    · rename_i hlt
      split at hwalk
      · split at hwalk
        · cases hwalk
          exact ⟨hlt.le, le_rfl, .inl rfl⟩
        · rename_i nxt hfind
          cases hwalk
          obtain ⟨-, hroom, hle, hpos⟩ := backup_found hfind
          exact ⟨by omega, by omega, settled_backup hfind⟩
      · split at hwalk
        · cases hwalk
        · rename_i nxt hfind
          obtain ⟨hle, hfin, hsettled⟩ := ih hwalk
          obtain ⟨-, hroom, -, hpos⟩ := backup_found hfind
          exact ⟨by omega, hfin, hsettled⟩
    · cases hwalk

/-- Every turn goes on behind a start code, so as many turns as there are bytes from here on are
enough: more find nothing else. -/
theorem sliceWalk_enough (hturns : buf.length ≤ turns + h) (more : Nat) :
    sliceWalk isSlice buf (turns + more) h = sliceWalk isSlice buf turns h := by
  induction turns generalizing h with
  | zero =>
    cases more with
    | zero => rfl
    | succ more => exact if_neg (by omega)
  | succ turns ih =>
    rw [Nat.succ_add]
    simp only [sliceWalk]
    cases hfind : auFindStartCode buf (h + 1) with
    | none => rfl
    | some nxt =>
      obtain ⟨-, hroom, -, hpos⟩ := backup_found hfind
      have hnext : buf.length ≤ turns + nxt := by omega
      simp only [ih hnext]

/-- What a call returns: a range that ends where the next call goes on, and that starts where this
one did if that was a place where the walker stops. -/
theorem auNextCommon_spec (hnext : auNextCommon isSlice it = some (range, it')) :
    it'.buf = it.buf ∧ it'.pos = range.auOff + range.auLen ∧ 3 ≤ range.auLen ∧
      it.pos ≤ range.auOff + 1 ∧ it'.pos ≤ it.buf.length ∧ Settled it.buf it'.pos ∧
      (Settled it.buf it.pos → range.auOff = it.pos) := by
  rw [auNextCommon] at hnext
  split at hnext
  · cases hnext
  · rename_i hlt
    split at hnext
    · cases hnext
    · rename_i firstSc hfind
      obtain ⟨-, hroom, -, hpos⟩ := backup_found hfind
      dsimp only at hnext
      split at hnext
      · cases hnext
      · rename_i sliceNh fin hwalk
        obtain ⟨hle, hfin, hsettled⟩ := sliceWalk_spec hwalk
        cases hnext
        refine ⟨rfl, ?_, ?_, hpos, hfin, hsettled, ?_⟩
        · dsimp only
          omega
        · dsimp only
          omega
        · intro hstart
          rcases hstart with hend | ⟨h, hfound, hback⟩
          · exact absurd hend.ge hlt
          · rw [hfind] at hfound
            cases hfound
            exact hback

/-- What is said of the ranges of a buffer. -/
structure Partitions (ranges : List AuRange) (buf : List Byte) : Prop where
  nonempty : ∀ range ∈ ranges, 0 < range.auLen
  inside : ∀ range ∈ ranges, range.auOff + range.auLen ≤ buf.length
  contiguous : ranges.IsChain fun range later => range.auOff + range.auLen = later.auOff
  increasing : ranges.Pairwise fun range later => range.auOff + range.auLen ≤ later.auOff

/-- The calls come to an end, and their ranges partition what they cover. -/
theorem ranges_spec (hpos : it.pos ≤ it.buf.length) (hcalls : it.buf.length < calls + it.pos) :
    ∃ ranges, AuIter.ranges (auNextCommon isSlice) calls it = some ranges ∧
      Partitions ranges it.buf ∧
      (Settled it.buf it.pos → (∀ range ∈ ranges, it.pos ≤ range.auOff) ∧
        ∀ range ∈ ranges.head?, it.pos = range.auOff) := by
  induction calls generalizing it with
  | zero => omega
  | succ calls ih =>
    rw [AuIter.ranges]
    cases hnext : auNextCommon isSlice it with
    | none =>
      refine ⟨[], rfl, ⟨?_, ?_, .nil, .nil⟩, ?_⟩ <;> simp
    | some found =>
      obtain ⟨range, it'⟩ := found
      obtain ⟨hbuf, hfin, hlen, hoff, hle, hsettled, hstart⟩ := auNextCommon_spec hnext
      obtain ⟨ranges, hranges, hparts, hplace⟩ :=
        @ih it' (by rw [hbuf]; exact hle) (by rw [hbuf]; omega)
      rw [hbuf] at hparts hplace
      obtain ⟨hlater, hhead⟩ := hplace hsettled
      rw [hfin] at hlater hhead hle
      refine ⟨range :: ranges, by simp only [hranges, Option.map_some], ⟨?_, ?_, ?_, ?_⟩, ?_⟩
      · intro r hr
        rcases List.mem_cons.mp hr with rfl | hr
        · omega
        · exact hparts.nonempty r hr
      · intro r hr
        rcases List.mem_cons.mp hr with rfl | hr
        · exact hle
        · exact hparts.inside r hr
      · exact List.isChain_cons.mpr ⟨hhead, hparts.contiguous⟩
      · exact List.pairwise_cons.mpr ⟨hlater, hparts.increasing⟩
      · intro hsettled
        have hhere := hstart hsettled
        refine ⟨?_, ?_⟩
        · intro r hr
          rcases List.mem_cons.mp hr with rfl | hr
          · exact hhere.ge
          · have := hlater r hr
            omega
        · intro r hr
          cases hr
          exact hhere.symm

/-- Further calls return nothing more. -/
theorem ranges_mono {ranges : List AuRange} (hranges : AuIter.ranges next calls it = some ranges)
    {more : Nat} (hmore : calls ≤ more) : AuIter.ranges next more it = some ranges := by
  induction calls generalizing it more ranges with
  | zero => cases hranges
  | succ calls ih =>
    obtain ⟨more, rfl⟩ : ∃ n, more = n + 1 := ⟨more - 1, by omega⟩
    rw [AuIter.ranges] at hranges ⊢
    cases hnext : next it with
    | none =>
      rw [hnext] at hranges
      exact hranges
    | some found =>
      rw [hnext] at hranges
      obtain ⟨later, hlater, rfl⟩ := Option.map_eq_some_iff.mp hranges
      exact Option.map_eq_some_iff.mpr ⟨later, ih hlater (Nat.le_of_succ_le_succ hmore), rfl⟩

end Walk

section Units

variable {isSlice : Byte → Bool} {bytes tail rest : List Byte} {turns : Nat}

/-- A NAL unit in a stream: its start code, of four bytes or three, and its bytes, among which there
is no start code and which do not end in a zero. -/
structure FramedNal where
  long : Bool
  bytes : List Byte
  nonempty : bytes ≠ []
  noStartCode : ∀ j, startCodeLen (bytes.drop j) = none
  last : bytes.getLast? ≠ some 0

namespace FramedNal

def header (nal : FramedNal) : Byte := nal.bytes.getD 0 0

def framed (nal : FramedNal) : List Byte := startCode nal.long ++ nal.bytes

end FramedNal

/-- NAL units that are no slices, and a slice behind them. -/
structure AccessUnit (isSlice : Byte → Bool) where
  others : List FramedNal
  slice : FramedNal
  others_not : ∀ nal ∈ others, isSlice nal.header = false
  slice_is : isSlice slice.header = true

def AccessUnit.framed (au : AccessUnit isSlice) : List Byte :=
  au.others.flatMap FramedNal.framed ++ au.slice.framed

/-- The stream of some access units. -/
def stream (aus : List (AccessUnit isSlice)) : List Byte := aus.flatMap AccessUnit.framed

/-- Where access units are that follow each other from an offset on. -/
def spans : Nat → List (AccessUnit isSlice) → List (Nat × Nat)
  | _, [] => []
  | off, au :: aus => (off, au.framed.length) :: spans (off + au.framed.length) aus

/-- No start code begins among the bytes of a unit, whatever comes behind them. -/
theorem startCodeLen_append (hsome : l ≠ []) (hnone : startCodeLen l = none)
    (hlast : l.getLast? ≠ some 0) (tail : List Byte) : startCodeLen (l ++ tail) = none := by
  rcases l with _ | ⟨b₀, _ | ⟨b₁, _ | ⟨b₂, _ | ⟨b₃, rest⟩⟩⟩⟩
  · exact absurd rfl hsome
  · have hne : b₀ ≠ 0 := by simpa using hlast
    exact startCodeLen_ne_zero hne
  · have hne : b₁ ≠ 0 := by simpa using hlast
    by_cases h₀ : b₀ = 0
    · rw [h₀]
      exact startCodeLen_zero_ne hne
    · exact startCodeLen_ne_zero h₀
  · have hne : b₂ ≠ 0 := by simpa using hlast
    simp only [startCodeLen] at hnone
    split_ifs at hnone with h3 h4
    have h4' : ¬(b₀ = 0 ∧ b₁ = 0 ∧ b₂ = 0 ∧ tail.head? = some 1) := fun h => hne h.2.2.1
    simp only [List.cons_append, List.nil_append, startCodeLen, if_neg h3, if_neg h4']
  · exact hnone

/-- From inside a unit the search comes to what is behind it. -/
theorem auScan_bytes (nal : FramedNal) {j : Nat} (hj : j ≤ nal.bytes.length)
    (tail : List Byte) (i : Nat) :
    auScan (nal.bytes.drop j ++ tail) i = auScan tail (i + (nal.bytes.length - j)) := by
  have hlen : (nal.bytes.drop j).length = nal.bytes.length - j := List.length_drop
  rw [auScan_skip (nal.bytes.length - j)]
  · rw [← hlen, List.drop_left]
  · rw [List.length_append, hlen]
    exact Nat.le_add_right _ _
  · intro k hk
    have hk' : k ≤ (nal.bytes.drop j).length := by
      rw [hlen]
      exact hk.le
    have hdrop : (nal.bytes.drop j ++ tail).drop k = nal.bytes.drop (j + k) ++ tail := by
      rw [List.drop_append_of_le_length hk', List.drop_drop]
    rw [hdrop]
    refine startCodeLen_append ?_ (nal.noStartCode _) ?_ tail
    · intro hnil
      have := List.drop_eq_nil_iff.mp hnil
      omega
    · rw [List.getLast?_drop, if_neg (by omega)]
      exact nal.last

def frames (nals : List FramedNal) : List Byte := nals.flatMap FramedNal.framed

/-- No zero comes before a unit. -/
def Clean (buf : List Byte) (pos : Nat) : Prop := pos = 0 ∨ buf.getD (pos - 1) 0 ≠ 0

section Framed

variable {nal : FramedNal} (hbuf : buf.drop pos = nal.framed ++ tail)

include hbuf

theorem drop_header : buf.drop (pos + (startCode nal.long).length) = nal.bytes ++ tail := by
  rw [← List.drop_drop, hbuf, FramedNal.framed, List.append_assoc, List.drop_left]

theorem drop_behind : buf.drop (pos + nal.framed.length) = tail := by
  rw [← List.drop_drop, hbuf, List.drop_left]

theorem find_header : auFindStartCode buf pos = some (pos + (startCode nal.long).length) := by
  rw [auFindStartCode, hbuf, FramedNal.framed, List.append_assoc]
  exact auScan_some (startCodeLen_startCode _ _)

theorem getD_header : pos + (startCode nal.long).length < buf.length ∧
    buf.getD (pos + (startCode nal.long).length) 0 = nal.header := by
  have hdrop := drop_header hbuf
  have hpos : 0 < nal.bytes.length := List.length_pos_iff.mpr nal.nonempty
  have hlen := congrArg List.length hdrop
  rw [List.length_drop, List.length_append] at hlen
  have hfirst : (nal.bytes ++ tail)[0]? = nal.bytes[0]? := List.getElem?_append_left hpos
  refine ⟨by omega, ?_⟩
  rw [FramedNal.header, List.getD_eq_getElem?_getD, List.getD_eq_getElem?_getD, ← hfirst, ← hdrop,
    List.getElem?_drop, Nat.add_zero]

/-- Behind the header of a unit the search finds what comes after the unit. -/
theorem find_behind : auFindStartCode buf (pos + (startCode nal.long).length + 1) =
    auFindStartCode buf (pos + nal.framed.length) := by
  have hpos : 1 ≤ nal.bytes.length := List.length_pos_iff.mpr nal.nonempty
  have hlen : nal.framed.length = (startCode nal.long).length + nal.bytes.length := by
    rw [FramedNal.framed, List.length_append]
  have hdrop : buf.drop (pos + (startCode nal.long).length + 1) = nal.bytes.drop 1 ++ tail := by
    rw [← List.drop_drop, drop_header hbuf, List.drop_append_of_le_length hpos]
  rw [auFindStartCode, hdrop, auScan_bytes nal hpos, auFindStartCode, drop_behind hbuf]
  congr 1
  omega

theorem getD_framed {k : Nat} (hk : k < nal.framed.length) :
    buf.getD (pos + k) 0 = nal.framed.getD k 0 := by
  have hfirst : (nal.framed ++ tail)[k]? = nal.framed[k]? := List.getElem?_append_left hk
  rw [List.getD_eq_getElem?_getD, List.getD_eq_getElem?_getD, ← hfirst, ← hbuf, List.getElem?_drop]

theorem clean_behind : Clean buf (pos + nal.framed.length) := by
  have hpos : 0 < nal.bytes.length := List.length_pos_iff.mpr nal.nonempty
  have hlen : nal.framed.length = (startCode nal.long).length + nal.bytes.length := by
    rw [FramedNal.framed, List.length_append]
  have hback : pos + nal.framed.length - 1 = pos + (nal.framed.length - 1) := by omega
  have hlast : nal.framed[nal.framed.length - 1]? = nal.bytes.getLast? := by
    rw [← List.getLast?_eq_getElem?, FramedNal.framed,
      List.getLast?_append_of_ne_nil _ nal.nonempty]
  right
  rw [hback, getD_framed hbuf (by omega), List.getD_eq_getElem?_getD, hlast]
  cases hbytes : nal.bytes.getLast? with
  | none => exact absurd (List.getLast?_eq_none_iff.mp hbytes) nal.nonempty
  | some b =>
    rintro rfl
    exact nal.last hbytes

/-- A unit begins where its start code does. -/
theorem backup_header (hclean : Clean buf pos) :
    backupTo4byteSc buf (pos + (startCode nal.long).length - 3) = pos := by
  have hlen : nal.framed.length = (startCode nal.long).length + nal.bytes.length := by
    rw [FramedNal.framed, List.length_append]
  cases hlong : nal.long with
  | true =>
    have hfirst : nal.framed.getD 0 0 = 0 := by simp [FramedNal.framed, hlong, startCode]
    have hzero : buf.getD pos 0 = 0 := by
      rw [hlong] at hlen
      have := getD_framed hbuf (k := 0) (by rw [hlen]; simp [startCode])
      rwa [hfirst, Nat.add_zero] at this
    have hback : pos + (startCode true).length - 3 = pos + 1 := rfl
    rw [hback, backupTo4byteSc, if_pos ⟨Nat.succ_pos pos, hzero⟩]
    rfl
  | false =>
    have hback : pos + (startCode false).length - 3 = pos := rfl
    rw [hback, backupTo4byteSc, if_neg]
    rintro ⟨hpos, hzero⟩
    rcases hclean with rfl | hne
    · exact absurd hpos (Nat.lt_irrefl 0)
    · exact hne hzero

end Framed

theorem frames_cons (nal : FramedNal) (nals : List FramedNal) :
    frames (nal :: nals) = nal.framed ++ frames nals := rfl

/-- A turn of the walk at a unit. -/
theorem sliceWalk_unit {nal : FramedNal} (hbuf : buf.drop pos = nal.framed ++ tail) :
    sliceWalk isSlice buf (turns + 1) (pos + (startCode nal.long).length) =
      if isSlice nal.header then
        match auFindStartCode buf (pos + nal.framed.length) with
        | none => some (pos + (startCode nal.long).length, buf.length)
        | some nxt => some (pos + (startCode nal.long).length, backupTo4byteSc buf (nxt - 3))
      else
        match auFindStartCode buf (pos + nal.framed.length) with
        | none => none
        | some nxt => sliceWalk isSlice buf turns nxt := by
  obtain ⟨hlt, hheader⟩ := getD_header hbuf
  rw [sliceWalk, if_pos hlt, hheader, find_behind hbuf]

/-- The walk over units that are no slices and a slice, from the header of the first of them on. -/
theorem sliceWalk_units {others rest : List FramedNal} {slice : FramedNal}
    (hothers : ∀ nal ∈ others, isSlice nal.header = false) (hslice : isSlice slice.header = true)
    (hbuf : buf.drop pos = frames (others ++ slice :: rest))
    (hfind : auFindStartCode buf pos = some h) (hturns : others.length < turns) :
    ∃ sliceNh, sliceWalk isSlice buf turns h =
      some (sliceNh, pos + (frames (others ++ [slice])).length) := by
  obtain ⟨turns, rfl⟩ : ∃ n, turns = n + 1 := ⟨turns - 1, by omega⟩
  induction others generalizing pos h turns with
  | nil =>
    rw [List.nil_append, frames_cons] at hbuf
    rw [find_header hbuf] at hfind
    cases hfind
    rw [sliceWalk_unit hbuf, if_pos hslice, List.nil_append, frames_cons, frames, List.flatMap_nil,
      List.append_nil]
    have hbehind := drop_behind hbuf
    cases rest with
    | nil =>
      have hnone : auFindStartCode buf (pos + slice.framed.length) = none := by
        rw [auFindStartCode, hbehind]
        rfl
      have hend : buf.length = pos + slice.framed.length := by
        have hlen := congrArg List.length hbuf
        rw [List.length_drop, List.length_append] at hlen
        have hpos := (getD_header hbuf).1
        simp only [frames, List.flatMap_nil, List.length_nil] at hlen
        omega
      exact ⟨_, by rw [hnone, hend]⟩
    | cons nal rest =>
      rw [frames_cons] at hbehind
      rw [find_header hbehind]
      dsimp only
      rw [backup_header hbehind (clean_behind hbuf)]
      exact ⟨_, rfl⟩
  | cons nal others ih =>
    rw [List.cons_append, frames_cons] at hbuf
    rw [find_header hbuf] at hfind
    cases hfind
    have hno : ¬isSlice nal.header = true := by
      rw [hothers nal List.mem_cons_self]
      exact Bool.false_ne_true
    obtain ⟨turns, rfl⟩ : ∃ n, turns = n + 1 := by
      rw [List.length_cons] at hturns
      exact ⟨turns - 1, by omega⟩
    obtain ⟨next, hnext⟩ : ∃ next, auFindStartCode buf (pos + nal.framed.length) = some next := by
      have hbehind := drop_behind hbuf
      cases others with
      | nil => exact ⟨_, find_header hbehind⟩
      | cons later others => exact ⟨_, find_header hbehind⟩
    obtain ⟨sliceNh, hwalk⟩ :=
      ih (fun later hlater => hothers later (List.mem_cons_of_mem _ hlater))
      (drop_behind hbuf) hnext turns (Nat.lt_of_succ_lt_succ hturns)
    refine ⟨sliceNh, ?_⟩
    rw [sliceWalk_unit hbuf, if_neg hno, hnext]
    dsimp only
    rw [hwalk, List.cons_append, frames_cons, List.length_append, Nat.add_assoc]

theorem AccessUnit.framed_eq (au : AccessUnit isSlice) :
    au.framed = frames (au.others ++ [au.slice]) := by
  simp [framed, frames]

/-- The units of access units, in one list. -/
def nalsOf (aus : List (AccessUnit isSlice)) : List FramedNal :=
  aus.flatMap fun au => au.others ++ [au.slice]

theorem stream_eq (aus : List (AccessUnit isSlice)) : stream aus = frames (nalsOf aus) := by
  induction aus with
  | nil => rfl
  | cons au aus ih =>
    have hfirst : stream (au :: aus) = au.framed ++ stream aus := rfl
    have hnals : nalsOf (au :: aus) = (au.others ++ [au.slice]) ++ nalsOf aus := rfl
    rw [hfirst, ih, AccessUnit.framed_eq, hnals]
    simp only [frames, List.flatMap_append]

theorem length_le_frames (nals : List FramedNal) : nals.length ≤ (frames nals).length := by
  induction nals with
  | nil => exact Nat.le_refl 0
  | cons nal nals ih =>
    have hpos : 0 < nal.bytes.length := List.length_pos_iff.mpr nal.nonempty
    rw [frames_cons, List.length_append, FramedNal.framed, List.length_append, List.length_cons]
    omega

/-- A call where an access unit begins. -/
theorem auNextCommon_unit {au : AccessUnit isSlice} {aus : List (AccessUnit isSlice)}
    (hbuf : buf.drop pos = stream (au :: aus)) (hclean : Clean buf pos) :
    ∃ sliceOff, auNextCommon isSlice ⟨buf, pos⟩ =
      some (⟨pos, au.framed.length, sliceOff⟩, ⟨buf, pos + au.framed.length⟩) := by
  have hnals : buf.drop pos = frames (au.others ++ au.slice :: nalsOf aus) := by
    rw [hbuf, stream_eq]
    simp [nalsOf]
  obtain ⟨first, later, hfirst⟩ : ∃ first later, au.others ++ au.slice :: nalsOf aus =
      first :: later := by
    cases au.others with
    | nil => exact ⟨_, _, rfl⟩
    | cons first others => exact ⟨_, _, rfl⟩
  have hfront : buf.drop pos = first.framed ++ frames later := by
    rw [hnals, hfirst, frames_cons]
  have hfind := find_header hfront
  have hroom : au.others.length < buf.length := by
    have hlen := congrArg List.length hnals
    have hunits := length_le_frames (au.others ++ au.slice :: nalsOf aus)
    rw [List.length_drop] at hlen
    rw [List.length_append, List.length_cons] at hunits
    omega
  obtain ⟨sliceNh, hwalk⟩ := sliceWalk_units au.others_not au.slice_is hnals hfind hroom
  have hpos : ¬buf.length ≤ pos := by
    have := (getD_header hfront).1
    omega
  refine ⟨backupTo4byteSc buf (sliceNh - 3), ?_⟩
  rw [auNextCommon, if_neg hpos, hfind]
  dsimp only
  rw [hwalk, backup_header hfront hclean, ← au.framed_eq]
  dsimp only
  rw [Nat.add_sub_cancel_left]

/-- Behind an access unit comes the next one, and no zero before it. -/
theorem behind_unit {au : AccessUnit isSlice} {aus : List (AccessUnit isSlice)}
    (hbuf : buf.drop pos = stream (au :: aus)) :
    buf.drop (pos + au.framed.length) = stream aus ∧ Clean buf (pos + au.framed.length) := by
  have hsplit : stream (au :: aus) = au.framed ++ stream aus := rfl
  have hother : au.framed = frames au.others ++ au.slice.framed := rfl
  have hslice : buf.drop (pos + (frames au.others).length) = au.slice.framed ++ stream aus := by
    rw [← List.drop_drop, hbuf, hsplit, hother, List.append_assoc, List.drop_left]
  have hlen : pos + au.framed.length =
      pos + (frames au.others).length + au.slice.framed.length := by
    rw [hother, List.length_append, Nat.add_assoc]
  rw [hlen]
  exact ⟨drop_behind hslice, clean_behind hslice⟩

theorem ranges_stream {aus : List (AccessUnit isSlice)} {calls : Nat}
    (hbuf : buf.drop pos = stream aus) (hclean : Clean buf pos) (hcalls : aus.length < calls) :
    (AuIter.ranges (auNextCommon isSlice) calls ⟨buf, pos⟩).map
      (List.map fun range => (range.auOff, range.auLen)) = some (spans pos aus) := by
  obtain ⟨calls, rfl⟩ : ∃ n, calls = n + 1 := ⟨calls - 1, by omega⟩
  induction aus generalizing pos calls with
  | nil =>
    have hend : buf.length ≤ pos := List.drop_eq_nil_iff.mp hbuf
    rw [AuIter.ranges, auNextCommon, if_pos hend]
    rfl
  | cons au aus ih =>
    obtain ⟨sliceOff, hnext⟩ := auNextCommon_unit hbuf hclean
    obtain ⟨hbehind, hclean⟩ := behind_unit hbuf
    obtain ⟨calls, rfl⟩ : ∃ n, calls = n + 1 := by
      rw [List.length_cons] at hcalls
      exact ⟨calls - 1, by omega⟩
    have hlater := ih hbehind hclean calls (Nat.lt_of_succ_lt_succ hcalls)
    rw [AuIter.ranges, hnext]
    dsimp only
    cases hranges : AuIter.ranges (auNextCommon isSlice) (calls + 1)
      ⟨buf, pos + au.framed.length⟩ with
    | none =>
      rw [hranges] at hlater
      cases hlater
    | some ranges =>
      rw [hranges] at hlater
      simp only [Option.map_some, Option.some.injEq] at hlater
      simp only [Option.map_some, List.map_cons, hlater, spans]

end Units

/-- The walker comes to the end of every buffer, and its ranges partition what is behind the first
start code; of a stream of access units they are the access units. -/
theorem au_iteration_partitions (codec : Codec) :
    (∀ buf : List Byte, ∃ ranges, Partitions ranges buf ∧
      ∀ calls, buf.length < calls →
      AuIter.ranges (auNext codec) calls (auIterInit buf) = some ranges) ∧
    ∀ (aus : List (AccessUnit (nalIsSlice codec))) (calls : Nat), (stream aus).length < calls →
      (AuIter.ranges (auNext codec) calls (auIterInit (stream aus))).map
        (List.map fun range => (range.auOff, range.auLen)) = some (spans 0 aus) := by
  refine ⟨?_, ?_⟩
  · intro buf
    have hpos : (auIterInit buf).pos ≤ buf.length := Nat.zero_le _
    have hcalls : buf.length < buf.length + 1 + (auIterInit buf).pos := Nat.lt_succ_self _
    obtain ⟨ranges, hranges, hparts, -⟩ :=
      @ranges_spec (nalIsSlice codec) (auIterInit buf) _ hpos hcalls
    refine ⟨ranges, hparts, ?_⟩
    intro calls hcalls
    exact ranges_mono hranges hcalls
  · intro aus calls hcalls
    have hfew : aus.length ≤ (stream aus).length := by
      have hunits := length_le_frames (nalsOf aus)
      rw [← stream_eq] at hunits
      refine le_trans ?_ hunits
      rw [nalsOf, List.length_flatMap]
      clear hcalls hunits
      induction aus with
      | nil => exact le_rfl
      | cons au aus ih =>
        rw [List.map_cons, List.sum_cons, List.length_append, List.length_cons,
          List.length_singleton]
        omega
    exact ranges_stream rfl (.inl rfl) (lt_of_le_of_lt hfew hcalls)

/-- A slice without parameter sets. -/
def loneSlice : AccessUnit (nalIsSlice .h264) where
  others := []
  slice := {
    long := false
    bytes := [0x65, 7]
    nonempty := List.cons_ne_nil _ _
    noStartCode := by
      intro j
      rcases j with _ | _ | j
      · rfl
      · rfl
      · simp [startCodeLen]
    last := by decide }
  others_not := by simp
  slice_is := by decide

/-- A slice with an SPS before it. -/
def sliceWithSps : AccessUnit (nalIsSlice .h264) where
  others := [{
    long := true
    bytes := [0x67, 0x42]
    nonempty := List.cons_ne_nil _ _
    noStartCode := by
      intro j
      rcases j with _ | _ | j
      · rfl
      · rfl
      · simp [startCodeLen]
    last := by decide }]
  slice := loneSlice.slice
  others_not := by decide
  slice_is := loneSlice.slice_is

theorem two_slices_iterated :
    (AuIter.ranges (auNext .h264) 17 (auIterInit (stream [sliceWithSps, loneSlice]))).map
      (List.map fun range => (range.auOff, range.auLen)) = some [(0, 11), (11, 5)] :=
  (au_iteration_partitions .h264).2 [sliceWithSps, loneSlice] 17 (by decide)

/-- Two access units, the second one without parameter sets and behind a start code of three
bytes. -/
example : (AuIter.ranges (auNext .h264) 30 (auIterInit
    [9, 0, 0, 0, 1, 0x67, 0x42, 0, 0, 1, 0x65, 7, 0, 0, 1, 0x41, 7, 0, 0, 1])) =
      some [⟨1, 11, 7⟩, ⟨12, 5, 12⟩] := by
  decide

end Rkvdec.Bitstream
