import Rkvdec.Bitstream.H264
import Rkvdec.Bitstream.H265

/-! Which NAL units the access unit parsers find in a buffer. Payloads that are escaped and put
behind start codes are handed to the unit parsers as they were. -/
namespace Rkvdec.Bitstream

variable {σ τ : Type} {header scratchSize : Nat} {buf : List Byte}
  {visit : AuState σ τ → List Byte → AuState σ τ}

/-- A unit the loop hands to the unit parsers: the offset of its header and its RBSP. -/
structure NalUnit where
  off : Nat
  rbsp : List Byte

/-- The units from offset `pos` on, and whether the loop comes to the end of the buffer. It gives up
at a unit that is too short or for which the scratch buffer has no room. -/
def nalUnits (header : Nat) (buf : List Byte) (scratchSize : Nat) :
    Nat → Nat → Nat → List NalUnit × Bool
  | 0, _, _ => ([], true)
  | turns + 1, pos, scratchOff =>
    if buf.length ≤ pos then ([], true)
    else
      let nalStart := (findStartCode buf pos).1
      if buf.length ≤ nalStart then ([], true)
      else
        let nalEnd := nalEndAt buf nalStart
        let thisSize := nalEnd - nalStart
        if scratchSize < scratchOff + thisSize then ([], false)
        else
          let rbsp := ebspToRbsp ((buf.drop nalStart).take thisSize) (scratchSize - scratchOff)
          if rbsp.length < header then ([], false)
          else
            let later := nalUnits header buf scratchSize turns nalEnd (scratchOff + rbsp.length)
            (⟨nalStart, rbsp⟩ :: later.1, later.2)

/-- The units go through the switch one by one until one of them is rejected. -/
def feed (visit : AuState σ τ → List Byte → AuState σ τ) :
    List (List Byte) → Bool → AuState σ τ → AuState σ τ
  | [], complete, s => if complete then s else { s with status := some .invalid }
  | rbsp :: rest, complete, s =>
    let s := visit s rbsp
    if s.status.isSome then s else feed visit rest complete s

/-- The loop finds the units and feeds them to the switch. -/
theorem auLoop_eq_feed (turns pos scratchOff : Nat) (s : AuState σ τ) :
    auLoop header visit buf scratchSize turns pos scratchOff s =
      feed visit ((nalUnits header buf scratchSize turns pos scratchOff).1.map NalUnit.rbsp)
        (nalUnits header buf scratchSize turns pos scratchOff).2 s := by
  induction turns generalizing pos scratchOff s with
  | zero => rfl
  | succ turns ih =>
    simp only [auLoop, nalUnits]
    split_ifs with hpos hstart hscratch hheader hstatus
    · rfl
    · rfl
    · rfl
    · rfl
    · simp [feed, hstatus]
    · simp only [List.map_cons, feed, hstatus, Bool.false_eq_true, if_false]
      exact ih _ _ _

section StartCodes

variable {len i : Nat} {b : Byte} {l tail : List Byte}

/-- The length of the start code at the head of the bytes, if there is one. -/
def startCodeLen : List Byte → Option Nat
  | b₀ :: b₁ :: b₂ :: rest =>
    if b₀ = 0 ∧ b₁ = 0 ∧ b₂ = 1 then some 3
    else if b₀ = 0 ∧ b₁ = 0 ∧ b₂ = 0 ∧ rest.head? = some 1 then some 4
    else none
  | _ => none

theorem scan_none (h : startCodeLen (b :: l) = none) :
    scanStartCode len (b :: l) i = scanStartCode len l (i + 1) := by
  rcases l with _ | ⟨b₁, _ | ⟨b₂, rest⟩⟩
  · rfl
  · rfl
  · simp only [startCodeLen] at h
    split_ifs at h with h3 h4
    simp only [scanStartCode, if_neg h3, if_neg h4]

theorem scan_some {n : Nat} (h : startCodeLen l = some n) :
    scanStartCode len l i = (i + n, i) := by
  rcases l with _ | ⟨b₀, _ | ⟨b₁, _ | ⟨b₂, rest⟩⟩⟩
  · simp [startCodeLen] at h
  · simp [startCodeLen] at h
  · simp [startCodeLen] at h
  · simp only [startCodeLen] at h
    split_ifs at h with h3 h4
    · cases h
      simp only [scanStartCode, if_pos h3]
    · cases h
      simp only [scanStartCode, if_neg h3, if_pos h4]

theorem startCodeLen_ne_zero (h : b ≠ 0) : startCodeLen (b :: l) = none := by
  rcases l with _ | ⟨b₁, _ | ⟨b₂, rest⟩⟩
  · rfl
  · rfl
  · simp_all [startCodeLen]

theorem startCodeLen_zero_ne (h : b ≠ 0) : startCodeLen (0 :: b :: l) = none := by
  rcases l with _ | ⟨b₂, rest⟩
  · rfl
  · simp_all [startCodeLen]

theorem startCodeLen_zeros_ne (h₀ : b ≠ 0) (h₁ : b ≠ 1) :
    startCodeLen (0 :: 0 :: b :: l) = none := by
  simp_all [startCodeLen]

/-- Two zeros and a byte other than 0 and 1 hold no start code. -/
theorem scan_zeros {z : Nat} (hz : z ≤ 2) (h₀ : b ≠ 0) (h₁ : z = 2 → b ≠ 1) :
    scanStartCode len (List.replicate z 0 ++ b :: l) i = scanStartCode len l (i + z + 1) := by
  obtain rfl | rfl | rfl : z = 0 ∨ z = 1 ∨ z = 2 := by omega
  · exact scan_none (startCodeLen_ne_zero h₀)
  · exact (scan_none (startCodeLen_zero_ne h₀)).trans (scan_none (startCodeLen_ne_zero h₀))
  · exact (scan_none (startCodeLen_zeros_ne h₀ (h₁ rfl))).trans
      ((scan_none (startCodeLen_zero_ne h₀)).trans (scan_none (startCodeLen_ne_zero h₀)))

end StartCodes

section Escape

/-- The run of zeros that ends with `b`. -/
def zerosAfter (zeros : Nat) (b : Byte) : Nat := if b = 0 then zeros + 1 else 0

/-- The encoder's rule: a 3 goes after two zeros if a byte of at most 3 follows. `zeros` are the
zeros just written. -/
def escape : Nat → List Byte → List Byte
  | _, [] => []
  | zeros, b :: rest =>
    if zeros = 2 ∧ b.toNat ≤ 3 then 3 :: b :: escape (zerosAfter 0 b) rest
    else b :: escape (zerosAfter zeros b) rest

variable {zeros cap : Nat} {b : Byte} {rest : List Byte}

theorem escape_cut (h : b.toNat ≤ 3) :
    escape 2 (b :: rest) = 3 :: b :: escape (zerosAfter 0 b) rest := by
  rw [escape, if_pos ⟨rfl, h⟩]

theorem escape_keep (h : ¬ (zeros = 2 ∧ b.toNat ≤ 3)) :
    escape zeros (b :: rest) = b :: escape (zerosAfter zeros b) rest := by
  rw [escape, if_neg h]

theorem zerosAfter_le (h : ¬ (zeros = 2 ∧ b.toNat ≤ 3)) (hz : zeros ≤ 2) :
    zerosAfter zeros b ≤ 2 := by
  by_cases hb : b = 0
  · subst hb
    have : zeros ≠ 2 := fun he => h ⟨he, by decide⟩
    simp only [zerosAfter, if_pos]
    omega
  · simp only [zerosAfter, if_neg hb, Nat.zero_le]

theorem length_le_escape (zeros : Nat) (p : List Byte) : p.length ≤ (escape zeros p).length := by
  induction p generalizing zeros with
  | nil => exact Nat.zero_le _
  | cons b rest ih =>
    by_cases h : zeros = 2 ∧ b.toNat ≤ 3
    · obtain ⟨rfl, hle⟩ := h
      have := ih (zerosAfter 0 b)
      simp only [escape_cut hle, List.length_cons]
      omega
    · have := ih (zerosAfter zeros b)
      simp only [escape_keep h, List.length_cons]
      omega

/-- The parser's rule undoes it. -/
theorem ebspLoop_escape (p out : List Byte) (hz : zeros ≤ 2) (hcap : out.length + p.length ≤ cap) :
    ebspLoop cap (escape zeros p) zeros out = some (out ++ p) := by
  induction p generalizing zeros out with
  | nil => simp [escape, ebspLoop]
  | cons b rest ih =>
    simp only [List.length_cons] at hcap
    have hroom : ¬ cap ≤ out.length := by omega
    have hlen : (out ++ [b]).length + rest.length ≤ cap := by
      simp only [List.length_append, List.length_singleton]
      omega
    -- the byte itself is kept in either case
    have hkeep : ∀ z ≤ 2, ¬ (z = 2 ∧ b.toNat ≤ 3) →
        ebspLoop cap (b :: escape (zerosAfter z b) rest) z out = some (out ++ b :: rest) := by
      intro z hz h
      have hb : ¬ (2 ≤ z ∧ b = 3) := by
        rintro ⟨h2, rfl⟩
        exact h ⟨by omega, by decide⟩
      have := ih (out ++ [b]) (zerosAfter_le h hz) hlen
      simpa only [ebspLoop, if_neg hb, if_neg hroom, zerosAfter, List.append_assoc,
        List.singleton_append] using this
    by_cases h : zeros = 2 ∧ b.toNat ≤ 3
    · obtain ⟨rfl, hle⟩ := h
      rw [escape_cut hle, ebspLoop, if_pos ⟨le_refl 2, rfl⟩]
      exact hkeep 0 (by omega) (by omega)
    · rw [escape_keep h]
      exact hkeep zeros hz h

/-- No start code begins in an escaped payload that does not end in a zero, nor in the zeros before
it. -/
theorem scan_escape (len : Nat) (tail p : List Byte) (i : Nat) (hz : zeros ≤ 2)
    (hend : p.getLast? ≠ some 0) (hnil : p = [] → zeros = 0) :
    scanStartCode len (List.replicate zeros 0 ++ (escape zeros p ++ tail)) i =
      scanStartCode len tail (i + zeros + (escape zeros p).length) := by
  induction p generalizing zeros i with
  | nil =>
    obtain rfl := hnil rfl
    simp [escape]
  | cons b rest ih =>
    have hrest : rest.getLast? ≠ some 0 := by
      intro h
      rcases rest with _ | ⟨c, rest⟩
      · simp at h
      · exact hend (by simpa using h)
    have hlast : b = 0 → rest ≠ [] := by
      rintro rfl rfl
      simp at hend
    -- past the byte itself, which no start code contains unless it is a zero
    have hbyte : ∀ z ≤ 2, ¬ (z = 2 ∧ b.toNat ≤ 3) → ∀ i,
        scanStartCode len (List.replicate z 0 ++ (b :: escape (zerosAfter z b) rest ++ tail)) i =
          scanStartCode len tail (i + z + (escape (zerosAfter z b) rest).length + 1) := by
      intro z hz h i
      by_cases hb : b = 0
      · subst hb
        have := ih i (zerosAfter_le h hz) hrest (fun he => absurd he (hlast rfl))
        simp only [zerosAfter, if_pos] at this ⊢
        rw [List.replicate_succ', List.append_assoc, List.singleton_append] at this
        simpa [Nat.add_assoc, Nat.add_comm, Nat.add_left_comm] using this
      · have := ih (i + z + 1) (Nat.zero_le 2) hrest (fun _ => rfl)
        simp only [zerosAfter, if_neg hb]
        have hone : z = 2 → b ≠ 1 := by
          rintro rfl rfl
          exact h ⟨rfl, by decide⟩
        rw [List.cons_append, scan_zeros hz hb hone]
        simpa [Nat.add_assoc, Nat.add_comm, Nat.add_left_comm] using this
    by_cases h : zeros = 2 ∧ b.toNat ≤ 3
    · obtain ⟨rfl, hle⟩ := h
      have := hbyte 0 (by omega) (by omega) (i + 2 + 1)
      rw [escape_cut hle, List.cons_append, scan_zeros (le_refl 2) (by decide) (by decide)]
      refine Eq.trans this (congrArg _ ?_)
      simp only [List.length_cons]
      omega
    · have := hbyte zeros hz h i
      rw [escape_keep h]
      simpa [Nat.add_assoc, Nat.add_comm, Nat.add_left_comm] using this

end Escape

section Frames

/-- A start code of four bytes, or of three. -/
def startCode (long : Bool) : List Byte := if long then [0, 0, 0, 1] else [0, 0, 1]

/-- The payloads one after the other, each escaped and behind a start code. -/
def frame (units : List (Bool × List Byte)) : List Byte :=
  units.flatMap fun u => startCode u.1 ++ escape 0 u.2

/-- A payload that framing can carry: `header` bytes at least, and a last byte other than 0. -/
structure Payload (header : Nat) (p : List Byte) : Prop where
  size : header ≤ p.length
  nonempty : p ≠ []
  last : p.getLast? ≠ some 0

variable {u : Bool × List Byte} {rest : List (Bool × List Byte)} {pos scratchOff turns : Nat}

theorem startCodeLen_startCode (long : Bool) (l : List Byte) :
    startCodeLen (startCode long ++ l) = some (startCode long).length := by
  cases long <;> simp [startCode, startCodeLen]

theorem frame_cons : frame (u :: rest) = startCode u.1 ++ (escape 0 u.2 ++ frame rest) := by
  simp [frame]

/-- The next start code after a payload is the one of the next unit. -/
theorem scan_payload {p : List Byte} {len i : Nat} (hp : Payload header p)
    (units : List (Bool × List Byte)) (hlen : len = i + (escape 0 p ++ frame units).length) :
    (scanStartCode len (escape 0 p ++ frame units) i).2 = i + (escape 0 p).length := by
  have hscan := scan_escape len (frame units) p i (Nat.zero_le 2) hp.last fun _ => rfl
  simp only [List.replicate_zero, List.nil_append, Nat.add_zero] at hscan
  rw [hscan]
  cases units with
  | nil => simp [frame, scanStartCode, hlen]
  | cons u rest =>
    have hcode : startCodeLen (frame (u :: rest)) = some (startCode u.1).length := by
      rw [frame_cons]
      exact startCodeLen_startCode _ _
    rw [scan_some hcode]

/-- A unit at `pos` begins behind its start code and ends where the next one starts. -/
theorem bounds_unit (hp : Payload header u.2) (hbuf : buf.drop pos = frame (u :: rest)) :
    (findStartCode buf pos).1 = pos + (startCode u.1).length ∧
    nalEndAt buf (pos + (startCode u.1).length) =
      pos + (startCode u.1).length + (escape 0 u.2).length ∧
    buf.drop (pos + (startCode u.1).length) = escape 0 u.2 ++ frame rest := by
  rw [frame_cons] at hbuf
  have hdrop : buf.drop (pos + (startCode u.1).length) = escape 0 u.2 ++ frame rest := by
    rw [← List.drop_drop, hbuf, List.drop_left]
  have hsize : 0 < u.2.length := List.length_pos_iff.mpr hp.nonempty
  have hlong := length_le_escape 0 u.2
  have hlen := congrArg List.length hdrop
  simp only [List.length_drop, List.length_append] at hlen
  have hnext : (findStartCode buf (pos + (startCode u.1).length)).2 =
      pos + (startCode u.1).length + (escape 0 u.2).length := by
    rw [findStartCode, hdrop]
    refine scan_payload hp rest ?_
    simp only [List.length_append]
    omega
  refine ⟨?_, ?_, hdrop⟩
  · rw [findStartCode, hbuf, scan_some (startCodeLen_startCode _ _)]
  · simp only [nalEndAt, hnext]
    exact if_pos (by omega)

/-- One turn of the loop over framed payloads. -/
theorem nalUnits_unit (hp : Payload header u.2) (hbuf : buf.drop pos = frame (u :: rest))
    (hscratch : scratchOff + (frame (u :: rest)).length ≤ scratchSize) :
    nalUnits header buf scratchSize (turns + 1) pos scratchOff =
      let later := nalUnits header buf scratchSize turns
        (pos + (startCode u.1).length + (escape 0 u.2).length) (scratchOff + u.2.length)
      (⟨pos + (startCode u.1).length, u.2⟩ :: later.1, later.2) := by
  obtain ⟨hstart, hend, hdrop⟩ := bounds_unit hp hbuf
  have hsize : 0 < u.2.length := List.length_pos_iff.mpr hp.nonempty
  have hheader := hp.size
  have hlong := length_le_escape 0 u.2
  have hlen := congrArg List.length hdrop
  rw [frame_cons] at hscratch
  simp only [List.length_drop, List.length_append] at hlen hscratch
  have hrbsp : ebspToRbsp (escape 0 u.2) (scratchSize - scratchOff) = u.2 := by
    rw [ebspToRbsp, ebspLoop_escape u.2 [] (Nat.zero_le 2) (by simp only [List.length_nil]; omega)]
    rfl
  have hthis : pos + (startCode u.1).length + (escape 0 u.2).length -
      (pos + (startCode u.1).length) = (escape 0 u.2).length := by omega
  simp only [nalUnits, hstart, hend, hthis, hdrop, List.take_left, hrbsp]
  rw [if_neg (by omega), if_neg (by omega), if_neg (by omega), if_neg (by omega)]

/-- From the start of a unit on the loop finds the payloads. -/
theorem nalUnits_frame (units : List (Bool × List Byte)) (turns pos scratchOff : Nat)
    (hunits : ∀ u ∈ units, Payload header u.2) (hbuf : buf.drop pos = frame units)
    (hturns : (frame units).length ≤ turns)
    (hscratch : scratchOff + (frame units).length ≤ scratchSize) :
    (nalUnits header buf scratchSize turns pos scratchOff).1.map NalUnit.rbsp =
      units.map Prod.snd ∧ (nalUnits header buf scratchSize turns pos scratchOff).2 = true := by
  induction units generalizing turns pos scratchOff with
  | nil =>
    have hlen : buf.length ≤ pos := by simpa [frame] using hbuf
    cases turns with
    | zero => exact ⟨rfl, rfl⟩
    | succ turns => simp [nalUnits, hlen]
  | cons u rest ih =>
    have hp := hunits u List.mem_cons_self
    obtain ⟨-, -, hdrop⟩ := bounds_unit hp hbuf
    have hsize : 0 < u.2.length := List.length_pos_iff.mpr hp.nonempty
    have hlong := length_le_escape 0 u.2
    have hlen : (frame (u :: rest)).length =
        (startCode u.1).length + ((escape 0 u.2).length + (frame rest).length) := by
      simp only [frame_cons, List.length_append]
    obtain ⟨turns, rfl⟩ : ∃ t, turns = t + 1 := ⟨turns - 1, by omega⟩
    rw [nalUnits_unit hp hbuf hscratch]
    have hnext : buf.drop (pos + (startCode u.1).length + (escape 0 u.2).length) = frame rest := by
      rw [← List.drop_drop, hdrop, List.drop_left]
    obtain ⟨hmap, hdone⟩ := ih turns _ (scratchOff + u.2.length)
      (fun v hv => hunits v (List.mem_cons_of_mem _ hv)) hnext (by omega) (by omega)
    exact ⟨by simp only [List.map_cons, hmap], hdone⟩

/-- The loop hands the switch the framed payloads, one after the other and as they were. -/
theorem auLoop_frame (units : List (Bool × List Byte)) (hunits : ∀ u ∈ units, Payload header u.2)
    (hscratch : (frame units).length ≤ scratchSize) (s : AuState σ τ) :
    auLoop header visit (frame units) scratchSize (frame units).length 0 0 s =
      feed visit (units.map Prod.snd) true s := by
  obtain ⟨hmap, hdone⟩ := nalUnits_frame units (frame units).length 0 0 hunits
    (List.drop_zero (l := frame units)) le_rfl ((Nat.zero_add _).le.trans hscratch)
  rw [auLoop_eq_feed, hmap, hdone]

end Frames

namespace H264

/-- The state in which the loop starts. -/
def auStart (out : ParseResult) : Au :=
  { result := (resetAu out, ⟨out.prevPicOrderCntMsb, out.prevPicOrderCntLsb, out.prevFrameNum,
      out.prevFrameNumOffset⟩)
    status := none
    units := [] }

theorem auUnits_eq (buf : List Byte) (scratchSize : Nat) (out : ParseResult) :
    auUnits buf scratchSize out =
      auLoop 1 H264.visit buf scratchSize buf.length 0 0 (auStart out) := rfl

end H264

namespace H265

/-- The state in which the loop starts. -/
def auStart (out : ParseResult) : Au :=
  { result := (resetAu out, ⟨out.prevPocMsbTid0, out.prevPocLsbTid0⟩)
    status := none
    units := [] }

theorem auUnits_eq (buf : List Byte) (scratchSize : Nat) (out : ParseResult) :
    auUnits buf scratchSize out =
      auLoop 2 H265.visit buf scratchSize buf.length 0 0 (auStart out) := rfl

end H265

/-- Framing round trip. With a scratch buffer as long as the input, the loop of each parser hands
its switch exactly the payloads that were framed, in their order and unescaped, until it rejects
one. -/
theorem framing_round_trip (units : List (Bool × List Byte)) (scratchSize : Nat)
    (hlast : ∀ u ∈ units, u.2 ≠ [] ∧ u.2.getLast? ≠ some 0)
    (hscratch : (frame units).length ≤ scratchSize) :
    (∀ out, H264.auUnits (frame units) scratchSize out =
      feed H264.visit (units.map Prod.snd) true (H264.auStart out)) ∧
    ((∀ u ∈ units, 2 ≤ u.2.length) → ∀ out, H265.auUnits (frame units) scratchSize out =
      feed H265.visit (units.map Prod.snd) true (H265.auStart out)) := by
  constructor
  · intro out
    rw [H264.auUnits_eq]
    refine auLoop_frame units (fun u hu => ?_) hscratch _
    obtain ⟨hne, hend⟩ := hlast u hu
    exact ⟨List.length_pos_iff.mpr hne, hne, hend⟩
  · intro hsize out
    rw [H265.auUnits_eq]
    refine auLoop_frame units (fun u hu => ?_) hscratch _
    obtain ⟨hne, hend⟩ := hlast u hu
    exact ⟨hsize u hu, hne, hend⟩

/-- Two units that hold what looks like start codes. -/
abbrev zerosInside : List (Bool × List Byte) :=
  [(true, [0x41, 0, 0, 1, 0, 0, 0, 1]), (false, [0x26, 0, 0, 3, 0, 0, 1])]

theorem framing_round_trip_zeros :
    frame zerosInside = [0, 0, 0, 1, 0x41, 0, 0, 3, 1, 0, 0, 3, 0, 1, 0, 0, 1, 0x26, 0, 0, 3, 3, 0,
    0,
      3, 1] ∧
    H264.auUnits (frame zerosInside) 64 {} =
      feed H264.visit (zerosInside.map Prod.snd) true (H264.auStart {}) ∧
    H265.auUnits (frame zerosInside) 64 {} =
      feed H265.visit (zerosInside.map Prod.snd) true (H265.auStart {}) := by
  have h := framing_round_trip zerosInside 64 (by decide) (by decide)
  exact ⟨by decide, h.1 {}, h.2 (by decide) {}⟩

end Rkvdec.Bitstream
