import Rkvdec.Bitstream.BitReader
import Mathlib.Tactic

/-! Samples from an MP4 container: units behind length fields, rewritten with start codes before the
parsers see them. -/
namespace Rkvdec.Bitstream

/-- What `AvccToAnnexB` comes to. `overrun` is a `memcpy` past the end of the output buffer. -/
inductive Conversion where
  | rejected
  | overrun
  | converted (out : List Byte)
deriving DecidableEq

inductive NalFraming where
  | annexB
  | avcc4
deriving DecidableEq

def kStartCode : List Byte := [0, 0, 0, 1]

/-- `read_be_len`: the length field at the head of the bytes. -/
def readBeLen (p : List Byte) : Nat → Nat
  | 1 => (p.getD 0 0).toNat
  | 2 => (p.getD 0 0).toNat * 2 ^ 8 + (p.getD 1 0).toNat
  | 4 => (p.getD 0 0).toNat * 2 ^ 24 + (p.getD 1 0).toNat * 2 ^ 16 + (p.getD 2 0).toNat * 2 ^ 8 +
      (p.getD 3 0).toNat
  | _ => 0

/-- The return value is an `int`. -/
def returnLength (out : List Byte) : Conversion :=
  if 0x7FFFFFFF < out.length then .rejected else .converted out

/-- The loop of `AvccToAnnexB` over the `rest` of the sample. The room that a unit needs is computed
with 32 bits. A turn takes at least one byte, so the length of the sample bounds the turns. -/
def avccLoop (lenSize outCapacity : Nat) : Nat → List Byte → List Byte → Conversion
  | 0, _, out => returnLength out
  | turns + 1, rest, out =>
    if rest = [] then returnLength out
    else if rest.length < lenSize then .rejected
    else
      let nalLen := readBeLen rest lenSize
      let body := rest.drop lenSize
      if nalLen = 0 then .rejected
      else if body.length < nalLen then .rejected
      else if outCapacity - out.length < (4 + nalLen) % 2 ^ 32 then .rejected
      else if outCapacity < out.length + (4 + nalLen) then .overrun
      else avccLoop lenSize outCapacity turns (body.drop nalLen)
        (out ++ (kStartCode ++ body.take nalLen))

def avccToAnnexB (input : List Byte) (lenSize outCapacity : Nat) : Conversion :=
  if lenSize ≠ 1 ∧ lenSize ≠ 2 ∧ lenSize ≠ 4 then .rejected
  else avccLoop lenSize outCapacity input.length input []

/-! The three callers, each with what it does with the converted bytes as a parameter. `none` stands
for the undefined behaviour of an overrun. -/

/-- The sample in a buffer of 64 bytes more. -/
def convertSample {α : Type} (next : List Byte → α) (fail : α) (lenSize : Nat) (au : List Byte) :
    Option α :=
  match avccToAnnexB au lenSize (au.length + 64) with
  | .rejected => some fail
  | .overrun => none
  | .converted out => some (next out)

def decodeOneFramed {α : Type} (decodeOne : List Byte → α) (fail : α) (framing : NalFraming)
    (lenSize : Nat) (au : List Byte) : Option α :=
  if framing = .annexB then some (decodeOne au) else convertSample decodeOne fail lenSize au

def submitFramed {α : Type} (submit : List Byte → α) (fail : α) (framing : NalFraming)
    (lenSize : Nat) (au : List Byte) : Option α :=
  if framing = .annexB then some (submit au) else convertSample submit fail lenSize au

/-- `DecodeEngine_FeedExtradata`, which has nothing to do for an empty sample. -/
def feedExtradata {α : Type} (parse : List Byte → α) (done fail : α) (framing : NalFraming)
    (lenSize : Nat) (au : List Byte) : Option α :=
  if au = [] then some done
  else if framing = .avcc4 then convertSample parse fail lenSize au
  else some (parse au)

section Sample

variable {lenSize outCapacity turns v : Nat} {nal last rest out : List Byte}
  {nals : List (List Byte)}

/-- A length, as a field of `n` bytes with the high byte first. -/
def lengthField : Nat → Nat → List Byte
  | 0, _ => []
  | n + 1, v => BitVec.ofNat 8 (v / 256 ^ n) :: lengthField n v

/-- A unit behind its length. -/
def avccUnit (lenSize : Nat) (nal : List Byte) : List Byte := lengthField lenSize nal.length ++ nal

def avccSample (lenSize : Nat) (nals : List (List Byte)) : List Byte :=
  nals.flatMap (avccUnit lenSize)

/-- The units, each behind a start code of four bytes. -/
def annexB (nals : List (List Byte)) : List Byte := nals.flatMap (kStartCode ++ ·)

/-- A unit that is not empty and whose length the field can hold. -/
structure Representable (lenSize : Nat) (nal : List Byte) : Prop where
  nonempty : nal ≠ []
  short : nal.length < 256 ^ lenSize

/-- The sizes a length field has. -/
def IsLenSize (lenSize : Nat) : Prop := lenSize = 1 ∨ lenSize = 2 ∨ lenSize = 4

@[simp] theorem length_lengthField (n v : Nat) : (lengthField n v).length = n := by
  induction n with
  | zero => rfl
  | succ n ih => simp [lengthField, ih]

@[simp] theorem length_kStartCode : kStartCode.length = 4 := rfl

theorem length_avccUnit : (avccUnit lenSize nal).length = lenSize + nal.length := by
  simp [avccUnit]

/-- The field is read back, whatever comes behind it. -/
theorem readBeLen_lengthField (hsize : IsLenSize lenSize) (hv : v < 256 ^ lenSize)
    (rest : List Byte) :
    readBeLen (lengthField lenSize v ++ rest) lenSize = v := by
  rcases hsize with rfl | rfl | rfl
  all_goals
    simp only [lengthField, List.cons_append, List.nil_append, readBeLen, List.getD_cons_zero,
      List.getD_cons_succ, BitVec.toNat_ofNat, pow_zero, Nat.div_one]
    omega

/-- A turn over a whole unit. -/
theorem avccLoop_unit (hsize : IsLenSize lenSize) (hnal : Representable lenSize nal)
    (rest : List Byte) :
    avccLoop lenSize outCapacity (turns + 1) (avccUnit lenSize nal ++ rest) out =
      if outCapacity - out.length < (4 + nal.length) % 2 ^ 32 then .rejected
      else if outCapacity < out.length + (4 + nal.length) then .overrun
      else avccLoop lenSize outCapacity turns rest (out ++ (kStartCode ++ nal)) := by
  have hpos : 0 < nal.length := List.length_pos_iff.mpr hnal.nonempty
  have hfield : (avccUnit lenSize nal ++ rest).drop lenSize = nal ++ rest := by
    rw [avccUnit, List.append_assoc]
    exact List.drop_left' (length_lengthField _ _)
  have hlen : readBeLen (avccUnit lenSize nal ++ rest) lenSize = nal.length := by
    rw [avccUnit, List.append_assoc]
    exact readBeLen_lengthField hsize hnal.short _
  have hlong : (avccUnit lenSize nal ++ rest).length = lenSize + nal.length + rest.length := by
    rw [List.length_append, length_avccUnit]
  have hsome : avccUnit lenSize nal ++ rest ≠ [] := by
    intro hnil
    rw [hnil, List.length_nil] at hlong
    omega
  have hbody : ¬(nal ++ rest).length < nal.length := by
    rw [List.length_append]
    omega
  have hroom : ¬(avccUnit lenSize nal ++ rest).length < lenSize := by omega
  simp only [avccLoop, if_neg hsome, if_neg hroom, hlen, hfield, if_neg hbody, hpos.ne', if_false,
    List.drop_left, List.take_left]

/-- The room for a unit is checked, if it is short enough for the check or there is room. -/
theorem avccLoop_checked (hsize : IsLenSize lenSize) (hnal : Representable lenSize nal)
    (hout : out.length ≤ outCapacity)
    (hcheck : 4 + nal.length < 2 ^ 32 ∨ out.length + (4 + nal.length) ≤ outCapacity) :
    avccLoop lenSize outCapacity (turns + 1) (avccUnit lenSize nal ++ rest) out =
      if out.length + (4 + nal.length) ≤ outCapacity then
        avccLoop lenSize outCapacity turns rest (out ++ (kStartCode ++ nal))
      else .rejected := by
  have hmod : (4 + nal.length) % 2 ^ 32 ≤ 4 + nal.length := Nat.mod_le _ _
  rw [avccLoop_unit hsize hnal]
  by_cases hfits : out.length + (4 + nal.length) ≤ outCapacity
  · have hroom : ¬outCapacity - out.length < (4 + nal.length) % 2 ^ 32 := by omega
    rw [if_neg hroom, if_neg (Nat.not_lt.mpr hfits), if_pos hfits]
  · have hexact : (4 + nal.length) % 2 ^ 32 = 4 + nal.length :=
      Nat.mod_eq_of_lt (hcheck.resolve_right hfits)
    have hroom : outCapacity - out.length < (4 + nal.length) % 2 ^ 32 := by omega
    rw [if_pos hroom, if_neg hfits]

theorem annexB_cons : annexB (nal :: nals) = kStartCode ++ nal ++ annexB nals := rfl

theorem avccSample_cons :
    avccSample lenSize (nal :: nals) = avccUnit lenSize nal ++ avccSample lenSize nals := rfl

/-- What each unit gains or loses. -/
theorem length_annexB (nals : List (List Byte)) :
    (annexB nals).length + lenSize * nals.length =
      (avccSample lenSize nals).length + 4 * nals.length := by
  induction nals with
  | nil => rfl
  | cons nal nals ih =>
    simp only [annexB_cons, avccSample_cons, List.length_append, length_avccUnit, length_kStartCode,
      List.length_cons, Nat.mul_add]
    omega

/-- The loop over whole units: it goes through all of them if there is room for all, and else
rejects the sample. -/
theorem avccLoop_units (hsize : IsLenSize lenSize) (hnals : ∀ nal ∈ nals, Representable lenSize nal)
    (hout : out.length ≤ outCapacity)
    (hcheck : (∀ nal ∈ nals, 4 + nal.length < 2 ^ 32) ∨
      out.length + (annexB nals).length ≤ outCapacity) :
    avccLoop lenSize outCapacity (turns + nals.length) (avccSample lenSize nals ++ rest) out =
      if out.length + (annexB nals).length ≤ outCapacity then
        avccLoop lenSize outCapacity turns rest (out ++ annexB nals)
      else .rejected := by
  induction nals generalizing out with
  | nil =>
    have hfits : out.length + (annexB []).length ≤ outCapacity := hout
    rw [if_pos hfits]
    simp [avccSample, annexB]
  | cons nal nals ih =>
    have hlen : (annexB (nal :: nals)).length = 4 + nal.length + (annexB nals).length := by
      rw [annexB_cons, List.length_append, List.length_append, length_kStartCode]
    have hfirst : 4 + nal.length < 2 ^ 32 ∨ out.length + (4 + nal.length) ≤ outCapacity := by
      rcases hcheck with hshort | hfits
      · exact .inl (hshort nal List.mem_cons_self)
      · right
        omega
    rw [avccSample_cons, List.append_assoc, List.length_cons, ← Nat.add_assoc,
      avccLoop_checked hsize (hnals nal List.mem_cons_self) hout hfirst]
    by_cases hroom : out.length + (4 + nal.length) ≤ outCapacity
    · have hout' : (out ++ (kStartCode ++ nal)).length = out.length + (4 + nal.length) := by
        rw [List.length_append, List.length_append, length_kStartCode]
      have hlater : (∀ nal ∈ nals, 4 + nal.length < 2 ^ 32) ∨
          (out ++ (kStartCode ++ nal)).length + (annexB nals).length ≤ outCapacity := by
        rcases hcheck with hshort | hfits
        · exact .inl fun later hlater => hshort later (List.mem_cons_of_mem _ hlater)
        · right
          omega
      rw [if_pos hroom, ih (fun later hlater => hnals later (List.mem_cons_of_mem _ hlater))
        (by omega) hlater, hout', hlen, Nat.add_assoc out.length, annexB_cons]
      simp only [List.append_assoc]
    · have hnone : ¬out.length + (annexB (nal :: nals)).length ≤ outCapacity := by omega
      rw [if_neg hroom, if_neg hnone]

/-- A unit that is cut short. -/
theorem avccLoop_truncated (hsize : IsLenSize lenSize)
    (hlast : Representable lenSize last) {k : Nat} (hsome : 0 < k)
    (hcut : k < (avccUnit lenSize last).length) :
    avccLoop lenSize outCapacity (turns + 1) ((avccUnit lenSize last).take k) out = .rejected := by
  have hlen : ((avccUnit lenSize last).take k).length = k := by
    rw [List.length_take]
    omega
  have hrest : (avccUnit lenSize last).take k ≠ [] := by
    intro hnil
    rw [hnil, List.length_nil] at hlen
    omega
  rw [avccLoop, if_neg hrest]
  split
  · rfl
  · rename_i hfield
    have hread : readBeLen ((avccUnit lenSize last).take k) lenSize = last.length := by
      have htake : (avccUnit lenSize last).take k =
          lengthField lenSize last.length ++ last.take (k - lenSize) := by
        rw [avccUnit, List.take_append, length_lengthField,
          List.take_of_length_le (by rw [length_lengthField]; omega)]
      rw [htake]
      exact readBeLen_lengthField hsize hlast.short _
    have hbody : (((avccUnit lenSize last).take k).drop lenSize).length < last.length := by
      rw [List.length_drop]
      rw [length_avccUnit] at hcut
      omega
    simp only [hread, if_pos hbody, ite_self]

/-- The room a caller gives: a sample fits unless its length fields are too short for its units. -/
theorem fits_iff (rest : List Byte) (hsize : IsLenSize lenSize) :
    (annexB nals).length ≤ (avccSample lenSize nals ++ rest).length + 64 ↔
      (4 - lenSize) * nals.length ≤ 64 + rest.length := by
  have hlen := @length_annexB lenSize nals
  rw [List.length_append]
  rcases hsize with rfl | rfl | rfl <;> omega

theorem length_le_avccSample (hsize : IsLenSize lenSize) (nals : List (List Byte)) :
    nals.length ≤ (avccSample lenSize nals).length := by
  have hpos : 1 ≤ lenSize := by
    rcases hsize with rfl | rfl | rfl <;> decide
  induction nals with
  | nil => exact le_rfl
  | cons nal nals ih =>
    rw [avccSample_cons, List.length_append, length_avccUnit, List.length_cons]
    omega

/-- The conversion goes through the whole units and then over what comes behind them. -/
theorem avccToAnnexB_units (hsize : IsLenSize lenSize)
    (hnals : ∀ nal ∈ nals, Representable lenSize nal) (rest : List Byte)
    (hcheck : (∀ nal ∈ nals, 4 + nal.length < 2 ^ 32) ∨ (annexB nals).length ≤ outCapacity) :
    ∃ turns, rest.length ≤ turns ∧
      avccToAnnexB (avccSample lenSize nals ++ rest) lenSize outCapacity =
        if (annexB nals).length ≤ outCapacity then
          avccLoop lenSize outCapacity turns rest (annexB nals)
        else .rejected := by
  have hvalid : ¬(lenSize ≠ 1 ∧ lenSize ≠ 2 ∧ lenSize ≠ 4) := by
    rcases hsize with rfl | rfl | rfl <;> decide
  have hunits := length_le_avccSample hsize nals
  obtain ⟨more, hmore⟩ := Nat.exists_eq_add_of_le hunits
  have hturns : (avccSample lenSize nals ++ rest).length = more + rest.length + nals.length := by
    rw [List.length_append]
    omega
  have hloop := @avccLoop_units lenSize outCapacity (more + rest.length) rest [] nals hsize hnals
    (Nat.zero_le _)
  simp only [List.length_nil, Nat.zero_add, List.nil_append] at hloop
  refine ⟨more + rest.length, Nat.le_add_left _ _, ?_⟩
  rw [avccToAnnexB, if_neg hvalid, hturns, hloop hcheck]

/-- The buffer of a caller is never overrun: short units are checked, and units behind fields of
four bytes do not grow. -/
theorem checked_of_caller (hsize : IsLenSize lenSize)
    (hnals : ∀ nal ∈ nals, Representable lenSize nal) (rest : List Byte) :
    (∀ nal ∈ nals, 4 + nal.length < 2 ^ 32) ∨
      (annexB nals).length ≤ (avccSample lenSize nals ++ rest).length + 64 := by
  by_cases hfour : lenSize = 4
  · right
    rw [fits_iff rest hsize, hfour]
    omega
  · left
    intro nal hnal
    have hshort := (hnals nal hnal).short
    rcases hsize with rfl | rfl | rfl
    · omega
    · omega
    · exact absurd rfl hfour

@[simp] theorem avccLoop_end (turns : Nat) :
    avccLoop lenSize outCapacity turns [] out = returnLength out := by
  cases turns with
  | zero => rfl
  | succ turns => rw [avccLoop, if_pos rfl]

/-- A whole sample, in a buffer that holds what comes out. -/
theorem avccToAnnexB_sample (hsize : IsLenSize lenSize)
    (hnals : ∀ nal ∈ nals, Representable lenSize nal) (hfits : (annexB nals).length ≤ outCapacity) :
    avccToAnnexB (avccSample lenSize nals) lenSize outCapacity = returnLength (annexB nals) := by
  obtain ⟨turns, -, heq⟩ := avccToAnnexB_units hsize hnals [] (.inr hfits)
  rw [List.append_nil, if_pos hfits, avccLoop_end] at heq
  exact heq

/-- A caller either has the room for a whole sample or fails. -/
theorem convertSample_sample {α : Type} (next : List Byte → α) (fail : α)
    (hsize : IsLenSize lenSize) (hnals : ∀ nal ∈ nals, Representable lenSize nal) :
    convertSample next fail lenSize (avccSample lenSize nals) =
      if (4 - lenSize) * nals.length ≤ 64 ∧ (annexB nals).length ≤ 0x7FFFFFFF then
        some (next (annexB nals))
      else some fail := by
  obtain ⟨turns, -, heq⟩ := avccToAnnexB_units hsize hnals [] (checked_of_caller hsize hnals [])
  have hroom := @fits_iff lenSize nals [] hsize
  rw [List.append_nil, avccLoop_end] at heq
  rw [List.append_nil, List.length_nil, Nat.add_zero] at hroom
  unfold convertSample
  by_cases hfits : (annexB nals).length ≤ (avccSample lenSize nals).length + 64
  · rw [if_pos hfits] at heq
    rw [heq, returnLength]
    by_cases hint : 0x7FFFFFFF < (annexB nals).length
    · rw [if_pos hint, if_neg fun h => Nat.not_lt.mpr h.2 hint]
    · rw [if_neg hint, if_pos ⟨hroom.mp hfits, Nat.not_lt.mp hint⟩]
  · rw [if_neg hfits] at heq
    rw [heq, if_neg fun h => hfits (hroom.mpr h.1)]

/-- A caller fails on a sample whose last unit is cut short. -/
theorem convertSample_truncated {α : Type} (next : List Byte → α) (fail : α)
    (hsize : IsLenSize lenSize) (hnals : ∀ nal ∈ nals, Representable lenSize nal)
    (hlast : Representable lenSize last) {k : Nat} (hsome : 0 < k)
    (hcut : k < (avccUnit lenSize last).length) :
    convertSample next fail lenSize (avccSample lenSize nals ++ (avccUnit lenSize last).take k) =
      some fail := by
  obtain ⟨turns, hturns, heq⟩ := avccToAnnexB_units hsize hnals ((avccUnit lenSize last).take k)
    (checked_of_caller hsize hnals _)
  have hlen : ((avccUnit lenSize last).take k).length = k := by
    rw [List.length_take]
    omega
  obtain ⟨turns, rfl⟩ : ∃ n, turns = n + 1 := ⟨turns - 1, by omega⟩
  rw [avccLoop_truncated hsize hlast hsome hcut, ite_self] at heq
  rw [convertSample, heq]

/-- Whatever the buffer, a sample whose last unit is cut short is rejected: no room check wraps
around on the units before. -/
theorem avccToAnnexB_truncated (hsize : IsLenSize lenSize)
    (hnals : ∀ nal ∈ nals, Representable lenSize nal) (hlast : Representable lenSize last) {k : Nat}
    (hsome : 0 < k) (hcut : k < (avccUnit lenSize last).length)
    (hshort : ∀ nal ∈ nals, 4 + nal.length < 2 ^ 32) (outCapacity : Nat) :
    avccToAnnexB (avccSample lenSize nals ++ (avccUnit lenSize last).take k) lenSize outCapacity =
      .rejected := by
  have heq := @avccToAnnexB_units lenSize outCapacity nals hsize hnals
    ((avccUnit lenSize last).take k) (.inl hshort)
  obtain ⟨turns, hturns, heq⟩ := heq
  have hlen : ((avccUnit lenSize last).take k).length = k := by
    rw [List.length_take]
    omega
  obtain ⟨turns, rfl⟩ : ∃ n, turns = n + 1 := ⟨turns - 1, by omega⟩
  rw [avccLoop_truncated hsize hlast hsome hcut, ite_self] at heq
  exact heq

/-- A unit is no longer than all of them. -/
theorem unit_le_annexB (hnal : nal ∈ nals) : 4 + nal.length ≤ (annexB nals).length := by
  induction nals with
  | nil => cases hnal
  | cons first nals ih =>
    rw [annexB_cons, List.length_append, List.length_append, length_kStartCode]
    rcases List.mem_cons.mp hnal with rfl | hlater
    · omega
    · have hle := ih hlater
      omega

end Sample

/-- What is promised of the units of a sample: it is converted to them, each behind a start code, if
the buffer holds that; the buffers of the callers do; and a sample whose last unit is cut short is
rejected, whatever the buffer. -/
structure ConvertsExactly (lenSize : Nat) (nals : List (List Byte)) : Prop where
  converted : ∀ outCapacity, (annexB nals).length ≤ outCapacity →
    avccToAnnexB (avccSample lenSize nals) lenSize outCapacity = .converted (annexB nals)
  decoded : ∀ (α : Type) (decodeOne : List Byte → α) (fail : α),
    decodeOneFramed decodeOne fail .avcc4 lenSize (avccSample lenSize nals) =
      some (decodeOne (annexB nals))
  submitted : ∀ (α : Type) (submit : List Byte → α) (fail : α),
    submitFramed submit fail .avcc4 lenSize (avccSample lenSize nals) = some (submit (annexB nals))
  fed : ∀ (α : Type) (parse : List Byte → α) (done fail : α),
    feedExtradata parse done fail .avcc4 lenSize (avccSample lenSize nals) =
      some (if nals = [] then done else parse (annexB nals))
  truncated : ∀ last, Representable lenSize last → ∀ k, 0 < k → k < (avccUnit lenSize last).length →
    let cut := avccSample lenSize nals ++ (avccUnit lenSize last).take k
    (∀ outCapacity, avccToAnnexB cut lenSize outCapacity = .rejected) ∧
      ∀ (α : Type) (next : List Byte → α) (done fail : α),
        decodeOneFramed next fail .avcc4 lenSize cut = some fail ∧
          submitFramed next fail .avcc4 lenSize cut = some fail ∧
          feedExtradata next done fail .avcc4 lenSize cut = some fail

/-- When the conversion keeps what it promises. A unit behind a field of 1 or 2 bytes grows by 3 or
2 bytes, and the callers have 64 to spare: 21 units, or 32. The length of what comes out is an
`int`. -/
theorem converts_exactly_iff (lenSize : Nat) (nals : List (List Byte)) (hsize : IsLenSize lenSize)
    (hnals : ∀ nal ∈ nals, Representable lenSize nal) :
    ConvertsExactly lenSize nals ↔
      (4 - lenSize) * nals.length ≤ 64 ∧ nals.flatten.length + 4 * nals.length ≤ 0x7FFFFFFF := by
  have hlen : (annexB nals).length = nals.flatten.length + 4 * nals.length := by
    clear hnals
    induction nals with
    | nil => rfl
    | cons nal nals ih =>
      rw [annexB_cons, List.length_append, List.length_append, ih, length_kStartCode,
        List.flatten_cons, List.length_append, List.length_cons]
      omega
  rw [← hlen]
  constructor
  · intro h
    by_contra hcond
    have hpassed := h.submitted (Option (List Byte)) some none
    rw [submitFramed, if_neg (by decide), convertSample_sample some none hsize hnals,
      if_neg hcond] at hpassed
    cases hpassed
  · intro hcond
    have hcaller {α : Type} (next : List Byte → α) (fail : α) :
        convertSample next fail lenSize (avccSample lenSize nals) = some (next (annexB nals)) := by
      rw [convertSample_sample next fail hsize hnals, if_pos hcond]
    refine { converted := ?_, decoded := ?_, submitted := ?_, fed := ?_, truncated := ?_ }
    · intro outCapacity hfits
      rw [avccToAnnexB_sample hsize hnals hfits, returnLength, if_neg (Nat.not_lt.mpr hcond.2)]
    · intro α decodeOne fail
      rw [decodeOneFramed, if_neg (by decide), hcaller]
    · intro α submit fail
      rw [submitFramed, if_neg (by decide), hcaller]
    · intro α parse done fail
      rw [feedExtradata, if_pos rfl, hcaller]
      have hempty : avccSample lenSize nals = [] ↔ nals = [] := by
        constructor
        · intro hnil
          have hunits := length_le_avccSample hsize nals
          rw [hnil] at hunits
          exact List.length_eq_zero_iff.mp (Nat.le_zero.mp hunits)
        · rintro rfl
          rfl
      simp only [hempty]
      split <;> rfl
    · intro last hlast k hsome hcut
      have hfails {α : Type} (next : List Byte → α) (fail : α) :=
        convertSample_truncated next fail hsize
        hnals hlast hsome hcut
      have hshort (nal : List Byte) (hnal : nal ∈ nals) : 4 + nal.length < 2 ^ 32 := by
        have hle := unit_le_annexB hnal
        omega
      refine ⟨avccToAnnexB_truncated hsize hnals hlast hsome hcut hshort, ?_⟩
      intro α next done fail
      refine ⟨?_, ?_, ?_⟩
      · rw [decodeOneFramed, if_neg (by decide), hfails]
      · rw [submitFramed, if_neg (by decide), hfails]
      · have hbytes : avccSample lenSize nals ++ (avccUnit lenSize last).take k ≠ [] := by
          intro hnil
          have hzero := congrArg List.length hnil
          rw [List.length_append, List.length_take, List.length_nil] at hzero
          omega
        rw [feedExtradata, if_neg hbytes, if_pos rfl, hfails]

theorem two_units_convert : ConvertsExactly 2 [[0x67, 0x42], [0x68]] :=
  (converts_exactly_iff 2 [[0x67, 0x42], [0x68]] (.inr (.inl rfl)) fun nal hnal => by
    fin_cases hnal
    · exact ⟨by decide, by decide⟩
    · exact ⟨by decide, by decide⟩).mpr ⟨by decide, by decide⟩

/-- A sample of 22 units of one byte, behind length fields of one byte. -/
def manyUnits : List (List Byte) := List.replicate 22 [0x65]

/-- It takes 110 bytes with start codes, and the buffer has 108. -/
theorem many_units_rejected :
    IsLenSize 1 ∧ (∀ nal ∈ manyUnits, Representable 1 nal) ∧
      (avccSample 1 manyUnits).length = 44 ∧ (annexB manyUnits).length = 110 ∧
      submitFramed some none .avcc4 1 (avccSample 1 manyUnits) = some none ∧
      ¬ConvertsExactly 1 manyUnits := by
  have hfails : submitFramed some none .avcc4 1 (avccSample 1 manyUnits) = some none := by
    decide +kernel
  refine ⟨.inl rfl, ?_, by decide, by decide, hfails, ?_⟩
  · intro nal hnal
    obtain rfl := List.eq_of_mem_replicate hnal
    exact ⟨by decide, by decide⟩
  · intro h
    have hpassed := h.submitted (Option (List Byte)) some none
    rw [hfails] at hpassed
    cases hpassed

end Rkvdec.Bitstream
