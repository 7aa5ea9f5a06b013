import Mathlib.Tactic
import Rkvdec.Bitstream.BitReader
import Rkvdec.Lib.Prog

/-! The two walks over the OBUs of an AV1 temporal unit: `Av1WalkObus`, which records the OBUs that
produce a picture, and the scan for sequence headers in `Av1DecodeEngine_Submit`. -/
namespace Rkvdec.Av1

open Bitstream (Byte)

/-- A computation that reads bytes of a buffer by index. -/
abbrev Scan (α : Type) := Lib.Prog Nat (fun _ => Byte) α

def byteAt (i : Nat) : Scan Byte := Lib.Prog.request i

/-- The buffer answers every read; behind its end there is no telling what is read. -/
def answers (buf : List Byte) : Lib.Prog.Handler Nat (fun _ => Byte) Unit :=
  fun i _ => (buf.getD i 0, ())

def exec {α : Type} (buf : List Byte) (p : Scan α) : α := (p.run (answers buf) ()).1

/-- Every read is of a byte of the buffer. -/
def InBounds {α : Type} (buf : List Byte) (p : Scan α) : Prop :=
  p.All (answers buf) (fun i _ => i < buf.length) ()

/-- An OBU as the walks see it. -/
structure Obu where
  pos : Nat
  obuType : Nat
  hdrLen : Nat
  sizeLen : Nat
  obuSize : Nat
deriving DecidableEq, Repr

def Obu.payloadOff (o : Obu) : Nat := o.pos + o.hdrLen + o.sizeLen
def Obu.next (o : Obu) : Nat := o.payloadOff + o.obuSize

/-- `AV1ObuRecord`. -/
structure ObuRecord where
  sliceStart : Nat
  sliceSize : Nat
  frameTagOff : Nat
  obuType : Nat
  showExisting : Bool
deriving DecidableEq, Repr

def obuTypeOf (hdr : Byte) : Nat := ((hdr >>> 3) &&& 0xf).toNat
def extFlag (hdr : Byte) : Bool := (hdr >>> 2) &&& 1 != 0
def hasSize (hdr : Byte) : Bool := (hdr >>> 1) &&& 1 != 0
def hdrLenOf (hdr : Byte) : Nat := 1 + if extFlag hdr then 1 else 0

/-- The loop over the size field in `Av1WalkObus`: the size and how many bytes it takes, `none` when
it runs into the end. -/
def walkSize (off len : Nat) : Nat → Nat → Nat → Scan (Option (Nat × Nat))
  | 0, sizeLen, obuSize => pure (some (obuSize, sizeLen))
  | n + 1, i, obuSize =>
    if len ≤ off + i then pure none
    else do
      let b ← byteAt (off + i)
      let obuSize := obuSize ||| (b &&& 0x7f).toNat <<< (i * 7)
      if b &&& 0x80 = 0 then pure (some (obuSize, i + 1)) else walkSize off len n (i + 1) obuSize

/-- The same loop in the scan: at the end of the buffer the size is 0 and the bytes read so far
count. -/
def scanSize (off len : Nat) : Nat → Nat → Nat → Scan (Nat × Nat)
  | 0, sizeLen, obuSize => pure (obuSize, sizeLen)
  | n + 1, i, obuSize =>
    if len ≤ off + i then pure (0, i)
    else do
      let b ← byteAt (off + i)
      let obuSize := obuSize ||| (b &&& 0x7f).toNat <<< (i * 7)
      if b &&& 0x80 = 0 then pure (obuSize, i + 1) else scanSize off len n (i + 1) obuSize

/-- The OBU, if it ends inside the buffer. A size has 56 bits, so the sums do not overflow. -/
def bounded (len : Nat) (o : Obu) : Option Obu :=
  if o.next ≤ o.pos ∨ len < o.next then none else some o

/-- The size of the OBU in the walk: coded, or up to the end of the buffer. -/
def walkSizeField (len pos : Nat) (hdr : Byte) : Scan (Option (Nat × Nat)) :=
  if hasSize hdr then walkSize (pos + hdrLenOf hdr) len 8 0 0
  else pure (some (len - pos - hdrLenOf hdr, 0))

/-- The size of the OBU in the scan. -/
def scanSizeField (len pos : Nat) (hdr : Byte) : Scan (Nat × Nat) :=
  if hasSize hdr then scanSize (pos + hdrLenOf hdr) len 8 0 0
  else pure (len - pos - hdrLenOf hdr, 0)

/-- One turn of `Av1WalkObus`; `none` for a malformed OBU. -/
def walkObu (len pos : Nat) : Scan (Option Obu) :=
  if len < pos + 1 then pure none
  else do
    let hdr ← byteAt pos
    if len < pos + hdrLenOf hdr then pure none
    else do
      let size ← walkSizeField len pos hdr
      pure (size.bind fun (obuSize, sizeLen) =>
        bounded len ⟨pos, obuTypeOf hdr, hdrLenOf hdr, sizeLen, obuSize⟩)

/-- One turn of the scan for sequence headers; `none` where it stops. -/
def scanObu (len pos : Nat) : Scan (Option Obu) :=
  if len < pos + 1 then pure none
  else do
    let hdr ← byteAt pos
    if len < pos + hdrLenOf hdr then pure none
    else do
      let size ← scanSizeField len pos hdr
      pure (bounded len ⟨pos, obuTypeOf hdr, hdrLenOf hdr, size.2, size.1⟩)

def producesPicture (o : Obu) : Bool := o.obuType == 3 || o.obuType == 6

/-- The bit `show_existing_frame`, if there is a payload. -/
def showExistingBit (o : Obu) : Scan Bool :=
  if 0 < o.obuSize then do
    let b ← byteAt o.payloadOff
    pure ((b >>> 7) &&& 1 != 0)
  else pure false

/-- The record of an OBU; the first one takes in what stands before it. -/
def record (first : Bool) (o : Obu) : Scan ObuRecord := do
  let sliceStart := if first then 0 else o.pos % 2 ^ 32
  let showExisting ← showExistingBit o
  pure
    { sliceStart := sliceStart
      sliceSize := (o.next - sliceStart) % 2 ^ 32
      frameTagOff := (o.pos - sliceStart + o.hdrLen + o.sizeLen) % 2 ^ 32
      obuType := o.obuType
      showExisting := showExisting }

/-- The vector after an OBU. -/
def pushRecord (out : List ObuRecord) (o : Obu) : Scan (List ObuRecord) :=
  if producesPicture o then do
    let r ← record out.isEmpty o
    pure (out ++ [r])
  else pure out

/-- `Av1WalkObus`: the OBUs it visits, and the records unless an OBU is malformed. -/
def walkLoop (len : Nat) : Nat → Nat → List ObuRecord → Scan (List Obu × Option (List ObuRecord))
  | 0, _, out => pure ([], some out)
  | fuel + 1, pos, out =>
    if len ≤ pos then pure ([], some out)
    else do
      match ← walkObu len pos with
      | none => pure ([], none)
      | some o => do
        let out ← pushRecord out o
        let rest ← walkLoop len fuel o.next out
        pure (o :: rest.1, rest.2)

/-- The scan for sequence headers: the OBUs it visits. -/
def scanLoop (len : Nat) : Nat → Nat → Scan (List Obu)
  | 0, _ => pure []
  | fuel + 1, pos =>
    if len ≤ pos then pure []
    else do
      match ← scanObu len pos with
      | none => pure []
      | some o => do
        let rest ← scanLoop len fuel o.next
        pure (o :: rest)

/-- The walk over a buffer. Every turn moves on, so its length is enough fuel. -/
def walk (buf : List Byte) : Scan (List Obu × Option (List ObuRecord)) :=
  walkLoop buf.length buf.length 0 []

def scan (buf : List Byte) : Scan (List Obu) := scanLoop buf.length buf.length 0

/-- The vector `Av1WalkObus` leaves. -/
def walkObus (buf : List Byte) : List ObuRecord := (exec buf (walk buf)).2.getD []

section Exec

variable {α β : Type} {buf : List Byte}

@[simp] theorem exec_pure (a : α) : exec buf (pure a) = a := rfl

@[simp] theorem exec_bind (p : Scan α) (f : α → Scan β) :
    exec buf (p >>= f) = exec buf (f (exec buf p)) := by
  simp [exec]

@[simp] theorem exec_byteAt (i : Nat) : exec buf (byteAt i) = buf.getD i 0 := rfl

theorem exec_ite (c : Prop) [Decidable c] (p q : Scan α) :
    exec buf (if c then p else q) = if c then exec buf p else exec buf q := by
  split <;> rfl

@[simp] theorem inBounds_pure (a : α) : InBounds buf (pure a) := trivial

@[simp] theorem inBounds_bind (p : Scan α) (f : α → Scan β) :
    InBounds buf (p >>= f) ↔ InBounds buf p ∧ InBounds buf (f (exec buf p)) := by
  simp [InBounds, exec]

@[simp] theorem inBounds_byteAt (i : Nat) : InBounds buf (byteAt i) ↔ i < buf.length := by
  simp [InBounds, byteAt]

theorem InBounds.ite {c : Prop} [Decidable c] {p q : Scan α} (hp : c → InBounds buf p)
    (hq : ¬ c → InBounds buf q) : InBounds buf (if c then p else q) := by
  split
  · exact hp ‹_›
  · exact hq ‹_›

end Exec

section Agreement

variable {buf : List Byte} {off pos i n size fuel : Nat} {o : Obu} {out : List ObuRecord}

/-- The two loops over the size field read the same; at the end of the buffer the second one has
counted what was left. -/
theorem scanSize_eq (h : off + i ≤ buf.length) :
    exec buf (scanSize off buf.length n i size) =
      (exec buf (walkSize off buf.length n i size)).getD (0, buf.length - off) := by
  induction n generalizing i size with
  | zero => rfl
  | succ n ih =>
    simp only [scanSize, walkSize, exec_ite, exec_bind, exec_pure]
    by_cases hend : buf.length ≤ off + i
    · have hi : i = buf.length - off := by omega
      rw [if_pos hend, if_pos hend, hi]
      rfl
    · rw [if_neg hend, if_neg hend]
      split
      · rfl
      · exact ih (by omega)

theorem inBounds_walkSize : InBounds buf (walkSize off buf.length n i size) := by
  induction n generalizing i size with
  | zero => trivial
  | succ n ih =>
    refine InBounds.ite (fun _ => trivial) (fun hend => ?_)
    simp only [inBounds_bind, inBounds_byteAt]
    exact ⟨by omega, InBounds.ite (fun _ => trivial) (fun _ => ih)⟩

theorem inBounds_scanSize : InBounds buf (scanSize off buf.length n i size) := by
  induction n generalizing i size with
  | zero => trivial
  | succ n ih =>
    refine InBounds.ite (fun _ => trivial) (fun hend => ?_)
    simp only [inBounds_bind, inBounds_byteAt]
    exact ⟨by omega, InBounds.ite (fun _ => trivial) (fun _ => ih)⟩

theorem scanSizeField_eq {hdr : Byte} (h : pos + hdrLenOf hdr ≤ buf.length) :
    exec buf (scanSizeField buf.length pos hdr) =
      (exec buf (walkSizeField buf.length pos hdr)).getD
        (0, buf.length - (pos + hdrLenOf hdr)) := by
  unfold scanSizeField walkSizeField
  split
  · exact scanSize_eq h
  · rfl

theorem bounded_some {len : Nat} {o o' : Obu} (h : bounded len o = some o') :
    o' = o ∧ o.pos < o.next ∧ o.next ≤ len := by
  unfold bounded at h
  split at h
  · cases h
  · cases h
    exact ⟨rfl, by omega, by omega⟩

/-- What a turn of the walk finds starts where the turn does and ends inside the buffer. -/
theorem walkObu_some (h : exec buf (walkObu buf.length pos) = some o) :
    o.pos = pos ∧ o.pos < o.next ∧ o.next ≤ buf.length := by
  simp only [walkObu, exec_ite, exec_bind, exec_pure] at h
  split at h
  · cases h
  split at h
  · cases h
  obtain ⟨⟨obuSize, sizeLen⟩, -, hbounded⟩ := Option.bind_eq_some_iff.mp h
  obtain ⟨rfl, hlt, hle⟩ := bounded_some hbounded
  exact ⟨rfl, hlt, hle⟩

theorem scanObu_of_walkObu (h : exec buf (walkObu buf.length pos) = some o) :
    exec buf (scanObu buf.length pos) = some o := by
  simp only [walkObu, scanObu, exec_ite, exec_bind, exec_pure] at h ⊢
  split at h
  · cases h
  rename_i hpos
  split at h
  · cases h
  rename_i hhdr
  rw [if_neg hpos, if_neg hhdr]
  obtain ⟨⟨obuSize, sizeLen⟩, hsize, hbounded⟩ := Option.bind_eq_some_iff.mp h
  rw [scanSizeField_eq (by omega), hsize]
  exact hbounded

/-- Where the walk finds an OBU malformed, the scan stops or takes what is left for one. -/
theorem scanObu_of_malformed (h : exec buf (walkObu buf.length pos) = none)
    (hscan : exec buf (scanObu buf.length pos) = some o) : o.pos = pos ∧ o.next = buf.length := by
  simp only [walkObu, scanObu, exec_ite, exec_bind, exec_pure] at h hscan
  split at hscan
  · cases hscan
  rename_i hpos
  split at hscan
  · cases hscan
  rename_i hhdr
  rw [if_neg hpos, if_neg hhdr] at h
  rw [scanSizeField_eq (by omega)] at hscan
  cases hsize : exec buf (walkSizeField buf.length pos (exec buf (byteAt pos))) with
  | some r =>
    rw [hsize] at h hscan
    exact absurd (h.symm.trans hscan) (by simp)
  | none =>
    rw [hsize] at hscan
    obtain ⟨rfl, -, -⟩ := bounded_some hscan
    refine ⟨rfl, ?_⟩
    simp only [Obu.next, Obu.payloadOff, Option.getD_none]
    omega

/-- One turn of the walk, when it goes on. -/
theorem exec_walkLoop_succ : exec buf (walkLoop buf.length (fuel + 1) pos out) =
    if buf.length ≤ pos then ([], some out)
    else match exec buf (walkObu buf.length pos) with
      | none => ([], none)
      | some o =>
        let rest := exec buf (walkLoop buf.length fuel o.next (exec buf (pushRecord out o)))
        (o :: rest.1, rest.2) := by
  simp only [walkLoop, exec_ite, exec_bind, exec_pure]
  split
  · rfl
  · split
    · rfl
    · simp only [exec_bind, exec_pure]

theorem exec_scanLoop_succ : exec buf (scanLoop buf.length (fuel + 1) pos) =
    if buf.length ≤ pos then []
    else match exec buf (scanObu buf.length pos) with
      | none => []
      | some o => o :: exec buf (scanLoop buf.length fuel o.next) := by
  simp only [scanLoop, exec_ite, exec_bind, exec_pure]
  split
  · rfl
  · split
    · rfl
    · simp only [exec_bind, exec_pure]

/-- Where the walk stopped. -/
def stopAt (pos : Nat) (visited : List Obu) : Nat := (visited.getLast?.map Obu.next).getD pos

theorem stopAt_cons (pos : Nat) (o : Obu) (visited : List Obu) :
    stopAt pos (o :: visited) = stopAt o.next visited := by
  cases visited with
  | nil => rfl
  | cons o' rest => simp [stopAt, List.getLast?_cons]

/-- The scan visits the OBUs of the walk, and behind a malformed one at most what is left of the
buffer. -/
def Agrees (len pos : Nat) (walked : List Obu × Option (List ObuRecord)) (scanned : List Obu) :
    Prop :=
  ∃ extra, scanned = walked.1 ++ extra ∧ (walked.2.isSome → extra = []) ∧
    (extra = [] ∨ ∃ o, extra = [o] ∧ o.pos = stopAt pos walked.1 ∧ o.next = len)

theorem loops_agree (buf : List Byte) (fuel pos : Nat) (out : List ObuRecord) :
    Agrees buf.length pos (exec buf (walkLoop buf.length fuel pos out))
      (exec buf (scanLoop buf.length fuel pos)) := by
  induction fuel generalizing pos out with
  | zero => exact ⟨[], rfl, fun _ => rfl, .inl rfl⟩
  | succ fuel ih =>
    rw [exec_walkLoop_succ, exec_scanLoop_succ]
    by_cases hend : buf.length ≤ pos
    · simp only [if_pos hend]
      exact ⟨[], rfl, fun _ => rfl, .inl rfl⟩
    · simp only [if_neg hend]
      cases hwalk : exec buf (walkObu buf.length pos) with
      | none =>
        cases hscan : exec buf (scanObu buf.length pos) with
        | none => exact ⟨[], rfl, fun _ => rfl, .inl rfl⟩
        | some o =>
          obtain ⟨hpos, hnext⟩ := scanObu_of_malformed hwalk hscan
          have hstop : exec buf (scanLoop buf.length fuel o.next) = [] := by
            cases fuel with
            | zero => rfl
            | succ fuel => rw [exec_scanLoop_succ, if_pos (by omega)]
          refine ⟨[o], ?_, by simp, .inr ⟨o, rfl, hpos, hnext⟩⟩
          simp only [hstop]
          rfl
      | some o =>
        rw [scanObu_of_walkObu hwalk]
        obtain ⟨extra, hscan, hok, hextra⟩ := ih o.next (exec buf (pushRecord out o))
        refine ⟨extra, by simp only [hscan, List.cons_append], hok, ?_⟩
        rw [stopAt_cons]
        exact hextra

theorem inBounds_walkLoop (fuel pos : Nat) (out : List ObuRecord) :
    InBounds buf (walkLoop buf.length fuel pos out) := by
  induction fuel generalizing pos out with
  | zero => trivial
  | succ fuel ih =>
    refine InBounds.ite (fun _ => trivial) (fun hend => ?_)
    rw [inBounds_bind]
    constructor
    · refine InBounds.ite (fun _ => trivial) (fun hpos => ?_)
      simp only [inBounds_bind, inBounds_byteAt]
      refine ⟨by omega, InBounds.ite (fun _ => trivial) (fun _ => ?_)⟩
      rw [inBounds_bind]
      exact ⟨InBounds.ite (fun _ => inBounds_walkSize) (fun _ => trivial), trivial⟩
    · cases hwalk : exec buf (walkObu buf.length pos) with
      | none => trivial
      | some o =>
        obtain ⟨-, hlt, hle⟩ := walkObu_some hwalk
        simp only [inBounds_bind, inBounds_pure, and_true]
        refine ⟨InBounds.ite (fun _ => ?_) (fun _ => trivial), ih _ _⟩
        simp only [record, inBounds_bind, inBounds_pure, and_true]
        refine InBounds.ite (fun hsize => ?_) (fun _ => trivial)
        simp only [inBounds_bind, inBounds_byteAt, inBounds_pure, and_true]
        unfold Obu.next at hle
        omega

theorem inBounds_scanLoop (fuel pos : Nat) : InBounds buf (scanLoop buf.length fuel pos) := by
  induction fuel generalizing pos with
  | zero => trivial
  | succ fuel ih =>
    refine InBounds.ite (fun _ => trivial) (fun hend => ?_)
    rw [inBounds_bind]
    constructor
    · refine InBounds.ite (fun _ => trivial) (fun hpos => ?_)
      simp only [inBounds_bind, inBounds_byteAt]
      refine ⟨by omega, InBounds.ite (fun _ => trivial) (fun _ => ?_)⟩
      rw [inBounds_bind]
      exact ⟨InBounds.ite (fun _ => inBounds_scanSize) (fun _ => trivial), trivial⟩
    · cases exec buf (scanObu buf.length pos) with
      | none => trivial
      | some o =>
        simp only [inBounds_bind, inBounds_pure, and_true]
        exact ih _

end Agreement

section RoundTrip

/-- A size in `k` bytes of seven bits, lowest first; all but the last have the high bit. -/
def lebBytes : Nat → Nat → List Byte
  | 0, _ => []
  | 1, n => [BitVec.ofNat 8 (n % 128)]
  | k + 2, n => BitVec.ofNat 8 (n % 128 + 128) :: lebBytes (k + 1) (n / 128)

/-- An OBU to be written: its header byte says whether the extension byte and the size field follow,
and the size field has `sizeBytes` bytes. -/
structure ObuSyntax where
  header : Byte
  extension : Byte
  sizeBytes : Nat
  payload : List Byte

namespace ObuSyntax

def sizeField (u : ObuSyntax) : List Byte :=
  if hasSize u.header then lebBytes u.sizeBytes u.payload.length else []

def framing (u : ObuSyntax) : List Byte :=
  u.header :: (if extFlag u.header then [u.extension] else []) ++ u.sizeField

def bytes (u : ObuSyntax) : List Byte := u.framing ++ u.payload

/-- The size fits the field. -/
def Fits (u : ObuSyntax) : Prop :=
  hasSize u.header = true → 1 ≤ u.sizeBytes ∧ u.sizeBytes ≤ 8 ∧
    u.payload.length < 2 ^ (7 * u.sizeBytes)

/-- The OBU at a position of the temporal unit. -/
def obuAt (u : ObuSyntax) (pos : Nat) : Obu where
  pos := pos
  obuType := obuTypeOf u.header
  hdrLen := hdrLenOf u.header
  sizeLen := u.sizeField.length
  obuSize := u.payload.length

end ObuSyntax

/-- Every size fits, and only the last OBU may have no size field. -/
def WellFormed : List ObuSyntax → Prop
  | [] => True
  | u :: us => u.Fits ∧ (hasSize u.header = true ∨ us = []) ∧ WellFormed us

def temporalUnit (us : List ObuSyntax) : List Byte := us.flatMap ObuSyntax.bytes

/-- Where the OBUs lie, from a position on. -/
def boundaries : Nat → List ObuSyntax → List Obu
  | _, [] => []
  | pos, u :: us => u.obuAt pos :: boundaries (pos + u.bytes.length) us

variable {buf pre post : List Byte} {u : ObuSyntax} {us : List ObuSyntax}
  {off i k n size fuel : Nat}

theorem low_bits (b : Byte) : (b &&& 0x7f).toNat = b.toNat % 128 := by
  revert b
  decide

theorem high_bit (b : Byte) : b &&& 0x80 = 0 ↔ b.toNat < 128 := by
  revert b
  decide

theorem or_shift (h : size < 2 ^ n) (a : Nat) : size ||| a <<< n = size + a * 2 ^ n := by
  rw [Nat.or_comm, ← Nat.shiftLeft_add_eq_or_of_lt h, Nat.shiftLeft_eq, Nat.add_comm]

/-- A byte of what stands at a position. -/
theorem getD_of_front {b : Byte} {rest : List Byte} (h : b :: rest <+: buf.drop off) :
    off < buf.length ∧ buf.getD off 0 = b ∧ rest <+: buf.drop (off + 1) := by
  obtain ⟨tail, htail⟩ := h
  have hdrop : buf.drop off = b :: (rest ++ tail) := htail.symm
  have hlt : off < buf.length := by
    by_contra hge
    rw [List.drop_eq_nil_of_le (by omega)] at hdrop
    cases hdrop
  rw [List.drop_eq_getElem_cons hlt] at hdrop
  obtain ⟨hhead, hrest⟩ := List.cons.inj hdrop
  refine ⟨hlt, ?_, tail, hrest.symm⟩
  rw [List.getD_eq_getElem?_getD, List.getElem?_eq_getElem hlt, hhead]
  rfl

/-- One turn of the loop over the size field. -/
theorem walkSize_turn {b : Byte} (hlt : off + i < buf.length) (hb : buf.getD (off + i) 0 = b)
    (hsize : size < 2 ^ (i * 7)) :
    exec buf (walkSize off buf.length (fuel + 1) i size) =
      if b.toNat < 128 then some (size + b.toNat % 128 * 2 ^ (i * 7), i + 1)
      else exec buf
        (walkSize off buf.length fuel (i + 1) (size + b.toNat % 128 * 2 ^ (i * 7))) := by
  simp only [walkSize, exec_ite, exec_bind, exec_pure]
  rw [if_neg (by omega), exec_byteAt, hb, low_bits, or_shift hsize]
  simp only [high_bit]

/-- The loop reads a size that is written, wherever it stands. -/
theorem walkSize_leb (hbytes : lebBytes (k + 1) n <+: buf.drop (off + i))
    (hn : n < 2 ^ (7 * (k + 1))) (hsize : size < 2 ^ (i * 7)) (hfuel : k < fuel) :
    exec buf (walkSize off buf.length fuel i size) =
    some (size + n * 2 ^ (i * 7), i + (k + 1)) := by
  induction k generalizing n i size fuel with
  | zero =>
    obtain ⟨fuel, rfl⟩ : ∃ f, fuel = f + 1 := ⟨fuel - 1, by omega⟩
    obtain ⟨hlt, hb, -⟩ := getD_of_front hbytes
    have hsmall : n % 128 = n := Nat.mod_eq_of_lt (by simpa using hn)
    rw [walkSize_turn hlt hb hsize, BitVec.toNat_ofNat, if_pos (by omega)]
    have hbyte : n % 128 % 2 ^ 8 % 128 = n := by omega
    rw [hbyte]
  | succ k ih =>
    obtain ⟨fuel, rfl⟩ : ∃ f, fuel = f + 1 := ⟨fuel - 1, by omega⟩
    obtain ⟨hlt, hb, hrest⟩ := getD_of_front hbytes
    have hbyte : (n % 128 + 128) % 2 ^ 8 = n % 128 + 128 := by omega
    have hpow : 2 ^ ((i + 1) * 7) = 2 ^ (i * 7) * 128 := by
      rw [Nat.add_mul, Nat.pow_add]
    have hquot : n / 128 < 2 ^ (7 * (k + 1)) := by
      rw [Nat.div_lt_iff_lt_mul (by omega)]
      calc n < 2 ^ (7 * (k + 1 + 1)) := hn
        _ = 2 ^ (7 * (k + 1)) * 128 := by rw [Nat.mul_add 7 (k + 1) 1, Nat.pow_add]
    have hnext : size + n % 128 * 2 ^ (i * 7) < 2 ^ ((i + 1) * 7) := by
      have hmul : n % 128 * 2 ^ (i * 7) ≤ 127 * 2 ^ (i * 7) := Nat.mul_le_mul_right _ (by omega)
      rw [hpow]
      omega
    rw [walkSize_turn hlt hb hsize, BitVec.toNat_ofNat, hbyte, if_neg (by omega),
      Nat.add_mod_right, Nat.mod_mod]
    rw [ih hrest hquot hnext (by omega), hpow]
    have hsplit : n * 2 ^ (i * 7) = (n % 128 + 128 * (n / 128)) * 2 ^ (i * 7) := by
      rw [Nat.mod_add_div]
    rw [hsplit]
    congr 2
    · ring
    · omega

theorem lebBytes_length (k n : Nat) : (lebBytes k n).length = k := by
  induction k using Nat.twoStepInduction generalizing n with
  | zero => rfl
  | one => rfl
  | more k _ ih => simp [lebBytes, ih]

namespace ObuSyntax

theorem framing_length (u : ObuSyntax) :
    u.framing.length = hdrLenOf u.header + u.sizeField.length := by
  unfold framing hdrLenOf
  split <;> simp <;> omega

theorem bytes_length (u : ObuSyntax) :
    u.bytes.length = hdrLenOf u.header + u.sizeField.length + u.payload.length := by
  rw [bytes, List.length_append, framing_length]

theorem obuAt_next (u : ObuSyntax) (pos : Nat) : (u.obuAt pos).next = pos + u.bytes.length := by
  rw [bytes_length]
  simp only [Obu.next, Obu.payloadOff, obuAt]
  omega

end ObuSyntax

/-- What stands at the position of an OBU: its header, and behind the header its size field. -/
theorem front_of_bytes (hdrop : buf.drop off = u.bytes ++ post) :
    buf.getD off 0 = u.header ∧ u.sizeField <+: buf.drop (off + hdrLenOf u.header) := by
  constructor
  · have hfront : u.header :: ((if extFlag u.header then [u.extension] else []) ++ u.sizeField) <+:
        buf.drop off := by
      rw [hdrop]
      exact ⟨u.payload ++ post, by simp [ObuSyntax.bytes, ObuSyntax.framing]⟩
    exact (getD_of_front hfront).2.1
  · rw [← List.drop_drop, hdrop]
    refine ⟨u.payload ++ post, ?_⟩
    unfold ObuSyntax.bytes ObuSyntax.framing hdrLenOf
    split <;> simp

/-- The walk reads the size of an OBU that is written. -/
theorem walkSizeField_bytes (hdrop : buf.drop off = u.bytes ++ post) (hoff : off ≤ buf.length)
    (hfits : u.Fits) (hlast : hasSize u.header = true ∨ post = []) :
    exec buf (walkSizeField buf.length off u.header) =
    some (u.payload.length, u.sizeField.length) := by
  unfold walkSizeField
  cases hhas : hasSize u.header with
  | true =>
    obtain ⟨hpos, hle, hlt⟩ := hfits hhas
    obtain ⟨k, hk⟩ : ∃ k, u.sizeBytes = k + 1 := ⟨u.sizeBytes - 1, by omega⟩
    have hfield : u.sizeField = lebBytes (k + 1) u.payload.length := by
      rw [ObuSyntax.sizeField, if_pos hhas, hk]
    have hfront := (front_of_bytes hdrop).2
    rw [hfield] at hfront
    rw [hk] at hlt
    have hread : exec buf (walkSize (off + hdrLenOf u.header) buf.length 8 0 0) =
        some (0 + u.payload.length * 2 ^ (0 * 7), 0 + (k + 1)) :=
      walkSize_leb hfront hlt (by decide) (by omega)
    rw [if_pos rfl, hread, hfield, lebBytes_length]
    simp
  | false =>
    have hpost : post = [] := by
      rcases hlast with hlast | hlast
      · rw [hhas] at hlast
        cases hlast
      · exact hlast
    have hlen := congrArg List.length hdrop
    have hbytes := u.bytes_length
    have hfield : u.sizeField = [] := by rw [ObuSyntax.sizeField, hhas]; rfl
    rw [hpost, List.append_nil, List.length_drop] at hlen
    rw [hfield, List.length_nil] at hbytes
    simp only [Bool.false_eq_true, if_false, exec_pure, hfield, List.length_nil]
    congr 2
    omega

/-- The walk finds an OBU that is written at its position. -/
theorem walkObu_bytes (hdrop : buf.drop off = u.bytes ++ post) (hoff : off ≤ buf.length)
    (hfits : u.Fits) (hlast : hasSize u.header = true ∨ post = []) :
    exec buf (walkObu buf.length off) = some (u.obuAt off) := by
  have hlen := congrArg List.length hdrop
  rw [List.length_drop, List.length_append] at hlen
  have hbytes := u.bytes_length
  have hhdrLen : 1 ≤ hdrLenOf u.header := by
    unfold hdrLenOf
    omega
  have hbounded : bounded buf.length (u.obuAt off) = some (u.obuAt off) := by
    have hnext := u.obuAt_next off
    have hpos : (u.obuAt off).pos = off := rfl
    unfold bounded
    rw [if_neg (by omega)]
  simp only [walkObu, exec_ite, exec_bind, exec_pure]
  rw [exec_byteAt, (front_of_bytes hdrop).1, walkSizeField_bytes hdrop hoff hfits hlast]
  rw [if_neg (by omega), if_neg (by omega)]
  exact hbounded

/-- The payload window of a record. -/
def ObuRecord.start (r : ObuRecord) : Nat := r.sliceStart + r.frameTagOff
def ObuRecord.stop (r : ObuRecord) : Nat := r.sliceStart + r.sliceSize

/-- The record of an OBU in a buffer that 32 bits can count has its payload as window. -/
theorem record_window (buf : List Byte) (first : Bool) {o : Obu} (h : o.next < 2 ^ 32) :
    (exec buf (record first o)).obuType = o.obuType ∧
      (exec buf (record first o)).start = o.payloadOff ∧ (exec buf (record first o)).stop =
      o.next := by
  have hle : o.payloadOff ≤ o.next := Nat.le_add_right _ _
  have hpos : o.pos + o.hdrLen + o.sizeLen = o.payloadOff := rfl
  simp only [record, exec_bind, exec_pure, ObuRecord.start, ObuRecord.stop]
  refine ⟨trivial, ?_, ?_⟩
  · split <;> omega
  · split <;> omega

/-- What a record says about its OBU. -/
def ObuRecord.summary (r : ObuRecord) : Nat × Nat × Nat := (r.obuType, r.start, r.stop)
def Obu.summary (o : Obu) : Nat × Nat × Nat := (o.obuType, o.payloadOff, o.next)

theorem pushRecord_summary {out : List ObuRecord} {o : Obu} (h : o.next < 2 ^ 32) :
    (exec buf (pushRecord out o)).map ObuRecord.summary =
      out.map ObuRecord.summary ++ ([o].filter producesPicture).map Obu.summary := by
  unfold pushRecord
  cases hpicture : producesPicture o with
  | false => simp [hpicture]
  | true =>
    obtain ⟨htype, hstart, hstop⟩ := record_window buf out.isEmpty h
    simp [hpicture, ObuRecord.summary, Obu.summary, htype, hstart, hstop]

/-- The walk over OBUs that are written up to the end of the buffer. -/
theorem walkLoop_bytes (out : List ObuRecord) (hdrop : buf.drop off = temporalUnit us)
    (hoff : off ≤ buf.length) (hus : WellFormed us) (hlen : buf.length < 2 ^ 32)
    (hfuel : buf.length - off ≤ fuel) :
    ∃ out', exec buf (walkLoop buf.length fuel off out) = (boundaries off us, some out') ∧
      out'.map ObuRecord.summary = out.map ObuRecord.summary ++
        ((boundaries off us).filter producesPicture).map Obu.summary := by
  induction us generalizing off out fuel with
  | nil =>
    have hend : buf.length ≤ off := by
      have hlength := congrArg List.length hdrop
      simp only [temporalUnit, List.flatMap_nil, List.length_drop, List.length_nil] at hlength
      omega
    refine ⟨out, ?_, by simp [boundaries]⟩
    cases fuel with
    | zero => rfl
    | succ fuel => rw [exec_walkLoop_succ, if_pos hend]; rfl
  | cons u us ih =>
    obtain ⟨hfits, hlast, hrest⟩ := hus
    have hdrop' : buf.drop off = u.bytes ++ temporalUnit us := hdrop
    have hpost : hasSize u.header = true ∨ temporalUnit us = [] := by
      rcases hlast with hhas | rfl
      · exact .inl hhas
      · exact .inr rfl
    have hlength := congrArg List.length hdrop'
    rw [List.length_drop, List.length_append] at hlength
    have hpos : 1 ≤ u.bytes.length := by
      have := u.bytes_length
      unfold hdrLenOf at this
      omega
    have hnext : (u.obuAt off).next = off + u.bytes.length := u.obuAt_next off
    obtain ⟨fuel, rfl⟩ : ∃ f, fuel = f + 1 := ⟨fuel - 1, by omega⟩
    have htail : buf.drop (off + u.bytes.length) = temporalUnit us := by
      rw [← List.drop_drop, hdrop', List.drop_left]
    obtain ⟨out', hexec, hsummary⟩ := ih (exec buf (pushRecord out (u.obuAt off))) htail
      (by omega) hrest (by omega : buf.length - (off + u.bytes.length) ≤ fuel)
    refine ⟨out', ?_, ?_⟩
    · rw [exec_walkLoop_succ, if_neg (by omega), walkObu_bytes hdrop' hoff hfits hpost]
      simp only [hnext, hexec, boundaries]
    · rw [hsummary, pushRecord_summary (by omega), List.append_assoc, ← List.map_append,
        ← List.filter_append]
      rfl

/-- The bytes of a window. -/
def window (buf : List Byte) (o : Obu) : List Byte :=
  (buf.drop o.payloadOff).take (o.next - o.payloadOff)

theorem window_boundaries (hdrop : buf.drop off = temporalUnit us) :
    (boundaries off us).map (window buf) = us.map ObuSyntax.payload := by
  induction us generalizing off with
  | nil => rfl
  | cons u us ih =>
    have hdrop' : buf.drop off = u.bytes ++ temporalUnit us := hdrop
    have htail : buf.drop (off + u.bytes.length) = temporalUnit us := by
      rw [← List.drop_drop, hdrop', List.drop_left]
    rw [boundaries, List.map_cons, List.map_cons, ih htail]
    congr 1
    have hoff : (u.obuAt off).payloadOff = off + u.framing.length := by
      rw [u.framing_length]
      simp only [Obu.payloadOff, ObuSyntax.obuAt, Nat.add_assoc]
    have hsize : (u.obuAt off).next - (u.obuAt off).payloadOff = u.payload.length :=
      Nat.add_sub_cancel_left _ _
    rw [window, hsize, hoff, ← List.drop_drop, hdrop', ObuSyntax.bytes, List.append_assoc,
      List.drop_left, List.take_left]

/-- The walk and the scan over a temporal unit that is written visit its OBUs, and the records are
those of the OBUs that produce a picture, with their payloads as windows. Over any bytes the two
visit the same OBUs up to a malformed one, where the scan may take the rest of the buffer for one
more, and read no byte outside the buffer. -/
theorem obu_walks :
    (∀ us : List ObuSyntax, WellFormed us → (temporalUnit us).length < 2 ^ 32 →
      (exec (temporalUnit us) (walk (temporalUnit us))).1 = boundaries 0 us ∧
      exec (temporalUnit us) (scan (temporalUnit us)) = boundaries 0 us ∧
      (walkObus (temporalUnit us)).map ObuRecord.summary =
        ((boundaries 0 us).filter producesPicture).map Obu.summary ∧
      (boundaries 0 us).map (window (temporalUnit us)) = us.map ObuSyntax.payload) ∧
    ∀ buf : List Byte, Agrees buf.length 0 (exec buf (walk buf)) (exec buf (scan buf)) ∧
      InBounds buf (walk buf) ∧ InBounds buf (scan buf) := by
  constructor
  · intro us hus hlen
    have hdrop : (temporalUnit us).drop 0 = temporalUnit us := rfl
    obtain ⟨out, hwalk, hsummary⟩ :=
      walkLoop_bytes [] hdrop (Nat.zero_le _) hus hlen (Nat.le_refl _)
    have hwalk' : exec (temporalUnit us) (walk (temporalUnit us)) =
        (boundaries 0 us, some out) := hwalk
    refine ⟨by rw [hwalk'], ?_, ?_, window_boundaries rfl⟩
    · obtain ⟨extra, hscan, hok, -⟩ := loops_agree (temporalUnit us) (temporalUnit us).length 0 []
      change exec _ (scan _) = (exec _ (walk _)).1 ++ extra at hscan
      change (exec _ (walk (temporalUnit us))).2.isSome → _ at hok
      rw [hwalk'] at hscan hok
      rw [hok rfl, List.append_nil] at hscan
      exact hscan
    · rw [walkObus, hwalk']
      exact hsummary
  · intro buf
    exact ⟨loops_agree _ _ _ _, inBounds_walkLoop _ _ _, inBounds_scanLoop _ _⟩

/-- A temporal delimiter and a frame header without a size field. -/
theorem obu_walks_two :
    (walkObus [0x12, 0x00, 0x18, 0x80]).map ObuRecord.summary = [(3, 3, 4)] := by
  have hbytes : temporalUnit [⟨0x12, 0, 1, []⟩, ⟨0x18, 0, 0, [0x80]⟩] =
      [0x12, 0x00, 0x18, 0x80] := by
    decide
  have hwalk := (obu_walks.1 [⟨0x12, 0, 1, []⟩, ⟨0x18, 0, 0, [0x80]⟩]
    ⟨fun _ => ⟨by decide, by decide, by decide⟩, .inl (by decide), fun h => absurd h (by decide),
      .inr rfl, trivial⟩ (by decide)).2.2.1
  rw [hbytes] at hwalk
  rw [hwalk]
  decide

end RoundTrip

end Rkvdec.Av1
