import Mathlib.Tactic
import Rkvdec.Bitstream.BitReader
import Rkvdec.Vp9.Header

/-! The bit reader of the VP9 parser, which fetches bytes into a shift register, and that it reads
the bits of the frame one after the other. -/
namespace Rkvdec.Vp9

open Bitstream (Byte)
open Headers

/-- `BitReader`: the bytes that are not fetched yet, how many are, and the shift register, whose
first `bitsLeft` bits are valid. -/
structure BitReader where
  buf : List Byte
  fetched : Nat := 0
  state : BitVec 64 := 0
  bitsLeft : Nat := 0
  error : Bool := false

namespace BitReader

/-- The loop of `br_refill`. -/
def refillLoop (n : Nat) : List Byte → BitReader → BitReader
  | [], r => if r.bitsLeft < n then { r with buf := [], error := true } else { r with buf := [] }
  | b :: buf, r =>
    if r.bitsLeft < n then
      refillLoop n buf { r with
        fetched := r.fetched + 1
        state := r.state ||| b.setWidth 64 <<< (56 - r.bitsLeft)
        bitsLeft := r.bitsLeft + 8 }
    else { r with buf := b :: buf }

def refill (n : Nat) (r : BitReader) : BitReader := refillLoop n r.buf r

/-- `br_u`. -/
def answer : Lib.Prog.Handler Nat (fun n => BitVec n) BitReader := fun n r =>
  let r := if r.bitsLeft < n then r.refill n else r
  if r.error then (0, r)
  else ((r.state >>> (64 - n)).setWidth n,
    { r with state := r.state <<< n, bitsLeft := r.bitsLeft - n })

/-- `br_byte_align`. -/
def byteAlign (r : BitReader) : BitReader :=
  { r with state := r.state <<< (r.bitsLeft % 8), bitsLeft := r.bitsLeft - r.bitsLeft % 8 }

/-- `br_byte_pos`. -/
def bytePos (r : BitReader) : Nat :=
  if r.bitsLeft / 8 ≤ r.fetched then r.fetched - r.bitsLeft / 8 else 0

end BitReader

/-- What `parse_uncompressed_header` gives for a header that it accepts. -/
structure HeaderResult where
  pp : PicParams
  uncompressedHeaderSize : Nat
  frameSize : Nat
deriving DecidableEq

/-- `parse_uncompressed_header` on the bytes of a frame; `none` is everything but `Ok`. -/
def parseHeader (st : ParserState) (frame : List Byte) : Option HeaderResult :=
  if frame = [] then none
  else
    let (pp, r) := (parseUncompressedHeader st).run BitReader.answer { buf := frame }
    if r.error then none
    else pp.map fun pp =>
      if pp.showExistingFrame then ⟨pp, r.bytePos, 0⟩ else ⟨pp, r.byteAlign.bytePos, frame.length⟩

section Bits

variable {n k v : Nat} {bits : List Bool}

/-- The bits of a word, most significant first. -/
def msbs {w : Nat} (n : Nat) (x : BitVec w) : List Bool := (List.range n).map x.getMsbD

/-- The bits of a frame. -/
def frameBits (frame : List Byte) : List Bool := frame.flatMap (msbs 8)

theorem length_msbs {w : Nat} (n : Nat) (x : BitVec w) : (msbs n x).length = n := by
  rw [msbs, List.length_map, List.length_range]

theorem length_frameBits (frame : List Byte) : (frameBits frame).length = 8 * frame.length := by
  induction frame with
  | nil => rfl
  | cons b frame ih =>
    rw [frameBits, List.flatMap_cons, List.length_append, length_msbs]
    rw [frameBits] at ih
    rw [ih, List.length_cons, Nat.mul_add, Nat.add_comm]

theorem msbs_add {w : Nat} (m n : Nat) (x : BitVec w) :
    msbs (m + n) x = msbs m x ++ msbs n (x <<< m) := by
  unfold msbs
  rw [List.range_add, List.map_append, List.map_map]
  congr 1
  refine List.map_congr_left fun i _ => ?_
  rw [Function.comp_apply, BitVec.getMsbD_shiftLeft, Nat.add_comm]

theorem bitsToNat_append_singleton (bits : List Bool) (b : Bool) :
    bitsToNat (bits ++ [b]) = bitsToNat bits * 2 + b.toNat := by
  rw [bitsToNat, List.foldl_append]
  rfl

/-- The first bits of a word are its upper part. -/
theorem bitsToNat_msbs {w : Nat} (x : BitVec w) (hn : n ≤ w) :
    bitsToNat (msbs n x) = x.toNat / 2 ^ (w - n) := by
  induction n with
  | zero => rw [Nat.sub_zero, Nat.div_eq_of_lt x.isLt]; rfl
  | succ n ih =>
    have hbit : (x.getMsbD n).toNat = x.toNat / 2 ^ (w - (n + 1)) % 2 := by
      have hpos : w - 1 - n = w - (n + 1) := by omega
      rw [BitVec.getMsbD_eq_getLsbD, BitVec.getLsbD, hpos, decide_eq_true (by omega : n < w),
        Bool.true_and, Nat.toNat_testBit]
    have hpow : 2 ^ (w - n) = 2 ^ (w - (n + 1)) * 2 := by
      rw [← Nat.pow_succ]
      congr 1
      omega
    have hsplit : msbs (n + 1) x = msbs n x ++ [x.getMsbD n] := by
      rw [msbs, List.range_succ, List.map_append]
      rfl
    rw [hsplit, bitsToNat_append_singleton, ih (by omega), hbit, hpow, ← Nat.div_div_eq_div_mul]
    omega

end Bits

namespace BitReader

variable {frame : List Byte} {r : BitReader} {c : BitCursor} {n : Nat}

/-- The bits that are not read yet. -/
def bits (r : BitReader) : List Bool := msbs r.bitsLeft r.state ++ frameBits r.buf

/-- The register beyond its valid bits is clear. -/
def Clear (r : BitReader) : Prop := ∀ i, r.bitsLeft ≤ i → r.state.getMsbD i = false

/-- A byte goes behind the valid bits. -/
theorem msbs_fetch {state : BitVec 64} {left : Nat} (b : Byte)
    (hclear : ∀ i, left ≤ i → state.getMsbD i = false) (hleft : left ≤ 56) :
    msbs (left + 8) (state ||| b.setWidth 64 <<< (56 - left)) = msbs left state ++ msbs 8 b := by
  unfold msbs
  rw [List.range_add, List.map_append, List.map_map]
  congr 1
  · refine List.map_congr_left fun i hi => ?_
    rw [List.mem_range] at hi
    rw [BitVec.getMsbD_or, BitVec.getMsbD_shiftLeft, BitVec.getMsbD_setWidth,
      decide_eq_false (by omega)]
    simp
  · refine List.map_congr_left fun i hi => ?_
    rw [List.mem_range] at hi
    have hpos : left + i + (56 - left) + 8 - 64 = i := by omega
    rw [Function.comp_apply, BitVec.getMsbD_or, BitVec.getMsbD_shiftLeft, BitVec.getMsbD_setWidth,
      hclear (left + i) (by omega), decide_eq_true (by omega), hpos]
    simp

theorem clear_fetch {state : BitVec 64} {left : Nat} (b : Byte)
    (hclear : ∀ i, left ≤ i → state.getMsbD i = false) (i : Nat) (hi : left + 8 ≤ i) :
    (state ||| b.setWidth 64 <<< (56 - left)).getMsbD i = false := by
  rw [BitVec.getMsbD_or, BitVec.getMsbD_shiftLeft, BitVec.getMsbD_setWidth, hclear i (by omega)]
  have hbeyond : b.getMsbD (i + (56 - left) + 8 - 64) = false := by
    rw [BitVec.getMsbD_eq_getLsbD, decide_eq_false (by omega), Bool.false_and]
  rw [hbeyond, Bool.and_false, Bool.or_false]

/-- The reader after a refill for `n` bits: it has them and shows the same bits. -/
structure Refilled (n : Nat) (r r' : BitReader) : Prop where
  error : r'.error = r.error
  bits : r'.bits = r.bits
  enough : n ≤ r'.bitsLeft
  few : r'.bitsLeft < n + 8
  clear : r'.Clear
  fetched : r'.fetched + r'.buf.length = r.fetched + r.buf.length

theorem refillLoop_spec (n : Nat) (buf : List Byte) (r : BitReader) (hn : n ≤ 57) (hclear : r.Clear)
    (hfew : r.bitsLeft < n + 8) :
    if r.bitsLeft + 8 * buf.length < n then (refillLoop n buf r).error = true
    else Refilled n { r with buf := buf } (refillLoop n buf r) := by
  induction buf generalizing r with
  | nil =>
    rw [List.length_nil, refillLoop]
    split_ifs with h
    · rfl
    · exact absurd h (by omega)
    · exact absurd h (by omega)
    · exact ⟨rfl, rfl, by simpa using h, hfew, hclear, rfl⟩
  | cons b buf ih =>
    rw [List.length_cons, refillLoop]
    by_cases hlow : r.bitsLeft < n
    · rw [if_pos hlow]
      have hrec := ih { r with
          fetched := r.fetched + 1
          state := r.state ||| b.setWidth 64 <<< (56 - r.bitsLeft)
          bitsLeft := r.bitsLeft + 8 } (clear_fetch b hclear) (by dsimp only; omega)
      dsimp only at hrec
      split_ifs at hrec ⊢ with hshort hshort'
      · exact hrec
      · omega
      · omega
      · refine ⟨hrec.error, hrec.bits.trans ?_, hrec.enough, hrec.few, hrec.clear,
          hrec.fetched.trans ?_⟩
        · unfold BitReader.bits
          dsimp only
          rw [msbs_fetch b hclear (by omega), List.append_assoc]
          rfl
        · dsimp only
          rw [List.length_cons]
          omega
    · rw [if_neg hlow, if_neg (by omega)]
      exact ⟨rfl, rfl, Nat.le_of_not_lt hlow, hfew, hclear, rfl⟩

/-- The reader is where the cursor is in the bits of the frame. -/
structure Shows (frame : List Byte) (r : BitReader) (c : BitCursor) : Prop where
  error : r.error = c.error
  bits : c.error = false → r.bits = c.bits
  few : c.error = false → r.bitsLeft < 8
  clear : c.error = false → r.Clear
  fetched : c.error = false → r.fetched + r.buf.length = frame.length

theorem shows_start (frame : List Byte) :
    Shows frame { buf := frame } { bits := frameBits frame } where
  error := rfl
  bits _ := rfl
  few _ := Nat.zero_lt_succ 7
  clear _ _ _ := BitVec.getMsbD_zero
  fetched _ := Nat.zero_add _

theorem refillLoop_error (n : Nat) (buf : List Byte) (r : BitReader) (h : r.error = true) :
    (refillLoop n buf r).error = true := by
  induction buf generalizing r with
  | nil =>
    rw [refillLoop]
    split
    · rfl
    · exact h
  | cons b buf ih =>
    rw [refillLoop]
    split
    · exact ih _ h
    · exact h

theorem length_bits (r : BitReader) : r.bits.length = r.bitsLeft + 8 * r.buf.length := by
  rw [bits, List.length_append, length_msbs, length_frameBits]

/-- A read of the register is a read of the first bits. -/
theorem shows_read (hn : n ≤ 64) (hfew : r.bitsLeft < n + 8) (henough : n ≤ r.bitsLeft)
    (hclear : r.Clear) (hfetched : r.fetched + r.buf.length = frame.length)
    (herror : r.error = false) :
    (r.state >>> (64 - n)).setWidth n = BitVec.ofNat n (bitsToNat (r.bits.take n)) ∧
      Shows frame { r with state := r.state <<< n, bitsLeft := r.bitsLeft - n }
        ⟨r.bits.drop n, false⟩ := by
  have hsplit : r.bits =
      msbs n r.state ++ (msbs (r.bitsLeft - n) (r.state <<< n) ++ frameBits r.buf) := by
    rw [← List.append_assoc, ← msbs_add, Nat.add_sub_cancel' henough]
    rfl
  have hlen : (msbs n r.state).length = n := length_msbs n r.state
  have htake : r.bits.take n = msbs n r.state := by
    rw [hsplit, List.take_left' hlen]
  have hdrop : r.bits.drop n = msbs (r.bitsLeft - n) (r.state <<< n) ++ frameBits r.buf := by
    rw [hsplit, List.drop_left' hlen]
  refine ⟨?_, herror, fun _ => hdrop.symm, fun _ => by dsimp only; omega, fun _ i hi => ?_,
    fun _ => hfetched⟩
  · rw [htake, bitsToNat_msbs r.state hn]
    refine BitVec.eq_of_toNat_eq ?_
    rw [BitVec.toNat_setWidth, BitVec.toNat_ushiftRight, BitVec.toNat_ofNat,
      Nat.shiftRight_eq_div_pow]
  · dsimp only at hi ⊢
    rw [BitVec.getMsbD_shiftLeft]
    exact hclear (i + n) (by omega)

/-- Nothing is said of a reader that has failed. -/
theorem shows_error {bits : List Bool} (h : r.error = true) : Shows frame r ⟨bits, true⟩ := by
  have hno : ¬(true = false) := by decide
  exact ⟨h, fun hc => absurd hc hno, fun hc => absurd hc hno, fun hc => absurd hc hno,
    fun hc => absurd hc hno⟩

theorem answer_eq {r' : BitReader} (h : (if r.bitsLeft < n then r.refill n else r) = r') :
    answer n r = if r'.error then (0, r')
      else ((r'.state >>> (64 - n)).setWidth n,
        { r' with state := r'.state <<< n, bitsLeft := r'.bitsLeft - n }) := by
  subst h
  rfl

theorem shows_answer (h : Shows frame r c) (hn : n ≤ 32) :
    (answer n r).1 = (BitCursor.answer n c).1 ∧
    Shows frame (answer n r).2 (BitCursor.answer n c).2 := by
  have hfail {r' : BitReader} (hr' : (if r.bitsLeft < n then r.refill n else r) = r')
      (herror : r'.error = true)
      (hc : c.error = true ∨ c.bits.length < n) :
      (answer n r).1 = (BitCursor.answer n c).1 ∧
      Shows frame (answer n r).2 (BitCursor.answer n c).2 := by
    unfold BitCursor.answer
    rw [answer_eq hr', if_pos herror, if_pos hc]
    exact ⟨rfl, shows_error herror⟩
  by_cases herror : c.error = true
  · have hr : r.error = true := h.error.trans herror
    refine hfail rfl ?_ (Or.inl herror)
    split
    · exact refillLoop_error n r.buf r hr
    · exact hr
  · rw [Bool.not_eq_true] at herror
    have hbits := h.bits herror
    have hlen : c.bits.length = r.bitsLeft + 8 * r.buf.length := by rw [← hbits, length_bits]
    have hfew := h.few herror
    have hr : r.error = false := h.error.trans herror
    have hread {r' : BitReader} (hr' : (if r.bitsLeft < n then r.refill n else r) = r')
        (herr : r'.error = false)
        (hsame : r'.bits = c.bits) (hlen : ¬c.bits.length < n) (hfew : r'.bitsLeft < n + 8)
        (henough : n ≤ r'.bitsLeft) (hclear : r'.Clear)
          (hfetched : r'.fetched + r'.buf.length = frame.length) :
        (answer n r).1 = (BitCursor.answer n c).1 ∧
        Shows frame (answer n r).2 (BitCursor.answer n c).2 := by
      have hc : ¬(c.error = true ∨ c.bits.length < n) := by
        rw [herror]
        simpa using hlen
      unfold BitCursor.answer
      rw [answer_eq hr', if_neg (by rw [herr]; decide), if_neg hc, herror, ← hsame]
      exact shows_read (by omega) hfew henough hclear hfetched herr
    by_cases hlow : r.bitsLeft < n
    · have hspec := refillLoop_spec n r.buf r (by omega) (h.clear herror) (by omega)
      have hr' : (if r.bitsLeft < n then r.refill n else r) = r.refill n := if_pos hlow
      split_ifs at hspec with hshort
      · exact hfail hr' hspec (Or.inr (by omega))
      · exact hread hr' (hspec.error.trans hr) (hspec.bits.trans hbits) (by omega) hspec.few
          hspec.enough hspec.clear
          (hspec.fetched.trans (h.fetched herror))
    · exact hread (if_neg hlow) hr hbits (by omega) (by omega) (by omega) (h.clear herror)
        (h.fetched herror)

/-- Where the reader is, in whole bytes. -/
theorem bytePos_eq (h : Shows frame r c) (herror : c.error = false) :
    r.bytePos = (8 * frame.length - c.bits.length + 7) / 8 ∧ r.byteAlign.bytePos = r.bytePos := by
  have hlen : c.bits.length = r.bitsLeft + 8 * r.buf.length := by rw [← h.bits herror, length_bits]
  have hfew := h.few herror
  have hfetched := h.fetched herror
  have hnone : r.bitsLeft / 8 = 0 := by omega
  have haligned : r.byteAlign.bitsLeft / 8 = 0 := by
    unfold byteAlign
    dsimp only
    omega
  constructor
  · rw [bytePos, hnone, if_pos (Nat.zero_le _)]
    omega
  · rw [bytePos, haligned, bytePos, hnone]
    rfl

end BitReader

section Narrow

variable {α β : Type} {p q : HeaderBits α} {f : α → HeaderBits β} {n : Nat} {c : Prop}

/-- No read asks for more than the reader can give at once. -/
def Narrow (p : HeaderBits α) : Prop := ∀ r, p.All BitCursor.answer (fun n _ => n ≤ 32) r

theorem narrow_pure (a : α) : Narrow (pure a) := fun _ => trivial

theorem Narrow.bind (hp : Narrow p) (hf : ∀ a, Narrow (f a)) : Narrow (p >>= f) :=
  fun r => (Lib.Prog.all_bind p f).mpr ⟨hp r, hf _ _⟩

theorem Narrow.map {g : α → β} (hp : Narrow p) : Narrow (g <$> p) := hp.bind fun _ => narrow_pure _

theorem Narrow.cond [Decidable c] (hp : Narrow p) (hq : Narrow q) :
    Narrow (if c then p else q) := by
  split
  · exact hp
  · exact hq

theorem narrow_brU (hn : n ≤ 32) : Narrow (brU n) := fun _ => ⟨hn, trivial⟩

theorem narrow_brBit : Narrow brBit := (narrow_brU (by decide)).bind fun _ => narrow_pure _

theorem narrow_brSu (hn : n ≤ 32) : Narrow (brSu n) :=
  (narrow_brU hn).bind fun _ => narrow_brBit.bind fun _ => narrow_pure _

theorem narrow_readColorConfig (profile : Nat) (pp : PicParams) :
    Narrow (readColorConfig profile pp) := by
  have hdepth : Narrow (readBitDepth profile) := .cond narrow_brBit.map (narrow_pure _)
  refine hdepth.bind fun depth => (narrow_brU (by decide)).bind fun space =>
    .cond ?_ (.cond ?_ (narrow_pure _))
  · refine narrow_brBit.bind fun range => .cond ?_ (narrow_pure _)
    exact narrow_brBit.bind fun x => narrow_brBit.bind fun y => narrow_brBit.bind fun _ =>
      narrow_pure _
  · exact narrow_brBit.bind fun _ => narrow_pure _

theorem narrow_readFrameSize : Narrow readFrameSize :=
  (narrow_brU (by decide)).bind fun _ => (narrow_brU (by decide)).bind fun _ => narrow_pure _

theorem narrow_readRenderSize (size : Nat × Nat) : Narrow (readRenderSize size) :=
  narrow_brBit.bind fun _ => .cond narrow_readFrameSize (narrow_pure _)

theorem narrow_readRefSize (st : ParserState) (refs : List RefFrameDesc) :
    Narrow (readRefSize st refs) := by
  induction refs with
  | nil => exact narrow_pure _
  | cons ref refs ih => exact narrow_brBit.bind fun _ => .cond (narrow_pure _) ih

theorem narrow_readFrameSizeWithRefs (st : ParserState) (refs : List RefFrameDesc) :
    Narrow (readFrameSizeWithRefs st refs) := by
  have hsize (found : Option (Nat × Nat)) : Narrow (sizeOr found) := by
    cases found with
    | none => exact narrow_readFrameSize
    | some size => exact narrow_pure _
  exact (narrow_readRefSize st refs).bind fun found => (hsize found).bind fun size =>
    (narrow_readRenderSize size).bind fun _ => narrow_pure _

theorem narrow_readUpdates (n : Nat) : Narrow (readUpdates n) := by
  have hupdate : Narrow readUpdate :=
    narrow_brBit.bind fun _ => .cond (narrow_brSu (by decide)).map (narrow_pure _)
  induction n with
  | zero => exact narrow_pure _
  | succ n ih => exact hupdate.bind fun _ => ih.bind fun _ => narrow_pure _

theorem narrow_readLoopFilterSyntax : Narrow readLoopFilterSyntax := by
  have hflag (enabled : Bool) : Narrow (readUpdateFlag enabled) :=
    .cond narrow_brBit (narrow_pure _)
  have hdeltas (update : Bool) : Narrow (readDeltaUpdates update) :=
    .cond ((narrow_readUpdates 4).bind fun _ => (narrow_readUpdates 2).bind fun _ => narrow_pure _)
      (narrow_pure _)
  exact (narrow_brU (by decide)).bind fun _ => (narrow_brU (by decide)).bind fun _ =>
    narrow_brBit.bind fun enabled =>
    (hflag enabled).bind fun update => (hdeltas update).bind fun _ => narrow_pure _

theorem narrow_readDeltaQ : Narrow readDeltaQ :=
  narrow_brBit.bind fun _ => .cond (narrow_brSu (by decide)) (narrow_pure _)

theorem narrow_readProbs (n : Nat) : Narrow (readProbs n) := by
  have hprob : Narrow readProb :=
    narrow_brBit.bind fun _ => .cond (narrow_brU (by decide)).map (narrow_pure _)
  induction n with
  | zero => exact narrow_pure _
  | succ n ih => exact hprob.bind fun _ => ih.bind fun _ => narrow_pure _

theorem narrow_readSegments (n : Nat) : Narrow (readSegments n) := by
  have hfeature {data : HeaderBits Int} (hdata : Narrow data) : Narrow (do
      let enabled ← brBit
      if enabled then (fun v => (⟨true, v⟩ : Feature)) <$> data else pure {}) :=
    narrow_brBit.bind fun _ => .cond hdata.map (narrow_pure _)
  have hsegment : Narrow (readSegment segFeatures) :=
    (hfeature (narrow_brSu (by decide))).bind fun _ =>
      .bind (.bind (hfeature (narrow_brSu (by decide))) fun _ =>
      .bind (.bind (hfeature (narrow_brU (by decide)).map) fun _ =>
        .bind (.bind (hfeature (narrow_pure 0)) fun _ => .bind (narrow_pure _) fun _ =>
          narrow_pure _) fun _ =>
          narrow_pure _) fun _ => narrow_pure _) fun _ => narrow_pure _
  induction n with
  | zero => exact narrow_pure _
  | succ n ih => exact hsegment.bind fun _ => ih.bind fun _ => narrow_pure _

theorem narrow_readSegmentSyntax : Narrow readSegmentSyntax := by
  have hmap (update : Bool) : Narrow (readSegmentMap update) :=
    .cond ((narrow_readProbs 7).bind fun _ => narrow_brBit.bind fun _ =>
      .cond ((narrow_readProbs 3).bind fun _ => narrow_pure _) (narrow_pure _)) (narrow_pure _)
  have hdata (update : Bool) : Narrow (readSegmentData update) :=
    .cond (narrow_brBit.bind fun _ => (narrow_readSegments 8).bind fun _ => narrow_pure _)
      (narrow_pure _)
  exact narrow_brBit.bind fun _ =>
    .cond (narrow_brBit.bind fun update => (hmap update).bind fun _ =>
    narrow_brBit.bind fun update => (hdata update).bind fun _ => narrow_pure _) (narrow_pure _)

theorem narrow_readTileInfo (width : Nat) : Narrow (readTileInfo width) := by
  have hcols (limit fuel k : Nat) : Narrow (readTileCols limit fuel k) := by
    induction fuel generalizing k with
    | zero => exact narrow_pure _
    | succ fuel ih =>
      exact .cond (narrow_brBit.bind fun _ => .cond (ih _) (narrow_pure _)) (narrow_pure _)
  have hrows : Narrow readTileRows :=
    narrow_brBit.bind fun _ => .cond narrow_brBit.map (narrow_pure _)
  exact (hcols _ _ _).bind fun _ => hrows.bind fun _ => narrow_pure _

theorem narrow_readFrameRefs (n : Nat) : Narrow (readFrameRefs n) := by
  induction n with
  | zero => exact narrow_pure _
  | succ n ih =>
    exact (narrow_brU (by decide)).bind fun _ => narrow_brBit.bind fun _ => ih.bind fun _ =>
      narrow_pure _

theorem narrow_unlessResilient (pp : PicParams) (hn : n ≤ 32) (other : BitVec n) :
    Narrow (unlessResilient pp n other) := .cond (narrow_pure _) (narrow_brU hn)

theorem narrow_readBody (st : ParserState) (pp : PicParams) : Narrow (readBody st pp) := by
  have hsizes (g : Nat × Nat → Nat × Nat → Option PicParams) : Narrow (do
      let size ← readFrameSize
      let render ← readRenderSize size
      pure (g size render)) :=
    narrow_readFrameSize.bind fun size => (narrow_readRenderSize size).bind fun _ => narrow_pure _
  have hkey (pp : PicParams) : Narrow (readKeyFrame pp) :=
    (narrow_brU (by decide)).bind fun _ => .cond (narrow_pure _)
      ((narrow_readColorConfig _ _).bind fun pp => .cond (narrow_pure _) (hsizes _))
  have hintra (pp : PicParams) : Narrow (readIntraOnly pp) := by
    have hcolor : Narrow (readIntraColor pp) := .cond (narrow_readColorConfig _ _) (narrow_pure _)
    exact (narrow_brU (by decide)).bind fun _ => .cond (narrow_pure _) (hcolor.bind fun pp =>
      .cond (narrow_pure _) ((narrow_brU (by decide)).bind fun flags => hsizes _))
  have hfilter : Narrow readInterpFilter :=
    narrow_brBit.bind fun _ => .cond (narrow_pure _) (narrow_brU (by decide)).map
  have hinter (pp : PicParams) : Narrow (readInter st pp) :=
    (narrow_brU (by decide)).bind fun _ => (narrow_readFrameRefs 3).bind fun refs =>
      (narrow_readFrameSizeWithRefs st refs).bind fun _ => narrow_brBit.bind fun _ =>
        hfilter.bind fun _ =>
        narrow_pure _
  have hflag : Narrow (readIntraOnlyFlag pp) := .cond (narrow_pure _) narrow_brBit
  have hnonKey : Narrow (readNonKey st pp) :=
    hflag.bind fun _ => (narrow_unlessResilient pp (by decide) 0).bind fun _ =>
      .cond (hintra _) (hinter _)
  exact .cond (hkey pp) hnonKey

theorem narrow_readTrailer (st : ParserState) (pp : PicParams) : Narrow (readTrailer st pp) :=
  (narrow_unlessResilient pp (by decide) 0).bind fun _ =>
    (narrow_unlessResilient pp (by decide) 1).bind fun _ =>
    (narrow_brU (by decide)).bind fun _ => narrow_readLoopFilterSyntax.bind fun _ =>
      (narrow_brU (by decide)).bind fun _ => narrow_readDeltaQ.bind fun _ =>
        narrow_readDeltaQ.bind fun _ =>
        narrow_readDeltaQ.bind fun _ => narrow_readSegmentSyntax.bind fun _ =>
          (narrow_readTileInfo _).bind fun _ =>
          (narrow_brU (by decide)).bind fun _ => narrow_pure _

theorem narrow_parseUncompressedHeader (st : ParserState) :
    Narrow (parseUncompressedHeader st) := by
  have hcoded (pp : PicParams) : Narrow (readCoded st pp) := by
    refine (narrow_brU (by decide)).bind fun _ => narrow_brBit.bind fun _ =>
      narrow_brBit.bind fun _ =>
      (narrow_readBody st _).bind fun body => ?_
    cases body with
    | none => exact narrow_pure _
    | some pp => exact (narrow_readTrailer st pp).map
  refine (narrow_brU (by decide)).bind fun _ => .cond (narrow_pure _) (narrow_brBit.bind fun _ =>
    narrow_brBit.bind fun _ => .cond (narrow_pure _)
      (narrow_brBit.bind fun _ => .cond ?_ (hcoded _)))
  exact (narrow_brU (by decide)).bind fun _ => narrow_pure _

end Narrow

/-- The bytes of a frame are read as its bits. -/
theorem parseHeader_eq (st : ParserState) (frame : List Byte) (pp : Option PicParams)
    (c : BitCursor)
    (h : (parseUncompressedHeader st).run BitCursor.answer { bits := frameBits frame } = (pp, c))
    (hframe : frame ≠ []) :
    parseHeader st frame = if c.error then none else pp.map fun pp =>
      ⟨pp, (8 * frame.length - c.bits.length + 7) / 8, if pp.showExistingFrame then 0
        else frame.length⟩ := by
  have hstep (n : Nat) (r : BitReader) (c : BitCursor) (hr : BitReader.Shows frame r c)
      (hn : n ≤ 32) :
      (BitReader.answer n r).1 = (BitCursor.answer n c).1 ∧
        BitReader.Shows frame (BitReader.answer n r).2 (BitCursor.answer n c).2 :=
          BitReader.shows_answer hr hn
  obtain ⟨hsame, hshows⟩ :=
    Lib.Prog.run_simulates hstep (narrow_parseUncompressedHeader st _) (BitReader.shows_start frame)
  rw [h] at hsame hshows
  unfold parseHeader
  rw [if_neg hframe]
  dsimp only at hsame hshows ⊢
  rw [hsame, hshows.error]
  cases herror : c.error with
  | true => rfl
  | false =>
    obtain ⟨hpos, halign⟩ := BitReader.bytePos_eq hshows herror
    rw [halign, hpos]
    cases pp with
    | none => rfl
    | some pp =>
      simp only [Bool.false_eq_true, if_false, Option.map_some]
      split <;> rfl

end Rkvdec.Vp9
