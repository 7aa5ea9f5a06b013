import Rkvdec.Bitstream.SegmentHeader
import Rkvdec.Engine.PackedTables
import Rkvdec.Lib.Fields

/-! The short-term reference picture sets of H.265 from `parse_sps` to the table of the codec and
back. -/
namespace Rkvdec.Engine.Rps

open Lib (field field_mod field_top fields fields_mod ofBytes ofBytes_bytes)
open Tables (BitPacker packRps shortTermFields longTermFields activeValidSps rpsSize)
open Bitstream (Byte BitReader Parser ParseError Gives exec exec_bind_ok exec_ask i16 u8 flag access
  brU brU1 brUe checkFailed)
open Bitstream.H265 (P ParseResult ShortTermRps Sps maxRefs maxShortTermRps parseSps parseSpsFields)

section Decoding

/-- What an entry of the table says: the pictures with their POC deltas and used flags. -/
structure Entry where
  numNegativePics : Nat
  numPositivePics : Nat
  pics : List (Int × Nat)
deriving DecidableEq

/-- What a parsed set says. -/
def entryOf (rps : ShortTermRps) : Entry where
  numNegativePics := rps.numNegativePics
  numPositivePics := rps.numPositivePics
  pics := (List.range rps.numDeltaPocs).map fun j =>
    (rps.deltaPoc.getD j 0, rps.usedByCurrPicFlag.getD j 0)

/-- The two counts and 15 pictures. -/
def entryWidths : List Nat := [4, 4] ++ (List.replicate 15 [16, 1]).flatten

def pictures : List Nat → List (Int × Nat)
  | poc :: used :: rest => (i16 poc, used) :: pictures rest
  | _ => []

def decodeFields : List Nat → Entry
  | neg :: pos :: rest => ⟨neg, pos, (pictures rest).take (neg + pos)⟩
  | _ => ⟨0, 0, []⟩

/-- Where an entry starts, behind the 32 long-term pictures. -/
def entryPos (i : Nat) : Nat := 32 * 32 + i * 384

/-- Entry `i` of a table. -/
def decodeEntry (table : List Byte) (i : Nat) : Entry :=
  decodeFields (fields (ofBytes table) (entryPos i) entryWidths)

end Decoding

section Entries

/-- The counts add up within the limit, and the values fit their types. -/
structure Ok (rps : ShortTermRps) : Prop where
  count : rps.numDeltaPocs = rps.numNegativePics + rps.numPositivePics
  bound : rps.numDeltaPocs ≤ maxRefs
  poc : ∀ d ∈ rps.deltaPoc, -2 ^ 15 ≤ d ∧ d < 2 ^ 15
  used : ∀ u ∈ rps.usedByCurrPicFlag, u ≤ 1

variable {rps : ShortTermRps}

/-- The number of pictures the packer takes. -/
def coded (rps : ShortTermRps) : Nat :=
  min rps.numNegativePics 15 + min rps.numPositivePics (15 - min rps.numNegativePics 15)

/-- The 15 pictures it writes, with their POC deltas in 16 bits. -/
def words (rps : ShortTermRps) : List (Nat × Nat) :=
  ((List.range (coded rps)).map fun j =>
    ((rps.deltaPoc.getD j 0 % 2 ^ 16).toNat, rps.usedByCurrPicFlag.getD j 0)) ++
  List.replicate (15 - coded rps) (0, 0)

theorem coded_le (rps : ShortTermRps) : coded rps ≤ 15 := by
  unfold coded
  omega

theorem length_words (rps : ShortTermRps) : (words rps).length = 15 := by
  have hle := coded_le rps
  simp only [words, List.length_append, List.length_map, List.length_range, List.length_replicate]
  omega

theorem shortTermFields_eq (rps : ShortTermRps) : shortTermFields rps =
    [(rps.numNegativePics, 4), (rps.numPositivePics, 4)] ++
      ((words rps).map fun w => [(w.1, 16), (w.2, 1)]).flatten := by
  unfold words
  rw [List.map_append, List.flatten_append, List.map_map, List.map_replicate, ← List.append_assoc,
    ← List.flatMap_def]
  rfl

theorem shortTermFields_widths (rps : ShortTermRps) :
    (shortTermFields rps).map Prod.snd = entryWidths := by
  have hpics : (words rps).map (fun _ => [16, 1]) = List.replicate 15 [16, 1] := by
    rw [List.map_const', length_words]
  rw [shortTermFields_eq, List.map_append, List.map_flatten, List.map_map]
  exact congrArg (fun l => [4, 4] ++ l.flatten) hpics

theorem pictures_flatten (l : List (Nat × Nat)) :
    pictures (l.map fun w => [w.1, w.2]).flatten = l.map fun w => (i16 w.1, w.2) := by
  induction l with
  | nil => rfl
  | cons w l ih => exact congrArg _ ih

/-- The entry that the fields of a set decode to. -/
theorem decodeFields_shortTermFields (rps : ShortTermRps) :
    decodeFields ((shortTermFields rps).map fun f => f.1 % 2 ^ f.2) =
      ⟨rps.numNegativePics % 2 ^ 4, rps.numPositivePics % 2 ^ 4,
        ((words rps).map fun w => (i16 (w.1 % 2 ^ 16 : Nat), w.2 % 2 ^ 1)).take
          (rps.numNegativePics % 2 ^ 4 + rps.numPositivePics % 2 ^ 4)⟩ := by
  have hpics := pictures_flatten ((words rps).map fun w => (w.1 % 2 ^ 16, w.2 % 2 ^ 1))
  rw [List.map_map, List.map_map] at hpics
  rw [shortTermFields_eq, List.map_append, List.map_flatten, List.map_map]
  exact congrArg (fun pics => Entry.mk (rps.numNegativePics % 2 ^ 4) (rps.numPositivePics % 2 ^ 4)
    (pics.take (rps.numNegativePics % 2 ^ 4 + rps.numPositivePics % 2 ^ 4))) hpics

theorem i16_of_range {d : Int} (hlow : -2 ^ 15 ≤ d) (hhigh : d < 2 ^ 15) :
    i16 ((d % 2 ^ 16).toNat % 2 ^ 16 : Nat) = d := by
  unfold i16
  rw [Int.bmod_def]
  split <;> omega

theorem Ok.poc_getD (h : Ok rps) (j : Nat) : -2 ^ 15 ≤ rps.deltaPoc.getD j 0 ∧
    rps.deltaPoc.getD j 0 < 2 ^ 15 := by
  rw [List.getD_eq_getElem?_getD]
  cases hj : rps.deltaPoc[j]? with
  | none => simp
  | some d => exact h.poc d (List.mem_of_getElem? hj)

theorem Ok.used_getD (h : Ok rps) (j : Nat) : rps.usedByCurrPicFlag.getD j 0 ≤ 1 := by
  rw [List.getD_eq_getElem?_getD]
  cases hj : rps.usedByCurrPicFlag[j]? with
  | none => simp
  | some u => exact h.used u (List.mem_of_getElem? hj)

/-- A set comes back from its fields if and only if it has at most 15 pictures. -/
theorem Ok.decodes_iff (h : Ok rps) :
    decodeFields ((shortTermFields rps).map fun f => f.1 % 2 ^ f.2) = entryOf rps ↔
      rps.numDeltaPocs ≤ 15 := by
  have hcount := h.count
  rw [decodeFields_shortTermFields]
  constructor
  · intro heq
    have hpics := congrArg (fun e => e.pics.length) heq
    simp only [entryOf, List.length_take, List.length_map, length_words, List.length_range] at hpics
    omega
  · intro hle
    have hneg : rps.numNegativePics % 2 ^ 4 = rps.numNegativePics := by omega
    have hpos : rps.numPositivePics % 2 ^ 4 = rps.numPositivePics := by omega
    have hcoded : coded rps = rps.numDeltaPocs := by
      unfold coded
      omega
    rw [hneg, hpos, ← hcount]
    unfold words entryOf
    rw [hcoded, List.map_append, List.map_map, List.take_left' (by simp)]
    apply congrArg (Entry.mk rps.numNegativePics rps.numPositivePics)
    apply List.map_congr_left
    intro j _
    obtain ⟨hlow, hhigh⟩ := h.poc_getD j
    have hused := h.used_getD j
    simp only [Function.comp_apply, i16_of_range hlow hhigh, Nat.mod_eq_of_lt (show
      rps.usedByCurrPicFlag.getD j 0 < 2 ^ 1 by omega)]

end Entries

section Packing

variable {a b c : BitPacker} {n m : Nat}

/-- All that has been written lies below the position, which is within the words. -/
structure Clean (bp : BitPacker) : Prop where
  low : bp.data < 2 ^ bp.pos
  room : bp.pos ≤ 64 * bp.cap

/-- A packer that has gone on for `n` bits. -/
structure Extends (a b : BitPacker) (n : Nat) : Prop where
  clean : Clean b
  cap : b.cap = a.cap
  pos : b.pos = a.pos + n
  data : b.data % 2 ^ a.pos = a.data

theorem Clean.refl (h : Clean a) : Extends a a 0 := ⟨h, rfl, rfl, Nat.mod_eq_of_lt h.low⟩

theorem Extends.trans (hab : Extends a b n) (hbc : Extends b c m) : Extends a c (n + m) := by
  refine ⟨hbc.clean, hbc.cap.trans hab.cap, ?_, ?_⟩
  · rw [hbc.pos, hab.pos, Nat.add_assoc]
  · have hle : a.pos ≤ b.pos := by
      rw [hab.pos]
      exact Nat.le_add_right _ _
    rw [← hab.data, ← hbc.data, Nat.mod_mod_of_dvd _ (Nat.pow_dvd_pow 2 hle)]

/-- What has been written stays. -/
theorem Extends.fields {ns : List Nat} {p : Nat} (h : Extends a b n) (hp : p + ns.sum ≤ a.pos) :
    fields b.data p ns = fields a.data p ns := by
  rw [← h.data, fields_mod hp]

theorem Clean.ofBytes (h : Clean a) : ofBytes a.bytes = a.data := by
  have hbits : 8 * (8 * a.cap) = 64 * a.cap := by omega
  unfold BitPacker.bytes
  rw [ofBytes_bytes, hbits]
  exact Nat.mod_eq_of_lt (lt_of_lt_of_le h.low (Nat.pow_le_pow_right Nat.zero_lt_two h.room))

theorem Clean.put_lt (h : Clean a) (v : Nat) :
    a.data + v % 2 ^ n * 2 ^ a.pos < 2 ^ (a.pos + n) := by
  have hv : v % 2 ^ n + 1 ≤ 2 ^ n := Nat.mod_lt v (Nat.two_pow_pos n)
  calc a.data + v % 2 ^ n * 2 ^ a.pos < 2 ^ a.pos + v % 2 ^ n * 2 ^ a.pos :=
        Nat.add_lt_add_right h.low _
    _ = (v % 2 ^ n + 1) * 2 ^ a.pos := by rw [Nat.succ_mul, Nat.add_comm]
    _ ≤ 2 ^ n * 2 ^ a.pos := Nat.mul_le_mul_right _ hv
    _ = 2 ^ (a.pos + n) := by rw [← Nat.pow_add, Nat.add_comm]

theorem put_eq (h : Clean a) (hn : 0 < n) (hroom : a.pos + n ≤ 64 * a.cap) (v : Nat) :
    a.put v n = { a with data := a.data + v % 2 ^ n * 2 ^ a.pos, pos := a.pos + n } := by
  have hlt : a.data + v % 2 ^ n * 2 ^ a.pos < 2 ^ (64 * a.cap) :=
    (h.put_lt v).trans_le (Nat.pow_le_pow_right (by omega) hroom)
  have hor : a.data ||| (v % 2 ^ n) <<< a.pos = a.data + v % 2 ^ n * 2 ^ a.pos := by
    rw [Nat.or_comm, ← Nat.shiftLeft_add_eq_or_of_lt h.low, Nat.shiftLeft_eq, Nat.add_comm]
  unfold BitPacker.put
  rw [if_neg (by omega), hor, Nat.mod_eq_of_lt hlt]

theorem extends_put (h : Clean a) (hroom : a.pos + n ≤ 64 * a.cap) (v : Nat) :
    Extends a (a.put v n) n ∧ field (a.put v n).data a.pos n = v % 2 ^ n := by
  rcases Nat.eq_zero_or_pos n with rfl | hn
  · have hput : a.put v 0 = a := by simp [BitPacker.put]
    rw [hput]
    exact ⟨h.refl, by simp [field, Nat.mod_one]⟩
  · rw [put_eq h hn hroom]
    refine ⟨⟨⟨h.put_lt v, hroom⟩, rfl, rfl, ?_⟩, (field_top h.low _).trans (Nat.mod_mod v _)⟩
    rw [Nat.add_mul_mod_self_right, Nat.mod_eq_of_lt h.low]

theorem extends_skip (h : Clean a) (hroom : a.pos + n ≤ 64 * a.cap) : Extends a (a.skip n) n := by
  have hskip : a.skip n = { a with pos := a.pos + n } := by
    unfold BitPacker.skip
    dsimp only
    rw [if_neg (by omega)]
  rw [hskip]
  refine ⟨⟨?_, hroom⟩, rfl, rfl, Nat.mod_eq_of_lt h.low⟩
  exact lt_of_lt_of_le h.low (Nat.pow_le_pow_right (by omega) (Nat.le_add_right _ _))

theorem extends_align (h : Clean a) (hroom : a.pos + (n - a.pos % n) % n ≤ 64 * a.cap)
    (fill : Bool) : Extends a (a.align n fill) ((n - a.pos % n) % n) := by
  unfold BitPacker.align
  generalize (n - a.pos % n) % n = pad at hroom ⊢
  have hsum : pad = min pad 32 + (pad - min pad 32) := by omega
  have hfirst := (extends_put h (show a.pos + min pad 32 ≤ 64 * a.cap by omega)
    (if fill then 2 ^ 64 - 1 else 0)).1
  have hsecond := (extends_put hfirst.clean (n := pad - min pad 32)
    (by rw [hfirst.pos, hfirst.cap]; omega) (if fill then 2 ^ 64 - 1 else 0)).1
  have hboth := hfirst.trans hsecond
  rwa [← hsum] at hboth

/-- A row of fields can be read again. -/
theorem extends_puts (h : Clean a) (fs : List (Nat × Nat))
    (hroom : a.pos + (fs.map Prod.snd).sum ≤ 64 * a.cap) :
    Extends a (a.puts fs) (fs.map Prod.snd).sum ∧
      fields (a.puts fs).data a.pos (fs.map Prod.snd) = fs.map fun f => f.1 % 2 ^ f.2 := by
  induction fs generalizing a with
  | nil => exact ⟨h.refl, rfl⟩
  | cons f fs ih =>
    rw [List.map_cons, List.sum_cons] at hroom
    obtain ⟨hput, hfield⟩ := extends_put h (show a.pos + f.2 ≤ 64 * a.cap by omega) f.1
    obtain ⟨hrest, hfields⟩ := ih hput.clean (by rw [hput.pos, hput.cap]; omega)
    refine ⟨?_, ?_⟩
    · rw [List.map_cons, List.sum_cons]
      exact hput.trans hrest
    · have hkeep : field ((a.put f.1 f.2).puts fs).data a.pos f.2 = f.1 % 2 ^ f.2 := by
        rw [← hfield, ← hrest.data, field_mod (by rw [hput.pos])]
      rw [hput.pos] at hfields
      rw [List.map_cons, List.map_cons, Lib.fields, ← hfields, ← hkeep]
      rfl

/-- Steps of `w` bits each. -/
theorem extends_foldl {step : BitPacker → Nat → BitPacker} {w i : Nat} (h : Clean a)
    (hstep : ∀ b i, i < m → Extends a b (i * w) → Extends b (step b i) w) (hi : i ≤ n)
    (hn : n ≤ m) :
    Extends ((List.range i).foldl step a) ((List.range n).foldl step a) ((n - i) * w) := by
  have hstart : ∀ k ≤ m, Extends a ((List.range k).foldl step a) (k * w) := by
    intro k hk
    induction k with
    | zero =>
      rw [Nat.zero_mul]
      exact h.refl
    | succ k ih =>
      have hbefore := ih (by omega)
      rw [List.range_succ, List.foldl_append, Nat.succ_mul]
      exact hbefore.trans (hstep _ k (by omega) hbefore)
  induction n, hi using Nat.le_induction with
  | base =>
    rw [Nat.sub_self, Nat.zero_mul]
    exact (hstart i hn).clean.refl
  | succ n hi ih =>
    rw [List.range_succ, List.foldl_append, Nat.succ_sub hi, Nat.succ_mul]
    exact (ih (by omega)).trans (hstep _ n (by omega) (hstart n (by omega)))

theorem clean_start : Clean { cap := 400 } := ⟨Nat.one_pos, Nat.zero_le _⟩

theorem extends_longTerm (sps : Option Sps) :
    Extends { cap := 400 } (longTermFields { cap := 400 } sps) 1024 := by
  have hskip : Extends { cap := 400 } (BitPacker.skip { cap := 400 } (32 * 32)) 1024 :=
    extends_skip clean_start (by decide)
  cases sps with
  | none => exact hskip
  | some sps =>
    unfold longTermFields
    dsimp only
    split
    · refine extends_foldl (m := 32) (i := 0) (w := 32) clean_start ?_ (by omega) le_rfl
      intro b i hi hb
      have hpos : b.pos = i * 32 := by
        rw [hb.pos]
        exact Nat.zero_add _
      have hcap : b.cap = 400 := hb.cap
      split
      · have hlsb := (extends_put hb.clean (n := 16) (by omega) (sps.ltRefPicPocLsbSps.getD i 0)).1
        have hused := (extends_put hlsb.clean (n := 1) (by rw [hlsb.pos, hlsb.cap]; omega)
          (sps.usedByCurrPicLtSpsFlag.getD i 0)).1
        have hgap := extends_skip hused.clean (n := 15)
          (by rw [hused.pos, hused.cap, hlsb.pos, hlsb.cap]; omega)
        exact (hlsb.trans hused).trans hgap
      · exact extends_skip hb.clean (by omega)
    · exact hskip

/-- The padding and the trailer of an entry. -/
theorem extends_pad (hab : Extends a b 263) (haligned : a.pos % 64 = 0)
    (hroom : a.pos + 384 ≤ 64 * a.cap) : Extends b ((b.align 64 false).skip 64) 121 := by
  have hpos := hab.pos
  have hcap := hab.cap
  have hpad : (64 - b.pos % 64) % 64 = 57 := by omega
  have halign := extends_align hab.clean (n := 64) (by omega) false
  rw [hpad] at halign
  exact halign.trans (extends_skip halign.clean (by rw [halign.pos, halign.cap]; omega))

/-- One turn of the packer: the fields of a set, or a gap, then the padding and the trailer. -/
def packEntry (sps : Sps) (bp : BitPacker) (i : Nat) : BitPacker :=
  let bp :=
    if i < min (min sps.numShortTermRefPicSets maxShortTermRps) 64 then
      bp.puts (shortTermFields (sps.stRps.getD i {}))
    else bp.skip 263
  (bp.align 64 false).skip 64

/-- The packer before entry `i`. -/
def packerAt (sps : Sps) (i : Nat) : BitPacker :=
  (List.range i).foldl (packEntry sps) (longTermFields { cap := 400 } (some sps))

theorem packRps_bytes {parsed : ParseResult} {outSize : Nat} {table : List Byte} {sps : Sps}
    (hpack : packRps parsed outSize = some table) (hsps : activeValidSps parsed = some sps) :
    table = (packerAt sps 64).bytes := by
  unfold packRps at hpack
  split at hpack
  · cases hpack
  · rw [hsps] at hpack
    exact (Option.some.inj hpack).symm

variable {sps : Sps} {i : Nat}

/-- A turn goes on for 384 bits. -/
theorem extends_packEntry (h : Clean a) (haligned : a.pos % 64 = 0)
    (hroom : a.pos + 384 ≤ 64 * a.cap) :
    Extends a (packEntry sps a i) 384 := by
  have hmid : ∀ b, Extends a b 263 → Extends a ((b.align 64 false).skip 64) 384 := by
    intro b hab
    exact hab.trans (extends_pad hab haligned hroom)
  unfold packEntry
  dsimp only
  split
  · have hputs := (extends_puts h (shortTermFields (sps.stRps.getD i {})) (by
      rw [shortTermFields_widths]
      exact le_trans (Nat.add_le_add_left (by decide) _) hroom)).1
    rw [shortTermFields_widths] at hputs
    exact hmid _ hputs
  · exact hmid _ (extends_skip h (by omega))

theorem extends_packerAt (sps : Sps) (hi : i ≤ n) (hn : n ≤ 64) :
    Extends (packerAt sps i) (packerAt sps n) ((n - i) * 384) := by
  have hlong := extends_longTerm (some sps)
  refine extends_foldl hlong.clean ?_ hi hn
  intro b j hj hb
  have hpos : b.pos = 0 + 1024 + j * 384 := by rw [hb.pos, hlong.pos]
  have hcap : b.cap = 400 := hb.cap.trans hlong.cap
  exact extends_packEntry hb.clean (by omega) (by omega)

theorem packerAt_start (sps : Sps) : Extends { cap := 400 } (packerAt sps 0) 1024 :=
  extends_longTerm (some sps)

theorem packerAt_pos (sps : Sps) (hi : i ≤ 64) :
    (packerAt sps i).pos = entryPos i ∧ (packerAt sps i).cap = 400 := by
  have hstart := packerAt_start sps
  have hat := extends_packerAt sps (Nat.zero_le i) hi
  refine ⟨?_, hat.cap.trans hstart.cap⟩
  rw [hat.pos, hstart.pos, Nat.sub_zero]
  exact congrArg (· + i * 384) (Nat.zero_add 1024)

/-- The packed table has the fields of every set in its entry. -/
theorem packRps_fields {parsed : ParseResult} {outSize : Nat} {table : List Byte}
    (hpack : packRps parsed outSize = some table) (hsps : activeValidSps parsed = some sps)
    (hi : i < sps.numShortTermRefPicSets) (hmax : sps.numShortTermRefPicSets ≤ maxShortTermRps) :
    fields (ofBytes table) (entryPos i) entryWidths =
      (shortTermFields (sps.stRps.getD i {})).map fun f => f.1 % 2 ^ f.2 := by
  have hi64 : i < 64 := lt_of_lt_of_le hi hmax
  have hwidth : entryWidths.sum = 263 := rfl
  obtain ⟨hpos, hcap⟩ := packerAt_pos sps (i := i) (by omega)
  have hbefore := (extends_packerAt sps (Nat.zero_le i) (by omega : i ≤ 64)).clean
  have hroom : (packerAt sps i).pos + ((shortTermFields (sps.stRps.getD i {})).map Prod.snd).sum ≤
      64 * (packerAt sps i).cap := by
    rw [shortTermFields_widths, hwidth, hpos, hcap]
    unfold entryPos
    omega
  obtain ⟨hputs, hfields⟩ := extends_puts hbefore _ hroom
  rw [shortTermFields_widths] at hputs hfields
  have hpad := extends_pad hputs (by rw [hpos]; unfold entryPos; omega)
    (by rw [hpos, hcap]; unfold entryPos; omega)
  have hthis : packerAt sps (i + 1) =
      (((packerAt sps i).puts (shortTermFields (sps.stRps.getD i {}))).align 64 false).skip 64 := by
    unfold packerAt
    rw [List.range_succ, List.foldl_append]
    exact congrArg (fun bp => (BitPacker.align bp 64 false).skip 64) (if_pos (by omega))
  have hrest := extends_packerAt sps (by omega : i + 1 ≤ 64) le_rfl
  rw [hthis] at hrest
  have hend := hpad.trans hrest
  rw [packRps_bytes hpack hsps, hend.clean.ofBytes, ← hfields, ← hpos]
  exact hend.fields (by rw [hputs.pos])

end Packing

section Parsing

variable {σ α β : Type}

/-- What a parser returns, if it does not give up. -/
def Returns (p : Parser σ α) (Q : α → Prop) : Prop := Gives (fun _ => True) p fun a _ => Q a

variable {Q : α → Prop} {R : β → Prop} {p q : Parser σ α}

theorem Returns.bind {f : α → Parser σ β} (hp : Returns p Q) (hf : ∀ a, Q a → Returns (f a) R) :
    Returns (p >>= f) R := by
  intro s br b s' br' _ hexec
  obtain ⟨a, s₁, br₁, hfirst, hrest⟩ := exec_bind_ok hexec
  exact hf a (hp s br a s₁ br₁ trivial hfirst) s₁ br₁ b s' br' trivial hrest

theorem Returns.after {f : α → Parser σ β} (p : Parser σ α) (hf : ∀ a, Returns (f a) R) :
    Returns (p >>= f) R :=
  Returns.bind (Q := fun _ => True) (fun _ _ _ _ _ _ _ => trivial) fun a _ => hf a

theorem returns_pure {a : α} (h : Q a) : Returns (pure a : Parser σ α) Q := by
  intro s br b s' br' _ hexec
  cases hexec
  exact h

theorem returns_throw (e : ParseError) : Returns (throw e : Parser σ α) Q := by
  intro s br b s' br' _ hexec
  cases hexec

theorem Returns.cond {c : Prop} [Decidable c] (hp : c → Returns p Q) (hq : ¬c → Returns q Q) :
    Returns (if c then p else q) Q := Gives.cond hp hq

/-- The parser gives up in one case. -/
theorem Returns.guard {c : Prop} [Decidable c] {e : ParseError} {f : PUnit → Parser σ α}
    (hf : ¬c → Returns (f PUnit.unit) Q) : Returns (if c then throw e >>= f else f PUnit.unit) Q :=
  .cond (fun _ => .bind (returns_throw e) (Q := fun _ => False) fun _ h => h.elim) hf

/-- A value that is read in one case only. -/
theorem Returns.branch {c : Prop} [Decidable c] {f : α → Parser σ β}
    (hf : ∀ a, Returns (f a) R) : Returns (if c then p >>= f else q >>= f) R :=
  .cond (fun _ => .after p hf) fun _ => .after q hf

theorem returns_brU1 : Returns (brU1 : Parser σ Nat) (· ≤ 1) := by
  intro s br a s' br' _ hexec
  have hask := exec_ask (.u 1) s br
  have hlt := Bitstream.H265.uLoop_lt 1 0 br
  rw [show exec (brU1 : Parser σ Nat) s br = _ from hask] at hexec
  cases hexec
  exact Nat.le_of_lt_succ hlt

theorem returns_brU8 : Returns (Bitstream.H265.brU8 1) (· ≤ 1) := by
  unfold Bitstream.H265.brU8
  refine returns_brU1.bind fun used hused => returns_pure ?_
  have hmod := Nat.mod_le used (2 ^ 8)
  exact le_trans hmod hused

/-- POC deltas and used flags that fit their types. -/
def Fit (pics : List (Int × Nat)) : Prop := ∀ e ∈ pics, (-2 ^ 15 ≤ e.1 ∧ e.1 < 2 ^ 15) ∧ e.2 ≤ 1

theorem i16_range (d : Int) : -2 ^ 15 ≤ i16 d ∧ i16 d < 2 ^ 15 := by
  unfold i16
  rw [Int.bmod_def]
  split <;> omega

theorem returns_parsePredictionFlags (n j : Nat) :
    Returns (Bitstream.H265.parsePredictionFlags n j) fun flags => ∀ f ∈ flags, f.1 ≤ 1 := by
  induction n generalizing j with
  | zero => exact returns_pure (by simp)
  | succ n ih =>
    unfold Bitstream.H265.parsePredictionFlags
    refine .after _ fun _ => returns_brU8.bind fun used hused => ?_
    refine .branch fun useDelta => (ih (j + 1)).bind fun rest hrest => returns_pure ?_
    rw [List.forall_mem_cons]
    exact ⟨hused, hrest⟩

theorem flags_getD {flags : List (Nat × Bool)} (h : ∀ f ∈ flags, f.1 ≤ 1) (i : Nat) :
    (flags.getD i (0, false)).1 ≤ 1 := by
  rw [List.getD_eq_getElem?_getD]
  cases hi : flags[i]? with
  | none => simp
  | some f => exact h f (List.mem_of_getElem? hi)

theorem returns_predictFrom {ref : ShortTermRps} {flags : List (Nat × Bool)} {deltaRps : Int}
    {keep : Int → Bool} (h : ∀ f ∈ flags, f.1 ≤ 1) (entries : List Nat) :
    Returns (Bitstream.H265.predictFrom ref flags deltaRps keep entries) Fit := by
  induction entries with
  | nil => exact returns_pure (by simp [Fit])
  | cons i rest ih =>
    unfold Bitstream.H265.predictFrom
    refine .after _ fun _ => .after _ fun _ => ?_
    have hused := flags_getD h i
    generalize flags.getD i (0, false) = f at hused ⊢
    obtain ⟨used, useDelta⟩ := f
    refine ih.bind fun kept hkept => returns_pure ?_
    split
    · unfold Fit
      rw [List.forall_mem_cons]
      exact ⟨⟨i16_range _, hused⟩, hkept⟩
    · exact hkept

theorem fit_predictPivot {flags : List (Nat × Bool)} (h : ∀ f ∈ flags, f.1 ≤ 1) (nRef : Nat)
    (deltaRps : Int) (keep : Int → Bool) :
    Fit (Bitstream.H265.predictPivot flags nRef deltaRps keep) := by
  have hused := flags_getD h nRef
  unfold Bitstream.H265.predictPivot
  dsimp only
  split
  · unfold Fit
    rw [List.forall_mem_singleton]
    exact ⟨i16_range _, hused⟩
  · simp [Fit]

theorem Fit.append {l l' : List (Int × Nat)} (h : Fit l) (h' : Fit l') : Fit (l ++ l') := by
  intro e he
  rcases List.mem_append.mp he with he | he
  · exact h e he
  · exact h' e he

/-- The fields of a set that are lists. -/
structure Lists (rps : ShortTermRps) : Prop where
  poc : ∀ d ∈ rps.deltaPoc, -2 ^ 15 ≤ d ∧ d < 2 ^ 15
  used : ∀ u ∈ rps.usedByCurrPicFlag, u ≤ 1

theorem lists_blank (interRps : Nat) : Lists { interRefPicSetPredictionFlag := interRps } := by
  refine ⟨?_, ?_⟩
  · intro d hd
    rw [List.eq_of_mem_replicate hd]
    omega
  · intro u hu
    rw [List.eq_of_mem_replicate hu]
    omega

theorem ok_blank : Ok {} := ⟨rfl, Nat.zero_le _, (lists_blank 0).poc, (lists_blank 0).used⟩

theorem ok_entries {out : ShortTermRps} (hout : Lists out) {neg pos : List (Int × Nat)}
    (hneg : Fit neg) (hpos : Fit pos) (hfew : ¬maxRefs < (neg ++ pos).length) :
    Ok { out with
      numNegativePics := u8 neg.length
      numPositivePics := u8 pos.length
      numDeltaPocs := u8 (neg ++ pos).length
      deltaPoc := (neg ++ pos).map Prod.fst ++ out.deltaPoc.drop (neg ++ pos).length
      usedByCurrPicFlag := (neg ++ pos).map Prod.snd ++ out.usedByCurrPicFlag.drop
        (neg ++ pos).length } := by
  have hfit := hneg.append hpos
  have hlen : (neg ++ pos).length = neg.length + pos.length := List.length_append
  refine ⟨?_, ?_, ?_, ?_⟩
  · dsimp only
    unfold u8 maxRefs at *
    omega
  · dsimp only
    unfold u8 maxRefs at *
    omega
  · intro d hd
    rcases List.mem_append.mp hd with hd | hd
    · obtain ⟨e, he, rfl⟩ := List.mem_map.mp hd
      exact (hfit e he).1
    · exact hout.poc d (List.mem_of_mem_drop hd)
  · intro u hu
    rcases List.mem_append.mp hu with hu | hu
    · obtain ⟨e, he, rfl⟩ := List.mem_map.mp hu
      exact (hfit e he).2
    · exact hout.used u (List.mem_of_mem_drop hu)

/-- A predicted set is within the limit. -/
theorem returns_parseInterRps (rpsList : List ShortTermRps) (stRpsIdx num : Nat)
    {out : ShortTermRps} (hout : Lists out) :
    Returns (Bitstream.H265.parseInterRps rpsList stRpsIdx num out) Ok := by
  unfold Bitstream.H265.parseInterRps
  refine .branch fun deltaIdxMinus1 => ?_
  refine .guard fun _ => .after _ fun _ => .after _ fun _ => .after _ fun _ => ?_
  refine .guard fun _ => ?_
  refine (returns_parsePredictionFlags _ _).bind fun flags hflags => ?_
  refine (returns_predictFrom hflags _).bind fun neg₁ hneg₁ => ?_
  refine (returns_predictFrom hflags _).bind fun neg₂ hneg₂ => ?_
  refine (returns_predictFrom hflags _).bind fun pos₁ hpos₁ => ?_
  refine (returns_predictFrom hflags _).bind fun pos₂ hpos₂ => ?_
  have hpivot := fit_predictPivot hflags
  have hneg := fun nRef d keep => (hneg₁.append (hpivot nRef d keep)).append hneg₂
  have hpos := fun nRef d keep => (hpos₁.append (hpivot nRef d keep)).append hpos₂
  refine .cond (fun _ => .after _ fun _ => ?_) fun _ => ?_
  · exact .guard fun hfew => returns_pure (ok_entries hout (hneg _ _ _) (hpos _ _ _) hfew)
  · exact .guard fun hfew => returns_pure (ok_entries hout (hneg _ _ _) (hpos _ _ _) hfew)

/-- A coded set is within the limit. -/
theorem returns_parseDeltas (sign : Int) (n j : Nat) (prev : Int) {out : ShortTermRps}
    (hout : Lists out) :
    Returns (Bitstream.H265.parseDeltas sign n j prev out) fun out' => Lists out' ∧
      out'.numNegativePics = out.numNegativePics ∧ out'.numPositivePics = out.numPositivePics ∧
      out'.numDeltaPocs = out.numDeltaPocs := by
  induction n generalizing j prev out with
  | zero => exact returns_pure ⟨hout, rfl, rfl, rfl⟩
  | succ n ih =>
    unfold Bitstream.H265.parseDeltas
    refine .after _ fun delta => .after _ fun _ => returns_brU8.bind fun used hused => ?_
    refine ih _ _ ⟨?_, ?_⟩
    · intro d hd
      rcases List.mem_or_eq_of_mem_set hd with hd | rfl
      · exact hout.poc d hd
      · exact i16_range _
    · intro u hu
      rcases List.mem_or_eq_of_mem_set hu with hu | rfl
      · exact hout.used u hu
      · exact hused

theorem returns_parseDirectRps {out : ShortTermRps} (hout : Lists out) :
    Returns (Bitstream.H265.parseDirectRps out) Ok := by
  unfold Bitstream.H265.parseDirectRps
  refine .after _ fun numNeg => .after _ fun numPos => ?_
  refine .guard fun hfew => ?_
  have hu32 : Bitstream.u32 (numNeg + numPos) = numNeg + numPos := by
    unfold Bitstream.u32 maxRefs at *
    omega
  rw [hu32] at hfew
  have hlists : Lists { out with
      numNegativePics := u8 numNeg
      numPositivePics := u8 numPos
      numDeltaPocs := u8 (numNeg + numPos) } := ⟨hout.poc, hout.used⟩
  refine (returns_parseDeltas (-1) numNeg 0 0 hlists).bind fun out₁ h₁ => ?_
  obtain ⟨hlists₁, hneg₁, hpos₁, hnum₁⟩ := h₁
  intro s br out₂ s' br' _ hexec
  obtain ⟨hlists₂, hneg₂, hpos₂, hnum₂⟩ :=
    returns_parseDeltas 1 numPos numNeg 0 hlists₁ s br out₂ s' br' trivial hexec
  have hneg : out₂.numNegativePics = u8 numNeg := hneg₂.trans hneg₁
  have hpos : out₂.numPositivePics = u8 numPos := hpos₂.trans hpos₁
  have hnum : out₂.numDeltaPocs = u8 (numNeg + numPos) := hnum₂.trans hnum₁
  refine ⟨?_, ?_, hlists₂.poc, hlists₂.used⟩
  · rw [hneg, hpos, hnum]
    unfold u8 maxRefs at *
    omega
  · rw [hnum]
    unfold u8 maxRefs at *
    omega

theorem returns_parseStRps (mark : Nat → P Unit) (rpsList : List ShortTermRps)
    (stRpsIdx num : Nat) :
    Returns (Bitstream.H265.parseStRps mark rpsList stRpsIdx num) Ok := by
  unfold Bitstream.H265.parseStRps
  refine .branch fun interRps => .after _ fun _ => ?_
  exact .cond (fun _ => returns_parseInterRps rpsList stRpsIdx num (lists_blank _))
    fun _ => returns_parseDirectRps (lists_blank _)

/-- All sets of an SPS are within the limit, and so is their number. -/
structure SetsOk (sets : List ShortTermRps) (num : Nat) : Prop where
  sets : ∀ rps ∈ sets, Ok rps
  few : num ≤ maxShortTermRps

/-- An SPS whose sets have the property. -/
abbrev SetsAre (K : List ShortTermRps → Nat → Prop) (sps : Sps) : Prop :=
  K sps.stRps sps.numShortTermRefPicSets

theorem returns_parseRpsTable (n i : Nat) {tmp : Sps} (h : SetsAre SetsOk tmp) :
    Returns (Bitstream.H265.parseRpsTable n i tmp) (SetsAre SetsOk) := by
  induction n generalizing i tmp with
  | zero => exact returns_pure h
  | succ n ih =>
    unfold Bitstream.H265.parseRpsTable
    refine .after _ fun _ => (returns_parseStRps _ _ _ _).bind fun rps hrps => ih _ ⟨?_, h.few⟩
    intro r hr
    rcases List.mem_or_eq_of_mem_set hr with hr | rfl
    · exact h.sets r hr
    · exact hrps

section Others

variable {K : List ShortTermRps → Nat → Prop} {tmp : Sps}

theorem returns_parseSpsHead (h : K (List.replicate maxShortTermRps {}) 0) :
    Returns Bitstream.H265.parseSpsHead (SetsAre K) := by
  unfold Bitstream.H265.parseSpsHead
  refine .after _ fun _ => .after _ fun _ => .after _ fun _ => .guard fun _ => ?_
  refine .after _ fun _ => .after _ fun _ => .guard fun _ => .after _ fun _ => ?_
  exact .branch fun _ => .after _ fun _ => .after _ fun _ => .guard fun _ => returns_pure h

theorem returns_parseSpsOrdering (n i : Nat) (h : SetsAre K tmp) :
    Returns (Bitstream.H265.parseSpsOrdering n i tmp) (SetsAre K) := by
  induction n generalizing i tmp with
  | zero => exact returns_pure h
  | succ n ih =>
    unfold Bitstream.H265.parseSpsOrdering
    exact .after _ fun _ => .after _ fun _ => .after _ fun _ => ih _ h

theorem returns_parseSubLayerOrdering (h : SetsAre K tmp) :
    Returns (Bitstream.H265.parseSubLayerOrdering tmp) (SetsAre K) := by
  unfold Bitstream.H265.parseSubLayerOrdering
  refine .after _ fun _ => ?_
  dsimp only
  refine .bind (returns_parseSpsOrdering (K := K) _ _ h) fun tmp htmp => returns_pure ?_
  split
  · exact htmp
  · exact htmp

theorem returns_parseConformanceWindow (h : SetsAre K tmp) :
    Returns (Bitstream.H265.parseConformanceWindow tmp) (SetsAre K) := by
  unfold Bitstream.H265.parseConformanceWindow
  refine .after _ fun _ => .cond (fun _ => returns_pure h) fun _ => ?_
  exact .after _ fun _ => .after _ fun _ => .after _ fun _ => .after _ fun _ => returns_pure h

theorem returns_parseBlockSizes (h : SetsAre K tmp) :
    Returns (Bitstream.H265.parseBlockSizes tmp) (SetsAre K) := by
  unfold Bitstream.H265.parseBlockSizes
  exact .after _ fun _ => .after _ fun _ => .after _ fun _ => .after _ fun _ => .after _ fun _ =>
    .after _ fun _ => returns_pure h

theorem returns_parseSpsScalingList (h : SetsAre K tmp) :
    Returns (Bitstream.H265.parseSpsScalingList tmp) (SetsAre K) := by
  unfold Bitstream.H265.parseSpsScalingList
  refine .after _ fun _ => .cond (fun _ => returns_pure h) fun _ => ?_
  exact .after _ fun _ => .branch fun _ => returns_pure h

theorem returns_parsePcm (h : SetsAre K tmp) :
    Returns (Bitstream.H265.parsePcm tmp) (SetsAre K) := by
  unfold Bitstream.H265.parsePcm
  refine .after _ fun _ => .cond (fun _ => returns_pure h) fun _ => ?_
  exact .after _ fun _ => .after _ fun _ => .after _ fun _ => .after _ fun _ => .after _ fun _ =>
    returns_pure h

theorem returns_parseLtRefPics (n i : Nat) (h : SetsAre K tmp) :
    Returns (Bitstream.H265.parseLtRefPics n i tmp) (SetsAre K) := by
  induction n generalizing i tmp with
  | zero => exact returns_pure h
  | succ n ih =>
    unfold Bitstream.H265.parseLtRefPics
    exact .after _ fun _ => .after _ fun _ => ih _ h

theorem returns_parseLongTerm (h : SetsAre K tmp) :
    Returns (Bitstream.H265.parseLongTerm tmp) (SetsAre K) := by
  unfold Bitstream.H265.parseLongTerm
  refine .after _ fun _ => .cond (fun _ => returns_pure h) fun _ => ?_
  exact .after _ fun _ => .guard fun _ => returns_parseLtRefPics (K := K) _ _ h

theorem returns_deriveCtbs (h : SetsAre K tmp) :
    Returns (Bitstream.H265.deriveCtbs tmp) (SetsAre K) := by
  unfold Bitstream.H265.deriveCtbs
  exact .guard fun _ => returns_pure h

end Others

theorem ok_getD {sps : Sps} (h : SetsAre SetsOk sps) (i : Nat) : Ok (sps.stRps.getD i {}) := by
  rw [List.getD_eq_getElem?_getD]
  cases hget : sps.stRps[i]? with
  | none => exact ok_blank
  | some rps => exact h.sets rps (List.mem_of_getElem? hget)

/-- What `parse_sps` reads is within the limits. -/
theorem returns_parseSpsFields : Returns Bitstream.H265.parseSpsFields (SetsAre SetsOk) := by
  have hblank : SetsOk (List.replicate maxShortTermRps {}) 0 := by
    refine ⟨?_, Nat.zero_le _⟩
    intro rps hrps
    rw [List.eq_of_mem_replicate hrps]
    exact ok_blank
  unfold Bitstream.H265.parseSpsFields
  refine (returns_parseSpsHead hblank).bind fun tmp h =>
    (returns_parseConformanceWindow h).bind fun tmp h => ?_
  refine .after _ fun _ => .after _ fun _ => .after _ fun _ => ?_
  dsimp only
  refine .bind (returns_parseSubLayerOrdering (K := SetsOk) h) fun tmp h => ?_
  refine (returns_parseBlockSizes h).bind fun tmp h =>
    (returns_parseSpsScalingList h).bind fun tmp h => ?_
  refine .after _ fun _ => .after _ fun _ => ?_
  refine .bind (returns_parsePcm (K := SetsOk) h) fun tmp h => ?_
  refine .after _ fun numRps => .guard fun hfew => ?_
  refine .bind (returns_parseRpsTable _ _ ⟨h.sets, not_lt.mp hfew⟩) fun tmp h => ?_
  refine (returns_parseLongTerm h).bind fun tmp h => .after _ fun _ => .after _ fun _ => ?_
  exact returns_deriveCtbs (K := SetsOk) h

/-- An accepted SPS is stored as it was read. -/
theorem parseSps_stores {o o' : ParseResult} {br br' : BitReader}
    (h : exec parseSps o br = ((.ok (), o'), br')) :
    ∃ tmp o₁ br₁, exec parseSpsFields o br = ((.ok tmp, o₁), br₁) ∧
      o'.sps = o.sps.set tmp.spsId { tmp with valid := true } := by
  obtain ⟨tmp, o₁, br₁, hfields, hrest⟩ := exec_bind_ok h
  obtain ⟨u, o₂, br₂, hcheck, hstore⟩ := exec_bind_ok hrest
  have hkept : o₂.sps = o.sps := by
    have hkeeps : Bitstream.Keeps ParseResult.sps parseSpsFields :=
      Bitstream.H265.keeps_parseSpsFields
    have hkeepsCheck : Bitstream.Keeps ParseResult.sps checkFailed := Bitstream.keeps_checkFailed
    have hfirst := hkeeps o br
    have hsecond := hkeepsCheck o₁ br₁
    rw [hfields] at hfirst
    rw [hcheck] at hsecond
    exact hsecond.trans hfirst
  cases hstore
  exact ⟨tmp, o₁, br₁, hfields, by rw [← hkept]⟩

end Parsing

section Table

variable {o o' : ParseResult} {br br' : BitReader}

/-- The table of an accepted SPS gives every set back if and only if none has more than 15 pictures,
which is one less than the parser takes. -/
theorem rps_table_decodes_iff (h : exec parseSps o br = ((.ok (), o'), br')) :
    ∃ tmp o₁ br₁, exec parseSpsFields o br = ((.ok tmp, o₁), br₁) ∧
      o'.sps = o.sps.set tmp.spsId { tmp with valid := true } ∧
      ∀ parsed outSize table, activeValidSps parsed = some { tmp with valid := true } →
        packRps parsed outSize = some table →
          ((∀ i < tmp.numShortTermRefPicSets, decodeEntry table i = entryOf (tmp.stRps.getD i {})) ↔
            ∀ i < tmp.numShortTermRefPicSets, (tmp.stRps.getD i {}).numDeltaPocs ≤ 15) := by
  obtain ⟨tmp, o₁, br₁, hfields, hstored⟩ := parseSps_stores h
  have hok := returns_parseSpsFields o br tmp o₁ br₁ trivial hfields
  refine ⟨tmp, o₁, br₁, hfields, hstored, ?_⟩
  intro parsed outSize table hactive hpack
  have hentry :
      ∀ i < tmp.numShortTermRefPicSets, (decodeEntry table i = entryOf (tmp.stRps.getD i {}) ↔
      (tmp.stRps.getD i {}).numDeltaPocs ≤ 15) := by
    intro i hi
    have hset := ok_getD hok i
    unfold decodeEntry
    rw [packRps_fields hpack hactive hi hok.few]
    exact hset.decodes_iff
  constructor
  · intro hall i hi
    exact (hentry i hi).mp (hall i hi)
  · intro hfew i hi
    exact (hentry i hi).mpr (hfew i hi)

/-- An SPS with a coded set of one picture and one that is predicted from it. -/
def predictedSps : BitReader :=
  .init [0x01, 0x01, 0x60, 0x00, 0x00, 0x00, 0x90, 0x00, 0x00, 0x00, 0x00, 0x00, 0x1e, 0xa0, 0x20,
    0x81, 0x05, 0xff, 0xf0, 0x6b, 0xfc, 0x40]

/-- An SPS with a set of 16 pictures before the current one. -/
def fullSps : BitReader :=
  .init [0x01, 0x01, 0x60, 0x00, 0x00, 0x00, 0x90, 0x00, 0x00, 0x00, 0x00, 0x00, 0x1e, 0xa0, 0x20,
    0x81, 0x05, 0xff, 0xf0, 0x41, 0x1f, 0xff, 0xff, 0xff, 0xf8, 0x80]

theorem exists_of_isOk {α σ : Type} {r : (Except ParseError α × σ) × BitReader}
    (h : r.1.1.isOk = true) :
    ∃ a s br, r = ((.ok a, s), br) := by
  obtain ⟨⟨res, s⟩, br⟩ := r
  cases res with
  | ok a => exact ⟨a, s, br, rfl⟩
  | error e => cases h

/-- The result of an access unit with one SPS, which is in use. -/
def withSps (sps : Sps) : ParseResult :=
  { sps := List.replicate Bitstream.H265.maxSps { sps with valid := true }, activeSpsId := 0 }

theorem activeValidSps_withSps (sps : Sps) :
    activeValidSps (withSps sps) = some { sps with valid := true } :=
  rfl

/-- The theorem on the SPS with a predicted set. -/
theorem rps_table_decodes_iff_predicted : ∃ sps table o' br₁,
    exec parseSpsFields {} predictedSps = ((.ok sps, o'), br₁) ∧
    packRps (withSps sps) rpsSize = some table ∧ sps.numShortTermRefPicSets = 2 ∧
    ∀ i < 2, decodeEntry table i = entryOf (sps.stRps.getD i {}) := by
  obtain ⟨u, o', br', hparse⟩ :=
    exists_of_isOk (r := exec parseSps {} predictedSps) (by decide +kernel)
  obtain ⟨sps, o₁, br₁, hfields, -, hiff⟩ := rps_table_decodes_iff hparse
  have hread : (exec parseSpsFields {} predictedSps).1.1.toOption.map (fun sps =>
      (sps.numShortTermRefPicSets, (sps.stRps.getD 0 {}).numDeltaPocs,
        (sps.stRps.getD 1 {}).numDeltaPocs)) =
      some (2, 1, 2) := by decide +kernel
  rw [hfields] at hread
  obtain ⟨hnum, hcounts⟩ := Prod.mk.inj (Option.some.inj hread)
  obtain ⟨hfirst, hsecond⟩ := Prod.mk.inj hcounts
  have hiff := hiff (withSps sps) rpsSize _ (activeValidSps_withSps sps) rfl
  refine ⟨sps, _, o₁, br₁, hfields, rfl, hnum, ?_⟩
  rw [hnum] at hiff
  apply hiff.mpr
  intro i hi
  obtain rfl | rfl : i = 0 ∨ i = 1 := by omega
  · omega
  · omega

/-- A set of 16 pictures comes back with a count of none. -/
theorem sixteen_pictures_lost : ∃ sps table o' br₁,
    exec parseSpsFields {} fullSps = ((.ok sps, o'), br₁) ∧
    (exec parseSps {} fullSps).1.1.isOk = true ∧
    packRps (withSps sps) rpsSize = some table ∧ sps.numShortTermRefPicSets = 1 ∧
    (sps.stRps.getD 0 {}).numNegativePics = 16 ∧ (decodeEntry table 0).numNegativePics = 0 := by
  obtain ⟨sps, o₁, br₁, hfields⟩ :=
    exists_of_isOk (r := exec parseSpsFields {} fullSps) (by decide +kernel)
  have hread : (exec parseSpsFields {} fullSps).1.1.toOption.map (fun sps =>
      (sps.numShortTermRefPicSets, (sps.stRps.getD 0 {}).numNegativePics)) = some (1, 16) := by
    decide +kernel
  rw [hfields] at hread
  obtain ⟨hnum, hneg⟩ := Prod.mk.inj (Option.some.inj hread)
  obtain ⟨table, hpack⟩ : ∃ table, packRps (withSps sps) rpsSize = some table := ⟨_, rfl⟩
  refine ⟨sps, table, o₁, br₁, hfields, by decide +kernel, hpack, hnum, hneg, ?_⟩
  have hone : 0 < sps.numShortTermRefPicSets := by omega
  have hmax : sps.numShortTermRefPicSets ≤ maxShortTermRps := le_trans hnum.le (by decide)
  have hentry := packRps_fields hpack (activeValidSps_withSps sps) hone hmax
  unfold decodeEntry
  rw [hentry, decodeFields_shortTermFields]
  dsimp only
  rw [hneg]
  rfl

end Table

end Rkvdec.Engine.Rps
