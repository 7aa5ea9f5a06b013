import Rkvdec.Lib.Golomb
import Rkvdec.Bitstream.SegmentHeader

/-! Syntax elements as they are written, and that the bit reader reads them back one behind the
other. -/
namespace Rkvdec.Bitstream

open Lib (bitsOf readBits golomb signedRank)

/-- The bits of the data, the most significant of each byte first. -/
def dataBits (data : List Byte) : List Bool := data.flatMap fun b => bitsOf 8 b.toNat

namespace BitReader

variable {br : BitReader} {w rest : List Bool}

/-- The bits that are not read yet. -/
def ahead (br : BitReader) : List Bool := (dataBits br.data).drop br.bitPos

def advance (br : BitReader) (n : Nat) : BitReader := { br with bitPos := br.bitPos + n }

@[simp] theorem advance_advance (br : BitReader) (m n : Nat) :
    (br.advance m).advance n = br.advance (m + n) := by
  rw [advance, advance, advance, Nat.add_assoc]

theorem length_dataBits (data : List Byte) : (dataBits data).length = data.length * 8 := by
  induction data with
  | nil => rfl
  | cons b data ih =>
    rw [dataBits, List.flatMap_cons, List.length_append, Lib.length_bitsOf]
    rw [dataBits] at ih
    rw [ih, List.length_cons]
    omega

theorem length_ahead (br : BitReader) : br.ahead.length = br.bits - br.bitPos := by
  rw [ahead, List.length_drop, length_dataBits, bits]

theorem ahead_advance (h : br.ahead = w ++ rest) : (br.advance w.length).ahead = rest := by
  have hdrop : (br.advance w.length).ahead = br.ahead.drop w.length := by
    rw [ahead, ahead, List.drop_drop]
    rfl
  rw [hdrop, h, List.drop_left]

theorem getElem?_dataBits (data : List Byte) (i : Nat) :
    (dataBits data)[i]? = data[i / 8]?.map fun b => b.getLsbD (7 - i % 8) := by
  induction data generalizing i with
  | nil => simp [dataBits]
  | cons b data ih =>
    have hcons : dataBits (b :: data) = bitsOf 8 b.toNat ++ dataBits data := List.flatMap_cons
    rw [hcons]
    by_cases hi : i < 8
    · have hzero : i / 8 = 0 := by omega
      have hmod : i % 8 = i := by omega
      rw [List.getElem?_append_left (by rw [Lib.length_bitsOf]; exact hi), hzero, hmod, bitsOf,
        List.getElem?_map, List.getElem?_range hi]
      rfl
    · have hsucc : i / 8 = (i - 8) / 8 + 1 := by omega
      have hmod : (i - 8) % 8 = i % 8 := by omega
      rw [List.getElem?_append_right (by rw [Lib.length_bitsOf]; omega), Lib.length_bitsOf, ih,
        hsucc, hmod, List.getElem?_cons_succ]

/-- The next bit is there and is the one the reader takes. -/
theorem next_of_ahead {b : Bool} (h : br.ahead = b :: rest) :
    br.bitPos < br.bits ∧ br.bitAt br.bitPos = b := by
  have hlt : br.bitPos < br.bits := by
    have hlength := br.length_ahead
    rw [h, List.length_cons] at hlength
    omega
  refine ⟨hlt, ?_⟩
  have hnext : (dataBits br.data)[br.bitPos]? = some b := by
    have hhead : br.ahead[0]? = some b := by rw [h]; rfl
    rwa [ahead, List.getElem?_drop, Nat.add_zero] at hhead
  rw [getElem?_dataBits, Option.map_eq_some_iff] at hnext
  obtain ⟨byte, hbyte, hbit⟩ := hnext
  rw [bitAt, List.getD_eq_getElem?_getD, hbyte]
  exact hbit

theorem eof_iff : br.eof = true ↔ br.ahead = [] := by
  rw [eof, decide_eq_true_iff, List.eq_nil_iff_length_eq_zero, length_ahead]
  omega

theorem uLoop_ahead (v : Nat) (h : br.ahead = w ++ rest) (hv : readBits v w < 2 ^ 32) :
    uLoop w.length v br = (readBits v w, br.advance w.length) := by
  induction w generalizing v br with
  | nil => rfl
  | cons b w ih =>
    obtain ⟨hlt, hbit⟩ := next_of_ahead h
    have hsmall : 2 * v + b.toNat < 2 ^ 32 := by
      have hgrow : 2 * v + b.toNat ≤ readBits v (b :: w) := Lib.le_readBits _ w
      omega
    have hahead : (br.advance 1).ahead = w ++ rest := ahead_advance (w := [b]) h
    have hrec := ih (2 * v + b.toNat) hahead hv
    rw [List.length_cons, uLoop, if_neg (by omega), hbit, Nat.mod_eq_of_lt hsmall]
    rw [advance_advance, Nat.add_comm 1] at hrec
    exact hrec

/-- `br_u` on a number of at most 32 bits. -/
theorem u_ahead {n v : Nat} (hn : n ≤ 32) (hv : v < 2 ^ n) (h : br.ahead = bitsOf n v ++ rest) :
    br.u n = (v, br.advance n) := by
  have hvalue : readBits 0 (bitsOf n v) = v := Lib.readBits_of_lt hv
  have hsmall : readBits 0 (bitsOf n v) < 2 ^ 32 := by
    rw [hvalue]
    exact hv.trans_le (Nat.pow_le_pow_right (by omega) hn)
  have hloop := uLoop_ahead 0 h hsmall
  rwa [Lib.length_bitsOf, hvalue] at hloop

theorem u_bit {b : Bool} (h : br.ahead = b :: rest) : br.u 1 = (b.toNat, br.advance 1) := by
  have hsmall : readBits 0 [b] < 2 ^ 32 := by
    cases b with
    | false => decide
    | true => decide
  have hloop := uLoop_ahead (w := [b]) 0 h hsmall
  have hvalue : readBits 0 [b] = b.toNat := by
    cases b with
    | false => rfl
    | true => rfl
  rwa [hvalue] at hloop

/-- The loop of `br_ue` stops behind the marker. -/
theorem countZeros_ahead {k fuel : Nat} (h : br.ahead = List.replicate k false ++ true :: rest)
    (hfuel : k < fuel) : countZeros fuel br = (k, br.advance (k + 1)) := by
  induction k generalizing br fuel with
  | zero =>
    obtain ⟨fuel, rfl⟩ : ∃ m, fuel = m + 1 := ⟨fuel - 1, by omega⟩
    have hmore : ¬br.eof = true := by rw [eof_iff, h]; simp
    rw [countZeros, if_neg hmore, u_bit h]
    rfl
  | succ k ih =>
    obtain ⟨fuel, rfl⟩ : ∃ m, fuel = m + 1 := ⟨fuel - 1, by omega⟩
    have hzero : br.ahead = false :: (List.replicate k false ++ true :: rest) := h
    have hmore : ¬br.eof = true := by rw [eof_iff, hzero]; simp
    have hrest : (br.advance 1).ahead = List.replicate k false ++ true :: rest :=
      ahead_advance (w := [false]) hzero
    have hrec := ih hrest (Nat.lt_of_succ_lt_succ hfuel)
    rw [countZeros, if_neg hmore, u_bit hzero]
    dsimp only
    rw [if_pos Bool.toNat_false, hrec, advance_advance, Nat.add_comm 1]

/-- `br_ue` on a codeword, whatever comes behind it. -/
theorem ue_ahead {v : Nat} (hv : v ≤ 2 ^ 32 - 2) (h : br.ahead = golomb v ++ rest) :
    br.ue = (v, br.advance (golomb v).length) := by
  have hlow : 2 ^ (v + 1).log2 ≤ v + 1 := Nat.log2_self_le (by omega)
  have hsuffix := Lib.suffix_lt v
  have hsum := Lib.zeros_add_suffix v
  have hlength := Lib.length_golomb v
  rw [Lib.golomb_eq, List.append_assoc, List.cons_append] at h
  generalize (v + 1).log2 = k at h hlow hsuffix hsum hlength
  have hk : k ≤ 31 := by
    have hpow : 2 ^ k < 2 ^ 32 := by omega
    have hlt := (Nat.pow_lt_pow_iff_right (by omega : 1 < 2)).mp hpow
    omega
  have hbits : br.bits - br.bitPos = k + (1 + (k + rest.length)) := by
    rw [← length_ahead, h, List.length_append, List.length_replicate, List.length_cons,
      List.length_append, Lib.length_bitsOf]
    omega
  have hfuel : k < br.bits - br.bitPos := by omega
  have hzeros := countZeros_ahead h hfuel
  have hrest : (br.advance (k + 1)).ahead = bitsOf k (v + 1 - 2 ^ k) ++ rest := by
    have hmarked : br.ahead =
        (List.replicate k false ++ [true]) ++ (bitsOf k (v + 1 - 2 ^ k) ++ rest) := by
      rw [h, List.append_assoc]
      rfl
    have hahead := ahead_advance hmarked
    rwa [List.length_append, List.length_replicate, List.length_singleton] at hahead
  -- A codeword with zeros has a suffix, so the data cannot end behind its marker.
  have hmore : ¬((br.advance (k + 1)).eof = true ∧ 0 < k) := by
    rw [eof_iff, hrest]
    rintro ⟨hend, hpos⟩
    have hnone := congrArg List.length hend
    rw [List.length_append, Lib.length_bitsOf, List.length_nil] at hnone
    omega
  have hread := u_ahead (by omega) hsuffix hrest
  unfold ue
  rw [hzeros]
  dsimp only
  rw [if_neg hmore, if_neg (by omega), hread]
  dsimp only
  rw [hsum, Nat.mod_eq_of_lt (by omega), advance_advance, hlength]
  congr 2
  omega

end BitReader

/-- The descriptors of syntax elements. -/
inductive Descriptor where
  | u (n : Nat)
  | ue
  | se

namespace Descriptor

/-- The values the element can have. -/
def Holds : Descriptor → Int → Prop
  | u n, v => n ≤ 32 ∧ 0 ≤ v ∧ v < 2 ^ n
  | ue, v => 0 ≤ v ∧ v ≤ 2 ^ 32 - 2
  | se, k => -(2 ^ 31 - 1) ≤ k ∧ k ≤ 2 ^ 31 - 1

def write : Descriptor → Int → List Bool
  | u n, v => bitsOf n v.toNat
  | ue, v => golomb v.toNat
  | se, k => golomb (signedRank k)

variable {σ : Type}

def read : Descriptor → Parser σ Int
  | u n => do return (← brU n : Nat)
  | ue => do return (← brUe : Nat)
  | se => brSe

/-- Elements one behind the other. -/
def readAll : List Descriptor → Parser σ (List Int)
  | [] => pure []
  | d :: ds => do
    let v ← d.read
    let vs ← readAll ds
    return v :: vs

def writeAll (es : List (Descriptor × Int)) : List Bool := es.flatMap fun e => e.1.write e.2

end Descriptor

section Rules

variable {σ α β : Type} {p : Parser σ α} {f : α → Parser σ β} {g : α → β} {s s' s'' : σ}
  {w w' : List Bool}
  {a : α} {b : β}

/-- From the result `s` the parser reads just the bits `w`, whatever comes behind them, and returns
`a` and the result `s'`. -/
def Decodes (p : Parser σ α) (s : σ) (w : List Bool) (a : α) (s' : σ) : Prop :=
  ∀ br rest, br.ahead = w ++ rest → exec p s br = ((.ok a, s'), br.advance w.length)

theorem decodes_pure (a : α) (s : σ) : Decodes (pure a) s [] a s := fun _ _ _ => rfl

theorem Decodes.bind (hp : Decodes p s w a s') (hf : Decodes (f a) s' w' b s'') :
    Decodes (p >>= f) s (w ++ w') b s'' := by
  intro br rest h
  rw [List.append_assoc] at h
  have hrest := hf (br.advance w.length) rest (BitReader.ahead_advance h)
  rw [exec_bind, hp br (w' ++ rest) h, List.length_append, ← BitReader.advance_advance]
  exact hrest

theorem Decodes.silent (hp : Decodes p s [] a s') (hf : Decodes (f a) s' w' b s'') :
    Decodes (p >>= f) s w' b s'' :=
  hp.bind hf

/-- The last element of a structure. -/
theorem Decodes.last (hp : Decodes p s w a s') :
    Decodes (p >>= fun a => pure (g a)) s w (g a) s' := by
  have hread := hp.bind (f := fun a => pure (g a)) (decodes_pure (g a) s')
  rwa [List.append_nil] at hread

theorem decodes_brU {n v : Nat} (hn : n ≤ 32) (hv : v < 2 ^ n) :
    Decodes (brU n) s (bitsOf n v) v s := by
  intro br rest h
  rw [brU, exec_ask, Lib.length_bitsOf]
  exact congrArg (fun r => ((Except.ok r.1, s), r.2)) (BitReader.u_ahead hn hv h)

theorem decodes_brUe {v : Nat} (hv : v ≤ 2 ^ 32 - 2) : Decodes brUe s (golomb v) v s := by
  intro br rest h
  rw [brUe, exec_ask]
  exact congrArg (fun r => ((Except.ok r.1, s), r.2)) (BitReader.ue_ahead hv h)

/-- The odd ranks are the positive numbers. -/
theorem decodes_brSe {k : Int} (hlow : -(2 ^ 31 - 1) ≤ k) (hhigh : k ≤ 2 ^ 31 - 1) :
    Decodes brSe s (golomb (signedRank k)) k s := by
  have hvalue : (if signedRank k % 2 = 1 then (((signedRank k + 1) % 2 ^ 32 / 2 : Nat) : Int)
      else -((signedRank k / 2 : Nat) : Int)) = k := by
    unfold signedRank
    by_cases hpos : 0 < k
    · rw [if_pos hpos, if_pos (by omega)]
      omega
    · rw [if_neg hpos, if_neg (by omega)]
      omega
  have hrank : signedRank k ≤ 2 ^ 32 - 2 := by
    unfold signedRank
    split <;> omega
  have hread := (decodes_brUe (s := s) hrank).last
    (g := fun k => if k % 2 = 1 then (((k + 1) % 2 ^ 32 / 2 : Nat) : Int)
      else -((k / 2 : Nat) : Int))
  rw [hvalue] at hread
  exact hread

theorem decodes_read {d : Descriptor} {v : Int} (h : d.Holds v) :
    Decodes d.read s (d.write v) v s := by
  cases d with
  | u n =>
    obtain ⟨hn, hpos, hlt⟩ := h
    have hnat : v.toNat < 2 ^ n := by
      have hcast : ((2 ^ n : Nat) : Int) = 2 ^ n := by norm_cast
      omega
    have hread := (decodes_brU (s := s) hn hnat).last (g := fun v : Nat => (v : Int))
    rwa [Int.toNat_of_nonneg hpos] at hread
  | ue =>
    obtain ⟨hpos, hhigh⟩ := h
    have hread :=
      (decodes_brUe (s := s) (v := v.toNat) (by omega)).last (g := fun v : Nat => (v : Int))
    rwa [Int.toNat_of_nonneg hpos] at hread
  | se => exact decodes_brSe h.1 h.2

theorem decodes_readAll (es : List (Descriptor × Int)) (hes : ∀ e ∈ es, e.1.Holds e.2) (s : σ) :
    Decodes (Descriptor.readAll (es.map Prod.fst)) s (Descriptor.writeAll es)
      (es.map Prod.snd) s := by
  induction es with
  | nil => exact decodes_pure [] s
  | cons e es ih =>
    have hrest := ih fun e he => hes e (List.mem_cons_of_mem _ he)
    have hwrite : Descriptor.writeAll (e :: es) = e.1.write e.2 ++ Descriptor.writeAll es :=
      List.flatMap_cons
    rw [hwrite]
    exact (decodes_read (hes e List.mem_cons_self)).bind hrest.last

theorem i8_eq {k : Int} (hlow : -128 ≤ k) (hhigh : k ≤ 127) : i8 k = k :=
  Int.bmod_eq_of_le_mul_two (by omega) (by omega)

end Rules

section Steps

variable {σ α β : Type} {p q : Parser σ α} {s s' s'' : σ} {w w' : List Bool} {a : α} {b : β}

theorem decodes_modify (g : σ → σ) : Decodes (modify g : Parser σ PUnit) s [] PUnit.unit (g s) :=
  fun _ _ _ => rfl

theorem Decodes.update {g : σ → σ} {f : PUnit → Parser σ β}
    (hf : Decodes (f PUnit.unit) (g s) w b s') :
    Decodes (modify g >>= f) s w b s' := hf

theorem Decodes.look {f : σ → Parser σ β} (hf : Decodes (f s) s w b s') :
    Decodes (get >>= f) s w b s' := hf

theorem Decodes.access {size i : Nat} {f : Unit → Parser σ β} (hf : Decodes (f ()) s w b s') :
    Decodes (Bitstream.access size i >>= f) s w b s' := hf

theorem Decodes.from {t : σ} (hp : Decodes p t w a s') (hs : t = s) : Decodes p s w a s' := hs ▸ hp

theorem Decodes.result {a' : α} (hp : Decodes p s w a s') (ha : a = a') :
    Decodes p s w a' s' := ha ▸ hp

theorem Decodes.to {t : σ} (hp : Decodes p s w a t) (ht : t = s') : Decodes p s w a s' := ht ▸ hp

theorem Decodes.assoc {w₂ w₃ : List Bool} (hp : Decodes p s (w ++ (w₂ ++ w₃)) a s') :
    Decodes p s (w ++ w₂ ++ w₃) a s' := by
  rwa [List.append_assoc]

theorem Decodes.cond {c : Prop} [Decidable c] (hp : c → Decodes p s w a s')
    (hq : ¬c → Decodes q s w a s') :
    Decodes (if c then p else q) s w a s' := by
  split
  · exact hp ‹_›
  · exact hq ‹_›

theorem Decodes.accessIf {c : Prop} [Decidable c] {size i : Nat} {f : Unit → Parser σ β}
    (hf : Decodes (f ()) s w b s') :
    Decodes (if c then Bitstream.access size i >>= f else f ()) s w b s' :=
  .cond (fun _ => .access hf) fun _ => hf

/-- What only some structures have in front of `q`; `t` is the result behind it. -/
theorem Decodes.opt {c : Prop} [Decidable c] (t : σ) (habsent : ¬c → t = s)
    (hp : c → Decodes q t w' a s'' → Decodes p s (w ++ w') a s'') (hq : Decodes q t w' a s'') :
    Decodes (if c then p else q) s ((if c then w else []) ++ w') a s'' := by
  by_cases hc : c
  · rw [if_pos hc, if_pos hc]
    exact hp hc hq
  · rw [if_neg hc, if_neg hc, ← habsent hc]
    exact hq

/-- As `g` is what it does to the result. -/
theorem Decodes.optMap {c : Prop} [Decidable c] (g : σ → σ) (habsent : ¬c → g s = s)
    (hp : c → Decodes q (g s) w' a s'' → Decodes p s (w ++ w') a s'')
    (hq : Decodes q (g s) w' a s'') :
    Decodes (if c then p else q) s ((if c then w else []) ++ w') a s'' := .opt (g s) habsent hp hq

/-- What only some structures have in front of `q`; the others update the result. -/
theorem Decodes.optElse {c : Prop} [Decidable c] {g : σ → σ} (t : σ) (habsent : ¬c → g s = t)
    (hp : c → Decodes q t w' a s'' → Decodes p s (w ++ w') a s'') (hq : Decodes q t w' a s'') :
    Decodes (if c then p else modify g >>= fun _ => q) s ((if c then w else []) ++ w') a s'' := by
  by_cases hc : c
  · rw [if_pos hc, if_pos hc]
    exact hp hc hq
  · rw [if_neg hc, if_neg hc]
    rw [← habsent hc] at hq
    exact .update hq

/-- What only some structures have in front of `q`, of two alternatives. -/
theorem Decodes.either {c d : Prop} [Decidable c] [Decidable d] {p' : Parser σ α}
    {w₂ : List Bool} (g : σ → σ) (habsent : ¬c → ¬d → g s = s)
    (hp : c → Decodes q (g s) w' a s'' → Decodes p s (w ++ w') a s'')
    (hp' : ¬c → d → Decodes q (g s) w' a s'' → Decodes p' s (w₂ ++ w') a s'')
    (hq : Decodes q (g s) w' a s'') :
    Decodes (if c then p else if d then p' else q) s
      ((if c then w else if d then w₂ else []) ++ w') a s'' := by
  by_cases hc : c
  · rw [if_pos hc, if_pos hc]
    exact hp hc hq
  · rw [if_neg hc, if_neg hc]
    exact .optMap g (habsent hc) (hp' hc) hq

/-- What is in front of `q` when the condition fails. -/
theorem Decodes.optNot {c : Prop} [Decidable c]
    (hp : ¬c → Decodes q s w' a s'' → Decodes p s (w ++ w') a s'') (hq : Decodes q s w' a s'') :
    Decodes (if c then q else p) s ((if c then [] else w) ++ w') a s'' := by
  split
  · exact hq
  · exact hp ‹_› hq

/-- An element that only some structures have; the others take another value for it. -/
theorem Decodes.branch {c : Prop} [Decidable c] {p' : Parser σ α} {f : α → Parser σ β}
    (hp : c → Decodes p s w a s) (hp' : ¬c → Decodes p' s [] a s) (hf : Decodes (f a) s w' b s') :
    Decodes (if c then p >>= f else p' >>= f) s ((if c then w else []) ++ w') b s' := by
  by_cases hc : c
  · rw [if_pos hc, if_pos hc]
    exact (hp hc).bind hf
  · rw [if_neg hc, if_neg hc]
    exact (hp' hc).bind hf

/-- An element that is stored as it is read. -/
theorem Decodes.store {ν : Type} {read : Parser σ ν} {set : ν → σ → σ} {x : ν}
    (hread : Decodes read s w x s) (hq : Decodes q (set x s) w' a s'') :
    Decodes (read >>= fun v => (modify (set v) : Parser σ PUnit) >>= fun _ => q) s
      (w ++ w') a s'' :=
  hread.bind (.update hq)

/-- An element that is stored at the end of a structure. -/
theorem Decodes.put {ν : Type} {read : Parser σ ν} {set : ν → σ → σ} {x : ν}
    (hread : Decodes read s w x s) :
    Decodes (read >>= fun v => (modify (set v) : Parser σ PUnit)) s w PUnit.unit (set x s) := by
  have hstored :=
    hread.bind (f := fun v => (modify (set v) : Parser σ PUnit)) (decodes_modify (set x))
  rwa [List.append_nil] at hstored

/-- An element that only some structures have; the others leave the value the field has. -/
theorem Decodes.field {c : Prop} [Decidable c] {ν : Type} {read : Parser σ ν} {set : ν → σ → σ}
    {x : ν} (x₀ : ν) (habsent : set x₀ s = s) (hread : c → Decodes read s w x s)
    (hq : Decodes q (set (if c then x else x₀) s) w' a s'') :
    Decodes (if c then read >>= fun v => (modify (set v) : Parser σ PUnit) >>= fun _ => q else q) s
      ((if c then w else []) ++ w') a s'' := by
  refine .opt _ (fun hc => ?_) (fun hc hq => ?_) hq
  · rw [if_neg hc]
    exact habsent
  · rw [if_pos hc] at hq
    exact .store (hread hc) hq

theorem decodes_brU1 (bit : Bool) : Decodes brU1 s [bit] bit.toNat s := by
  intro br rest h
  rw [brU1, brU, exec_ask]
  exact congrArg (fun r => ((Except.ok r.1, s), r.2)) (BitReader.u_bit h)

theorem decodes_flag (bit : Bool) : Decodes flag s [bit] bit s := by
  have hread := (decodes_brU1 (s := s) bit).last (g := fun v => decide (v ≠ 0))
  cases bit with
  | false => exact hread
  | true => exact hread

/-- The end of the data is not reached while bits are ahead. -/
theorem Decodes.more {f : Bool → Parser σ β} (hw : w ≠ []) (hf : Decodes (f false) s w b s') :
    Decodes (brEof >>= f) s w b s' := by
  intro br rest h
  have hmore : br.eof = false := by
    rw [Bool.eq_false_iff, Ne, BitReader.eof_iff, h]
    simp [hw]
  rw [exec_bind, brEof, exec_ask]
  dsimp only [ReadOp.handle]
  rw [hmore]
  exact hf br rest h

/-- Whatever `brEof` says. -/
theorem Decodes.eof {f : Bool → Parser σ β} (hf : ∀ e, Decodes (f e) s w b s') :
    Decodes (brEof >>= f) s w b s' :=
  fun br rest h => hf br.eof br rest h

/-- The turns of a loop that reads a bit or more in each of them. -/
theorem Decodes.turns {f : Nat → Parser σ β} (hf : ∀ n, w.length ≤ n → Decodes (f n) s w b s') :
    Decodes (brLen >>= fun n => f (8 * n)) s w b s' := by
  intro br rest h
  have hlength := br.length_ahead
  rw [h, List.length_append, BitReader.bits] at hlength
  have hturns : w.length ≤ 8 * br.data.length := by omega
  exact hf _ hturns br rest h

theorem Decodes.skip {ε : Type} {p : Parser σ Unit} {write : ε → List Bool} {es : List ε} {n : Nat}
    (hn : es.length = n) (hp : ∀ e ∈ es, Decodes p s (write e) () s) :
    Decodes (skip n p) s (es.flatMap write) () s := by
  subst hn
  induction es with
  | nil => exact decodes_pure () s
  | cons e es ih =>
    have hrest := ih fun e he => hp e (List.mem_cons_of_mem _ he)
    exact (hp e List.mem_cons_self).bind hrest

/-- No read so far has failed. -/
theorem exec_checkFailed {br : BitReader} (h : br.failed = false) :
    exec checkFailed s br = ((.ok (), s), br) := by
  rw [checkFailed, exec_bind, brFailed, exec_ask]
  dsimp only [ReadOp.handle]
  rw [h]
  rfl

/-- A structure that is read without an error passes the check at its end. -/
theorem Decodes.checked {p : Parser σ Unit} (hp : Decodes p s w () s') {br : BitReader}
    (hfailed : br.failed = false) {rest : List Bool} (h : br.ahead = w ++ rest) :
    exec (p >>= fun _ => checkFailed) s br = ((.ok (), s'), br.advance w.length) := by
  rw [exec_bind, hp br rest h]
  exact exec_checkFailed hfailed

end Steps

/-- Any bits can be what data begins with. -/
theorem exists_data (bits : List Bool) : ∃ data rest, dataBits data = bits ++ rest := by
  have hwhole : ∀ (n : Nat) (l : List Bool), l.length = 8 * n → ∃ data, dataBits data = l := by
    intro n
    induction n with
    | zero => exact fun l hl => ⟨[], (List.length_eq_zero_iff.mp hl).symm⟩
    | succ n ih =>
      intro l hl
      obtain ⟨data, hdata⟩ := ih (l.drop 8) (by rw [List.length_drop]; omega)
      have hfirst : (l.take 8).length = 8 := by
        rw [List.length_take]
        omega
      have hbyte : bitsOf 8 (BitVec.ofNat 8 (Lib.readBits 0 (l.take 8))).toNat = l.take 8 := by
        have hback := Lib.bitsOf_readBits 0 (l.take 8)
        rw [hfirst] at hback
        rw [BitVec.toNat_ofNat, Lib.bitsOf_mod, hback]
      refine ⟨BitVec.ofNat 8 (Lib.readBits 0 (l.take 8)) :: data, ?_⟩
      rw [dataBits, List.flatMap_cons, hbyte]
      exact (congrArg (l.take 8 ++ ·) hdata).trans (List.take_append_drop 8 l)
  obtain ⟨data, hdata⟩ := hwhole bits.length (bits ++ List.replicate (7 * bits.length) false) (by
    rw [List.length_append, List.length_replicate]
    omega)
  exact ⟨data, _, hdata⟩

/-- What is placed at the position of the reader is what it has ahead. -/
theorem BitReader.ahead_of_placed {br : BitReader} {before w rest : List Bool}
    (hdata : dataBits br.data = before ++ w ++ rest) (hpos : br.bitPos = before.length) :
    br.ahead = w ++ rest := by
  rw [ahead, hdata, hpos, List.append_assoc, List.drop_left]

/-- A codeword is read back wherever it is placed and whatever follows it, and so is a sequence of
elements. -/
theorem read_inverts_write {σ : Type} (br : BitReader) (s : σ) (before rest : List Bool)
    (hpos : br.bitPos = before.length) :
    (∀ v ≤ 2 ^ 32 - 2, dataBits br.data = before ++ golomb v ++ rest →
      br.ue = (v, br.advance (golomb v).length)) ∧
    (∀ k : Int, -(2 ^ 31 - 1) ≤ k → k ≤ 2 ^ 31 - 1 →
    dataBits br.data = before ++ golomb (signedRank k) ++ rest →
      exec brSe s br = ((.ok k, s), br.advance (golomb (signedRank k)).length)) ∧
    (∀ es : List (Descriptor × Int), (∀ e ∈ es, e.1.Holds e.2) →
      dataBits br.data = before ++ Descriptor.writeAll es ++ rest →
      exec (Descriptor.readAll (es.map Prod.fst)) s br =
        ((.ok (es.map Prod.snd), s), br.advance (Descriptor.writeAll es).length)) := by
  refine ⟨fun v hv hdata => ?_, fun k hlow hhigh hdata => ?_, fun es hes hdata => ?_⟩
  · exact BitReader.ue_ahead hv (BitReader.ahead_of_placed hdata hpos)
  · exact decodes_brSe hlow hhigh br rest (BitReader.ahead_of_placed hdata hpos)
  · exact decodes_readAll es hes s br rest (BitReader.ahead_of_placed hdata hpos)

/-- Behind three bits, a codeword that ends with the data. -/
theorem read_inverts_write_last : (BitReader.mk [0xa5] 3 false).ue = (4, ⟨[0xa5], 8, false⟩) ∧
    exec brSe () ⟨[0xa5], 3, false⟩ = ((.ok (-2), ()), ⟨[0xa5], 8, false⟩) := by
  have hread := read_inverts_write ⟨[0xa5], 3, false⟩ () [true, false, true] [] rfl
  exact ⟨hread.1 4 (by decide) (by decide), hread.2.1 (-2) (by decide) (by decide) (by decide)⟩

end Rkvdec.Bitstream
