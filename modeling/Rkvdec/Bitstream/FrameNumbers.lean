import Mathlib.Data.List.Chain
import Rkvdec.Bitstream.PicOrder

/-! Frame numbers of H.264 over their wraps, and the picture order of types 1 and 2 that is derived
from them. -/
namespace Rkvdec.Bitstream.H264

open Lib (AheadOf aheadOf_self nextOffset nextOffset_iff)

/-- A picture with the number it has when frame numbers do not wrap. -/
structure NumberedPicture where
  au : List Byte × Nat
  number : Int
  isIdr : Bool
  isRef : Bool

/-- Every number is less than MaxFrameNum, which is `2 ^ k`, ahead of the one before, and starts
over with an IDR picture. -/
def Unwrapped (k : Nat) : Int → List NumberedPicture → Prop
  | _, [] => True
  | last, pic :: pics =>
    (AheadOf (2 ^ k) (if pic.isIdr then 0 else last) pic.number ∧ pic.number < 2 ^ 31) ∧
      Unwrapped k pic.number pics

instance (k : Nat) : ∀ (last : Int) (pics : List NumberedPicture), Decidable (Unwrapped k last pics)
  | _, [] => .isTrue trivial
  | _, pic :: pics =>
    have : Decidable (Unwrapped k pic.number pics) := instDecidableUnwrapped k _ pics
    inferInstanceAs (Decidable (_ ∧ _))

/-- A slice of the picture: the POC type and what is sent of the number. -/
structure SaysNumber (type k : Nat) (pic : NumberedPicture) (c : ParseResult)
    (r : List Byte) : Prop where
  type : c.sps.picOrderCntType = type
  range : c.sps.log2MaxFrameNumMinus4 + 4 = k
  isIdr : hasFlag c.decode.flags decodeParamFlagIdrPic = pic.isIdr
  isRef : nalRefIdc r ≠ 0 ↔ pic.isRef = true
  frameNum : (c.decode.frameNum : Int) = pic.number % 2 ^ k

instance {type k : Nat} {pic : NumberedPicture} (c : ParseResult) (r : List Byte) :
    Decidable (SaysNumber type k pic c r) :=
  decidable_of_iff (c.sps.picOrderCntType = type ∧ c.sps.log2MaxFrameNumMinus4 + 4 = k ∧
      hasFlag c.decode.flags decodeParamFlagIdrPic = pic.isIdr ∧
      (nalRefIdc r ≠ 0 ↔ pic.isRef = true) ∧ (c.decode.frameNum : Int) = pic.number % 2 ^ k)
    ⟨fun h => ⟨h.1, h.2.1, h.2.2.1, h.2.2.2.1, h.2.2.2.2⟩,
      fun h => ⟨h.type, h.range, h.isIdr, h.isRef, h.frameNum⟩⟩

/-- The access unit is accepted, and all its slices say so. An IDR picture is a reference. -/
structure CodesNumber (type k : Nat) (pic : NumberedPicture) (out : ParseResult) : Prop where
  accepted : Accepted pic.au out
  slices : ∀ o r, Reads pic.au out o r → SaysNumber type k pic (coded o r) r
  idrIsRef : pic.isIdr = true → pic.isRef = true

instance {type k : Nat} {pic : NumberedPicture} {out : ParseResult} :
    Decidable (CodesNumber type k pic out) :=
  have : Decidable (∀ o r, Reads pic.au out o r → SaysNumber type k pic (coded o r) r) :=
    decidable_of_iff _ reads_iff.symm
  decidable_of_iff (Accepted pic.au out ∧
      (∀ o r, Reads pic.au out o r → SaysNumber type k pic (coded o r) r) ∧
      (pic.isIdr = true → pic.isRef = true))
    ⟨fun h => ⟨h.1, h.2.1, h.2.2⟩, fun h => ⟨h.accepted, h.slices, h.idrIsRef⟩⟩

def nextNumbered (pic : NumberedPicture) (out : ParseResult) : ParseResult := parsed pic.au out

/-- The order count of type 2. -/
def NumberedPicture.poc2 (pic : NumberedPicture) : Int :=
  if pic.isIdr then 0 else if pic.isRef then 2 * pic.number else 2 * pic.number - 1

section Offsets

variable {k type : Nat} {sps : Sps} {decode : DecodeParams} {isIdr : Bool} {refIdc : Nat}
  {p : Staged}
  {last number : Int} {out : ParseResult} {pic : NumberedPicture} {pics : List NumberedPicture}

/-- The POC state behind a picture of the number. -/
def CountedTo (k : Nat) (number : Int) (p : Staged) : Prop :=
  p.prevFrameNum = number % 2 ^ k ∧ p.prevFrameNumOffset = number - number % 2 ^ k

theorem frameNumOffset_ahead (hk : sps.log2MaxFrameNumMinus4 + 4 = k)
    (hp : isIdr = false → CountedTo k last p) (hidr : isIdr = true → last = 0)
    (hnum : (decode.frameNum : Int) = number % 2 ^ k) (hahead : AheadOf (2 ^ k) last number)
    (hlast : 0 ≤ last) (hfits : number < 2 ^ 31) :
    frameNumOffset sps decode isIdr p = number - number % 2 ^ k := by
  have hpos : (0 : Int) < 2 ^ k := by positivity
  have hnext := (nextOffset_iff hpos).mpr hahead
  unfold frameNumOffset
  cases isIdr with
  | true =>
    obtain rfl := hidr rfl
    have hlt : number < 2 ^ k := by simpa using hahead.2
    rw [Int.emod_eq_of_lt hahead.1 hlt]
    simp
  | false =>
    obtain ⟨hprev, hoffset⟩ := hp rfl
    rw [if_neg (by simp), hnum, hprev, hoffset]
    unfold nextOffset at hnext
    split
    · rename_i hwrap
      rw [if_pos hwrap] at hnext
      have hlow : 0 ≤ last - last % 2 ^ k := by
        have hdiv : 0 ≤ 2 ^ k * (last / 2 ^ k) := mul_nonneg hpos.le (Int.ediv_nonneg hlast hpos.le)
        have hsplit := Int.emod_add_mul_ediv last (2 ^ k)
        omega
      have hmod := Int.emod_nonneg number hpos.ne'
      -- with MaxFrameNum out of range no number wraps
      have hrange : (2 : Int) ^ k < 2 ^ 31 := by linarith
      have hmax : i32 (2 ^ (sps.log2MaxFrameNumMinus4 + 4)) = 2 ^ k := by
        rw [hk]
        exact H265.i32_eq (by linarith) hrange
      rw [hmax, hnext]
      exact H265.i32_eq (by linarith) (by linarith)
    · rename_i hwrap
      rwa [if_neg hwrap] at hnext

/-- Types 1 and 2 keep the same state. -/
theorem computePoc_counted (refIdc : Nat) (hset : sps.picOrderCntType = 1 ∨ sps.picOrderCntType = 2)
    (hoffset : frameNumOffset sps decode (hasFlag decode.flags decodeParamFlagIdrPic) p =
      number - number % 2 ^ k)
    (hnum : (decode.frameNum : Int) = number % 2 ^ k) :
    (computePoc sps decode refIdc p).1.frameNum = decode.frameNum ∧
      CountedTo k number (computePoc sps decode refIdc p).2 := by
  rcases hset with htype | htype
  · simp only [computePoc, htype, one_ne_zero, if_false, if_true, computePocType1, hoffset]
    exact ⟨trivial, hnum, rfl⟩
  · simp only [computePoc, htype, OfNat.ofNat_ne_zero, OfNat.ofNat_ne_one, if_false,
      computePocType2, hoffset]
    exact ⟨trivial, hnum, rfl⟩

/-- A slice from which the decode parameters are left, with the number of its picture. -/
def LastSlice (k : Nat) (au : List Byte × Nat) (out : ParseResult) (number : Int)
    (d : DecodeParams) : Prop :=
  ∃ o r p, Reads au out o r ∧
    d = (computePoc (coded o r).sps (coded o r).decode (nalRefIdc r) p).1 ∧
    frameNumOffset (coded o r).sps (coded o r).decode
      (hasFlag (coded o r).decode.flags decodeParamFlagIdrPic) p = number - number % 2 ^ k

theorem number_nonneg (hahead : AheadOf (2 ^ k) (if isIdr then 0 else last) number)
    (hlast : 0 ≤ last) :
    0 ≤ number := by
  refine le_trans ?_ hahead.1
  split_ifs
  · exact le_rfl
  · exact hlast

theorem poc2_eq (hisIdr : isIdr = pic.isIdr) (hisRef : refIdc ≠ 0 ↔ pic.isRef = true)
    (hlow : 0 ≤ pic.number) (hhigh : pic.number < 2 ^ 30) :
    (if isIdr then 0 else if refIdc = 0 then i32 (i32 (2 * i32 pic.number) - 1)
      else i32 (2 * i32 pic.number)) = pic.poc2 := by
  have hnumber : i32 pic.number = pic.number := H265.i32_eq (by omega) (by omega)
  have htwice : i32 (2 * pic.number) = 2 * pic.number := H265.i32_eq (by omega) (by omega)
  have hless : i32 (2 * pic.number - 1) = 2 * pic.number - 1 := H265.i32_eq (by omega) (by omega)
  rw [hnumber, htwice, hless, hisIdr, NumberedPicture.poc2]
  congr 1
  by_cases href : pic.isRef = true
  · rw [if_pos href, if_neg (hisRef.mpr href)]
  · rw [if_neg href, if_pos (by simpa using mt hisRef.mp href)]

/-- The parse of one picture. -/
theorem parsed_counted (hset : type = 1 ∨ type = 2) (hcodes : CodesNumber type k pic out)
    (hstart : pic.isIdr = false → CountedTo k last (pocState out))
    (hahead : AheadOf (2 ^ k) (if pic.isIdr then 0 else last) pic.number) (hlast : 0 ≤ last)
    (hfits : pic.number < 2 ^ 31) :
    LastSlice k pic.au out pic.number (parsed pic.au out).decode ∧
      CountedTo k pic.number (pocState (parsed pic.au out)) := by
  let Q : Staged → Prop := fun p => pic.isIdr = false → CountedTo k last p
  let R : DecodeParams → Staged → Prop := fun d p =>
    LastSlice k pic.au out pic.number d ∧ CountedTo k pic.number p
  have hpos : (0 : Int) < 2 ^ k := by positivity
  have hnonneg : 0 ≤ pic.number := number_nonneg hahead hlast
  refine parse_slices (Q := Q) (R := R) hcodes.accepted hstart ?_
  intro o r p hreads hstate
  have hslice := hcodes.slices o r hreads
  -- a later slice is counted from the picture itself
  obtain ⟨b, hp, hb, hbnonneg, hbahead⟩ : ∃ b, (pic.isIdr = false → CountedTo k b p) ∧
      (pic.isIdr = true → b = 0) ∧ 0 ≤ b ∧ AheadOf (2 ^ k) b pic.number := by
    cases hidr : pic.isIdr with
    | true =>
      rw [hidr, if_pos rfl] at hahead
      exact ⟨0, nofun, fun _ => rfl, le_rfl, hahead⟩
    | false =>
      rw [hidr, if_neg (by simp)] at hahead
      rcases hstate with hstate | ⟨d, -, hstate⟩
      · exact ⟨last, fun _ => hstate hidr, nofun, hlast, hahead⟩
      · exact ⟨pic.number, fun _ => hstate, nofun, hnonneg, aheadOf_self hpos⟩
  rw [← hslice.isIdr] at hp hb
  have hoffset := frameNumOffset_ahead hslice.range hp hb hslice.frameNum hbahead hbnonneg hfits
  rw [← hslice.type] at hset
  exact ⟨⟨o, r, p, hreads, rfl, hoffset⟩, (computePoc_counted _ hset hoffset hslice.frameNum).2⟩

/-- What it makes of the number. -/
theorem parsed_number (hset : type = 1 ∨ type = 2) (hcodes : CodesNumber type k pic out)
    (hlast : LastSlice k pic.au out pic.number (parsed pic.au out).decode)
    (hcounted : CountedTo k pic.number (pocState (parsed pic.au out))) (hnonneg : 0 ≤ pic.number) :
    (parsed pic.au out).prevFrameNumOffset + (parsed pic.au out).decode.frameNum = pic.number ∧
      (type = 2 → pic.number < 2 ^ 30 →
      (parsed pic.au out).decode.topFieldOrderCnt = pic.poc2) := by
  obtain ⟨o, r, p, hreads, hdecode, hoffset⟩ := hlast
  have hslice := hcodes.slices o r hreads
  rw [← hslice.type] at hset
  have hframeNum := (computePoc_counted (nalRefIdc r) hset hoffset hslice.frameNum).1
  constructor
  · have hkept : (parsed pic.au out).prevFrameNumOffset =
        pic.number - pic.number % 2 ^ k := hcounted.2
    rw [hkept, hdecode, hframeNum, hslice.frameNum]
    exact sub_add_cancel _ _
  · intro htwo hsmall
    have htype : (coded o r).sps.picOrderCntType = 2 := hslice.type.trans htwo
    rw [hdecode]
    simp only [computePoc, htype, OfNat.ofNat_ne_zero, OfNat.ofNat_ne_one, if_false,
      computePocType2, hoffset, hslice.frameNum, sub_add_cancel]
    exact poc2_eq hslice.isIdr hslice.isRef hnonneg hsmall

theorem numbers_eq (hset : type = 1 ∨ type = 2)
    (hcodes : EachPicture nextNumbered (CodesNumber type k) pics out)
    (hnumbers : Unwrapped k last pics) (hlast : 0 ≤ last)
    (hstart : pics.head?.all NumberedPicture.isIdr = true ∨ CountedTo k last (pocState out)) :
    afterEach nextNumbered (fun o => o.prevFrameNumOffset + o.decode.frameNum) pics out =
        pics.map NumberedPicture.number ∧
      (type = 2 → (∀ pic ∈ pics, pic.number < 2 ^ 30) →
        afterEach nextNumbered (fun o => o.decode.topFieldOrderCnt) pics out =
          pics.map NumberedPicture.poc2) := by
  induction pics generalizing last out with
  | nil => exact ⟨rfl, fun _ _ => rfl⟩
  | cons pic pics ih =>
    obtain ⟨hpic, hrest⟩ := hcodes
    obtain ⟨⟨hahead, hfits⟩, hnumbers⟩ := hnumbers
    have hbefore : pic.isIdr = false → CountedTo k last (pocState out) := by
      intro hidr
      rcases hstart with hstart | hstart
      · simp [hidr] at hstart
      · exact hstart
    have hnonneg := number_nonneg hahead hlast
    obtain ⟨hslice, hnext⟩ := parsed_counted hset hpic hbefore hahead hlast hfits
    obtain ⟨hnumber, hpoc⟩ := parsed_number hset hpic hslice hnext hnonneg
    obtain ⟨ihNumbers, ihPocs⟩ := ih hrest hnumbers hnonneg (.inr hnext)
    constructor
    · rw [afterEach, List.map_cons]
      exact congrArg₂ List.cons hnumber ihNumbers
    · intro htwo hsmall
      rw [afterEach, List.map_cons]
      exact congrArg₂ List.cons (hpoc htwo (hsmall pic (by simp)))
        (ihPocs htwo fun q hq => hsmall q (by simp [hq]))

end Offsets

section Increasing

variable {k : Nat} {last : Int} {p q : NumberedPicture} {pics : List NumberedPicture}

/-- Of two pictures in a row one is a reference, and the number grows after a reference. -/
def Paced (p q : NumberedPicture) : Prop :=
  q.isIdr = false → (p.isRef = true ∨ q.isRef = true) ∧ (p.isRef = true → p.number + 1 ≤ q.number)

instance : Decidable (Paced p q) := inferInstanceAs (Decidable (_ → _))

theorem poc2_lt (hidr : q.isIdr = false) (hpaced : Paced p q) (hle : p.number ≤ q.number)
    (hlow : 0 ≤ p.number) (hidrIsRef : p.isIdr = true → p.isRef = true) : p.poc2 < q.poc2 := by
  obtain ⟨href, hgrows⟩ := hpaced hidr
  have hqlow : 2 * q.number - 1 ≤ q.poc2 := by
    simp only [NumberedPicture.poc2, hidr, Bool.false_eq_true, if_false]
    split_ifs <;> omega
  cases hpref : p.isRef with
  | true =>
    have hphigh : p.poc2 ≤ 2 * p.number := by
      simp only [NumberedPicture.poc2, hpref, if_true]
      split_ifs <;> omega
    have hgrown := hgrows hpref
    omega
  | false =>
    have hpidr : p.isIdr = false := by
      by_contra hyes
      rw [hidrIsRef (by simpa using hyes)] at hpref
      cases hpref
    have hqref : q.isRef = true := href.resolve_left (by simp [hpref])
    simp only [NumberedPicture.poc2, hidr, hpidr, hpref, hqref, Bool.false_eq_true, if_false,
      if_true]
    omega

theorem poc2_chain (hnumbers : Unwrapped k last pics) (hlast : 0 ≤ last)
    (hpaced : pics.IsChain Paced) (hidrIsRef : ∀ p ∈ pics, p.isIdr = true → p.isRef = true) :
    pics.IsChain fun p q => q.isIdr = false → p.poc2 < q.poc2 := by
  induction pics generalizing last with
  | nil => exact .nil
  | cons p pics ih =>
    obtain ⟨⟨hahead, -⟩, hnumbers⟩ := hnumbers
    have hnonneg := number_nonneg hahead hlast
    have hrest := ih hnumbers hnonneg hpaced.tail fun q hq => hidrIsRef q (by simp [hq])
    cases pics with
    | nil => exact .singleton p
    | cons q pics =>
      obtain ⟨⟨hnext, -⟩, -⟩ := hnumbers
      refine .cons_cons ?_ hrest
      intro hidr
      rw [hidr, if_neg (by simp)] at hnext
      exact poc2_lt hidr (List.isChain_cons_cons.mp hpaced).1 hnext.1 hnonneg
        (hidrIsRef p (by simp))

theorem isRef_of_codes {type : Nat} {out : ParseResult}
    (hcodes : EachPicture nextNumbered (CodesNumber type k) pics out) :
    ∀ p ∈ pics, p.isIdr = true → p.isRef = true := by
  induction pics generalizing out with
  | nil => exact nofun
  | cons p pics ih =>
    intro q hq
    rcases List.mem_cons.mp hq with rfl | hq
    · exact hcodes.1.idrIsRef
    · exact ih hcodes.2 q hq

/-- The pictures after the one at `i`, up to the one at `j`, are not IDR pictures. -/
def NoIdrWithin (pics : List NumberedPicture) (i j : Nat) : Prop :=
  ∀ m q, i < m → m ≤ j → pics[m]? = some q → q.isIdr = false

theorem increasing_of_chain (h : pics.IsChain fun p q => q.isIdr = false → p.poc2 < q.poc2)
    {i j : Nat} (hij : i < j) (hno : NoIdrWithin pics i j) (hp : pics[i]? = some p)
    (hq : pics[j]? = some q) :
    p.poc2 < q.poc2 := by
  induction j generalizing q with
  | zero => omega
  | succ j ih =>
    obtain ⟨hlt, rfl⟩ := List.getElem?_eq_some_iff.mp hq
    have hstep := h.getElem j hlt (hno (j + 1) _ hij le_rfl hq)
    rcases (Nat.lt_succ_iff.mp hij).lt_or_eq with hbefore | rfl
    · have hat : pics[j]? = some pics[j] := List.getElem?_eq_getElem (by omega)
      exact (ih hbefore (fun m q hi hj => hno m q hi (by omega)) hat).trans hstep
    · obtain ⟨-, rfl⟩ := List.getElem?_eq_some_iff.mp hp
      exact hstep

end Increasing

/-- With POC type 1 or 2, from an IDR picture on, `FrameNumOffset + frame_num` is the number of
every picture. With type 2 the order counts increase from picture to picture until the next IDR
picture. -/
theorem frame_numbers_unwrapped (type k : Nat) (hset : type = 1 ∨ type = 2)
    (pics : List NumberedPicture) (out : ParseResult)
    (hidr : pics.head?.all NumberedPicture.isIdr = true)
    (hcodes : EachPicture nextNumbered (CodesNumber type k) pics out)
    (hnumbers : Unwrapped k 0 pics) :
    afterEach nextNumbered (fun o => o.prevFrameNumOffset + o.decode.frameNum) pics out =
        pics.map NumberedPicture.number ∧
      (type = 2 → (∀ pic ∈ pics, pic.number < 2 ^ 30) → pics.IsChain Paced →
        ∀ i j x y, i < j → NoIdrWithin pics i j →
          (afterEach nextNumbered (fun o => o.decode.topFieldOrderCnt) pics out)[i]? = some x →
          (afterEach nextNumbered (fun o => o.decode.topFieldOrderCnt) pics out)[j]? = some y →
          x < y) := by
  obtain ⟨hnumber, hpocs⟩ := numbers_eq hset hcodes hnumbers le_rfl (.inl hidr)
  refine ⟨hnumber, ?_⟩
  intro htwo hsmall hpaced i j x y hij hno hx hy
  rw [hpocs htwo hsmall, List.getElem?_map] at hx hy
  obtain ⟨p, hp, rfl⟩ := Option.map_eq_some_iff.mp hx
  obtain ⟨q, hq, rfl⟩ := Option.map_eq_some_iff.mp hy
  exact increasing_of_chain (poc2_chain hnumbers le_rfl hpaced (isRef_of_codes hcodes))
    hij hno hp hq

section Streams

def numberedAs (number : Int) (isIdr isRef : Bool) (units : List (List Byte)) : NumberedPicture :=
  ⟨(framed units, 128), number, isIdr, isRef⟩

/-- Over a wrap of a number of four bits, with one picture that is no reference. -/
abbrev avcNumbered : List NumberedPicture :=
  [numberedAs 0 true true (avcSets ++ [[0x65, 0x88, 0x84, 0x80]]),
    numberedAs 9 false true [[0x61, 0x9b, 0x22]], numberedAs 18 false false [[0x01, 0x9a, 0x44]],
    numberedAs 18 false true [[0x61, 0x9a, 0x42]], numberedAs 30 false true [[0x61, 0x9b, 0xc2]]]

theorem frame_numbers_unwrapped_across_wrap :
    afterEach nextNumbered (fun o => o.prevFrameNumOffset + o.decode.frameNum) avcNumbered {} =
        [0, 9, 18, 18, 30] ∧
      ∀ x y, (afterEach nextNumbered (fun o => o.decode.topFieldOrderCnt) avcNumbered {})[1]? =
      some x →
        (afterEach nextNumbered (fun o => o.decode.topFieldOrderCnt) avcNumbered {})[4]? = some y →
        x < y := by
  obtain ⟨hnumbers, hpocs⟩ := frame_numbers_unwrapped 2 4 (by decide) avcNumbered {} (by decide)
    (by decide +kernel) (by decide)
  refine ⟨hnumbers, ?_⟩
  intro x y
  refine hpocs rfl (by decide) (by decide) 1 4 x y (by decide) ?_
  intro m q hi hj hq
  interval_cases m <;> · cases hq; rfl

end Streams

end Rkvdec.Bitstream.H264
