import Rkvdec.Bitstream.PictureRuns
import Rkvdec.Lib.Unwrap

/-! Picture order counts of which only the LSBs are coded: type 0 of H.264, and H.265. -/
namespace Rkvdec.Bitstream

open Lib (Near near_self nextMsb nextMsb_iff)
open H265 (i32_eq)

/-- A picture with the order count it has, and the access unit that codes it. `isAnchor`: the
following pictures are counted from it. -/
structure OrderedPicture where
  au : List Byte × Nat
  poc : Int
  isIdr : Bool
  isAnchor : Bool

/-- The order count that a picture is counted from. -/
def OrderedPicture.from (pic : OrderedPicture) (anchor : Int) : Int :=
  if pic.isIdr then 0 else anchor

/-- The one that the next picture is counted from. -/
def OrderedPicture.next (pic : OrderedPicture) (anchor : Int) : Int :=
  if pic.isAnchor then pic.poc else pic.from anchor

def Fits32 (x : Int) : Prop := -2 ^ 31 ≤ x ∧ x < 2 ^ 31

instance (x : Int) : Decidable (Fits32 x) := inferInstanceAs (Decidable (_ ∧ _))

/-- Every order count is within half of the LSB range `2 ^ k` of the one it is counted from. -/
def WithinHalf (k : Nat) : Int → List OrderedPicture → Prop
  | _, [] => True
  | anchor, pic :: pics =>
    (Near (2 ^ k) (pic.from anchor) pic.poc ∧ Fits32 pic.poc) ∧ WithinHalf k (pic.next anchor) pics

instance (k : Nat) :
    ∀ (anchor : Int) (pics : List OrderedPicture), Decidable (WithinHalf k anchor pics)
  | _, [] => .isTrue trivial
  | anchor, pic :: pics =>
    have : Decidable (WithinHalf k (pic.next anchor) pics) := instDecidableWithinHalf k _ pics
    inferInstanceAs (Decidable (_ ∧ _))

section Wrapping

variable {k : Nat} {half pl r v x : Int}

theorem two_pow_k (hk : 1 ≤ k) (hk' : k ≤ 30) :
    (0 : Int) < 2 ^ k ∧ (2 : Int) ^ k ≤ 2 ^ 30 ∧
    2 * ((2 : Int) ^ k / 2) = 2 ^ k ∧ (2 : Int) ^ k ∣ 2 ^ 31 := by
  obtain ⟨j, rfl⟩ := Nat.exists_eq_add_of_le' hk
  refine ⟨by positivity, pow_le_pow_right₀ (by decide) hk', ?_, pow_dvd_pow 2 (by omega)⟩
  rw [pow_succ]
  omega

/-- The part of an `int32_t` above its LSBs is one as well. -/
theorem Fits32.msb (h : Fits32 x) (hk : 1 ≤ k) (hk' : k ≤ 30) : Fits32 (x - x % 2 ^ k) := by
  obtain ⟨hpos, -, -, hdvd⟩ := two_pow_k hk hk'
  have hmod := Int.emod_nonneg x hpos.ne'
  obtain ⟨hlo, hhi⟩ := h
  refine ⟨?_, by omega⟩
  have hmultiple : (2 : Int) ^ k ∣ x - x % 2 ^ k + 2 ^ 31 :=
    Int.dvd_add (Int.dvd_self_sub_emod) hdvd
  have hlt := Int.emod_lt_of_pos x hpos
  have hnonneg := H265.nonneg_of_dvd hmultiple (by omega)
  omega

/-- The MSB as the code computes it, with 32 bits. -/
theorem msb_eq (pm : Int) (hk : 1 ≤ k) (hk' : k ≤ 30) (hhalf : 2 * half = 2 ^ k)
    (hpl : 0 ≤ pl ∧ pl < 2 ^ k) (hr : 0 ≤ r ∧ r < 2 ^ k) (hv : nextMsb (2 ^ k) pm pl r = v)
    (hfits : Fits32 v) :
    (if r < pl ∧ half ≤ i32 (pl - r) then i32 (pm + 2 ^ k)
      else if pl < r ∧ half < i32 (r - pl) then i32 (pm - 2 ^ k) else pm) = v := by
  obtain ⟨-, hle, -⟩ := two_pow_k hk hk'
  have hdrop : i32 (pl - r) = pl - r := i32_eq (by omega) (by omega)
  have hrise : i32 (r - pl) = r - pl := i32_eq (by omega) (by omega)
  rw [hdrop, hrise]
  unfold nextMsb at hv
  by_cases hup : r < pl ∧ 2 ^ k ≤ 2 * (pl - r)
  · rw [if_pos hup] at hv
    rw [if_pos (by omega), hv]
    exact i32_eq hfits.1 hfits.2
  · rw [if_neg hup] at hv
    rw [if_neg (by omega)]
    by_cases hdown : pl < r ∧ 2 ^ k < 2 * (r - pl)
    · rw [if_pos hdown] at hv
      rw [if_pos (by omega), hv]
      exact i32_eq hfits.1 hfits.2
    · rw [if_neg hdown] at hv
      rw [if_neg (by omega)]
      exact hv

end Wrapping

namespace H264

variable {k : Nat} {sps : Sps} {decode : DecodeParams} {isIdr : Bool} {refIdc : Nat} {p : Staged}
  {a x : Int} {out : ParseResult} {pic : OrderedPicture} {pics : List OrderedPicture}

/-- The POC state behind an anchor. -/
def AnchoredAt (k : Nat) (a : Int) (p : Staged) : Prop :=
  p.prevMsb = a - a % 2 ^ k ∧ p.prevLsb = a % 2 ^ k

theorem computePocType0_near (hk : sps.log2MaxPicOrderCntLsbMinus4 + 4 = k) (hk' : k ≤ 30)
    (hp : isIdr = false → AnchoredAt k a p) (hidr : isIdr = true → a = 0)
    (hlsb : (decode.picOrderCntLsb : Int) = x % 2 ^ k) (hnear : Near (2 ^ k) a x)
    (hfits : Fits32 x) :
    (computePocType0 sps decode isIdr refIdc p).1.topFieldOrderCnt = x ∧
      (refIdc ≠ 0 → AnchoredAt k x (computePocType0 sps decode isIdr refIdc p).2) ∧
      (refIdc = 0 → (computePocType0 sps decode isIdr refIdc p).2 = p) := by
  obtain ⟨hpos, hle, htwice, -⟩ := two_pow_k (k := k) (by omega) hk'
  have hmax : i32 (2 ^ (sps.log2MaxPicOrderCntLsbMinus4 + 4)) = 2 ^ k := by
    rw [hk]
    exact i32_eq (by omega) (by omega)
  have hhalf : 2 * i32 ((2 ^ k : Int).tdiv 2) = 2 ^ k := by
    rw [Int.tdiv_eq_ediv_of_nonneg hpos.le, i32_eq (by omega) (by omega)]
    exact htwice
  have hprev : (if isIdr = true then 0 else p.prevMsb) = a - a % 2 ^ k ∧
      (if isIdr = true then 0 else p.prevLsb) = a % 2 ^ k := by
    cases isIdr with
    | true =>
      rw [hidr rfl]
      simp
    | false => exact hp rfl
  have hmsb := msb_eq (a - a % 2 ^ k) (by omega) hk' hhalf
    ⟨Int.emod_nonneg a hpos.ne', Int.emod_lt_of_pos a hpos⟩
      ⟨Int.emod_nonneg x hpos.ne', Int.emod_lt_of_pos x hpos⟩
    ((nextMsb_iff hpos).mpr hnear) (hfits.msb (by omega) hk')
  have hsum : i32 (x - x % 2 ^ k + x % 2 ^ k) = x := by
    rw [sub_add_cancel]
    exact i32_eq hfits.1 hfits.2
  simp only [computePocType0, hmax, hprev.1, hprev.2, hlsb, hmsb, hsum]
  refine ⟨trivial, ?_, ?_⟩
  · intro href
    rw [if_pos href]
    exact ⟨rfl, rfl⟩
  · intro href
    rw [if_neg (by simpa using href)]

/-- A slice of the picture: the LSBs of its order count, and what it is counted from. -/
structure SaysLsb (k : Nat) (pic : OrderedPicture) (c : ParseResult) (r : List Byte) : Prop where
  type : c.sps.picOrderCntType = 0
  range : c.sps.log2MaxPicOrderCntLsbMinus4 + 4 = k
  isIdr : hasFlag c.decode.flags decodeParamFlagIdrPic = pic.isIdr
  isRef : nalRefIdc r ≠ 0 ↔ pic.isAnchor = true
  lsb : (c.decode.picOrderCntLsb : Int) = pic.poc % 2 ^ k

/-- The access unit is accepted, and all its slices say so. An IDR picture is a reference. -/
structure CodesLsb (k : Nat) (pic : OrderedPicture) (out : ParseResult) : Prop where
  accepted : Accepted pic.au out
  slices : ∀ o r, Reads pic.au out o r → SaysLsb k pic (coded o r) r
  idrIsRef : pic.isIdr = true → pic.isAnchor = true

instance (c : ParseResult) (r : List Byte) : Decidable (SaysLsb k pic c r) :=
  decidable_of_iff (c.sps.picOrderCntType = 0 ∧ c.sps.log2MaxPicOrderCntLsbMinus4 + 4 = k ∧
      hasFlag c.decode.flags decodeParamFlagIdrPic = pic.isIdr ∧
      (nalRefIdc r ≠ 0 ↔ pic.isAnchor = true) ∧ (c.decode.picOrderCntLsb : Int) = pic.poc % 2 ^ k)
    ⟨fun h => ⟨h.1, h.2.1, h.2.2.1, h.2.2.2.1, h.2.2.2.2⟩,
      fun h => ⟨h.type, h.range, h.isIdr, h.isRef, h.lsb⟩⟩

instance : Decidable (CodesLsb k pic out) :=
  have : Decidable (∀ o r, Reads pic.au out o r → SaysLsb k pic (coded o r) r) :=
    decidable_of_iff _ reads_iff.symm
  decidable_of_iff (Accepted pic.au out ∧
    (∀ o r, Reads pic.au out o r → SaysLsb k pic (coded o r) r) ∧
      (pic.isIdr = true → pic.isAnchor = true))
    ⟨fun h => ⟨h.1, h.2.1, h.2.2⟩, fun h => ⟨h.accepted, h.slices, h.idrIsRef⟩⟩

/-- The parse of one picture. -/
theorem parsed_near (hk' : k ≤ 30) (hcodes : CodesLsb k pic out)
    (hstart : pic.isIdr = false → AnchoredAt k a (pocState out))
    (hnear : Near (2 ^ k) (pic.from a) pic.poc) (hfits : Fits32 pic.poc) :
    (parsed pic.au out).decode.topFieldOrderCnt = pic.poc ∧
      AnchoredAt k (pic.next a) (pocState (parsed pic.au out)) := by
  -- before the slices the state is that of the anchor, or the picture is an IDR
  let Q : Staged → Prop := fun p => pic.isIdr = false → AnchoredAt k a p
  let R : DecodeParams → Staged → Prop := fun d p =>
    d.topFieldOrderCnt = pic.poc ∧ AnchoredAt k (pic.next a) p
  refine parse_slices (Q := Q) (R := R) hcodes.accepted hstart ?_
  intro o r p hreads hstate
  have htold := hcodes.slices o r hreads
  have hpos : (0 : Int) < 2 ^ k := by positivity
  -- a later slice of a reference is counted from the picture itself
  obtain ⟨b, hp, hb, hbnear⟩ : ∃ b, (pic.isIdr = false → AnchoredAt k b p) ∧
      (pic.isIdr = true → b = 0) ∧
      Near (2 ^ k) b pic.poc := by
    cases hidr : pic.isIdr with
    | true =>
      simp only [OrderedPicture.from, hidr, if_true] at hnear
      exact ⟨0, nofun, fun _ => rfl, hnear⟩
    | false =>
      simp only [OrderedPicture.from, hidr, Bool.false_eq_true, if_false] at hnear
      rcases hstate with hstate | ⟨d, -, hstate⟩
      · exact ⟨a, fun _ => hstate hidr, nofun, hnear⟩
      · cases href : pic.isAnchor with
        | true =>
          rw [OrderedPicture.next, if_pos href] at hstate
          exact ⟨pic.poc, fun _ => hstate, nofun, near_self hpos⟩
        | false =>
          simp only [OrderedPicture.next, OrderedPicture.from, href, hidr, Bool.false_eq_true,
            if_false] at hstate
          exact ⟨a, fun _ => hstate, nofun, hnear⟩
  obtain ⟨htop, hanchor, hsame⟩ := computePocType0_near htold.range hk' hp hb
    htold.lsb hbnear hfits
  simp only [R, computePoc, htold.type, htold.isIdr, if_true]
  refine ⟨htop, ?_⟩
  by_cases href : pic.isAnchor = true
  · rw [OrderedPicture.next, if_pos href]
    exact hanchor (htold.isRef.mpr href)
  · have hidr : pic.isIdr = false := by
      by_contra hyes
      exact href (hcodes.idrIsRef (by simpa using hyes))
    have hrefIdc : nalRefIdc r = 0 := by
      by_contra hne
      exact href (htold.isRef.mp hne)
    have hnext : pic.next a = a := by simp [OrderedPicture.next, OrderedPicture.from, href, hidr]
    rw [hsame hrefIdc, hnext]
    rcases hstate with hstate | ⟨d, -, hstate⟩
    · exact hstate hidr
    · rwa [hnext] at hstate

/-- The next result, picture by picture. -/
def nextResult (pic : OrderedPicture) (out : ParseResult) : ParseResult := parsed pic.au out

theorem orders_eq (hk' : k ≤ 30) (hcodes : EachPicture nextResult (CodesLsb k) pics out)
    (hhalf : WithinHalf k a pics)
    (hstart : pics.head?.all OrderedPicture.isIdr = true ∨ AnchoredAt k a (pocState out)) :
    afterEach nextResult (fun o => o.decode.topFieldOrderCnt) pics out =
    pics.map OrderedPicture.poc := by
  induction pics generalizing a out with
  | nil => rfl
  | cons pic pics ih =>
    obtain ⟨hpic, hrest⟩ := hcodes
    obtain ⟨⟨hnear, hfits⟩, hhalf⟩ := hhalf
    have hbefore : pic.isIdr = false → AnchoredAt k a (pocState out) := by
      intro hidr
      rcases hstart with hstart | hstart
      · simp [hidr] at hstart
      · exact hstart
    obtain ⟨htop, hnext⟩ := parsed_near hk' hpic hbefore hnear hfits
    rw [afterEach, List.map_cons]
    exact congrArg₂ List.cons htop (ih hrest hhalf (.inr hnext))

end H264

namespace H265

variable {k : Nat} {sps : Sps} {isIdr : Bool} {lsb : Nat} {p : Staged} {a x : Int}
  {out : ParseResult} {pic : OrderedPicture} {pics : List OrderedPicture}

def AnchoredAt (k : Nat) (a : Int) (p : Staged) : Prop :=
  p.prevMsb = a - a % 2 ^ k ∧ p.prevLsb = a % 2 ^ k

theorem picOrder_near (anchor : Bool) (hk : sps.log2MaxPicOrderCntLsbMinus4 + 4 = k) (hk' : k ≤ 30)
    (hp : isIdr = false → AnchoredAt k a p) (hidr : isIdr = true → a = 0 ∧ x = 0)
    (hlsb : (lsb : Int) = x % 2 ^ k) (hnear : Near (2 ^ k) a x) (hfits : Fits32 x) :
    (picOrder sps isIdr anchor lsb p).1 = x ∧
      (anchor = true → AnchoredAt k x (picOrder sps isIdr anchor lsb p).2) ∧
      (anchor = false → isIdr = false → (picOrder sps isIdr anchor lsb p).2 = p) ∧
      (isIdr = true → AnchoredAt k 0 (picOrder sps isIdr anchor lsb p).2) := by
  obtain ⟨hpos, hle, htwice, -⟩ := two_pow_k (k := k) (by omega) hk'
  have hmax : maxLsb sps = 2 ^ k := by
    rw [maxLsb, hk]
    exact i32_eq (by omega) (by omega)
  cases isIdr with
  | true =>
    obtain ⟨rfl, rfl⟩ := hidr rfl
    rw [picOrder_idr]
    refine ⟨rfl, ?_, ?_, ?_⟩
    · exact fun _ => ⟨by simp, by simp⟩
    · intro _ hno
      cases hno
    · exact fun _ => ⟨by simp, by simp⟩
  | false =>
    have hhalf : 2 * (2 ^ k : Int).tdiv 2 = 2 ^ k := by
      rw [Int.tdiv_eq_ediv_of_nonneg hpos.le]
      exact htwice
    obtain ⟨hmsb, hprev⟩ := hp rfl
    have hcode := msb_eq (a - a % 2 ^ k) (by omega) hk' hhalf
      ⟨Int.emod_nonneg a hpos.ne', Int.emod_lt_of_pos a hpos⟩
      ⟨Int.emod_nonneg x hpos.ne', Int.emod_lt_of_pos x hpos⟩ ((nextMsb_iff hpos).mpr hnear)
      (hfits.msb (by omega) hk')
    have hpoc : computePoc sps lsb p = x := by
      simp only [computePoc, hmax, hmsb, hprev, hlsb, hcode]
      rw [sub_add_cancel]
      exact i32_eq hfits.1 hfits.2
    have hupdate : updateAnchor sps x p = ⟨x - x % 2 ^ k, x % 2 ^ k⟩ := by
      have hrange := hfits.msb (k := k) (by omega) hk'
      have hdvd : maxLsb sps ∣ x - x % 2 ^ k := by
        rw [hmax]
        exact Int.dvd_self_sub_emod
      have hlt : x % 2 ^ k < maxLsb sps := by
        rw [hmax]
        exact Int.emod_lt_of_pos x hpos
      have hanchor := updateAnchor_msb (p := p) (hmax ▸ hpos) ⟨hrange.1, hrange.2, hdvd⟩
        (Int.emod_nonneg x hpos.ne') hlt
      rwa [sub_add_cancel] at hanchor
    simp only [picOrder, Bool.false_eq_true, if_false, hpoc, hupdate]
    refine ⟨trivial, ?_, ?_, ?_⟩
    · intro hanchor
      rw [if_pos hanchor]
      exact ⟨rfl, rfl⟩
    · intro hanchor _
      rw [hanchor]
      rfl
    · intro hno
      cases hno

/-- The pictures that others are counted from (8.3.1): of TemporalId 0, and neither RASL nor RADL
nor a sub-layer non-reference picture. -/
def isPrevTid0 (r : List Byte) : Bool :=
  temporalIdP1 r = 1 ∧ ¬ (6 ≤ nalType r ∧ nalType r ≤ 9) ∧ ¬ (nalType r ≤ 14 ∧ nalType r % 2 = 0)

theorem isAnchor_eq {r : List Byte} (h : IsSegment r) : isAnchor r = isPrevTid0 r := by
  have hmem : nalType r ∈ sliceNalTypes := h
  unfold isAnchor isPrevTid0
  generalize nalType r = t at hmem
  rw [decide_eq_decide]
  refine and_congr_right fun _ => ?_
  revert t
  decide

/-- A segment of the picture: an independent one codes the LSBs of its order count. -/
structure SaysLsb (k : Nat) (pic : OrderedPicture) (c : ParseResult) (r : List Byte) : Prop where
  range : (activeSps c).log2MaxPicOrderCntLsbMinus4 + 4 = k
  isIdr : isIdrType (nalType r) = pic.isIdr
  isAnchor : isPrevTid0 r = pic.isAnchor
  lsb : dependentView c = 0 → (c.slice.slicePicOrderCntLsb : Int) = pic.poc % 2 ^ k

/-- The access unit is accepted, and all its segments say so. The order count of an IDR picture is
0. -/
structure CodesLsb (k : Nat) (pic : OrderedPicture) (out : ParseResult) : Prop where
  accepted : Accepted pic.au out
  segments : ∀ o r, Reads pic.au out o r → SaysLsb k pic (coded o r) r
  idrIsZero : pic.isIdr = true → pic.poc = 0

/-- The LSBs of a picture with dependent segments are 0. -/
def Undivided (k : Nat) (pic : OrderedPicture) (out : ParseResult) : Prop :=
  pic.poc % 2 ^ k = 0 ∨ ∀ o r, Reads pic.au out o r → dependentView (coded o r) = 0

instance (c : ParseResult) (r : List Byte) : Decidable (SaysLsb k pic c r) :=
  decidable_of_iff ((activeSps c).log2MaxPicOrderCntLsbMinus4 + 4 = k ∧
      isIdrType (nalType r) = pic.isIdr ∧ isPrevTid0 r = pic.isAnchor ∧
      (dependentView c = 0 → (c.slice.slicePicOrderCntLsb : Int) = pic.poc % 2 ^ k))
    ⟨fun h => ⟨h.1, h.2.1, h.2.2.1, h.2.2.2⟩, fun h => ⟨h.range, h.isIdr, h.isAnchor, h.lsb⟩⟩

instance : Decidable (CodesLsb k pic out) :=
  have : Decidable (∀ o r, Reads pic.au out o r → SaysLsb k pic (coded o r) r) :=
    decidable_of_iff _ reads_iff.symm
  decidable_of_iff (Accepted pic.au out ∧
    (∀ o r, Reads pic.au out o r → SaysLsb k pic (coded o r) r) ∧
      (pic.isIdr = true → pic.poc = 0))
    ⟨fun h => ⟨h.1, h.2.1, h.2.2⟩, fun h => ⟨h.accepted, h.segments, h.idrIsZero⟩⟩

instance : Decidable (Undivided k pic out) :=
  have : Decidable (∀ o r, Reads pic.au out o r → dependentView (coded o r) = 0) :=
    decidable_of_iff _ reads_iff.symm
  inferInstanceAs (Decidable (_ ∨ _))

theorem parsed_near (hk' : k ≤ 30) (hcodes : CodesLsb k pic out) (hwhole : Undivided k pic out)
    (hstart : pic.isIdr = false → AnchoredAt k a (pocState out))
    (hnear : Near (2 ^ k) (pic.from a) pic.poc) (hfits : Fits32 pic.poc) :
    (parsed pic.au out).poc = pic.poc ∧
    AnchoredAt k (pic.next a) (pocState (parsed pic.au out)) := by
  let Q : Staged → Prop := fun p => pic.isIdr = false → AnchoredAt k a p
  let R : Int → Staged → Prop := fun poc p => poc = pic.poc ∧ AnchoredAt k (pic.next a) p
  refine parse_segments (Q := Q) (R := R) hcodes.accepted hstart ?_
  intro o r p hreads hheader hstate
  have htold := hcodes.segments o r hreads
  have hpos : (0 : Int) < 2 ^ k := by positivity
  have hisIdr : (coded o r).isIdr = pic.isIdr := hheader.isIdr.trans htold.isIdr
  have hlsb : ((coded o r).slice.slicePicOrderCntLsb : Int) = pic.poc % 2 ^ k := by
    by_cases hdep : dependentView (coded o r) = 0
    · exact htold.lsb hdep
    · have hnothing := hheader.said.nothing (.inl hdep)
      have hzero : (coded o r).slice.slicePicOrderCntLsb = 0 :=
        congrArg PictureFields.slicePicOrderCntLsb hnothing
      rcases hwhole with hwhole | hwhole
      · rw [hwhole, hzero]
        rfl
      · exact absurd (hwhole o r hreads) hdep
  -- a later segment of an anchor is counted from the picture itself
  obtain ⟨b, hp, hb, hbnear, hstay⟩ : ∃ b, (pic.isIdr = false → AnchoredAt k b p) ∧
      (pic.isIdr = true → b = 0 ∧ pic.poc = 0) ∧ Near (2 ^ k) b pic.poc ∧
      (pic.isAnchor = false → pic.isIdr = false → b = a) := by
    cases hidr : pic.isIdr with
    | true =>
      simp only [OrderedPicture.from, hidr, if_true] at hnear
      exact ⟨0, nofun, fun _ => ⟨rfl, hcodes.idrIsZero hidr⟩, hnear, nofun⟩
    | false =>
      simp only [OrderedPicture.from, hidr, Bool.false_eq_true, if_false] at hnear
      rcases hstate with hstate | ⟨d, -, hstate⟩
      · exact ⟨a, fun _ => hstate hidr, nofun, hnear, fun _ _ => rfl⟩
      · cases hanchor : pic.isAnchor with
        | true =>
          rw [OrderedPicture.next, if_pos hanchor] at hstate
          exact ⟨pic.poc, fun _ => hstate, nofun, near_self hpos, nofun⟩
        | false =>
          simp only [OrderedPicture.next, OrderedPicture.from, hanchor, hidr, Bool.false_eq_true,
            if_false] at hstate
          exact ⟨a, fun _ => hstate, nofun, hnear, fun _ _ => rfl⟩
  obtain ⟨hpoc, hanchor, hsame, hzero⟩ :=
    picOrder_near (isAnchor r) htold.range hk' hp hb hlsb hbnear
    hfits
  rw [hisIdr]
  refine ⟨hpoc, ?_⟩
  rw [isAnchor_eq hreads.1, htold.isAnchor] at hanchor hsame hzero ⊢
  cases hisAnchor : pic.isAnchor with
  | true =>
    rw [hisAnchor] at hanchor
    rw [OrderedPicture.next, if_pos hisAnchor]
    exact hanchor rfl
  | false =>
    rw [hisAnchor] at hsame hzero
    cases hidr : pic.isIdr with
    | true =>
      rw [hidr] at hzero
      have hnext : pic.next a = 0 := by
        simp [OrderedPicture.next, OrderedPicture.from, hisAnchor, hidr]
      rw [hnext]
      exact hzero rfl
    | false =>
      rw [hidr] at hsame
      have hnext : pic.next a = a := by
        simp [OrderedPicture.next, OrderedPicture.from, hisAnchor, hidr]
      rw [hsame rfl rfl, hnext, ← hstay hisAnchor hidr]
      exact hp hidr

def nextResult (pic : OrderedPicture) (out : ParseResult) : ParseResult := parsed pic.au out

theorem orders_eq (hk' : k ≤ 30) (hcodes : EachPicture nextResult (CodesLsb k) pics out)
    (hwhole : EachPicture nextResult (Undivided k) pics out) (hhalf : WithinHalf k a pics)
    (hstart : pics.head?.all OrderedPicture.isIdr = true ∨ AnchoredAt k a (pocState out)) :
    afterEach nextResult ParseResult.poc pics out = pics.map OrderedPicture.poc := by
  induction pics generalizing a out with
  | nil => rfl
  | cons pic pics ih =>
    obtain ⟨hpic, hrest⟩ := hcodes
    obtain ⟨hpicWhole, hrestWhole⟩ := hwhole
    obtain ⟨⟨hnear, hfits⟩, hhalf⟩ := hhalf
    have hbefore : pic.isIdr = false → AnchoredAt k a (pocState out) := by
      intro hidr
      rcases hstart with hstart | hstart
      · simp [hidr] at hstart
      · exact hstart
    obtain ⟨hpoc, hnext⟩ := parsed_near hk' hpic hpicWhole hbefore hnear hfits
    rw [afterEach, List.map_cons]
    exact congrArg₂ List.cons hpoc (ih hrest hrestWhole hhalf (.inr hnext))

end H265

/-- From an IDR picture on, the order counts come out of their LSBs when each is within half of the
LSB range of the one it is counted from. For H.265 no segment may leave the LSBs out, unless they
are 0. -/
theorem poc_reconstructed (k : Nat) (hk : k ≤ 30) (pics : List OrderedPicture)
    (hidr : pics.head?.all OrderedPicture.isIdr = true) (hhalf : WithinHalf k 0 pics) :
    (∀ out : H264.ParseResult, EachPicture H264.nextResult (H264.CodesLsb k) pics out →
      afterEach H264.nextResult (fun o => o.decode.topFieldOrderCnt) pics out =
        pics.map OrderedPicture.poc) ∧
    (∀ out : H265.ParseResult, EachPicture H265.nextResult (H265.CodesLsb k) pics out →
      EachPicture H265.nextResult (H265.Undivided k) pics out →
      afterEach H265.nextResult H265.ParseResult.poc pics out = pics.map OrderedPicture.poc) := by
  constructor
  · intro out hcodes
    exact H264.orders_eq hk hcodes hhalf (.inl hidr)
  · intro out hcodes hwhole
    exact H265.orders_eq hk hcodes hwhole hhalf (.inl hidr)

section Streams

/-- An SPS for two macroblocks with POC type 0 and an LSB of four bits, and a PPS. -/
abbrev avcOrderSets : List (List Byte) :=
  [[0x67, 0x42, 0x00, 0x0a, 0xf6, 0x5c, 0x80], [0x68, 0xce, 0x38, 0x80]]

def codedAs (poc : Int) (isIdr isAnchor : Bool) (units : List (List Byte)) : OrderedPicture :=
  ⟨(framed units, 128), poc, isIdr, isAnchor⟩

/-- Four reference pictures, over the wrap of the LSB, and one that is none. -/
abbrev avcOrdered : List OrderedPicture :=
  [codedAs 0 true true (avcOrderSets ++ [[0x65, 0x88, 0x84, 0x08]]),
    codedAs 6 false true [[0x61, 0x9a, 0x2c, 0x20]],
    codedAs 12 false true [[0x61, 0x9a, 0x58, 0x20]],
    codedAs 18 false true [[0x61, 0x9a, 0x64, 0x20]],
    codedAs 17 false false [[0x01, 0x9a, 0x82, 0x40]]]

abbrev hevcIdr : OrderedPicture := codedAs 0 true true (hevcSets ++ [[0x26, 0x01, 0xaf, 0x80]])

/-- One of the pictures has two independent segments. -/
abbrev hevcOrdered : List OrderedPicture :=
  [hevcIdr, codedAs 2 false true [firstSegment, independentSegment],
    codedAs 10 false true [[0x02, 0x01, 0xdd, 0x17, 0xc0, 0x80]],
    codedAs 18 false true [firstSegment]]

theorem poc_reconstructed_across_wrap :
    afterEach H264.nextResult (fun o => o.decode.topFieldOrderCnt) avcOrdered {} = [0, 6, 12, 18,
    17] ∧
    afterEach H265.nextResult H265.ParseResult.poc hevcOrdered {} = [0, 2, 10, 18] := by
  constructor
  · exact (poc_reconstructed 4 (by decide) avcOrdered (by decide) (by decide)).1 {}
      (by decide +kernel)
  · exact (poc_reconstructed 4 (by decide) hevcOrdered (by decide) (by decide)).2 {}
      (by decide +kernel)
      (by decide +kernel)

/-- The second segment of the picture of order count 2 is dependent, and its LSBs are read as 0. -/
theorem dependent_segment_loses_poc :
    WithinHalf 4 0 [hevcIdr, codedAs 2 false true [firstSegment, dependentSegment]] ∧
    EachPicture H265.nextResult (H265.CodesLsb 4)
      [hevcIdr, codedAs 2 false true [firstSegment, dependentSegment]] {} ∧
    afterEach H265.nextResult H265.ParseResult.poc
      [hevcIdr, codedAs 2 false true [firstSegment, dependentSegment]] {} = [0, 0] := by
  refine ⟨by decide, ?_, ?_⟩
  · decide +kernel
  · decide +kernel

end Streams

end Rkvdec.Bitstream
