import Rkvdec.Bitstream.FrameNumbers

/-! Where the picture order starts over: after an H.264 picture with a memory management control
operation 5, and with an H.265 picture whose NoRaslOutputFlag is 1. -/
namespace Rkvdec.Bitstream

open Lib (Near near_self AheadOf nextMsb nextMsb_iff dvd_nextMsb nextOffset nextOffset_iff
  dvd_nextOffset split_of_dvd)

namespace H264

/-- A frame, or one of its fields. -/
inductive Shape where
  | frame
  | topField
  | bottomField
deriving DecidableEq

/-- TopFieldOrderCnt and BottomFieldOrderCnt. A field has its own only. -/
def Shape.orders (shape : Shape) (top bottom : Int) : Option Int × Option Int :=
  (if shape = .bottomField then none else some top, if shape = .topField then none else some bottom)

def DecodeParams.shape (d : DecodeParams) : Shape :=
  if hasFlag d.flags decodeParamFlagFieldPic then
    if hasFlag d.flags decodeParamFlagBottomField then .bottomField else .topField
  else .frame

def DecodeParams.orders (d : DecodeParams) : Option Int × Option Int :=
  d.shape.orders d.topFieldOrderCnt d.bottomFieldOrderCnt

/-- What an SPS says about the picture order. -/
structure OrderSet where
  type : Nat
  lsbBits : Nat
  frameNumBits : Nat
  numRefFramesInCycle : Nat
  offsetForRefFrame : List Int
  offsetForNonRefPic : Int
  offsetForTopToBottomField : Int
deriving DecidableEq

/-- The offsets of all frames up to one, over the cycles. -/
def OrderSet.cycleSum (set : OrderSet) (absFrameNum : Int) : Int :=
  if 0 < absFrameNum then
    (absFrameNum - 1) / set.numRefFramesInCycle *
        (set.offsetForRefFrame.take set.numRefFramesInCycle).sum +
      (set.offsetForRefFrame.take (((absFrameNum - 1) % set.numRefFramesInCycle).toNat + 1)).sum
  else 0

/-- expectedPicOrderCnt (8.2.1.2). -/
def OrderSet.expected (set : OrderSet) (isRef : Bool) (number : Int) : Int :=
  let absFrameNum := if set.numRefFramesInCycle ≠ 0 then number else 0
  if isRef then set.cycleSum absFrameNum
  else set.cycleSum (if 0 < absFrameNum then absFrameNum - 1 else absFrameNum) +
    set.offsetForNonRefPic

/-- What a slice says about it. -/
structure OrderHeader where
  set : OrderSet
  shape : Shape
  isIdr : Bool
  isRef : Bool
  frameNum : Nat
  lsb : Nat
  deltaBottom : Int
  delta0 : Int
  delta1 : Int
deriving DecidableEq

def orderSet (sps : Sps) : OrderSet where
  type := sps.picOrderCntType
  lsbBits := sps.log2MaxPicOrderCntLsbMinus4 + 4
  frameNumBits := sps.log2MaxFrameNumMinus4 + 4
  numRefFramesInCycle := sps.numRefFramesInPicOrderCntCycle
  offsetForRefFrame := sps.offsetForRefFrame
  offsetForNonRefPic := sps.offsetForNonRefPic
  offsetForTopToBottomField := sps.offsetForTopToBottomField

def orderHeader (c : ParseResult) (r : List Byte) : OrderHeader where
  set := orderSet c.sps
  shape := c.decode.shape
  isIdr := hasFlag c.decode.flags decodeParamFlagIdrPic
  isRef := nalRefIdc r ≠ 0
  frameNum := c.decode.frameNum
  lsb := c.decode.picOrderCntLsb
  deltaBottom := c.decode.deltaPicOrderCntBottom
  delta0 := c.decode.deltaPicOrderCnt0
  delta1 := c.decode.deltaPicOrderCnt1

/-- A picture; `resets`: with a memory management control operation 5. -/
structure CountedPicture where
  au : List Byte × Nat
  header : OrderHeader
  resets : Bool

/-- Between two pictures. -/
structure OrderState where
  set : Option OrderSet := none
  prevMsb : Int := 0
  prevLsb : Int := 0
  prevFrameNum : Int := 0
  prevFrameNumOffset : Int := 0
  /-- What the last picture was counted to, when it was reset after that. -/
  unreset : Option Int := none
  orders : Option Int × Option Int := (none, none)

namespace CountedPicture

variable (pic : CountedPicture) (s : OrderState)

/-- PicOrderCntMsb (8.2.1.1). -/
def msb : Int :=
  nextMsb (2 ^ pic.header.set.lsbBits) (if pic.header.isIdr then 0 else s.prevMsb)
    (if pic.header.isIdr then 0 else s.prevLsb) pic.header.lsb

/-- FrameNumOffset (8.2.1.2 and 8.2.1.3). -/
def offset : Int :=
  if pic.header.isIdr then 0
  else nextOffset (2 ^ pic.header.set.frameNumBits) s.prevFrameNumOffset s.prevFrameNum
    pic.header.frameNum

/-- The order count of type 0, and the frame number of the other types, as they do not wrap. -/
def count : Int :=
  if pic.header.set.type = 0 then pic.msb s + pic.header.lsb else pic.offset s + pic.header.frameNum

def top : Int :=
  if pic.header.set.type = 0 then pic.count s
  else if pic.header.set.type = 1 then
    pic.header.set.expected pic.header.isRef (pic.count s) + pic.header.delta0
  else if pic.header.isIdr then 0
  else if pic.header.isRef then 2 * pic.count s
  else 2 * pic.count s - 1

def bottom : Int :=
  let isFrame := pic.header.shape = .frame
  if pic.header.set.type = 0 then pic.top s + (if isFrame then pic.header.deltaBottom else 0)
  else if pic.header.set.type = 1 then
    pic.top s + pic.header.set.offsetForTopToBottomField +
      (if isFrame then pic.header.delta1 else 0)
  else pic.top s

/-- The state for the next picture, which takes a picture with operation 5 to have the order count
0. -/
def after : OrderState where
  set := some pic.header.set
  prevMsb := if pic.resets then 0 else if pic.header.isRef then pic.msb s else s.prevMsb
  prevLsb :=
    if pic.resets then
      if pic.header.shape = .frame then pic.top s - min (pic.top s) (pic.bottom s) else 0
    else if pic.header.isRef then pic.header.lsb else s.prevLsb
  prevFrameNum := if pic.resets then 0 else pic.header.frameNum
  prevFrameNumOffset := if pic.resets then 0 else pic.offset s
  unreset :=
    if pic.resets then some (pic.count s)
    else if pic.header.set.type = 0 ∧ pic.header.isRef = false then s.unreset else none
  orders := pic.header.shape.orders (pic.top s) (pic.bottom s)

/-- What the standard asks of the picture: a new SPS begins with an IDR picture, the numbers are in
range, an IDR picture and one with operation 5 are references, a field has no second delta. -/
structure Ordered : Prop where
  sameSet : pic.header.isIdr = false → ∀ set ∈ s.set, pic.header.set = set
  type : pic.header.set.type ≤ 2
  lsbBits : pic.header.set.lsbBits ≤ 16
  lsb : pic.header.lsb < 2 ^ pic.header.set.lsbBits
  frameNum : pic.header.frameNum < 2 ^ pic.header.set.frameNumBits
  idrIsRef : pic.header.isIdr = true → pic.header.isRef = true
  resetIsRef : pic.resets = true → pic.header.isRef = true
  oneDelta : pic.header.shape ≠ .frame → pic.header.deltaBottom = 0 ∧ pic.header.delta1 = 0
  topFits : ∀ x ∈ (pic.after s).orders.1, Fits32 x
  bottomFits : ∀ x ∈ (pic.after s).orders.2, Fits32 x
  numberFits : pic.header.set.type ≠ 0 → pic.count s < 2 ^ 31

/-- Counted on from before a reset the picture has the same order count. -/
def Undisturbed : Prop :=
  pic.header.isIdr = false → ∀ a ∈ s.unreset,
    if pic.header.set.type = 0 then Near (2 ^ pic.header.set.lsbBits) a (pic.count s)
    else AheadOf (2 ^ pic.header.set.frameNumBits) a (pic.count s)

instance : Decidable (pic.Undisturbed s) := inferInstanceAs (Decidable (_ → _))

instance : Decidable (pic.Ordered s) :=
  decidable_of_iff
    ((pic.header.isIdr = false → ∀ set ∈ s.set, pic.header.set = set) ∧ pic.header.set.type ≤ 2 ∧
      pic.header.set.lsbBits ≤ 16 ∧ pic.header.lsb < 2 ^ pic.header.set.lsbBits ∧
      pic.header.frameNum < 2 ^ pic.header.set.frameNumBits ∧
      (pic.header.isIdr = true → pic.header.isRef = true) ∧
      (pic.resets = true → pic.header.isRef = true) ∧
      (pic.header.shape ≠ .frame → pic.header.deltaBottom = 0 ∧ pic.header.delta1 = 0) ∧
      (∀ x ∈ (pic.after s).orders.1, Fits32 x) ∧ (∀ x ∈ (pic.after s).orders.2, Fits32 x) ∧
      (pic.header.set.type ≠ 0 → pic.count s < 2 ^ 31))
    ⟨fun h => ⟨h.1, h.2.1, h.2.2.1, h.2.2.2.1, h.2.2.2.2.1, h.2.2.2.2.2.1, h.2.2.2.2.2.2.1,
        h.2.2.2.2.2.2.2.1, h.2.2.2.2.2.2.2.2.1, h.2.2.2.2.2.2.2.2.2.1, h.2.2.2.2.2.2.2.2.2.2⟩,
      fun h => ⟨h.sameSet, h.type, h.lsbBits, h.lsb, h.frameNum, h.idrIsRef,
        h.resetIsRef, h.oneDelta,
        h.topFits, h.bottomFits, h.numberFits⟩⟩

end CountedPicture

/-- The access unit is accepted, and all its slices say so. A table of commands that is not full has
all of them. -/
structure CodesOrder (pic : CountedPicture) (out : ParseResult) : Prop where
  accepted : Accepted pic.au out
  slices : ∀ o r, Reads pic.au out o r → orderHeader (coded o r) r = pic.header ∧
    ((coded o r).mmco.length < 16 → (pic.resets = true ↔ ∃ m ∈ (coded o r).mmco, m.op = 5))

instance {pic : CountedPicture} {out : ParseResult} : Decidable (CodesOrder pic out) :=
  have : Decidable (∀ o r, Reads pic.au out o r → orderHeader (coded o r) r = pic.header ∧
      ((coded o r).mmco.length < 16 → (pic.resets = true ↔ ∃ m ∈ (coded o r).mmco, m.op = 5))) :=
    decidable_of_iff _ reads_iff.symm
  decidable_of_iff (Accepted pic.au out ∧ ∀ o r, Reads pic.au out o r →
      orderHeader (coded o r) r = pic.header ∧
      ((coded o r).mmco.length < 16 → (pic.resets = true ↔ ∃ m ∈ (coded o r).mmco, m.op = 5)))
    ⟨fun h => ⟨h.1, h.2⟩, fun h => ⟨h.accepted, h.slices⟩⟩

def nextCounted (pic : CountedPicture) (out : ParseResult) : ParseResult := parsed pic.au out

section Steps

variable {pic : CountedPicture} {pics : List CountedPicture} {s : OrderState} {k : Nat} {p : Staged}
  {out : ParseResult}

/-- With type 0: where the code stands when the standard is at `s`. -/
def BehindLsb (k : Nat) (s : OrderState) (p : Staged) : Prop :=
  ∃ a, AnchoredAt k a p ∧ (2 : Int) ^ k ∣ s.prevMsb ∧
    (s.unreset = some a ∨ s.unreset = none ∧ s.prevMsb = a - a % 2 ^ k ∧ s.prevLsb = a % 2 ^ k)

/-- With the other types. -/
def BehindNumber (k : Nat) (s : OrderState) (p : Staged) : Prop :=
  ∃ n, 0 ≤ n ∧ CountedTo k n p ∧ (2 : Int) ^ k ∣ s.prevFrameNumOffset ∧ 0 ≤ s.prevFrameNumOffset ∧
    (s.unreset = some n ∨
      s.unreset = none ∧ s.prevFrameNumOffset = n - n % 2 ^ k ∧ s.prevFrameNum = n % 2 ^ k)

def Behind (set : OrderSet) (s : OrderState) (p : Staged) : Prop :=
  if set.type = 0 then BehindLsb set.lsbBits s p else BehindNumber set.frameNumBits s p

theorem Shape.orders_congr {shape : Shape} {top bottom top' bottom' : Int}
    (htop : shape ≠ .bottomField → top = top') (hbottom : shape ≠ .topField → bottom = bottom') :
    shape.orders top bottom = shape.orders top' bottom' := by
  cases shape with
  | frame => rw [htop nofun, hbottom nofun]
  | topField =>
    rw [htop nofun]
    rfl
  | bottomField =>
    rw [hbottom nofun]
    rfl

theorem shape_computePoc (sps : Sps) (d : DecodeParams) (refIdc : Nat) (p : Staged) :
    (computePoc sps d refIdc p).1.shape = d.shape := by
  unfold computePoc
  split_ifs <;> rfl

theorem parsed_shape (hcodes : CodesOrder pic out) :
    (parsed pic.au out).decode.shape = pic.header.shape ∧
      (pic.header.set.type = 0 → (parsed pic.au out).decode.bottomFieldOrderCnt =
        i32 ((parsed pic.au out).decode.topFieldOrderCnt + pic.header.deltaBottom)) := by
  refine parse_slices (Q := fun _ => True) (R := fun d _ => d.shape = pic.header.shape ∧
    (pic.header.set.type = 0 →
    d.bottomFieldOrderCnt = i32 (d.topFieldOrderCnt + pic.header.deltaBottom)))
    hcodes.accepted trivial ?_
  intro o r p hreads _
  obtain ⟨hheader, -⟩ := hcodes.slices o r hreads
  rw [shape_computePoc, ← hheader]
  refine ⟨rfl, ?_⟩
  intro htype
  have hzero : (coded o r).sps.picOrderCntType = 0 := htype
  simp only [computePoc, hzero, if_true]
  rfl

section Lsb

/-- What the order count is counted from, and that it is near. -/
theorem count_near (htype : pic.header.set.type = 0) (hk : pic.header.set.lsbBits = k)
    (hordered : pic.Ordered s) (hundisturbed : pic.Undisturbed s)
    (hbehind : pic.header.isIdr = false → BehindLsb k s p) :
    (2 : Int) ^ k ∣ pic.msb s ∧
      ∃ a, (pic.header.isIdr = false → AnchoredAt k a p ∧ (s.unreset = some a ∨ s.unreset = none ∧
          s.prevMsb = a - a % 2 ^ k ∧ s.prevLsb = a % 2 ^ k)) ∧
        Near (2 ^ k) (if pic.header.isIdr then 0 else a) (pic.count s) := by
  have hpos : (0 : Int) < 2 ^ k := by positivity
  have hcount : pic.count s = pic.msb s + pic.header.lsb := if_pos htype
  have hlsb : (pic.header.lsb : Int) < 2 ^ k := by
    have hlt := hordered.lsb
    rw [hk] at hlt
    exact_mod_cast hlt
  have hmsb : pic.msb s = nextMsb (2 ^ k) (if pic.header.isIdr then 0 else s.prevMsb)
      (if pic.header.isIdr then 0 else s.prevLsb) pic.header.lsb := by
    unfold CountedPicture.msb
    rw [hk]
  cases hidr : pic.header.isIdr with
  | true =>
    simp only [hidr, if_true] at hmsb ⊢
    have hdvd : (2 : Int) ^ k ∣ pic.msb s := by
      rw [hmsb]
      exact dvd_nextMsb (dvd_zero _)
    obtain ⟨hmod, hrest⟩ := split_of_dvd hdvd (by positivity) hlsb
    refine ⟨hdvd, 0, ?_, (nextMsb_iff hpos).mp ?_⟩
    · intro hno
      cases hno
    rw [hcount, hrest, hmod, Int.zero_emod, sub_zero]
    exact hmsb.symm
  | false =>
    simp only [hidr, Bool.false_eq_true, if_false] at hmsb ⊢
    obtain ⟨a, hanchor, hprev, hstate⟩ := hbehind hidr
    have hdvd : (2 : Int) ^ k ∣ pic.msb s := by
      rw [hmsb]
      exact dvd_nextMsb hprev
    obtain ⟨hmod, hrest⟩ := split_of_dvd hdvd (by positivity) hlsb
    refine ⟨hdvd, a, fun _ => ⟨hanchor, hstate⟩, ?_⟩
    rcases hstate with hunreset | ⟨-, hprevMsb, hprevLsb⟩
    · have hnear := hundisturbed hidr a hunreset
      rwa [if_pos htype, hk] at hnear
    · refine (nextMsb_iff hpos).mp ?_
      rw [hcount, hrest, hmod, ← hprevMsb, ← hprevLsb]
      exact hmsb.symm

theorem count_fits (htype : pic.header.set.type = 0) (hordered : pic.Ordered s) :
    Fits32 (pic.count s) := by
  have htop : pic.top s = pic.count s := if_pos htype
  by_cases hshape : pic.header.shape = .bottomField
  · have hbottom : pic.bottom s = pic.count s := by
      simp only [CountedPicture.bottom, htype, htop, hshape, if_true]
      simp
    refine hordered.bottomFits _ ?_
    simp [CountedPicture.after, Shape.orders, hshape, hbottom]
  · refine hordered.topFits _ ?_
    simp [CountedPicture.after, Shape.orders, hshape, htop]

/-- One picture with type 0. -/
theorem parsed_lsb (htype : pic.header.set.type = 0) (hk : pic.header.set.lsbBits = k)
    (hcodes : CodesOrder pic out) (hordered : pic.Ordered s) (hundisturbed : pic.Undisturbed s)
    (hbehind : pic.header.isIdr = false → BehindLsb k s (pocState out)) :
    (parsed pic.au out).decode.orders = (pic.after s).orders ∧
      BehindLsb k (pic.after s) (pocState (parsed pic.au out)) := by
  obtain ⟨hdvd, a, hstate, hnear⟩ := count_near htype hk hordered hundisturbed hbehind
  have hcount : pic.count s = pic.msb s + pic.header.lsb := if_pos htype
  have htop : pic.top s = pic.count s := if_pos htype
  have hlsb : (pic.header.lsb : Int) < 2 ^ k := by
    have hlt := hordered.lsb
    rw [hk] at hlt
    exact_mod_cast hlt
  obtain ⟨hmod, hrest⟩ := split_of_dvd hdvd (by positivity) hlsb
  rw [← hcount] at hmod hrest
  let ordered : OrderedPicture := ⟨pic.au, pic.count s, pic.header.isIdr, pic.header.isRef⟩
  have hsays : CodesLsb k ordered out := by
    refine ⟨hcodes.accepted, ?_, hordered.idrIsRef⟩
    intro o r hreads
    obtain ⟨hheader, -⟩ := hcodes.slices o r hreads
    refine ⟨?_, ?_, ?_, ?_, ?_⟩
    · rw [← htype, ← hheader]
      rfl
    · rw [← hk, ← hheader]
      rfl
    · change _ = pic.header.isIdr
      rw [← hheader]
      rfl
    · change _ ↔ pic.header.isRef = true
      rw [← hheader]
      simp [orderHeader]
    · change _ = pic.count s % 2 ^ k
      rw [hmod, ← hheader]
      rfl
  have hbits : k ≤ 30 := by
    have hle := hordered.lsbBits
    omega
  obtain ⟨hparsed, hanchor⟩ :=
    H264.parsed_near (a := a) hbits hsays (fun hidr => (hstate hidr).1) hnear
    (count_fits htype hordered)
  obtain ⟨hshape, hbottom⟩ := parsed_shape hcodes
  constructor
  · unfold DecodeParams.orders CountedPicture.after
    rw [hshape]
    refine Shape.orders_congr (fun _ => hparsed.trans htop.symm) ?_
    intro hnot
    rw [hbottom htype]
    rw [hparsed]
    change i32 (pic.count s + pic.header.deltaBottom) = _
    have hspec : pic.bottom s = pic.count s + pic.header.deltaBottom := by
      by_cases hframe : pic.header.shape = .frame
      · simp [CountedPicture.bottom, htype, htop, hframe]
      · simp [CountedPicture.bottom, htype, htop, hframe, (hordered.oneDelta hframe).1]
    have hfits := hordered.bottomFits (pic.bottom s) (by
      simp [CountedPicture.after, Shape.orders, hnot])
    rw [← hspec]
    exact H265.i32_eq hfits.1 hfits.2
  · refine ⟨_, hanchor, ?_⟩
    cases hresets : pic.resets with
    | true =>
      have href := hordered.resetIsRef hresets
      simp only [CountedPicture.after, hresets, if_true, OrderedPicture.next, ordered, href]
      exact ⟨dvd_zero _, .inl trivial⟩
    | false =>
      cases href : pic.header.isRef with
      | true =>
        simp only [CountedPicture.after, hresets, href, Bool.false_eq_true, if_false, if_true,
          OrderedPicture.next, ordered, Bool.true_eq_false, and_false]
        exact ⟨hdvd, .inr ⟨trivial, hrest.symm, hmod.symm⟩⟩
      | false =>
        have hidr : pic.header.isIdr = false := by
          by_contra hyes
          have hisRef := hordered.idrIsRef (by simpa using hyes)
          rw [href] at hisRef
          cases hisRef
        simp only [CountedPicture.after, hresets, href, Bool.false_eq_true, if_false, htype,
          and_self, if_true, OrderedPicture.next, OrderedPicture.from, ordered, hidr]
        obtain ⟨b, hb, hprev, hb'⟩ := hbehind hidr
        refine ⟨hprev, ?_⟩
        exact (hstate hidr).2

end Lsb

section Number

/-- What the number is counted from, and that it is ahead of it. -/
theorem count_ahead (htype : pic.header.set.type ≠ 0) (hk : pic.header.set.frameNumBits = k)
    (hordered : pic.Ordered s) (hundisturbed : pic.Undisturbed s)
    (hbehind : pic.header.isIdr = false → BehindNumber k s p) :
    (2 : Int) ^ k ∣ pic.offset s ∧ 0 ≤ pic.offset s ∧
      ∃ n, 0 ≤ n ∧ (pic.header.isIdr = false → CountedTo k n p) ∧
        AheadOf (2 ^ k) (if pic.header.isIdr then 0 else n) (pic.count s) := by
  have hpos : (0 : Int) < 2 ^ k := by positivity
  have hcount : pic.count s = pic.offset s + pic.header.frameNum := if_neg htype
  have hnum : (pic.header.frameNum : Int) < 2 ^ k := by
    have hlt := hordered.frameNum
    rw [hk] at hlt
    exact_mod_cast hlt
  cases hidr : pic.header.isIdr with
  | true =>
    have hoffset : pic.offset s = 0 := if_pos hidr
    rw [hcount, hoffset, zero_add]
    simp only [if_true]
    refine ⟨dvd_zero _, le_rfl, 0, le_rfl, ?_, ?_, ?_⟩
    · intro hno
      cases hno
    · positivity
    · simpa using hnum
  | false =>
    obtain ⟨n, hn, hcounted, hprev, hnonneg, hstate⟩ := hbehind hidr
    have hoffset : pic.offset s =
        nextOffset (2 ^ k) s.prevFrameNumOffset s.prevFrameNum pic.header.frameNum := by
      rw [← hk]
      exact if_neg (by simp [hidr])
    have hdvd : (2 : Int) ^ k ∣ pic.offset s := by
      rw [hoffset]
      exact dvd_nextOffset hprev
    have hlow : 0 ≤ pic.offset s := by
      rw [hoffset]
      unfold nextOffset
      split_ifs <;> omega
    obtain ⟨hmod, hrest⟩ := split_of_dvd hdvd (by positivity) hnum
    refine ⟨hdvd, hlow, n, hn, fun _ => hcounted, ?_⟩
    rw [if_neg (by simp)]
    rcases hstate with hunreset | ⟨-, hprevOffset, hprevNum⟩
    · have hahead := hundisturbed hidr n hunreset
      rwa [if_neg htype, hk] at hahead
    · refine (nextOffset_iff hpos).mp ?_
      rw [hcount, hrest, hmod, ← hprevOffset, ← hprevNum]
      exact hoffset.symm

theorem i32_sum (l : List Int) (a y : Int) :
    i32 (l.foldl (fun a b => i32 (a + b)) a + y) = i32 (a + l.sum + y) := by
  induction l generalizing a with
  | nil => simp
  | cons b l ih =>
    rw [List.foldl_cons, ih, List.sum_cons, add_assoc (i32 (a + b)), i32_i32_add]
    congr 1
    ring

/-- The sums of type 1 that the code wraps to 32 bits. -/
theorem i32_cycleSum (set : OrderSet) {abs : Int} (y : Int) (habs : 0 < abs) :
    i32 ((set.offsetForRefFrame.take (((abs - 1).tmod set.numRefFramesInCycle).toNat + 1)).foldl
        (fun a b => i32 (a + b))
        (i32 ((abs - 1).tdiv set.numRefFramesInCycle *
          (set.offsetForRefFrame.take set.numRefFramesInCycle).foldl
            (fun a b => i32 (a + b)) 0)) + y) =
      i32 (set.cycleSum abs + y) := by
  have hlen := i32_sum (set.offsetForRefFrame.take set.numRefFramesInCycle) 0 0
  rw [add_zero, add_zero, zero_add] at hlen
  rw [i32_sum, add_assoc, i32_i32_add, Int.tdiv_eq_ediv_of_nonneg (by omega),
    Int.tmod_eq_emod_of_nonneg (by omega), OrderSet.cycleSum, if_pos habs]
  have hmul : i32 ((abs - 1) / set.numRefFramesInCycle *
        (set.offsetForRefFrame.take set.numRefFramesInCycle).foldl (fun a b => i32 (a + b)) 0) =
      i32 ((abs - 1) / set.numRefFramesInCycle *
        (set.offsetForRefFrame.take set.numRefFramesInCycle).sum) := by
    rw [← i32_mul_i32, hlen, i32_mul_i32]
  rw [← i32_i32_add, hmul, i32_i32_add, add_assoc]

/-- `expected_pic_order_cnt` as `computePocType1` has it. -/
def expected32 (sps : Sps) (refIdc : Nat) (absFrameNum : Int) : Int :=
  let cycle := sps.numRefFramesInPicOrderCntCycle
  let expected :=
    if 0 < absFrameNum then
      (sps.offsetForRefFrame.take (((absFrameNum - 1).tmod cycle).toNat + 1)).foldl
        (fun a b => i32 (a + b))
        (i32 ((absFrameNum - 1).tdiv cycle *
          (sps.offsetForRefFrame.take cycle).foldl (fun a b => i32 (a + b)) 0))
    else 0
  if refIdc = 0 then i32 (expected + sps.offsetForNonRefPic) else expected

theorem i32_expected (sps : Sps) (refIdc : Nat) {number : Int} (y : Int) (hlow : 0 ≤ number)
    (hfits : number < 2 ^ 31) :
    let absFrameNum := if sps.numRefFramesInPicOrderCntCycle ≠ 0 then i32 number else 0
    i32 (expected32 sps refIdc
        (if refIdc = 0 ∧ 0 < absFrameNum then absFrameNum - 1 else absFrameNum) + y) =
      i32 ((orderSet sps).expected (refIdc ≠ 0) number + y) := by
  have hnumber : i32 number = number := H265.i32_eq (by omega) hfits
  -- the sum over the cycles, whether wrapped or not
  have hcycle : ∀ abs z : Int, i32 ((if 0 < abs then
      (sps.offsetForRefFrame.take
        (((abs - 1).tmod sps.numRefFramesInPicOrderCntCycle).toNat + 1)).foldl
        (fun a b => i32 (a + b))
        (i32 ((abs - 1).tdiv sps.numRefFramesInPicOrderCntCycle *
          (sps.offsetForRefFrame.take sps.numRefFramesInPicOrderCntCycle).foldl
            (fun a b => i32 (a + b)) 0))
      else 0) + z) = i32 ((orderSet sps).cycleSum abs + z) := by
    intro abs z
    by_cases habs : 0 < abs
    · rw [if_pos habs]
      exact i32_cycleSum (orderSet sps) z habs
    · rw [if_neg habs, OrderSet.cycleSum, if_neg habs]
  simp only [expected32, OrderSet.expected, hnumber]
  by_cases href : refIdc = 0
  · simp only [href, true_and, if_true, ne_eq, not_true_eq_false, decide_false, Bool.false_eq_true,
      if_false]
    rw [i32_i32_add, add_assoc, hcycle, ← add_assoc]
    rfl
  · simp only [href, false_and, if_false, ne_eq, not_false_eq_true, decide_true, if_true]
    exact hcycle _ y

theorem computePocType1_orders {sps : Sps} {decode : DecodeParams} {isIdr : Bool} (refIdc : Nat)
    {number : Int} (hnumber : frameNumOffset sps decode isIdr p + decode.frameNum = number)
    (hlow : 0 ≤ number) (hfits : number < 2 ^ 31) :
    let expected := (orderSet sps).expected (refIdc ≠ 0) number
    (computePocType1 sps decode isIdr refIdc p).1.topFieldOrderCnt =
      i32 (expected + decode.deltaPicOrderCnt0) ∧
      (computePocType1 sps decode isIdr refIdc p).1.bottomFieldOrderCnt =
        i32 (expected + decode.deltaPicOrderCnt0 + sps.offsetForTopToBottomField +
          decode.deltaPicOrderCnt1) := by
  have htop := i32_expected sps refIdc decode.deltaPicOrderCnt0 hlow hfits
  rw [← hnumber] at htop ⊢
  constructor
  · exact htop
  · have hbottom : (computePocType1 sps decode isIdr refIdc p).1.bottomFieldOrderCnt =
        i32 (i32 ((computePocType1 sps decode isIdr refIdc p).1.topFieldOrderCnt +
          sps.offsetForTopToBottomField) + decode.deltaPicOrderCnt1) := rfl
    rw [hbottom]
    change i32 (i32 (i32 (expected32 sps refIdc _ + decode.deltaPicOrderCnt0) + _) + _) = _
    rw [htop, i32_i32_add, add_assoc, i32_i32_add, ← add_assoc]

end Number

theorem shown_fits (hordered : pic.Ordered s) :
    (pic.header.shape ≠ .bottomField → Fits32 (pic.top s)) ∧
      (pic.header.shape ≠ .topField → Fits32 (pic.bottom s)) := by
  constructor
  · intro hshape
    refine hordered.topFits _ ?_
    simp [CountedPicture.after, Shape.orders, hshape]
  · intro hshape
    refine hordered.bottomFits _ ?_
    simp [CountedPicture.after, Shape.orders, hshape]

/-- The order counts of types 1 and 2, from the offset. -/
theorem orders_computePoc {c : ParseResult} {r : List Byte} (htype : pic.header.set.type ≠ 0)
    (hheader : orderHeader c r = pic.header) (hordered : pic.Ordered s) (hlow : 0 ≤ pic.offset s)
    (hoffset : frameNumOffset c.sps c.decode (hasFlag c.decode.flags decodeParamFlagIdrPic) p =
      pic.offset s) :
    (computePoc c.sps c.decode (nalRefIdc r) p).1.orders = (pic.after s).orders := by
  have hcount : pic.count s = pic.offset s + pic.header.frameNum := if_neg htype
  have hnonneg : 0 ≤ pic.count s := by omega
  have hfits := hordered.numberFits htype
  have hsum : frameNumOffset c.sps c.decode (hasFlag c.decode.flags decodeParamFlagIdrPic) p +
      c.decode.frameNum = pic.count s := by
    rw [hoffset, hcount, ← hheader]
    rfl
  have hshape : (computePoc c.sps c.decode (nalRefIdc r) p).1.shape = pic.header.shape := by
    rw [shape_computePoc, ← hheader]
    rfl
  obtain ⟨htopFits, hbottomFits⟩ := shown_fits hordered
  have hcodeType : c.sps.picOrderCntType = pic.header.set.type := by
    rw [← hheader]
    rfl
  unfold DecodeParams.orders CountedPicture.after
  rw [hshape]
  by_cases hone : pic.header.set.type = 1
  · obtain ⟨htop, hbottom⟩ := computePocType1_orders (nalRefIdc r) hsum hnonneg hfits
    have hpoc : (computePoc c.sps c.decode (nalRefIdc r) p).1 = (computePocType1 c.sps c.decode
        (hasFlag c.decode.flags decodeParamFlagIdrPic) (nalRefIdc r) p).1 := by
      unfold computePoc
      rw [hcodeType, if_neg htype, if_pos hone]
    have hspec : pic.top s = (orderSet c.sps).expected (nalRefIdc r ≠ 0) (pic.count s) +
        c.decode.deltaPicOrderCnt0 := by
      unfold CountedPicture.top
      rw [if_neg htype, if_pos hone, ← hheader]
      rfl
    rw [hpoc]
    refine Shape.orders_congr ?_ ?_
    · intro hnot
      rw [htop, ← hspec]
      exact H265.i32_eq (htopFits hnot).1 (htopFits hnot).2
    · intro hnot
      have hsecond : c.decode.deltaPicOrderCnt1 =
          if pic.header.shape = .frame then pic.header.delta1 else 0 := by
        have hdelta : c.decode.deltaPicOrderCnt1 = pic.header.delta1 := by
          rw [← hheader]
          rfl
        by_cases hframe : pic.header.shape = .frame
        · rw [if_pos hframe, hdelta]
        · rw [if_neg hframe, hdelta]
          exact (hordered.oneDelta hframe).2
      have hbottomSpec : pic.bottom s = pic.top s + c.sps.offsetForTopToBottomField +
          c.decode.deltaPicOrderCnt1 := by
        rw [hsecond]
        unfold CountedPicture.bottom
        rw [if_neg htype, if_pos hone, ← hheader]
        rfl
      rw [hbottom, ← hspec, ← hbottomSpec]
      exact H265.i32_eq (hbottomFits hnot).1 (hbottomFits hnot).2
  · have hbottomSpec : pic.bottom s = pic.top s := by
      unfold CountedPicture.bottom
      rw [if_neg htype, if_neg hone]
    have htopFits' : Fits32 (pic.top s) := by
      by_cases hbottom : pic.header.shape = .bottomField
      · rw [← hbottomSpec]
        exact hbottomFits (by simp [hbottom])
      · exact htopFits hbottom
    have hpoc : (computePoc c.sps c.decode (nalRefIdc r) p).1.topFieldOrderCnt = pic.top s ∧
        (computePoc c.sps c.decode (nalRefIdc r) p).1.bottomFieldOrderCnt =
          (computePoc c.sps c.decode (nalRefIdc r) p).1.topFieldOrderCnt := by
      unfold computePoc
      rw [hcodeType, if_neg htype, if_neg hone]
      refine ⟨?_, rfl⟩
      have hidr : hasFlag c.decode.flags decodeParamFlagIdrPic = pic.header.isIdr := by
        rw [← hheader]
        rfl
      have href : pic.header.isRef = decide (nalRefIdc r ≠ 0) := by
        rw [← hheader]
        rfl
      have hnumber : i32 (pic.count s) = pic.count s := H265.i32_eq (by omega) hfits
      rw [hidr] at hsum
      simp only [computePocType2, hidr, hsum, hnumber]
      unfold CountedPicture.top at htopFits' ⊢
      rw [if_neg htype, if_neg hone, href] at htopFits' ⊢
      by_cases hyes : pic.header.isIdr = true
      · rw [if_pos hyes, if_pos hyes]
      · rw [if_neg hyes] at htopFits' ⊢
        rw [if_neg hyes]
        by_cases hzero : nalRefIdc r = 0
        · have hdec : decide (nalRefIdc r ≠ 0) = false := by simp [hzero]
          rw [hdec, if_neg Bool.false_ne_true] at htopFits' ⊢
          rw [if_pos hzero, sub_eq_add_neg, i32_i32_add, ← sub_eq_add_neg]
          exact H265.i32_eq htopFits'.1 htopFits'.2
        · have hdec : decide (nalRefIdc r ≠ 0) = true := by simp [hzero]
          rw [hdec, if_pos rfl] at htopFits' ⊢
          rw [if_neg hzero]
          exact H265.i32_eq htopFits'.1 htopFits'.2
    rw [hpoc.2, hpoc.1, hbottomSpec]

/-- One picture with type 1 or 2. -/
theorem parsed_numbered (htype : pic.header.set.type ≠ 0) (hk : pic.header.set.frameNumBits = k)
    (hcodes : CodesOrder pic out) (hordered : pic.Ordered s) (hundisturbed : pic.Undisturbed s)
    (hbehind : pic.header.isIdr = false → BehindNumber k s (pocState out)) :
    (parsed pic.au out).decode.orders = (pic.after s).orders ∧
      BehindNumber k (pic.after s) (pocState (parsed pic.au out)) := by
  obtain ⟨hdvd, hlow, n, hn, hcounted, hahead⟩ := count_ahead htype hk hordered hundisturbed hbehind
  have hcount : pic.count s = pic.offset s + pic.header.frameNum := if_neg htype
  have hnum : (pic.header.frameNum : Int) < 2 ^ k := by
    have hlt := hordered.frameNum
    rw [hk] at hlt
    exact_mod_cast hlt
  obtain ⟨hmod, hrest⟩ := split_of_dvd hdvd (by positivity) hnum
  rw [← hcount] at hmod hrest
  have hset : pic.header.set.type = 1 ∨ pic.header.set.type = 2 := by
    have hle := hordered.type
    omega
  let numbered : NumberedPicture := ⟨pic.au, pic.count s, pic.header.isIdr, pic.header.isRef⟩
  have hsent : CodesNumber pic.header.set.type k numbered out := by
    refine ⟨hcodes.accepted, ?_, hordered.idrIsRef⟩
    intro o r hreads
    obtain ⟨hheader, -⟩ := hcodes.slices o r hreads
    refine ⟨?_, ?_, ?_, ?_, ?_⟩
    · rw [← hheader]
      rfl
    · rw [← hk, ← hheader]
      rfl
    · change _ = pic.header.isIdr
      rw [← hheader]
      rfl
    · change _ ↔ pic.header.isRef = true
      rw [← hheader]
      simp [orderHeader]
    · change _ = pic.count s % 2 ^ k
      rw [hmod, ← hheader]
      rfl
  obtain ⟨⟨o, r, p, hreads, hdecode, hoffset⟩, hnext⟩ :=
    parsed_counted hset hsent hcounted hahead hn
    (hordered.numberFits htype)
  constructor
  · rw [hdecode]
    exact orders_computePoc htype (hcodes.slices o r hreads).1 hordered hlow (hoffset.trans hrest)
  · refine ⟨pic.count s, by omega, hnext, ?_⟩
    cases hresets : pic.resets with
    | true =>
      simp only [CountedPicture.after, hresets, if_true]
      exact ⟨dvd_zero _, le_rfl, .inl trivial⟩
    | false =>
      simp only [CountedPicture.after, hresets, htype, Bool.false_eq_true, if_false, false_and]
      exact ⟨hdvd, hlow, .inr ⟨trivial, hrest.symm, hmod.symm⟩⟩

theorem orders_follow (hcodes : EachPicture nextCounted CodesOrder pics out)
    (hordered : EachPicture CountedPicture.after CountedPicture.Ordered pics s)
    (hundisturbed : EachPicture CountedPicture.after CountedPicture.Undisturbed pics s)
    (hbehind : ∀ set, (∀ t ∈ s.set, set = t) → Behind set s (pocState out)) :
    afterEach nextCounted (fun o => o.decode.orders) pics out =
      afterEach CountedPicture.after OrderState.orders pics s := by
  induction pics generalizing s out with
  | nil => rfl
  | cons pic pics ih =>
    obtain ⟨hpic, hrest⟩ := hcodes
    obtain ⟨hpicOrdered, hrestOrdered⟩ := hordered
    obtain ⟨hpicUndisturbed, hrestUndisturbed⟩ := hundisturbed
    have hstart : pic.header.isIdr = false → Behind pic.header.set s (pocState out) := by
      intro hidr
      exact hbehind _ (hpicOrdered.sameSet hidr)
    have hstep : (parsed pic.au out).decode.orders = (pic.after s).orders ∧
        Behind pic.header.set (pic.after s) (pocState (parsed pic.au out)) := by
      by_cases htype : pic.header.set.type = 0
      · simp only [Behind, if_pos htype] at hstart ⊢
        exact parsed_lsb htype rfl hpic hpicOrdered hpicUndisturbed hstart
      · simp only [Behind, if_neg htype] at hstart ⊢
        exact parsed_numbered htype rfl hpic hpicOrdered hpicUndisturbed hstart
    rw [afterEach, afterEach]
    refine congrArg₂ List.cons hstep.1 (ih hrest hrestOrdered hrestUndisturbed ?_)
    intro set hset
    rw [hset pic.header.set rfl]
    exact hstep.2

theorem behind_start (set : OrderSet) : Behind set {} (pocState {}) := by
  unfold Behind
  split_ifs
  · exact ⟨0, ⟨by simp [pocState], by simp [pocState]⟩, dvd_zero _, .inr ⟨rfl, by simp, by simp⟩⟩
  · exact ⟨0, le_rfl, ⟨by simp [pocState], by simp [pocState]⟩, dvd_zero _, le_rfl,
      .inr ⟨rfl, by simp, by simp⟩⟩

end Steps

end H264

namespace H265

/-- A picture; `restarts`: it is the first one, of the stream or after a flush or an end of
sequence. A flush leaves the parse result as it is. -/
structure TimedPicture where
  au : List Byte × Nat
  nalType : Nat
  lsbBits : Nat
  lsb : Nat
  isPrevTid0 : Bool
  restarts : Bool

/-- Between two pictures: those of the last picture that others are counted from. -/
structure TimedState where
  lsbBits : Option Nat := none
  prevMsb : Int := 0
  prevLsb : Int := 0
  poc : Int := 0

namespace TimedPicture

variable (pic : TimedPicture) (s : TimedState)

def isIdr : Bool := isIdrType pic.nalType

def isBla : Bool := 16 ≤ pic.nalType ∧ pic.nalType ≤ 18

/-- NoRaslOutputFlag of an IRAP picture. -/
def noRaslOutputFlag : Bool := pic.isIdr || pic.isBla || (pic.nalType = 21 && pic.restarts)

/-- PicOrderCntMsb (8.3.1). -/
def msb : Int :=
  if pic.noRaslOutputFlag then 0 else nextMsb (2 ^ pic.lsbBits) s.prevMsb s.prevLsb pic.lsb

def after : TimedState where
  lsbBits := some pic.lsbBits
  prevMsb := if pic.isPrevTid0 then pic.msb s else s.prevMsb
  prevLsb := if pic.isPrevTid0 then pic.lsb else s.prevLsb
  poc := pic.msb s + pic.lsb

/-- What the standard asks of the picture: a new SPS begins with a picture of NoRaslOutputFlag 1,
which has the TemporalId 0, the numbers are in range, and the LSBs of an IDR picture are 0. -/
structure Ordered : Prop where
  sameRange : pic.noRaslOutputFlag = false → ∀ k ∈ s.lsbBits, pic.lsbBits = k
  lsbBits : pic.lsbBits ≤ 16
  lsb : pic.lsb < 2 ^ pic.lsbBits
  idrIsZero : pic.isIdr = true → pic.lsb = 0
  isPrevTid0 : pic.noRaslOutputFlag = true → pic.isPrevTid0 = true
  fits : Fits32 (pic.after s).poc

/-- Where the order starts over without an IDR picture, counting on has the same result. -/
def Undisturbed : Prop :=
  pic.isIdr = false → pic.noRaslOutputFlag = true →
    (∀ k ∈ s.lsbBits, pic.lsbBits = k) ∧ Near (2 ^ pic.lsbBits) (s.prevMsb + s.prevLsb) pic.lsb

instance : Decidable (pic.Undisturbed s) := inferInstanceAs (Decidable (_ → _ → _))

instance : Decidable (pic.Ordered s) :=
  decidable_of_iff
    ((pic.noRaslOutputFlag = false → ∀ k ∈ s.lsbBits, pic.lsbBits = k) ∧ pic.lsbBits ≤ 16 ∧
      pic.lsb < 2 ^ pic.lsbBits ∧ (pic.isIdr = true → pic.lsb = 0) ∧
      (pic.noRaslOutputFlag = true → pic.isPrevTid0 = true) ∧ Fits32 (pic.after s).poc)
    ⟨fun h => ⟨h.1, h.2.1, h.2.2.1, h.2.2.2.1, h.2.2.2.2.1, h.2.2.2.2.2⟩,
      fun h => ⟨h.sameRange, h.lsbBits, h.lsb, h.idrIsZero, h.isPrevTid0, h.fits⟩⟩

end TimedPicture

/-- A segment of the picture. -/
def SaysTime (pic : TimedPicture) (c : ParseResult) (r : List Byte) : Prop :=
  nalType r = pic.nalType ∧ H265.isPrevTid0 r = pic.isPrevTid0 ∧
    (activeSps c).log2MaxPicOrderCntLsbMinus4 + 4 = pic.lsbBits ∧
    (dependentView c = 0 → c.slice.slicePicOrderCntLsb = pic.lsb)

instance (pic : TimedPicture) (c : ParseResult) (r : List Byte) : Decidable (SaysTime pic c r) :=
  inferInstanceAs (Decidable (_ ∧ _ ∧ _ ∧ _))

/-- The access unit is accepted, and all its segments say so. -/
def CodesTime (pic : TimedPicture) (out : ParseResult) : Prop :=
  Accepted pic.au out ∧ ∀ o r, Reads pic.au out o r → SaysTime pic (coded o r) r

/-- The LSBs of a picture with dependent segments are 0. -/
def Whole (pic : TimedPicture) (out : ParseResult) : Prop :=
  pic.lsb = 0 ∨ ∀ o r, Reads pic.au out o r → dependentView (coded o r) = 0

instance {pic : TimedPicture} {out : ParseResult} : Decidable (CodesTime pic out) :=
  have : Decidable (∀ o r, Reads pic.au out o r → SaysTime pic (coded o r) r) :=
    decidable_of_iff _ reads_iff.symm
  inferInstanceAs (Decidable (_ ∧ _))

instance {pic : TimedPicture} {out : ParseResult} : Decidable (Whole pic out) :=
  have : Decidable (∀ o r, Reads pic.au out o r → dependentView (coded o r) = 0) :=
    decidable_of_iff _ reads_iff.symm
  inferInstanceAs (Decidable (_ ∨ _))

def nextTimed (pic : TimedPicture) (out : ParseResult) : ParseResult := parsed pic.au out

section Steps

variable {pic : TimedPicture} {pics : List TimedPicture} {s : TimedState} {k : Nat} {p : Staged}
  {out : ParseResult} {a : Int}

/-- Where the code stands when the standard is at `s`. -/
def BehindTime (k : Nat) (s : TimedState) (p : Staged) : Prop :=
  ∃ a, AnchoredAt k a p ∧ s.prevMsb = a - a % 2 ^ k ∧ s.prevLsb = a % 2 ^ k

theorem dvd_msb (hbehind : pic.noRaslOutputFlag = false → BehindTime pic.lsbBits s p) :
    (2 : Int) ^ pic.lsbBits ∣ pic.msb s := by
  unfold TimedPicture.msb
  cases hno : pic.noRaslOutputFlag with
  | true => exact dvd_zero _
  | false =>
    obtain ⟨a, -, hprev, -⟩ := hbehind hno
    refine dvd_nextMsb ?_
    rw [hprev]
    exact Int.dvd_self_sub_emod

/-- What the order count is counted from, and that it is near. -/
theorem poc_near (hordered : pic.Ordered s) (hundisturbed : pic.Undisturbed s)
    (hbehind : pic.isIdr = false → BehindTime pic.lsbBits s p) :
    ∃ a, (pic.isIdr = false → AnchoredAt pic.lsbBits a p ∧
        s.prevMsb = a - a % 2 ^ pic.lsbBits ∧ s.prevLsb = a % 2 ^ pic.lsbBits) ∧
      Near (2 ^ pic.lsbBits) (if pic.isIdr then 0 else a) (pic.msb s + pic.lsb) := by
  have hpos : (0 : Int) < 2 ^ pic.lsbBits := by positivity
  cases hidr : pic.isIdr with
  | true =>
    have hno : pic.noRaslOutputFlag = true := by simp [TimedPicture.noRaslOutputFlag, hidr]
    refine ⟨0, ?_, ?_⟩
    · intro hno
      cases hno
    rw [TimedPicture.msb, if_pos hno, hordered.idrIsZero hidr]
    exact near_self hpos
  | false =>
    obtain ⟨a, hstate⟩ := hbehind hidr
    refine ⟨a, fun _ => hstate, ?_⟩
    simp only [Bool.false_eq_true, if_false]
    obtain ⟨-, hprevMsb, hprevLsb⟩ := hstate
    cases hno : pic.noRaslOutputFlag with
    | true =>
      have hnear := (hundisturbed hidr hno).2
      rw [hprevMsb, hprevLsb, sub_add_cancel] at hnear
      rw [TimedPicture.msb, if_pos hno, zero_add]
      exact hnear
    | false =>
      have hlsb : (pic.lsb : Int) < 2 ^ pic.lsbBits := by exact_mod_cast hordered.lsb
      obtain ⟨hmod, hrest⟩ := split_of_dvd (dvd_msb fun _ => hbehind hidr) (by positivity) hlsb
      refine (nextMsb_iff hpos).mp ?_
      rw [hrest, hmod, ← hprevMsb, ← hprevLsb, TimedPicture.msb, hno]
      rfl

theorem parsed_timed (hcodes : CodesTime pic out) (hwhole : Whole pic out)
    (hordered : pic.Ordered s) (hundisturbed : pic.Undisturbed s)
    (hbehind : pic.isIdr = false → BehindTime pic.lsbBits s (pocState out)) :
    (parsed pic.au out).poc = (pic.after s).poc ∧
      BehindTime pic.lsbBits (pic.after s) (pocState (parsed pic.au out)) := by
  obtain ⟨a, hstate, hnear⟩ := poc_near hordered hundisturbed hbehind
  have hidrNo : pic.isIdr = true → pic.noRaslOutputFlag = true := by
    intro hidr
    simp [TimedPicture.noRaslOutputFlag, hidr]
  have hlsb : (pic.lsb : Int) < 2 ^ pic.lsbBits := by exact_mod_cast hordered.lsb
  have hdvd : (2 : Int) ^ pic.lsbBits ∣ pic.msb s := by
    refine dvd_msb fun hno => hbehind ?_
    by_contra hyes
    rw [hidrNo (by simpa using hyes)] at hno
    cases hno
  obtain ⟨hmod, hrest⟩ := split_of_dvd hdvd (by positivity) hlsb
  let ordered : OrderedPicture := ⟨pic.au, pic.msb s + pic.lsb, pic.isIdr, pic.isPrevTid0⟩
  have hsent : CodesLsb pic.lsbBits ordered out := by
    refine ⟨hcodes.1, ?_, ?_⟩
    · intro o r hreads
      obtain ⟨htype, htid, hrange, hlsb⟩ := hcodes.2 o r hreads
      refine ⟨hrange, ?_, htid, ?_⟩
      · rw [htype]
        rfl
      · intro hdep
        rw [hlsb hdep]
        exact hmod.symm
    · intro hidr
      change pic.msb s + pic.lsb = 0
      rw [TimedPicture.msb, if_pos (hidrNo hidr), hordered.idrIsZero hidr]
      rfl
  have hundivided : Undivided pic.lsbBits ordered out := by
    refine hwhole.imp_left ?_
    intro hzero
    change (pic.msb s + pic.lsb) % 2 ^ pic.lsbBits = 0
    rw [hmod, hzero]
    rfl
  have hbits : pic.lsbBits ≤ 30 := by
    have hle := hordered.lsbBits
    omega
  obtain ⟨hpoc, hnext⟩ :=
    parsed_near (a := a) hbits hsent hundivided (fun hidr => (hstate hidr).1) hnear
    hordered.fits
  refine ⟨hpoc, _, hnext, ?_⟩
  cases htid : pic.isPrevTid0 with
  | true =>
    simp only [TimedPicture.after, OrderedPicture.next, ordered, htid, if_true]
    exact ⟨hrest.symm, hmod.symm⟩
  | false =>
    have hidr : pic.isIdr = false := by
      by_contra hyes
      rw [hordered.isPrevTid0 (hidrNo (by simpa using hyes))] at htid
      cases htid
    simp only [TimedPicture.after, OrderedPicture.next, OrderedPicture.from, ordered, htid, hidr,
      Bool.false_eq_true, if_false]
    exact (hstate hidr).2

theorem pocs_follow (hcodes : EachPicture nextTimed CodesTime pics out)
    (hwhole : EachPicture nextTimed Whole pics out)
    (hordered : EachPicture TimedPicture.after TimedPicture.Ordered pics s)
    (hundisturbed : EachPicture TimedPicture.after TimedPicture.Undisturbed pics s)
    (hbehind : ∀ k, (∀ t ∈ s.lsbBits, k = t) → BehindTime k s (pocState out)) :
    afterEach nextTimed ParseResult.poc pics out =
    afterEach TimedPicture.after TimedState.poc pics s := by
  induction pics generalizing s out with
  | nil => rfl
  | cons pic pics ih =>
    obtain ⟨hpic, hrest⟩ := hcodes
    obtain ⟨hpicWhole, hrestWhole⟩ := hwhole
    obtain ⟨hpicOrdered, hrestOrdered⟩ := hordered
    obtain ⟨hpicUndisturbed, hrestUndisturbed⟩ := hundisturbed
    have hstart : pic.isIdr = false → BehindTime pic.lsbBits s (pocState out) := by
      intro hidr
      refine hbehind _ ?_
      cases hno : pic.noRaslOutputFlag with
      | true => exact (hpicUndisturbed hidr hno).1
      | false => exact hpicOrdered.sameRange hno
    obtain ⟨hpoc, hnext⟩ := parsed_timed hpic hpicWhole hpicOrdered hpicUndisturbed hstart
    rw [afterEach, afterEach]
    refine congrArg₂ List.cons hpoc (ih hrest hrestWhole hrestOrdered hrestUndisturbed ?_)
    intro k hk
    rw [hk pic.lsbBits rfl]
    exact hnext

theorem behindTime_start (k : Nat) : BehindTime k {} (pocState {}) :=
  ⟨0, ⟨by simp [pocState], by simp [pocState]⟩, by simp, by simp⟩

end Steps

end H265

/-- In every run from the start of the session the order counts are those of the standard, when
wherever the order starts over without an IDR picture, counting on has the same result, and no
segment of an H.265 picture leaves LSBs out that are not 0. -/
theorem orders_start_over (avc : List H264.CountedPicture) (hevc : List H265.TimedPicture) :
    (EachPicture H264.nextCounted H264.CodesOrder avc {} →
      EachPicture H264.CountedPicture.after H264.CountedPicture.Ordered avc {} →
      EachPicture H264.CountedPicture.after H264.CountedPicture.Undisturbed avc {} →
      afterEach H264.nextCounted (fun o => o.decode.orders) avc {} =
        afterEach H264.CountedPicture.after H264.OrderState.orders avc {}) ∧
    (EachPicture H265.nextTimed H265.CodesTime hevc {} →
      EachPicture H265.TimedPicture.after H265.TimedPicture.Ordered hevc {} →
      EachPicture H265.TimedPicture.after H265.TimedPicture.Undisturbed hevc {} →
      EachPicture H265.nextTimed H265.Whole hevc {} →
      afterEach H265.nextTimed H265.ParseResult.poc hevc {} =
        afterEach H265.TimedPicture.after H265.TimedState.poc hevc {}) := by
  constructor
  · intro hcodes hordered hundisturbed
    exact H264.orders_follow hcodes hordered hundisturbed fun set _ => H264.behind_start set
  · intro hcodes hordered hundisturbed hwhole
    exact H265.pocs_follow hcodes hwhole hordered hundisturbed fun k _ => H265.behindTime_start k

section Streams

/-- A frame with POC type 0 and an LSB of four bits. -/
abbrev countedAs (isIdr : Bool) (frameNum lsb : Nat) (resets : Bool) (units : List (List Byte)) :
    H264.CountedPicture :=
  ⟨(framed units, 128),
    ⟨⟨0, 4, 4, 0, List.replicate 255 0, 0, 0⟩, .frame, isIdr, true, frameNum, lsb, 0, 0, 0⟩,
    resets⟩

abbrev avcIdr : H264.CountedPicture :=
  countedAs true 0 0 false (avcOrderSets ++ [[0x65, 0x88, 0x84, 0x08]])

/-- The order starts over after the picture of order count 2. -/
abbrev avcRestarted : List H264.CountedPicture :=
  [avcIdr, countedAs false 1 2 true [[0x61, 0x9a, 0x24, 0x4d, 0x80]],
    countedAs false 0 4 false [[0x61, 0x9a, 0x08, 0x20]]]

/-- It starts over after the one of order count 12. -/
abbrev avcShifted : List H264.CountedPicture :=
  [avcIdr, countedAs false 1 6 false [[0x61, 0x9a, 0x2c, 0x20]],
    countedAs false 2 12 true [[0x61, 0x9a, 0x58, 0x4d, 0x80]],
    countedAs false 0 2 false [[0x61, 0x9a, 0x04, 0x20]]]

abbrev timedAs (nalType lsb : Nat) (restarts : Bool) (units : List (List Byte)) :
    H265.TimedPicture :=
  ⟨(framed units, 128), nalType, 4, lsb, true, restarts⟩

abbrev hevcStart : H265.TimedPicture := timedAs 19 0 true (hevcSets ++ [[0x26, 0x01, 0xaf, 0x80]])

/-- A BLA picture of order count 6 after the one of order count 2. -/
abbrev hevcRestarted : List H265.TimedPicture :=
  [hevcStart, timedAs 1 2 false [firstSegment],
    timedAs 16 6 false [[0x20, 0x01, 0xad, 0x8b, 0xe0, 0x40]]]

/-- A flush after the picture of order count 12, and a CRA picture of order count 2. -/
abbrev hevcShifted : List H265.TimedPicture :=
  [hevcStart, timedAs 1 6 false [[0x02, 0x01, 0xdb, 0x17, 0xc0, 0x80]],
    timedAs 1 12 false [[0x02, 0x01, 0xde, 0x17, 0xc0, 0x80]],
    timedAs 21 2 true [[0x2a, 0x01, 0xac, 0x8b, 0xe0, 0x40]]]

theorem orders_start_over_undisturbed :
    afterEach H264.nextCounted (fun o => o.decode.orders) avcRestarted {} =
        [(some 0, some 0), (some 2, some 2), (some 4, some 4)] ∧
      afterEach H265.nextTimed H265.ParseResult.poc hevcRestarted {} = [0, 2, 6] := by
  constructor
  · exact (orders_start_over avcRestarted []).1 (by decide +kernel) (by decide +kernel)
      (by decide +kernel)
  · exact (orders_start_over [] hevcRestarted).2 (by decide +kernel) (by decide +kernel)
      (by decide +kernel)
      (by decide +kernel)

/-- Without a reset the code counts on to 18 where the standard has 2. -/
theorem orders_counted_on :
    (EachPicture H264.nextCounted H264.CodesOrder avcShifted {} ∧
      EachPicture H264.CountedPicture.after H264.CountedPicture.Ordered avcShifted {} ∧
      afterEach H264.CountedPicture.after H264.OrderState.orders avcShifted {} =
        [(some 0, some 0), (some 6, some 6), (some 12, some 12), (some 2, some 2)] ∧
      afterEach H264.nextCounted (fun o => o.decode.orders) avcShifted {} =
        [(some 0, some 0), (some 6, some 6), (some 12, some 12), (some 18, some 18)]) ∧
    EachPicture H265.nextTimed H265.CodesTime hevcShifted {} ∧
      EachPicture H265.TimedPicture.after H265.TimedPicture.Ordered hevcShifted {} ∧
      afterEach H265.TimedPicture.after H265.TimedState.poc hevcShifted {} = [0, 6, 12, 2] ∧
      afterEach H265.nextTimed H265.ParseResult.poc hevcShifted {} = [0, 6, 12, 18] := by
  refine ⟨⟨?_, ?_, ?_, ?_⟩, ?_, ?_, ?_, ?_⟩ <;> decide +kernel

end Streams

end Rkvdec.Bitstream
