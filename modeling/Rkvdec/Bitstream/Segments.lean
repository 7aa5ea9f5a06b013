import Rkvdec.Bitstream.MultiSlice
import Rkvdec.Bitstream.SegmentHeader

/-! H.265 pictures of several slice segments. Every segment overwrites what the one before it said
about the picture, and a dependent segment says nothing. -/
namespace Rkvdec.Bitstream

namespace H265

section PicOrderCnt

theorem i32_eq {x : Int} (hlo : -2 ^ 31 ≤ x) (hhi : x < 2 ^ 31) : i32 x = x := by
  simp only [i32, Int.bmod]
  omega

theorem i32_range (x : Int) : -2 ^ 31 ≤ i32 x ∧ i32 x < 2 ^ 31 := by
  simp only [i32, Int.bmod]
  omega

theorem i32_dvd (x : Int) : (2 ^ 32 : Int) ∣ i32 x - x := by
  simp only [i32, Int.bmod]
  omega

/-- The POC of a segment and the POC state after it. -/
def picOrder (sps : Sps) (isIdr anchor : Bool) (lsb : Nat) (p : Staged) : Int × Staged :=
  let poc := if isIdr then 0 else computePoc sps lsb p
  let p := if isIdr then ⟨0, 0⟩ else p
  (poc, if anchor then updateAnchor sps poc p else p)

/-- The segments after the first one; `true` stands for a dependent one, whose LSB is read as 0. -/
def picOrders (sps : Sps) (isIdr anchor : Bool) (lsb : Nat) (dependent : List Bool) (p : Staged) :
    Int × Staged :=
  dependent.foldl (fun q dep => picOrder sps isIdr anchor (if dep then 0 else lsb) q.2)
    (picOrder sps isIdr anchor lsb p)

/-- The POC state of a picture with this SPS, or of one that has the same LSB range. -/
def Anchored (sps : Sps) (p : Staged) : Prop :=
  maxLsb sps = 0 ∨ 0 < maxLsb sps ∧ maxLsb sps ∣ p.prevMsb

variable {sps : Sps} {m lsb : Int} {p : Staged} {L : Nat}

theorem maxLsb_pos (h : 0 < maxLsb sps) :
    maxLsb sps = 2 ^ (sps.log2MaxPicOrderCntLsbMinus4 + 4) ∧ maxLsb sps ∣ 2 ^ 31 ∧
      2 ∣ maxLsb sps := by
  simp only [maxLsb] at h ⊢
  by_cases hk : sps.log2MaxPicOrderCntLsbMinus4 + 4 ≤ 30
  · have hle : (2 : Int) ^ (sps.log2MaxPicOrderCntLsbMinus4 + 4) ≤ 2 ^ 30 :=
      pow_le_pow_right₀ (by decide) hk
    have hpos : (0 : Int) < 2 ^ (sps.log2MaxPicOrderCntLsbMinus4 + 4) := by positivity
    rw [i32_eq (by omega) (by omega)]
    exact ⟨rfl, pow_dvd_pow 2 (by omega), Dvd.intro _ (pow_succ' 2 _).symm⟩
  · exfalso
    by_cases hk' : sps.log2MaxPicOrderCntLsbMinus4 + 4 = 31
    · rw [hk'] at h
      exact absurd h (by decide)
    · obtain ⟨j, hj⟩ : ∃ j, sps.log2MaxPicOrderCntLsbMinus4 + 4 = 32 + j :=
        Nat.exists_eq_add_of_le (by omega)
      have hdvd := i32_dvd ((2 : Int) ^ (32 + j))
      have hrange := i32_range ((2 : Int) ^ (32 + j))
      rw [hj] at h
      rw [pow_add] at hdvd hrange h
      omega

theorem nonneg_of_dvd {d x : Int} (hdvd : d ∣ x) (hlo : -d < x) : 0 ≤ x := by
  by_contra hneg
  have hle : d ≤ -x := Int.le_of_dvd (by omega) (Int.dvd_neg.mpr hdvd)
  omega

/-- An MSB: a multiple of the LSB range that fits 32 bits. -/
structure Msb (sps : Sps) (m : Int) : Prop where
  lo : -2 ^ 31 ≤ m
  hi : m < 2 ^ 31
  dvd : maxLsb sps ∣ m

theorem Msb.add_lt (h : Msb sps m) (hM : 0 < maxLsb sps) (hlsb : lsb < maxLsb sps) :
    m + lsb < 2 ^ 31 := by
  have hlt := h.hi
  have hle : maxLsb sps ≤ 2 ^ 31 - m :=
    Int.le_of_dvd (by omega) (Int.dvd_sub (maxLsb_pos hM).2.1 h.dvd)
  omega

/-- Wrapping an MSB with an LSB wraps the MSB. -/
theorem i32_msb (hM : 0 < maxLsb sps) (hm : maxLsb sps ∣ m) (hlsb0 : 0 ≤ lsb)
    (hlsb : lsb < maxLsb sps) : Msb sps (i32 m) ∧ i32 (m + lsb) = i32 m + lsb := by
  have hdvd := (maxLsb_pos hM).2.1
  have hdvd32 : maxLsb sps ∣ 2 ^ 32 := hdvd.trans (Dvd.intro 2 rfl)
  have hmsb : Msb sps (i32 m) := by
    refine ⟨(i32_range m).1, (i32_range m).2, ?_⟩
    have hsum := Int.dvd_add (hdvd32.trans (i32_dvd m)) hm
    rwa [Int.sub_add_cancel] at hsum
  refine ⟨hmsb, ?_⟩
  have hroom := hmsb.add_lt hM hlsb
  have hlo := hmsb.lo
  have hsum := i32_dvd (m + lsb)
  have hpart := i32_dvd m
  have hrange := i32_range (m + lsb)
  omega

theorem updateAnchor_msb (hM : 0 < maxLsb sps) (h : Msb sps m) (hlsb0 : 0 ≤ lsb)
    (hlsb : lsb < maxLsb sps) : updateAnchor sps (m + lsb) p = ⟨m, lsb⟩ := by
  have hmod : (m + lsb) % maxLsb sps = lsb := by
    obtain ⟨q, hq⟩ := h.dvd
    rw [hq, Int.add_comm, Int.add_mul_emod_self_left, Int.emod_eq_of_lt hlsb0 hlsb]
  have hhalf : maxLsb sps ≤ 2 ^ 31 := Int.le_of_dvd (by decide) (maxLsb_pos hM).2.1
  have hroom := h.add_lt hM hlsb
  have hlo := h.lo
  -- the remainder in C has the sign of the POC
  have htmod : (m + lsb).tmod (maxLsb sps) = lsb ∨
      (m + lsb).tmod (maxLsb sps) = lsb - maxLsb sps ∧ 0 < lsb := by
    rw [Int.tmod_eq_emod, hmod]
    split_ifs with hsign
    · exact .inl (Int.sub_zero _)
    · refine .inr ⟨by omega, ?_⟩
      have hne : lsb ≠ 0 := by
        rintro rfl
        exact hsign (.inr (by simpa using h.dvd))
      omega
  have hlsb' : (if (m + lsb).tmod (maxLsb sps) < 0 then
      i32 ((m + lsb).tmod (maxLsb sps) + maxLsb sps) else (m + lsb).tmod (maxLsb sps)) = lsb := by
    rcases htmod with ht | ⟨ht, hpos⟩
    · rw [ht, if_neg (by omega)]
    · rw [ht, if_pos (by omega), Int.sub_add_cancel]
      exact i32_eq (by omega) (by omega)
  simp only [updateAnchor, if_neg hM.ne', hlsb']
  rw [Int.add_sub_cancel, i32_eq h.lo h.hi]

/-- The MSB a dependent segment adds: its LSB of 0 looks like a wrap if the picture's own one is in
the upper half. -/
def carry (sps : Sps) (lsb : Int) : Int := if maxLsb sps ≤ 2 * lsb then maxLsb sps else 0

/-- The POC and the anchor after a segment: behind an independent one those of the picture, with the
MSB `m`. -/
def settled (sps : Sps) (lsb : Int) (dependent : Bool) (m : Int) : Int × Staged :=
  if dependent then (i32 (m + carry sps lsb), ⟨i32 (m + carry sps lsb), 0⟩) else (m + lsb, ⟨m, lsb⟩)

/-- The MSB after an independent segment that follows a dependent one. If the LSB is just half of
its range, the wrap is not taken back. -/
def resume (sps : Sps) (lsb m : Int) : Int :=
  if maxLsb sps = 2 * lsb then i32 (m + maxLsb sps) else m

theorem carry_dvd : maxLsb sps ∣ carry sps lsb := by
  unfold carry
  split_ifs
  · exact Int.dvd_refl _
  · exact Int.dvd_zero _

theorem Msb.carry (h : Msb sps m) (hM : 0 < maxLsb sps) : Msb sps (i32 (m + carry sps lsb)) :=
  (i32_msb hM (Int.dvd_add h.dvd carry_dvd) Int.le_rfl hM).1

theorem Msb.resume (h : Msb sps m) (hM : 0 < maxLsb sps) : Msb sps (resume sps lsb m) := by
  unfold H265.resume
  split_ifs
  · exact (i32_msb hM (Int.dvd_add h.dvd (Int.dvd_refl _)) Int.le_rfl hM).1
  · exact h

/-- How often an independent segment follows a dependent one. -/
def resumes : Bool → List Bool → Nat
  | _, [] => 0
  | last, dep :: rest => resumes dep rest + if last && !dep then 1 else 0

section Anchored

variable (hM : 0 < maxLsb sps) (hfits : (L : Int) < maxLsb sps)

include hM hfits

/-- The first segment. -/
theorem picOrder_first (hp : maxLsb sps ∣ p.prevMsb) :
    ∃ m, Msb sps m ∧ picOrder sps false true L p = settled sps L false m := by
  have hmsb (m : Int) (hm : maxLsb sps ∣ m) (hpoc : computePoc sps L p = i32 (m + L)) :
      ∃ m, Msb sps m ∧ picOrder sps false true L p = settled sps L false m := by
    obtain ⟨hbase, hsum⟩ := i32_msb hM hm (Int.natCast_nonneg L) hfits
    refine ⟨i32 m, hbase, ?_⟩
    simp only [picOrder, settled, Bool.false_eq_true, if_false, if_true, hpoc, hsum]
    rw [updateAnchor_msb hM hbase (Int.natCast_nonneg L) hfits]
  have hwrap (m : Int) (hm : maxLsb sps ∣ m) : maxLsb sps ∣ i32 m :=
    (i32_msb hM hm Int.le_rfl hM).1.dvd
  unfold computePoc at hmsb
  dsimp only at hmsb
  by_cases hup : (L : Int) < p.prevLsb ∧ (maxLsb sps).tdiv 2 ≤ i32 (p.prevLsb - L)
  · exact hmsb _ (hwrap _ (Int.dvd_add hp (Int.dvd_refl _))) (by rw [if_pos hup])
  · by_cases hdown : p.prevLsb < (L : Int) ∧ (maxLsb sps).tdiv 2 < i32 (L - p.prevLsb)
    · exact hmsb _ (hwrap _ (Int.dvd_sub hp (Int.dvd_refl _))) (by rw [if_neg hup, if_pos hdown])
    · exact hmsb _ hp (by rw [if_neg hup, if_neg hdown])

theorem computePoc_again (h : Msb sps m) : computePoc sps L ⟨m, L⟩ = m + L := by
  have hlo := h.lo
  have hsum : i32 (m + L) = m + L := i32_eq (by omega) (h.add_lt hM hfits)
  simp only [computePoc, lt_irrefl, false_and, if_false, hsum]

omit hM hfits in
theorem computePoc_dependent_again (h : Msb sps m) : computePoc sps 0 ⟨m, 0⟩ = m := by
  simp only [computePoc, lt_irrefl, false_and, if_false, Int.add_zero, i32_eq h.lo h.hi]

theorem computePoc_dependent :
    computePoc sps 0 ⟨m, L⟩ = i32 (m + carry sps L) := by
  obtain ⟨-, hdvd31, heven⟩ := maxLsb_pos hM
  have hle31 : maxLsb sps ≤ 2 ^ 31 := Int.le_of_dvd (by decide) hdvd31
  have hhalf : (maxLsb sps).tdiv 2 = maxLsb sps / 2 := Int.tdiv_eq_ediv_of_nonneg hM.le
  have hL : i32 (L : Int) = L := i32_eq (by omega) (by omega)
  have hnot : ¬ (L : Int) < 0 := by omega
  simp only [computePoc, Int.sub_zero, hL, hhalf, carry, hnot, false_and, if_false, Int.add_zero]
  by_cases hup : maxLsb sps ≤ 2 * (L : Int)
  · rw [if_pos ⟨by omega, by omega⟩, if_pos hup]
    have hrange := i32_range (m + maxLsb sps)
    exact i32_eq hrange.1 hrange.2
  · rw [if_neg (by omega), if_neg hup, Int.add_zero]

/-- An independent segment behind dependent ones. -/
theorem computePoc_resume (h : Msb sps m) :
    computePoc sps L ⟨i32 (m + carry sps L), 0⟩ = resume sps L m + L := by
  obtain ⟨-, hdvd31, heven⟩ := maxLsb_pos hM
  have hle31 : maxLsb sps ≤ 2 ^ 31 := Int.le_of_dvd (by decide) hdvd31
  have hhalf : (maxLsb sps).tdiv 2 = maxLsb sps / 2 := Int.tdiv_eq_ediv_of_nonneg hM.le
  have hL : i32 (L : Int) = L := i32_eq (by omega) (by omega)
  have hsum {n : Int} (hn : Msb sps n) : i32 (n + L) = n + L :=
    i32_eq (by have := hn.lo; omega) (hn.add_lt hM hfits)
  have hnot : ¬ (L : Int) < 0 := by omega
  simp only [computePoc, Int.sub_zero, hL, hhalf, hnot, false_and, if_false]
  rcases lt_trichotomy (2 * (L : Int)) (maxLsb sps) with hlow | hmid | hhigh
  · -- no wrap was seen
    have hcarry : carry sps L = 0 := if_neg (by omega)
    have hresume : resume sps L m = m := if_neg (by omega)
    rw [if_neg (by omega), hcarry, hresume, Int.add_zero, i32_eq h.lo h.hi, hsum h]
  · -- a wrap was seen, and the way back is not far enough for another one
    have hcarry : carry sps L = maxLsb sps := if_pos (by omega)
    have hresume : resume sps L m = i32 (m + maxLsb sps) := if_pos hmid.symm
    have hmsb : Msb sps (i32 (m + maxLsb sps)) := hcarry ▸ h.carry hM
    rw [if_neg (by omega), hcarry, hresume, hsum hmsb]
  · have hcarry : carry sps L = maxLsb sps := if_pos (by omega)
    have hresume : resume sps L m = m := if_neg (by omega)
    have hback : i32 (i32 (m + maxLsb sps) - maxLsb sps) = m := by
      have hwrap := i32_dvd (m + maxLsb sps)
      have hwrap' := i32_dvd (i32 (m + maxLsb sps) - maxLsb sps)
      have hrange := i32_range (i32 (m + maxLsb sps) - maxLsb sps)
      have hlo := h.lo
      have hhi := h.hi
      omega
    rw [if_pos (by omega), hcarry, hresume, hback, hsum h]

/-- A later segment. -/
theorem picOrder_next (h : Msb sps m) (last dep : Bool) :
    picOrder sps false true (if dep then 0 else L) (settled sps L last m).2 =
      settled sps L dep (if last && !dep then resume sps L m else m) := by
  have hL := Int.natCast_nonneg L
  have hanchor {n : Int} (hn : Msb sps n) (p : Staged) : updateAnchor sps n p = ⟨n, 0⟩ := by
    have hzero := updateAnchor_msb (p := p) hM hn Int.le_rfl hM
    rwa [Int.add_zero] at hzero
  cases dep with
  | true =>
    have hpoc : computePoc sps (0 : Nat) (settled sps L last m).2 = i32 (m + carry sps L) := by
      cases last with
      | true => exact computePoc_dependent_again (h.carry hM)
      | false => exact computePoc_dependent hM hfits
    simp only [picOrder, Bool.not_true, Bool.and_false, Bool.false_eq_true, if_false, if_true, hpoc,
      hanchor (h.carry hM)]
    rfl
  | false =>
    have hpoc : computePoc sps L (settled sps L last m).2 =
        (if last then resume sps L m else m) + L := by
      cases last with
      | true =>
        rw [if_pos rfl]
        exact computePoc_resume hM hfits h
      | false =>
        rw [if_neg Bool.false_ne_true]
        exact computePoc_again hM hfits h
    have hmsb : Msb sps (if last then resume sps L m else m) := by
      split_ifs
      · exact h.resume hM
      · exact h
    simp only [picOrder, Bool.not_false, Bool.and_true, Bool.false_eq_true, if_false, if_true, hpoc]
    rw [updateAnchor_msb hM hmsb hL hfits]
    rfl

/-- The segments that follow one, dependent or not. -/
theorem picOrders_settled (dependent : List Bool) (h : Msb sps m) (last : Bool) :
    dependent.foldl (fun q dep => picOrder sps false true (if dep then 0 else L) q.2)
        (settled sps L last m) =
      settled sps L (dependent.getLastD last) ((resume sps L)^[resumes last dependent] m) := by
  induction dependent generalizing last m with
  | nil => rfl
  | cons dep rest ih =>
    rw [List.foldl_cons, picOrder_next hM hfits h, List.getLastD_cons, resumes]
    cases hresume : last && !dep with
    | false =>
      simp only [Bool.false_eq_true, if_false]
      exact ih h dep
    | true =>
      simp only [if_true]
      rw [ih (h.resume hM) dep, Function.iterate_succ_apply]

omit hfits in
theorem resume_iterate (h : Msb sps m) (hmid : maxLsb sps = 2 * (L : Int)) (n : Nat) :
    (resume sps L)^[n] m = i32 (m + maxLsb sps * n) := by
  induction n generalizing m with
  | zero =>
    have hwhole : m + maxLsb sps * (0 : Nat) = m := by simp
    rw [hwhole, i32_eq h.lo h.hi]
    rfl
  | succ n ih =>
    have hresume : resume sps L m = i32 (m + maxLsb sps) := if_pos hmid
    rw [Function.iterate_succ_apply, ih (h.resume hM), hresume]
    have hmul : m + maxLsb sps * (n + 1 : Nat) = m + maxLsb sps + maxLsb sps * n := by
      push_cast
      ring
    rw [hmul]
    exact Int.bmod_add_bmod

omit hfits in
/-- The segments leave the MSB iff it does not drift, or drifts all the way round. -/
theorem resume_iterate_iff (h : Msb sps m) (n : Nat) :
    (resume sps L)^[n] m = m ↔ maxLsb sps ≠ 2 * (L : Int) ∨ 2 ^ 32 ∣ maxLsb sps * n := by
  by_cases hmid : maxLsb sps = 2 * (L : Int)
  · rw [resume_iterate hM h hmid]
    have hwrap := i32_dvd (m + maxLsb sps * n)
    have hlo := h.lo
    have hhi := h.hi
    have hrange := i32_range (m + maxLsb sps * n)
    constructor
    · intro hsame
      right
      omega
    · rintro (hno | hround)
      · exact absurd hmid hno
      · omega
  · have hid : resume sps (L : Int) = id := funext fun m => if_neg hmid
    rw [hid, Function.iterate_id]
    exact iff_of_true rfl (.inl hmid)

/-- An anchor picture keeps its POC over its segments iff the last one is independent and the MSB
does not drift, or the LSB is 0. -/
theorem picOrders_iff (hp : maxLsb sps ∣ p.prevMsb) (dependent : List Bool) :
    picOrders sps false true L dependent p = picOrder sps false true L p ↔
      L = 0 ∨ dependent.getLastD false = false ∧
        (maxLsb sps ≠ 2 * (L : Int) ∨ 2 ^ 32 ∣ maxLsb sps * resumes false dependent) := by
  obtain ⟨m, hm, hfirst⟩ := picOrder_first hM hfits hp
  have hstill (hzero : L = 0) : (resume sps L)^[resumes false dependent] m = m := by
    subst hzero
    exact (resume_iterate_iff hM hm _).mpr (.inl (by simpa using hM.ne'))
  rw [picOrders, hfirst, picOrders_settled hM hfits dependent hm, ← resume_iterate_iff hM hm]
  cases hlast : dependent.getLastD false with
  | false =>
    simp only [settled, Bool.false_eq_true, if_false, true_and, Prod.mk.injEq, Staged.mk.injEq]
    constructor
    · rintro ⟨-, hmsb, -⟩
      exact .inr hmsb
    · rintro (hzero | hmsb)
      · simp only [hstill hzero, and_self]
      · simp only [hmsb, and_self]
  | true =>
    simp only [settled, Bool.false_eq_true, if_false, if_true, Prod.mk.injEq, Staged.mk.injEq,
      Bool.true_eq_false, false_and, or_false]
    constructor
    · rintro ⟨-, -, hlsb⟩
      omega
    · intro hzero
      have hcarry : carry sps (L : Int) = 0 := if_neg (by omega)
      rw [hstill hzero, hcarry, Int.add_zero, i32_eq hm.lo hm.hi, hzero]
      simp

end Anchored

/-- The POC is the sum of the old MSB and the LSB, up to the wraps. -/
theorem computePoc_mod {d : Int} (hmax : d ∣ maxLsb sps) (hwrap : d ∣ 2 ^ 32) (lsb : Int) :
    d ∣ computePoc sps lsb p - (p.prevMsb + lsb) := by
  have hi32 (x : Int) : d ∣ i32 x - x := hwrap.trans (i32_dvd x)
  have hsum (msb : Int) (h : d ∣ msb - p.prevMsb) : d ∣ i32 (msb + lsb) - (p.prevMsb + lsb) := by
    have heq : i32 (msb + lsb) - (p.prevMsb + lsb) =
        (i32 (msb + lsb) - (msb + lsb)) + (msb - p.prevMsb) := by ring
    rw [heq]
    exact Int.dvd_add (hi32 _) h
  simp only [computePoc]
  refine hsum _ ?_
  split_ifs
  · have heq : i32 (p.prevMsb + maxLsb sps) - p.prevMsb =
        (i32 (p.prevMsb + maxLsb sps) - (p.prevMsb + maxLsb sps)) + maxLsb sps := by ring
    rw [heq]
    exact Int.dvd_add (hi32 _) hmax
  · have heq : i32 (p.prevMsb - maxLsb sps) - p.prevMsb =
        (i32 (p.prevMsb - maxLsb sps) - (p.prevMsb - maxLsb sps)) - maxLsb sps := by ring
    rw [heq]
    exact Int.dvd_sub (hi32 _) hmax
  · simp

/-- An LSB that fits tells the POC apart from that of an LSB of 0. -/
theorem computePoc_zero_iff (hfits : L < 2 ^ (sps.log2MaxPicOrderCntLsbMinus4 + 4))
    (hfits16 : L < 2 ^ 16) : computePoc sps 0 p = computePoc sps L p ↔ L = 0 := by
  constructor
  · intro hsame
    -- the range that both bounds leave
    let j := min (sps.log2MaxPicOrderCntLsbMinus4 + 4) 16
    have hwrap : (2 : Int) ^ j ∣ 2 ^ 32 := pow_dvd_pow 2 (by omega)
    have hmax : (2 : Int) ^ j ∣ maxLsb sps := by
      have hsum := Int.dvd_add (hwrap.trans (i32_dvd (2 ^ (sps.log2MaxPicOrderCntLsbMinus4 + 4))))
        (pow_dvd_pow (2 : Int) (min_le_left (sps.log2MaxPicOrderCntLsbMinus4 + 4) 16))
      rwa [Int.sub_add_cancel] at hsum
    have hlt : L < 2 ^ j := by
      rcases min_choice (sps.log2MaxPicOrderCntLsbMinus4 + 4) 16 with h | h <;>
        simp only [j, h] <;> assumption
    have hzero := computePoc_mod (p := p) hmax hwrap 0
    have hlsb := computePoc_mod (p := p) hmax hwrap L
    rw [hsame] at hzero
    have hdvd := Int.dvd_sub hzero hlsb
    have heq : computePoc sps L p - (p.prevMsb + 0) - (computePoc sps L p - (p.prevMsb + L)) =
        (L : Int) := by ring
    rw [heq] at hdvd
    have hnat : 2 ^ j ∣ L := by exact_mod_cast hdvd
    exact Nat.eq_zero_of_dvd_of_lt hnat hlt
  · rintro rfl
    rfl

theorem picOrder_still {anchor : Bool} (h : anchor = false ∨ maxLsb sps = 0) (lsb : Nat) :
    picOrder sps false anchor lsb p = (computePoc sps lsb p, p) := by
  rcases h with h | h
  · simp only [picOrder, h, Bool.false_eq_true, if_false]
  · simp only [picOrder, updateAnchor, h, Bool.false_eq_true, if_true, if_false, ite_self]

/-- Without an anchor every segment starts from the same state. -/
theorem picOrders_still {anchor : Bool} (h : anchor = false ∨ maxLsb sps = 0)
    (dependent : List Bool) (last : Bool) (q : Int × Staged)
    (hq : q = (computePoc sps ((if last then 0 else L : Nat) : Int) p, p)) :
    dependent.foldl (fun q dep => picOrder sps false anchor (if dep then 0 else L) q.2) q =
      (computePoc sps ((if dependent.getLastD last then 0 else L : Nat) : Int) p, p) := by
  induction dependent generalizing last q with
  | nil => exact hq
  | cons dep rest ih =>
    rw [List.foldl_cons, List.getLastD_cons, hq]
    exact ih dep _ (picOrder_still h _)

theorem picOrder_idr (anchor : Bool) (lsb : Nat) :
    picOrder sps true anchor lsb p = (0, ⟨0, 0⟩) := by
  have hanchor : updateAnchor sps 0 ⟨0, 0⟩ = ⟨0, 0⟩ := by
    have hzero : i32 (0 - 0) = 0 := rfl
    simp only [updateAnchor, Int.zero_tmod, lt_irrefl, if_false, hzero, ite_self]
  simp only [picOrder, if_true, hanchor, ite_self]

theorem picOrders_idr (anchor : Bool) (dependent : List Bool) :
    picOrders sps true anchor L dependent p = picOrder sps true anchor L p := by
  simp only [picOrders, picOrder_idr]
  induction dependent with
  | nil => rfl
  | cons dep rest ih => exact ih

/-- When the segments of a picture leave the POC and the POC state of the first one. -/
theorem picOrders_eq_iff {isIdr anchor : Bool}
    (hfits : L < 2 ^ (sps.log2MaxPicOrderCntLsbMinus4 + 4)) (hfits16 : L < 2 ^ 16)
    (h : isIdr = true ∨ anchor = false ∨ Anchored sps p) (dependent : List Bool) :
    picOrders sps isIdr anchor L dependent p = picOrder sps isIdr anchor L p ↔
      isIdr = true ∨ L = 0 ∨ dependent.getLastD false = false ∧ (anchor = false ∨
        maxLsb sps ≠ 2 * (L : Int) ∨ 2 ^ 32 ∣ maxLsb sps * resumes false dependent) := by
  cases isIdr with
  | true => exact iff_of_true (picOrders_idr anchor dependent) (.inl rfl)
  | false =>
    simp only [Bool.false_eq_true, false_or] at h ⊢
    by_cases hM : anchor = true ∧ 0 < maxLsb sps
    · obtain ⟨rfl, hM⟩ := hM
      have hp : maxLsb sps ∣ p.prevMsb := by
        rcases h with h | h | h
        · cases h
        · omega
        · exact h.2
      have hL : (L : Int) < maxLsb sps := by
        rw [(maxLsb_pos hM).1]
        exact_mod_cast hfits
      simp only [picOrders_iff hM hL hp dependent, Bool.true_eq_false, false_or]
    · have hstay : anchor = false ∨ maxLsb sps = 0 := by
        rcases h with h | h | h
        · exact .inl h
        · exact .inr h
        · exact .inl (by simpa using fun ha => hM ⟨ha, h.1⟩)
      have hround : anchor = false ∨ maxLsb sps ≠ 2 * (L : Int) ∨
          2 ^ 32 ∣ maxLsb sps * resumes false dependent := by
        rcases hstay with h | h
        · exact .inl h
        · refine .inr (.inr ?_)
          rw [h, Int.zero_mul]
          exact Int.dvd_zero _
      have hrun :=
        picOrders_still (p := p) (L := L) hstay dependent false (computePoc sps L p, p) rfl
      rw [picOrders, picOrder_still hstay, hrun]
      simp only [hround, and_true, Prod.mk.injEq]
      cases hlast : dependent.getLastD false with
      | false => simp
      | true => simpa using computePoc_zero_iff hfits hfits16

end PicOrderCnt

section Segments

variable {s s₀ : Au} {r₁ r : List Byte}

def temporalIdP1 (rbsp : List Byte) : Nat :=
  ((rbsp.getD 0 0).toNat * 2 ^ 8 + (rbsp.getD 1 0).toNat) % 2 ^ 3

def IsSegment (rbsp : List Byte) : Prop := nalType rbsp ∈ sliceNalTypes

/-- The pictures that the POCs of the following ones are counted from. -/
def isAnchor (rbsp : List Byte) : Bool := temporalIdP1 rbsp = 1 ∧ nalType rbsp ∉ noAnchorTypes

/-- The header of a segment, parsed into the result `o`. -/
@[irreducible] def headerRun (o : ParseResult) (rbsp : List Byte) :
    (Except ParseError Unit × ParseResult) × BitReader :=
  exec (parseSliceHeader (nalType rbsp)) o (.init (rbsp.drop 2))

theorem headerRun_eq (o : ParseResult) (rbsp : List Byte) :
    headerRun o rbsp = exec (parseSliceHeader (nalType rbsp)) o (.init (rbsp.drop 2)) := by
  delta headerRun
  rfl

/-- The result struct after the header of a segment that is the first one. -/
def coded (o : ParseResult) (rbsp : List Byte) : ParseResult := (headerRun o rbsp).1.2

def activeSps (o : ParseResult) : Sps := o.sps.getD o.activeSpsId.toNat {}

/-- Two segments of one picture: a dependent one leaves out what the first one says about it. -/
structure SamePicture (o : ParseResult) (r₁ r : List Byte) : Prop where
  segment : IsSegment r
  type : nalType r = nalType r₁
  temporalId : temporalIdP1 r = temporalIdP1 r₁
  sps : (coded o r).activeSpsId = (coded o r₁).activeSpsId
  picture : dependentView (coded o r) = 0 → pictureView (coded o r) = pictureView (coded o r₁)

theorem finishSlice_result {o : ParseResult} {p : Staged} {headerBits : Nat} {payload : List Byte}
    (hs : s.result = (o, p)) (hid : 0 ≤ o.activeSpsId) :
    (finishSlice s (nalType r) (temporalIdP1 r) payload headerBits).result.2 =
      (picOrder (activeSps o) o.isIdr (isAnchor r) o.slice.slicePicOrderCntLsb p).2 ∧
    ∃ sliceData, (finishSlice s (nalType r) (temporalIdP1 r) payload headerBits).result.1 = { o with
      hasSlice := true
      sliceNalUnitType := nalType r
      nalRefFlag := nalType r ∉ subLayerNonRefTypes
      poc := (picOrder (activeSps o) o.isIdr (isAnchor r) o.slice.slicePicOrderCntLsb p).1
      sliceData := sliceData } := by
  simp only [finishSlice, hs, picOrder, activeSps, isAnchor, hid, and_true, decide_eq_true_eq]
  by_cases hdata : payload.length < (headerBits + 7) / 8
  · simp only [hdata, if_true, true_and]
    exact ⟨_, rfl⟩
  · simp only [hdata, if_false, true_and]
    exact ⟨_, rfl⟩

/-- The header of a segment in two results with the same parameter sets, if the second accepts
it. -/
theorem header_alike {o o' : ParseResult} (hpps : o'.pps = o.pps) (hsps : o'.sps = o.sps)
    (hok : (headerRun o' r).1.1 = .ok ()) :
    ∃ first slice spsId,
      coded o r = { activate (nalType r) first spsId o with slice := slice } ∧
      coded o' r = { activate (nalType r) first spsId o' with slice := slice } ∧
      ∀ a : ParseResult, Says (nalType r) (o.sps.getD spsId {}) { a with slice := slice } := by
  simp only [coded, headerRun_eq] at hok ⊢
  rcases exec_parseSliceHeader (nalType r) o.pps o.sps (.init (r.drop 2)) with
    herror | ⟨first, slice, br', spsId, hrun, hsaid⟩
  · obtain ⟨e, he⟩ := herror o' hpps hsps
    rw [he] at hok
    cases hok
  · refine ⟨first, slice, spsId, ?_, ?_, hsaid⟩
    · rw [hrun o rfl rfl]
    · rw [hrun o' hpps hsps]

/-- The switch runs the header of a segment. -/
theorem visit_eq (hsegment : IsSegment r) : ∃ headerBits, visit s r =
    if (s.parse ⟨.slice, parseSliceHeader (nalType r), s.result.1, .init (r.drop 2)⟩).status.isSome
    then s.parse ⟨.slice, parseSliceHeader (nalType r), s.result.1, .init (r.drop 2)⟩
    else finishSlice (s.parse ⟨.slice, parseSliceHeader (nalType r), s.result.1, .init (r.drop 2)⟩)
      (nalType r) (temporalIdP1 r) (r.drop 2) headerBits := by
  have hmem : nalType r ∈ sliceNalTypes := hsegment
  have hset : nalType r ≠ nalVps ∧ nalType r ≠ nalSps ∧ nalType r ≠ nalPps := by
    simp only [sliceNalTypes, List.mem_cons, List.not_mem_nil, or_false] at hmem
    simp only [nalVps, nalSps, nalPps]
    omega
  simp only [nalType] at hmem hset
  simp only [visit, if_neg hset.1, if_neg hset.2.1, if_neg hset.2.2, if_pos hmem]
  exact ⟨_, rfl⟩

/-- What the switch does with a segment that it does not reject. -/
theorem visit_segment (hsegment : IsSegment r) (hok : (visit s r).status = none) :
    (headerRun s.result.1 r).1.1 = .ok () ∧
    (0 ≤ (coded s.result.1 r).activeSpsId →
      (visit s r).result.2 = (picOrder (activeSps (coded s.result.1 r)) (coded s.result.1 r).isIdr
        (isAnchor r) (coded s.result.1 r).slice.slicePicOrderCntLsb s.result.2).2 ∧
      ∃ sliceData, (visit s r).result.1 = { coded s.result.1 r with
        hasSlice := true
        sliceNalUnitType := nalType r
        nalRefFlag := nalType r ∉ subLayerNonRefTypes
        poc := (picOrder (activeSps (coded s.result.1 r)) (coded s.result.1 r).isIdr
          (isAnchor r) (coded s.result.1 r).slice.slicePicOrderCntLsb s.result.2).1
        sliceData := sliceData }) := by
  have hresult : (s.parse ⟨.slice, parseSliceHeader (nalType r), s.result.1,
      .init (r.drop 2)⟩).result = (coded s.result.1 r, s.result.2) := by
    simp only [AuState.parse_result, coded, headerRun_eq]
  obtain ⟨headerBits, hvisit⟩ := visit_eq (s := s) hsegment
  rw [hvisit] at hok ⊢
  cases hres : (headerRun s.result.1 r).1.1 with
  | error e =>
    have hstatus : (s.parse ⟨.slice, parseSliceHeader (nalType r), s.result.1,
        .init (r.drop 2)⟩).status = some e := AuState.parse_error (headerRun_eq _ r ▸ hres)
    simp only [hstatus, Option.isSome_some, if_true] at hok
    cases hok
  | ok u =>
    have hstatus : (s.parse ⟨.slice, parseSliceHeader (nalType r), s.result.1,
        .init (r.drop 2)⟩).status = none := AuState.parse_ok (headerRun_eq _ r ▸ hres)
    simp only [hstatus, Option.isSome_none, Bool.false_eq_true, if_false]
    exact ⟨trivial, fun hid => finishSlice_result hresult hid⟩

/-- A result with what the segments of another one left. -/
def refill (o a : ParseResult) : ParseResult :=
  { o with
    slice := a.slice
    isIdr := a.isIdr
    isIrap := a.isIrap
    activeSpsId := a.activeSpsId
    activePpsId := a.activePpsId
    hasSlice := a.hasSlice
    sliceNalUnitType := a.sliceNalUnitType
    nalRefFlag := a.nalRefFlag
    poc := a.poc
    sliceData := a.sliceData }

/-- After the segments of a picture, of which `r₁` is the first and `dependent` tells the others:
only the last one says something about the picture, and the POCs are those of the one segment after
the other. -/
structure AfterSegments (s₀ : Au) (r₁ : List Byte) (dependent : List Bool) (s : Au) : Prop where
  said : Says (nalType r₁) (activeSps (coded s₀.result.1 r₁)) (coded s₀.result.1 r₁)
  sets : s.result.1 = refill s₀.result.1 s.result.1
  isIdr : s.result.1.isIdr = isIdrType (nalType r₁)
  activeSpsId : s.result.1.activeSpsId = (coded s₀.result.1 r₁).activeSpsId
  nalRefFlag : s.result.1.nalRefFlag = decide (nalType r₁ ∉ subLayerNonRefTypes)
  hasSlice : s.result.1.hasSlice = true
  picture : pictureView s.result.1 = if dependent.getLastD false then SliceHeader.picture {}
    else pictureView (coded s₀.result.1 r₁)
  order : (s.result.1.poc, s.result.2) = picOrders (activeSps (coded s₀.result.1 r₁))
    (isIdrType (nalType r₁)) (isAnchor r₁)
      (coded s₀.result.1 r₁).slice.slicePicOrderCntLsb dependent
    s₀.result.2

/-- The sets a header is parsed with stay as they are. -/
theorem coded_sps (o : ParseResult) (r : List Byte) : (coded o r).sps = o.sps := by
  have hkeeps := keeps_parseSliceHeader (nalType r) o (.init (r.drop 2))
  rw [← headerRun_eq] at hkeeps
  have hsps : (sansSlice (headerRun o r).1.2).sps = (sansSlice o).sps := by rw [hkeeps]
  exact hsps

/-- What an accepted segment says, against the first one. -/
theorem coded_segment {o : ParseResult} (hsegment : IsSegment r)
    (hok : (visit s r).status = none) (hpps : s.result.1.pps = o.pps)
    (hsps : s.result.1.sps = o.sps) :
    0 ≤ (coded o r).activeSpsId ∧ coded s.result.1 r = { s.result.1 with
      slice := (coded o r).slice
      isIdr := isIdrType (nalType r)
      isIrap := (coded o r).isIrap
      activeSpsId := (coded o r).activeSpsId
      activePpsId := (coded o r).activePpsId } ∧
    Says (nalType r) (activeSps (coded o r)) (coded o r) := by
  obtain ⟨first, slice, spsId, ho, hs, hsaid⟩ :=
    header_alike hpps hsps (visit_segment hsegment hok).1
  refine ⟨?_, ?_, ?_⟩
  · rw [ho]
    exact Int.natCast_nonneg spsId
  · rw [ho, hs]
    rfl
  · have hself := hsaid (activate (nalType r) first spsId o)
    rw [ho]
    exact hself

/-- The result after an accepted segment, in terms of the header parsed into `o`. -/
theorem visit_after {o : ParseResult} (hsegment : IsSegment r) (hok : (visit s r).status = none)
    (hsets : s.result.1 = refill o s.result.1) :
    (visit s r).result.1 = refill o (visit s r).result.1 ∧
    (visit s r).result.1.isIdr = isIdrType (nalType r) ∧
    (visit s r).result.1.activeSpsId = (coded o r).activeSpsId ∧
    (visit s r).result.1.nalRefFlag = decide (nalType r ∉ subLayerNonRefTypes) ∧
    (visit s r).result.1.hasSlice = true ∧
    pictureView (visit s r).result.1 = pictureView (coded o r) ∧
    ((visit s r).result.1.poc, (visit s r).result.2) = picOrder (activeSps (coded o r))
      (isIdrType (nalType r)) (isAnchor r) (coded o r).slice.slicePicOrderCntLsb s.result.2 := by
  have hpps : s.result.1.pps = o.pps := by rw [hsets]; rfl
  have hsps : s.result.1.sps = o.sps := by rw [hsets]; rfl
  obtain ⟨hid, hcoded, -⟩ := coded_segment hsegment hok hpps hsps
  have hactive : activeSps (coded s.result.1 r) = activeSps (coded o r) := by
    rw [activeSps, activeSps, coded_sps, coded_sps, hsps, hcoded]
  have hidr : (coded s.result.1 r).isIdr = isIdrType (nalType r) := by rw [hcoded]
  have hlsb : (coded s.result.1 r).slice = (coded o r).slice := by rw [hcoded]
  have hsame : (coded s.result.1 r).activeSpsId = (coded o r).activeSpsId := by rw [hcoded]
  obtain ⟨hstaged, sliceData, hresult⟩ := (visit_segment hsegment hok).2 (hsame ▸ hid)
  rw [hactive, hidr, hlsb] at hstaged hresult
  refine ⟨?_, ?_, ?_, ?_, ?_, ?_, ?_⟩
  · rw [hresult, hcoded, hsets]
    rfl
  · rw [hresult, hcoded]
  · rw [hresult, hcoded]
  · rw [hresult]
  · rw [hresult]
  · rw [hresult, hcoded]
    rfl
  · rw [hresult, hstaged]

/-- The first segment. -/
theorem afterSegments_one (hsegment : IsSegment r₁) (hok : (visit s₀ r₁).status = none) :
    AfterSegments s₀ r₁ [] (visit s₀ r₁) := by
  obtain ⟨hsets, hidr, hsps, href, hslice, hpicture, horder⟩ := visit_after hsegment hok rfl
  obtain ⟨-, -, hsaid⟩ := coded_segment (o := s₀.result.1) hsegment hok rfl rfl
  exact ⟨hsaid, hsets, hidr, hsps, href, hslice, hpicture, horder⟩

/-- Whether a segment is dependent. -/
def isDependent (o : ParseResult) (rbsp : List Byte) : Bool := dependentView (coded o rbsp) ≠ 0

/-- Another segment of the picture. -/
theorem AfterSegments.step {dependent : List Bool} (h : AfterSegments s₀ r₁ dependent s)
    (hsame : SamePicture s₀.result.1 r₁ r) (hok : (visit s r).status = none) :
    AfterSegments s₀ r₁ (dependent ++ [isDependent s₀.result.1 r]) (visit s r) := by
  obtain ⟨hsets, hidr, hsps, href, hslice, hpicture, horder⟩ := visit_after hsame.segment hok h.sets
  have hpps' : s.result.1.pps = s₀.result.1.pps := by rw [h.sets]; rfl
  have hsps' : s.result.1.sps = s₀.result.1.sps := by rw [h.sets]; rfl
  obtain ⟨-, -, hsaid⟩ := coded_segment hsame.segment hok hpps' hsps'
  have hactive : activeSps (coded s₀.result.1 r) = activeSps (coded s₀.result.1 r₁) := by
    rw [activeSps, activeSps, coded_sps, coded_sps, hsame.sps]
  have hsaid : pictureView (coded s₀.result.1 r) = if isDependent s₀.result.1 r then
      SliceHeader.picture {} else pictureView (coded s₀.result.1 r₁) := by
    split_ifs with hdep
    · exact hsaid.nothing (.inl (by simpa [isDependent] using hdep))
    · exact hsame.picture (by simpa [isDependent] using hdep)
  have hlsb : (coded s₀.result.1 r).slice.slicePicOrderCntLsb = if isDependent s₀.result.1 r then 0
      else (coded s₀.result.1 r₁).slice.slicePicOrderCntLsb := by
    have hfield := congrArg PictureFields.slicePicOrderCntLsb hsaid
    split_ifs at hfield ⊢
    · exact hfield
    · exact hfield
  have hanchor : isAnchor r = isAnchor r₁ := by simp only [isAnchor, hsame.type, hsame.temporalId]
  refine ⟨h.said, hsets, ?_, ?_, ?_, hslice, ?_, ?_⟩
  · rw [hidr, hsame.type]
  · rw [hsps, hsame.sps]
  · rw [href, hsame.type]
  · rw [hpicture, hsaid, List.getLastD_concat]
  · have hstaged : s.result.2 = (picOrders (activeSps (coded s₀.result.1 r₁))
        (isIdrType (nalType r₁)) (isAnchor r₁)
        (coded s₀.result.1 r₁).slice.slicePicOrderCntLsb dependent s₀.result.2).2 := by
      rw [← h.order]
    rw [horder, hactive, hanchor, hlsb, hsame.type, hstaged]
    simp only [picOrders, List.foldl_append, List.foldl_cons, List.foldl_nil]

end Segments

section AccessUnit

variable {s s' s₀ : Au} {out : ParseResult} {pre rest : List (List Byte)} {r₁ : List Byte}

/-- What `H265ParseAccessUnit` returns after its loop. -/
def closeAu (s : Au) : ParseStatus × ParseResult :=
  match s.status with
  | some e => (e.status, s.result.1)
  | none =>
    if s.result.1.hasSlice = false then
      (if s.result.1.gotSpsInAu ∨ s.result.1.gotPpsInAu ∨ s.result.1.gotVpsInAu then .needMore
        else .invalid, s.result.1)
    else
      (.ok, { s.result.1 with
        prevPocMsbTid0 := s.result.2.prevMsb
        prevPocLsbTid0 := s.result.2.prevLsb })

/-- The parse of an access unit that is given by its NAL units. -/
def parseUnits (units : List (List Byte)) (out : ParseResult) : ParseStatus × ParseResult :=
  closeAu (feed visit units true (auStart out))

theorem parseAccessUnit_eq_units {buf : List Byte} {scratchSize : Nat} {units : List (List Byte)}
    (h : Carries 2 buf scratchSize units) :
    parseAccessUnit buf scratchSize out = parseUnits units out := by
  obtain ⟨us, hus, rfl⟩ := h
  change closeAu (auUnits buf scratchSize out) = _
  rw [auUnits_eq, auLoop_eq_feed, hus]
  rfl

def ShortTermRps.dpbInput (rps : ShortTermRps) : Engine.H265.ShortTermRps :=
  ⟨rps.numNegativePics, rps.numPositivePics, fun i => rps.deltaPoc.getD i 0⟩

def Sps.dpbInput (sps : Sps) : Engine.H265.Sps where
  valid := sps.valid
  numShortTermRefPicSets := sps.numShortTermRefPicSets
  stRps := fun i => (sps.stRps.getD i {}).dpbInput
  maxSubLayersMinus1 := sps.spsMaxSubLayersMinus1
  maxNumReorderPics := fun i => sps.spsMaxNumReorderPics.getD i 0

/-- The parse result as the DPB reads it. -/
def dpbInput (o : ParseResult) : Engine.H265.Parsed where
  hasSlice := o.hasSlice
  isIdr := o.isIdr
  nalRefFlag := o.nalRefFlag
  poc := o.poc
  activeSps := if 0 ≤ o.activeSpsId then some (activeSps o).dpbInput else none
  shortTermRefPicSetSpsFlag := o.slice.shortTermRefPicSetSpsFlag ≠ 0
  shortTermRefPicSetIdx := o.slice.shortTermRefPicSetIdx
  stRpsSlice := o.slice.stRpsSlice.dpbInput

def activeRps (o : ParseResult) : Option Engine.H265.ShortTermRps :=
  Engine.H265.activeStrps (dpbInput o)

/-- What the parse says about the picture, with the state for the next one. -/
structure Picture where
  poc : Int
  isIdr : Bool
  nalRefFlag : Bool
  rps : Option Engine.H265.ShortTermRps
  prev : Staged

def picture (o : ParseResult) : Picture :=
  ⟨o.poc, o.isIdr, o.nalRefFlag, activeRps o, pocState o⟩

/-- `H265Dpb_Select` for a picture, and `H265Dpb_OnDecodeComplete` if it found a slot. -/
def decodePicture (d : Engine.H265.DpbCtx) (o : ParseResult) : Engine.H265.DpbCtx :=
  let r := Engine.H265.select d (dpbInput o)
  if r.1 = .ok then Engine.H265.onDecodeComplete r.2.2 else r.2.2

/-- Two results that are the same to the picture and to every DPB. -/
def SameResult (o o' : ParseResult) : Prop :=
  picture o = picture o' ∧ ∀ d, decodePicture d o = decodePicture d o'

/-- A DPB sees no more of a result than the picture. -/
theorem decodePicture_congr {o o' : ParseResult} (d : Engine.H265.DpbCtx)
    (h : picture o = picture o') (hslice : o.hasSlice = o'.hasSlice) :
    decodePicture d o = decodePicture d o' := by
  have hpoc : (dpbInput o).poc = (dpbInput o').poc := congrArg Picture.poc h
  have hidr : (dpbInput o).isIdr = (dpbInput o').isIdr := congrArg Picture.isIdr h
  have href : (dpbInput o).nalRefFlag = (dpbInput o').nalRefFlag := congrArg Picture.nalRefFlag h
  have hrps : Engine.H265.activeStrps (dpbInput o) = Engine.H265.activeStrps (dpbInput o') :=
    congrArg Picture.rps h
  have hhas : (dpbInput o).hasSlice = (dpbInput o').hasSlice := hslice
  have hmark : Engine.H265.markForPicture d (dpbInput o) =
      Engine.H265.markForPicture d (dpbInput o') := by
    simp only [Engine.H265.markForPicture, Engine.H265.neededPocs, hidr, hrps, hpoc]
  have hselect : Engine.H265.select d (dpbInput o) = Engine.H265.select d (dpbInput o') := by
    simp only [Engine.H265.select, Engine.H265.packSelection, hmark, hhas, href, hpoc]
  simp only [decodePicture, hselect]

/-- The reference picture set that a header says, by the sets it refers to. -/
theorem activeRps_congr {o o' : ParseResult} (hpicture : pictureView o = pictureView o')
    (hsps : o.sps = o'.sps) (hid : o.activeSpsId = o'.activeSpsId) :
    activeRps o = activeRps o' := by
  have hflag : (dpbInput o).shortTermRefPicSetSpsFlag = (dpbInput o').shortTermRefPicSetSpsFlag :=
    congrArg (fun f : PictureFields => decide (f.shortTermRefPicSetSpsFlag ≠ 0)) hpicture
  have hidx : (dpbInput o).shortTermRefPicSetIdx = (dpbInput o').shortTermRefPicSetIdx :=
    congrArg PictureFields.shortTermRefPicSetIdx hpicture
  have hrps : (dpbInput o).stRpsSlice = (dpbInput o').stRpsSlice :=
    congrArg (fun f : PictureFields => f.stRpsSlice.dpbInput) hpicture
  have hactive : (dpbInput o).activeSps = (dpbInput o').activeSps := by
    simp only [dpbInput, activeSps, hsps, hid]
  simp only [activeRps, Engine.H265.activeStrps, hflag, hidx, hrps, hactive]

/-- A segment that says nothing has an empty reference picture set. -/
def noRefs : Engine.H265.ShortTermRps := ShortTermRps.dpbInput {}

theorem activeRps_nothing {o : ParseResult} (h : pictureView o = SliceHeader.picture {}) :
    activeRps o = some noRefs := by
  have hflag : o.slice.shortTermRefPicSetSpsFlag = 0 :=
    congrArg PictureFields.shortTermRefPicSetSpsFlag h
  have hrps : o.slice.stRpsSlice = {} := congrArg PictureFields.stRpsSlice h
  simp only [activeRps, Engine.H265.activeStrps, dpbInput, hflag, hrps, noRefs, ne_eq,
    not_true_eq_false, decide_false, if_true]

/-- The units in front of the segments leave the POC state. -/
theorem visit_staged {r : List Byte} (h : ¬ IsSegment r) : (visit s r).result.2 = s.result.2 := by
  have hmem : ¬ nalType r ∈ sliceNalTypes := h
  simp only [nalType] at hmem
  simp only [visit, if_neg hmem]
  split_ifs <;> rfl

/-- The state in which the segments of an access unit start. -/
def beforeSegments (pre : List (List Byte)) (out : ParseResult) : Au :=
  feed visit pre true (auStart out)

theorem beforeSegments_staged (hpre : ∀ r ∈ pre, ¬ IsSegment r) :
    (beforeSegments pre out).result.2 = pocState out := by
  have hfeed (s : Au) : (feed visit pre true s).result.2 = s.result.2 := by
    induction pre generalizing s with
    | nil => rfl
    | cons r rest ih =>
      have hvisit := visit_staged (s := s) (hpre r List.mem_cons_self)
      simp only [feed]
      split_ifs
      · exact hvisit
      · exact (ih (fun r hr => hpre r (List.mem_cons_of_mem _ hr)) _).trans hvisit
  exact hfeed (auStart out)

/-- The rest of the segments, one after the other. -/
theorem AfterSegments.feed {dependent : List Bool} (h : AfterSegments s₀ r₁ dependent s)
    (hsame : ∀ r ∈ rest, SamePicture s₀.result.1 r₁ r)
    (hok : (feed visit rest true s).status = none) :
    AfterSegments s₀ r₁ (dependent ++ rest.map (isDependent s₀.result.1))
      (feed visit rest true s) := by
  induction rest generalizing s dependent with
  | nil =>
    rw [List.map_nil, List.append_nil]
    exact h
  | cons r rest ih =>
    simp only [Bitstream.feed] at hok ⊢
    split_ifs at hok ⊢ with hstatus
    · rw [hok] at hstatus
      exact absurd hstatus (by simp)
    · have hvisit : (visit s r).status = none := by simpa using hstatus
      have hnext := ih (h.step (hsame r List.mem_cons_self) hvisit)
        (fun r hr => hsame r (List.mem_cons_of_mem _ hr)) hok
      rwa [List.append_assoc] at hnext

/-- The whole access unit and the cut one, after their loops. -/
theorem afterSegments_units (hsegment : IsSegment r₁)
    (hsame : ∀ r ∈ rest, SamePicture (beforeSegments pre out).result.1 r₁ r)
    (hok : (feed visit (pre ++ r₁ :: rest) true (auStart out)).status = none) :
    AfterSegments (beforeSegments pre out) r₁
      (rest.map (isDependent (beforeSegments pre out).result.1))
      (feed visit (pre ++ r₁ :: rest) true (auStart out)) := by
  have hbefore : (beforeSegments pre out).status = none := feed_prefix rfl hok
  rw [feed_append hbefore] at hok ⊢
  change (feed visit (r₁ :: rest) true (beforeSegments pre out)).status = none at hok
  change AfterSegments _ _ _ (feed visit (r₁ :: rest) true (beforeSegments pre out))
  simp only [feed] at hok ⊢
  split_ifs at hok ⊢ with hstatus
  · rw [hok] at hstatus
    exact absurd hstatus (by simp)
  · exact (afterSegments_one hsegment (by simpa using hstatus)).feed hsame hok

theorem closeAu_accepted (h : (closeAu s).1 = .ok) :
    s.status = none ∧ s.result.1.hasSlice = true := by
  unfold closeAu at h
  cases hstatus : s.status with
  | some e => cases e <;> simp [hstatus, ParseError.status] at h
  | none =>
    cases hslice : s.result.1.hasSlice with
    | true => exact ⟨rfl, rfl⟩
    | false =>
      simp only [hstatus, hslice, if_true] at h
      split_ifs at h

theorem closeAu_ok (hstatus : s.status = none) (hslice : s.result.1.hasSlice = true) :
    closeAu s = (.ok, { s.result.1 with
      prevPocMsbTid0 := s.result.2.prevMsb
      prevPocLsbTid0 := s.result.2.prevLsb }) := by
  simp [closeAu, hstatus, hslice]

theorem picture_closeAu (hstatus : s.status = none) (hslice : s.result.1.hasSlice = true) :
    picture (closeAu s).2 = ⟨s.result.1.poc, s.result.1.isIdr, s.result.1.nalRefFlag,
      activeRps s.result.1, s.result.2⟩ := by
  rw [closeAu_ok hstatus hslice]
  rfl

/-- The reference picture set after the segments. -/
theorem AfterSegments.rps {dependent : List Bool} (h : AfterSegments s₀ r₁ dependent s) :
    activeRps s.result.1 = if dependent.getLastD false then some noRefs
      else activeRps (coded s₀.result.1 r₁) := by
  have hpicture := h.picture
  split_ifs at hpicture ⊢
  · exact activeRps_nothing hpicture
  · refine activeRps_congr hpicture ?_ h.activeSpsId
    rw [coded_sps, h.sets]
    rfl

/-- The results of the parse agree iff the POCs do and the last segment says the same reference
picture set. -/
theorem same_of_afterSegments {dependent : List Bool} (h : AfterSegments s₀ r₁ dependent s)
    (h' : AfterSegments s₀ r₁ [] s') (hstatus : s.status = none) (hstatus' : s'.status = none) :
    SameResult (closeAu s).2 (closeAu s').2 ↔
      (s.result.1.poc, s.result.2) = (s'.result.1.poc, s'.result.2) ∧
        activeRps s.result.1 = activeRps s'.result.1 := by
  have hpicture : picture (closeAu s).2 = picture (closeAu s').2 ↔
      (s.result.1.poc, s.result.2) = (s'.result.1.poc, s'.result.2) ∧
        activeRps s.result.1 = activeRps s'.result.1 := by
    rw [picture_closeAu hstatus h.hasSlice, picture_closeAu hstatus' h'.hasSlice]
    simp only [Picture.mk.injEq, Prod.mk.injEq, h.isIdr.trans h'.isIdr.symm,
      h.nalRefFlag.trans h'.nalRefFlag.symm, true_and]
    constructor
    · rintro ⟨hpoc, hrps, hprev⟩
      exact ⟨⟨hpoc, hprev⟩, hrps⟩
    · rintro ⟨⟨hpoc, hprev⟩, hrps⟩
      exact ⟨hpoc, hrps, hprev⟩
  have hslice : (closeAu s).2.hasSlice = (closeAu s').2.hasSlice := by
    rw [closeAu_ok hstatus h.hasSlice, closeAu_ok hstatus' h'.hasSlice]
    exact h.hasSlice.trans h'.hasSlice.symm
  rw [← hpicture]
  exact ⟨fun hsame => hsame.1, fun hsame => ⟨hsame, fun d => decodePicture_congr d hsame hslice⟩⟩

/-- A segment whose header says what a dependent one says by saying nothing. -/
def SaysNothing (o : ParseResult) (rbsp : List Byte) : Prop :=
  (coded o rbsp).slice.slicePicOrderCntLsb = 0 ∧ activeRps (coded o rbsp) = some noRefs

/-- The last segment is independent, and if the POCs of other pictures are counted from this one,
its LSB is not half of the range, or the drift goes all the way round. -/
def Recovers (o : ParseResult) (r₁ : List Byte) (dependent : List Bool) : Prop :=
  dependent.getLastD false = false ∧ (isAnchor r₁ = false ∨
    maxLsb (activeSps (coded o r₁)) ≠ 2 * ((coded o r₁).slice.slicePicOrderCntLsb : Int) ∨
    2 ^ 32 ∣ maxLsb (activeSps (coded o r₁)) * resumes false dependent)

/-- The units of an access unit with one picture: the segments come last. -/
structure OnePicture (out : ParseResult) (pre : List (List Byte)) (r₁ : List Byte)
    (rest : List (List Byte)) : Prop where
  before : ∀ r ∈ pre, ¬ IsSegment r
  first : IsSegment r₁
  others : ∀ r ∈ rest, SamePicture (beforeSegments pre out).result.1 r₁ r

/-- An access unit of several segments of one picture says the same as the access unit cut after the
first one iff the picture is an IDR, or the dependent segments take nothing away. -/
theorem sameResult_iff (h : OnePicture out pre r₁ rest)
    (hok : (parseUnits (pre ++ r₁ :: rest) out).1 = .ok)
    (hanchor : isIdrType (nalType r₁) = true ∨ isAnchor r₁ = false ∨
      Anchored (activeSps (coded (beforeSegments pre out).result.1 r₁)) (pocState out)) :
    SameResult (parseUnits (pre ++ r₁ :: rest) out).2 (parseUnits (pre ++ [r₁]) out).2 ↔
      isIdrType (nalType r₁) = true ∨ SaysNothing (beforeSegments pre out).result.1 r₁ ∨
        Recovers (beforeSegments pre out).result.1 r₁
          (rest.map (isDependent (beforeSegments pre out).result.1)) := by
  have hwhole : (feed visit (pre ++ r₁ :: rest) true (auStart out)).status = none :=
    (closeAu_accepted hok).1
  have hcut : (feed visit (pre ++ [r₁]) true (auStart out)).status = none := by
    have hsplit : (feed visit ((pre ++ [r₁]) ++ rest) true (auStart out)).status = none := by
      simpa using hwhole
    exact feed_prefix rfl hsplit
  have hafter := afterSegments_units h.first h.others hwhole
  have hafter' : AfterSegments (beforeSegments pre out) r₁ []
      (feed visit (pre ++ [r₁]) true (auStart out)) :=
    afterSegments_units h.first (fun _ h => by cases h) hcut
  have hfits := hafter.said.fits
  rw [parseUnits, parseUnits, same_of_afterSegments hafter hafter' hwhole hcut, hafter.order,
    hafter'.order, hafter.rps, hafter'.rps, beforeSegments_staged h.before]
  change picOrders _ _ _ _ _ _ = picOrder _ _ _ _ _ ∧ _ ↔ _
  rw [picOrders_eq_iff hfits.1 hfits.2 hanchor]
  cases hidr : isIdrType (nalType r₁) with
  | true =>
    have hnothing := activeRps_nothing (hafter.said.nothing (.inr hidr))
    simp [hnothing]
  | false =>
    simp only [Bool.false_eq_true, false_or, SaysNothing, Recovers]
    cases hlast : (rest.map (isDependent (beforeSegments pre out).result.1)).getLastD false with
    | true =>
      simp only [Bool.true_eq_false, false_and, or_false, if_true, List.getLastD_nil,
        Bool.false_eq_true, if_false]
      exact and_congr_right fun _ => eq_comm
    | false =>
      simp only [true_and, Bool.false_eq_true, if_false, List.getLastD_nil, and_true]
      constructor
      · rintro (hzero | hstill)
        · refine .inr ?_
          by_cases hM : maxLsb (activeSps (coded (beforeSegments pre out).result.1 r₁)) = 0
          · rw [hM, Int.zero_mul]
            exact .inr (.inr (Int.dvd_zero _))
          · refine .inr (.inl ?_)
            rw [hzero]
            exact hM
        · exact .inr hstill
      · rintro (⟨hzero, -⟩ | hstill)
        · exact .inl hzero
        · exact .inr hstill

end AccessUnit

end H265

section Results

/-- An access unit with the slices `r₁ :: rest` of one picture against the one cut after `r₁`. For
H.264 they agree iff no operation is stored twice. For H.265 they agree, if the POC state fits the
LSB range, iff the picture is an IDR, the first segment says nothing, or the last one repeats it. -/
theorem cut_after_first_iff (buf cut : List Byte) (scratchSize : Nat) (pre rest : List (List Byte))
    (r₁ : List Byte) :
    (∀ out : H264.ParseResult, Carries 1 buf scratchSize (pre ++ r₁ :: rest) →
      Carries 1 cut scratchSize (pre ++ [r₁]) → H264.OnePicture out pre r₁ rest →
      (H264.parseAccessUnit buf scratchSize out).1 = .ok →
      (H264.SameResult (H264.parseAccessUnit buf scratchSize out).2
          (H264.parseAccessUnit cut scratchSize out).2 ↔
        rest = [] ∨ (H264.coded (H264.beforeSlices pre out).result.1 r₁).mmco = [] ∨
          16 ≤ (H264.coded (H264.beforeSlices pre out).result.1 r₁).mmco.length)) ∧
    (∀ out : H265.ParseResult, Carries 2 buf scratchSize (pre ++ r₁ :: rest) →
      Carries 2 cut scratchSize (pre ++ [r₁]) → H265.OnePicture out pre r₁ rest →
      (H265.parseAccessUnit buf scratchSize out).1 = .ok →
      (H265.isIdrType (H265.nalType r₁) = true ∨ H265.isAnchor r₁ = false ∨ H265.Anchored
        (H265.activeSps (H265.coded (H265.beforeSegments pre out).result.1 r₁))
        (H265.pocState out)) →
      (H265.SameResult (H265.parseAccessUnit buf scratchSize out).2
          (H265.parseAccessUnit cut scratchSize out).2 ↔
        H265.isIdrType (H265.nalType r₁) = true ∨
          H265.SaysNothing (H265.beforeSegments pre out).result.1 r₁ ∨
          H265.Recovers (H265.beforeSegments pre out).result.1 r₁
            (rest.map (H265.isDependent (H265.beforeSegments pre out).result.1)))) := by
  constructor
  · intro out hbuf hcut hone hok
    rw [H264.parseAccessUnit_eq_units hbuf] at hok ⊢
    rw [H264.parseAccessUnit_eq_units hcut]
    exact H264.sameResult_iff hone hok
  · intro out hbuf hcut hone hok hanchor
    rw [H265.parseAccessUnit_eq_units hbuf] at hok ⊢
    rw [H265.parseAccessUnit_eq_units hcut]
    exact H265.sameResult_iff hone hok hanchor

section Streams

/-- A buffer with these units. -/
abbrev framed (units : List (List Byte)) : List Byte := (units.map ([0, 0, 1] ++ ·)).flatten

/-- An SPS for two macroblocks and a PPS. -/
abbrev avcSets : List (List Byte) :=
  [[0x67, 0x42, 0x00, 0x0a, 0xdb, 0x2c, 0x40], [0x68, 0xce, 0x38, 0x80]]

/-- The two slices of a picture; both make the picture before it a long-term reference. -/
abbrev markingSlices : List (List Byte) :=
  [[0x61, 0xb8, 0xca, 0x89, 0xf0], [0x61, 0x4e, 0x32, 0xa2, 0x78]]

/-- The same two slices without marking. -/
abbrev plainSlices : List (List Byte) := [[0x61, 0xb8, 0xb0], [0x61, 0x4e, 0x2c]]

/-- A VPS, an SPS for two coding tree blocks and a PPS with dependent slice segments. -/
abbrev hevcSets : List (List Byte) :=
  [[0x40, 0x01, 0x0c, 0x01, 0xff, 0xff, 0x01, 0xff, 0xff, 0xff, 0xff, 0x9f, 0xff, 0xff, 0xff, 0xff,
    0xff, 0x1e, 0xf0, 0x24],
    [0x42, 0x01, 0x01, 0x01, 0xff, 0xff, 0xff, 0xff, 0x9f, 0xff, 0xff, 0xff, 0xff, 0xff, 0x1e, 0xa0,
      0x42, 0x11, 0x7f, 0xaf, 0x08, 0x20],
    [0x44, 0x01, 0xe0, 0x71, 0x80, 0x12]]

/-- A segment with POC LSB 2 and one reference. -/
abbrev firstSegment : List Byte := [0x02, 0x01, 0xd9, 0x17, 0xc0, 0x80]

abbrev dependentSegment : List Byte := [0x02, 0x01, 0x78, 0x80]

abbrev independentSegment : List Byte := [0x02, 0x01, 0x56, 0x45, 0xf0, 0x80]

theorem carries_of {header : Nat} {buf : List Byte} {scratchSize : Nat} {units : List (List Byte)}
    (hend : (nalUnits header buf scratchSize buf.length 0 0).2 = true)
    (hunits : (nalUnits header buf scratchSize buf.length 0 0).1.map NalUnit.rbsp = units) :
    Carries header buf scratchSize units := ⟨_, Prod.ext rfl hend, hunits⟩

/-- The DPB after an IDR picture with the sets. -/
abbrev afterIdr : Engine.H264.DpbCtx :=
  (H264.decodePicture Engine.H264.init (H264.parseAccessUnit
    (framed (avcSets ++ [[0x65, 0x88, 0x84, 0x21]])) 128 {}).2).getD Engine.H264.init

def refCount (d : Engine.H264.DpbCtx) : Nat :=
  Engine.H264.allSlots.countP fun i => (d.slots i).ref.isRef

theorem avc_onePicture (slices : List (List Byte))
    (h : slices = markingSlices ∨ slices = plainSlices) :
    H264.OnePicture {} avcSets (slices.headD []) slices.tail := by
  rcases h with rfl | rfl
  · refine ⟨?_, .inl (by decide), ?_⟩
    · unfold H264.IsSlice
      decide
    · intro r hr
      rw [List.mem_singleton.mp hr]
      exact ⟨.inl (by decide), by decide, by decide, by decide +kernel, by decide +kernel,
        by decide +kernel, by decide +kernel, by decide +kernel⟩
  · refine ⟨?_, .inl (by decide), ?_⟩
    · unfold H264.IsSlice
      decide
    · intro r hr
      rw [List.mem_singleton.mp hr]
      exact ⟨.inl (by decide), by decide, by decide, by decide +kernel, by decide +kernel,
        by decide +kernel, by decide +kernel, by decide +kernel⟩

theorem hevc_onePicture (r : List Byte) (h : r = dependentSegment ∨ r = independentSegment) :
    H265.OnePicture {} hevcSets firstSegment [r] := by
  refine ⟨?_, ?_, ?_⟩
  · unfold H265.IsSegment
    decide
  · unfold H265.IsSegment
    decide
  · intro r' hr
    rw [List.mem_singleton.mp hr]
    rcases h with rfl | rfl
    · refine ⟨?_, by decide, by decide, by decide +kernel, by decide +kernel⟩
      unfold H265.IsSegment
      decide
    · refine ⟨?_, by decide, by decide, by decide +kernel, by decide +kernel⟩
      unfold H265.IsSegment
      decide

/-- The second slice appends its operations to those of the first one, and the DPB drops the
reference they are about. The dependent segment takes the POC and the reference of the picture
away. -/
theorem second_slice_matters :
    (Carries 1 (framed (avcSets ++ markingSlices)) 128 (avcSets ++ markingSlices) ∧
      Carries 1 (framed (avcSets ++ markingSlices.take 1)) 128 (avcSets ++ markingSlices.take 1) ∧
      H264.OnePicture {} avcSets (markingSlices.headD []) markingSlices.tail ∧
      (H264.parseAccessUnit (framed (avcSets ++ markingSlices)) 128 {}).1 = .ok ∧
      (H264.decodePicture afterIdr
        (H264.parseAccessUnit (framed (avcSets ++ markingSlices)) 128 {}).2).map refCount = some 1 ∧
      (H264.decodePicture afterIdr
        (H264.parseAccessUnit (framed (avcSets ++ markingSlices.take 1)) 128 {}).2).map refCount =
          some 2 ∧
      ¬ H264.SameResult (H264.parseAccessUnit (framed (avcSets ++ markingSlices)) 128 {}).2
        (H264.parseAccessUnit (framed (avcSets ++ markingSlices.take 1)) 128 {}).2) ∧
    (Carries 2 (framed (hevcSets ++ [firstSegment, dependentSegment])) 128
        (hevcSets ++ [firstSegment, dependentSegment]) ∧
      Carries 2 (framed (hevcSets ++ [firstSegment])) 128 (hevcSets ++ [firstSegment]) ∧
      H265.OnePicture {} hevcSets firstSegment [dependentSegment] ∧
      (H265.parseAccessUnit (framed (hevcSets ++ [firstSegment, dependentSegment])) 128 {}).1 =
      .ok ∧
      (H265.parseAccessUnit (framed (hevcSets ++ [firstSegment, dependentSegment])) 128 {}).2.poc =
      0 ∧
      (H265.parseAccessUnit (framed (hevcSets ++ [firstSegment])) 128 {}).2.poc = 2 ∧
      ¬ H265.SameResult
        (H265.parseAccessUnit (framed (hevcSets ++ [firstSegment, dependentSegment])) 128 {}).2
        (H265.parseAccessUnit (framed (hevcSets ++ [firstSegment])) 128 {}).2) := by
  refine ⟨⟨?_, ?_, avc_onePicture _ (.inl rfl), by decide +kernel, by decide +kernel,
    by decide +kernel, fun h => ?_⟩, ⟨?_, ?_, hevc_onePicture _ (.inl rfl), by decide +kernel,
    by decide +kernel, by decide +kernel, fun h => ?_⟩⟩
  · exact carries_of (by decide +kernel) (by decide +kernel)
  · exact carries_of (by decide +kernel) (by decide +kernel)
  · have hlength := congrArg (fun p => p.mmco.length) h.1
    revert hlength
    decide +kernel
  · exact carries_of (by decide +kernel) (by decide +kernel)
  · exact carries_of (by decide +kernel) (by decide +kernel)
  · have hpoc := congrArg H265.Picture.poc h.1
    revert hpoc
    decide +kernel

/-- Two slices without marking, and two independent segments. -/
theorem cut_after_first_iff_plain :
    H264.SameResult (H264.parseAccessUnit (framed (avcSets ++ plainSlices)) 128 {}).2
      (H264.parseAccessUnit (framed (avcSets ++ plainSlices.take 1)) 128 {}).2 ∧
    H265.SameResult
      (H265.parseAccessUnit (framed (hevcSets ++ [firstSegment, independentSegment])) 128 {}).2
      (H265.parseAccessUnit (framed (hevcSets ++ [firstSegment])) 128 {}).2 := by
  constructor
  · have h := (cut_after_first_iff (framed (avcSets ++ plainSlices))
      (framed (avcSets ++ plainSlices.take 1)) 128 avcSets plainSlices.tail
        (plainSlices.headD [])).1 {}
      (carries_of (by decide +kernel) (by decide +kernel))
      (carries_of (by decide +kernel) (by decide +kernel)) (avc_onePicture _ (.inr rfl))
      (by decide +kernel)
    exact h.mpr (.inr (.inl (by decide +kernel)))
  · have h := (cut_after_first_iff (framed (hevcSets ++ [firstSegment, independentSegment]))
      (framed (hevcSets ++ [firstSegment])) 128 hevcSets [independentSegment] firstSegment).2 {}
      (carries_of (by decide +kernel) (by decide +kernel))
      (carries_of (by decide +kernel) (by decide +kernel)) (hevc_onePicture _ (.inr rfl))
      (by decide +kernel) (.inr (.inr (.inr ⟨by decide +kernel, by decide +kernel⟩)))
    exact h.mpr (.inr (.inr ⟨by decide +kernel, .inr (.inl (by decide +kernel))⟩))

end Streams

end Results

end Rkvdec.Bitstream
