import Rkvdec.Av1.References
import Rkvdec.Lib.Best

/-! `frame_ref_short_signaling`: the references that `parse_frame_hdr` derives from two explicit
ones and the order hints of the slots, beside the process of the AV1 standard for it. -/
namespace Rkvdec.Av1

open Lib (best best_eq_none_iff best_eq_some_iff scanBest scanBest_eq)

section Parser

def intMin : Int := -2147483648
def intMax : Int := 2147483647
def uintMax : Int := 4294967295

/-- `get_relative_dist`. -/
def getRelativeDist (bits : Nat) (a b : BitVec 32) : BitVec 32 :=
  if bits = 0 then 0
  else
    let m := 1#32 <<< (bits - 1)
    let diff := (a - b) &&& (1#32 <<< bits - 1)
    diff - (diff &&& m) <<< 1

/-- A slot that is neither used nor without a picture. -/
def usable (off : Int) : Bool := off != intMin && off != intMax

/-- The conversion of a distance to `unsigned`. -/
def unsignedHint (off : Int) : Int := off % 2 ^ 32

/-- The loop for ALTREF. -/
def findAltref (frameOffs : Slot → Int) : Option Slot :=
  scanBest (fun i => usable (frameOffs i)) frameOffs (fun hint lo => lo ≤ hint) 0

/-- The loop for BWDREF and ALTREF2. -/
def findBwdref (frameOffs : Slot → Int) : Option Slot :=
  scanBest (fun i => usable (frameOffs i)) (fun i => unsignedHint (frameOffs i))
    (fun hint eo => hint < eo)
    uintMax

/-- The loop for what is left. -/
def findLatest (frameOffs : Slot → Int) : Option Slot :=
  scanBest (fun i => usable (frameOffs i)) (fun i => unsignedHint (frameOffs i))
    (fun hint lo => lo ≤ hint)
    uintMax

/-- `h->refidx`, where -1 is `none`, and `frame_offs`. -/
structure ShortRefs where
  refidx : Fin 7 → Option Slot
  frameOffs : Slot → Int

/-- A slot becomes a reference and is marked as used. -/
def ShortRefs.use (s : ShortRefs) (k : Fin 7) (ridx : Slot) : ShortRefs where
  refidx := Function.update s.refidx k (some ridx)
  frameOffs := Function.update s.frameOffs ridx intMin

def ShortRefs.useFound (s : ShortRefs) (k : Fin 7) : Option Slot → ShortRefs
  | none => s
  | some ridx => s.use k ridx

/-- A turn of the last loop; `none` gives up the parse. -/
def ShortRefs.fill (earliestRef : Option Slot) (s : ShortRefs) (k : Fin 7) : Option ShortRefs :=
  if (s.refidx k).isSome then some s
  else
    match findLatest s.frameOffs with
    | some ridx => some (s.use k ridx)
    | none => earliestRef.map (s.use k)

/-- The branch of `parse_frame_hdr` for `frame_ref_short_signaling`, on the order hints of the valid
saved states and of the frame. The header starts from zeros, and only two of the entries are set to
-1. -/
def shortSignaling (bits : Nat) (prev : Slot → Option Nat) (frameOffset : Nat)
    (last golden : Slot) :
    Option (Fin 7 → Option Slot) :=
  let frameOffs : Slot → Int := fun i =>
    (prev i).elim intMax fun hint =>
      (getRelativeDist bits (BitVec.ofNat 32 hint) (BitVec.ofNat 32 frameOffset)).toInt
  let earliestRef :=
    scanBest (fun i => (prev i).isSome) frameOffs (fun off earliest => off < earliest) intMax
  let s : ShortRefs :=
    { refidx := ![some last, none, none, some golden, some 0, some 0, some 0]
      frameOffs := Function.update (Function.update frameOffs last intMin) golden intMin }
  let s := s.useFound 6 (findAltref s.frameOffs)
  let s := s.useFound 4 (findBwdref s.frameOffs)
  let s := s.useFound 5 (findBwdref s.frameOffs)
  (([1, 2, 3, 4, 5, 6] : List (Fin 7)).foldlM (ShortRefs.fill earliestRef) s).map ShortRefs.refidx

end Parser

section Standard

/-- The distance of two order hints of `bits` bits: their difference as a signed number of that
width. -/
def relativeDist (bits a b : Nat) : Int := ((a : Int) - b).bmod (2 ^ bits)

variable (dist : Slot → Int)

/-- The order of the hints, with the slot behind them. -/
def hintKey (i : Slot) : Int := 8 * dist i + i.val

/-- The slot with the latest hint, the last one of equals. -/
def latest (S : Finset Slot) : Option Slot := best (hintKey dist) S

/-- The slot with the earliest hint, the first one of equals. -/
def earliest (S : Finset Slot) : Option Slot := best (fun i => -hintKey dist i) S

/-- The unused slots with a hint at or after the frame's. -/
def backward (used : Finset Slot) : Finset Slot := Finset.univ.filter fun i => i ∉ used ∧ 0 ≤ dist i

/-- The unused slots with a hint before the frame's. -/
def forward (used : Finset Slot) : Finset Slot := Finset.univ.filter fun i => i ∉ used ∧ dist i < 0

/-- `ref_frame_idx` and `usedFrame`. -/
structure FrameRefs where
  refFrameIdx : Fin 7 → Option Slot
  usedFrame : Finset Slot

def FrameRefs.take (s : FrameRefs) (k : Fin 7) : Option Slot → FrameRefs
  | none => s
  | some i => ⟨Function.update s.refFrameIdx k (some i), insert i s.usedFrame⟩

/-- A reference that is still unset takes the latest one before the frame. -/
def FrameRefs.takeForward (s : FrameRefs) (k : Fin 7) : FrameRefs :=
  if (s.refFrameIdx k).isSome then s else s.take k (latest dist (forward dist s.usedFrame))

/-- The process `set_frame_refs` of the standard. -/
def setFrameRefs (last golden : Slot) : Fin 7 → Option Slot :=
  let s : FrameRefs := ⟨![some last, none, none, some golden, none, none, none], {last, golden}⟩
  let s := s.take 6 (latest dist (backward dist s.usedFrame))
  let s := s.take 4 (earliest dist (backward dist s.usedFrame))
  let s := s.take 5 (earliest dist (backward dist s.usedFrame))
  let s := ([1, 2, 4, 5, 6] : List (Fin 7)).foldl (FrameRefs.takeForward dist) s
  fun k => (s.refFrameIdx k).or (earliest dist Finset.univ)

end Standard

section Distances

variable {bits a b : Nat}

theorem testBit_top {k y : Nat} (h : y < 2 ^ (k + 1)) : y.testBit k = decide (2 ^ k ≤ y) := by
  rw [Nat.testBit_eq_decide_div_mod_eq]
  have hdiv : y / 2 ^ k < 2 := by
    rw [Nat.div_lt_iff_lt_mul (Nat.two_pow_pos k)]
    omega
  by_cases hle : 2 ^ k ≤ y
  · have := Nat.div_pos hle (Nat.two_pow_pos k)
    have hone : y / 2 ^ k = 1 := by omega
    simp [hone, hle]
  · have hzero : y / 2 ^ k = 0 := Nat.div_eq_of_lt (by omega)
    simp [hzero, hle]

/-- The top bit of a number of `k + 1` bits. -/
theorem and_top {k y : Nat} (h : y < 2 ^ (k + 1)) :
    y &&& 2 ^ k = if 2 ^ k ≤ y then 2 ^ k else 0 := by
  apply Nat.eq_of_testBit_eq
  intro j
  rw [Nat.testBit_and, Nat.testBit_two_pow]
  by_cases hj : k = j
  · subst hj
    rw [testBit_top h]
    by_cases hle : 2 ^ k ≤ y <;> simp [hle]
  · by_cases hle : 2 ^ k ≤ y <;> simp [hle, hj]

theorem toInt_sub_twice {y c : Nat} (hy : y < 256) (hc : c ≤ 128) :
    (BitVec.ofNat 32 y - BitVec.ofNat 32 c <<< 1).toInt = (y : Int) - 2 * c := by
  have htwice : BitVec.ofNat 32 c <<< 1 = BitVec.ofNat 32 (2 * c) := by
    apply BitVec.eq_of_toNat_eq
    simp only [BitVec.toNat_shiftLeft, BitVec.toNat_ofNat, Nat.shiftLeft_eq]
    omega
  rw [htwice, BitVec.toInt_sub, BitVec.toInt_ofNat', BitVec.toInt_ofNat']
  simp only [Int.bmod_def]
  omega

/-- For the widths that a sequence header can have, the code computes the distance of the
standard. -/
theorem getRelativeDist_eq (hbits : bits ≤ 8) :
    (getRelativeDist bits (BitVec.ofNat 32 a) (BitVec.ofNat 32 b)).toInt =
    relativeDist bits a b := by
  cases bits with
  | zero => simp [getRelativeDist, relativeDist]
  | succ k =>
    have hk : k ≤ 7 := by omega
    let x := BitVec.ofNat 32 a - BitVec.ofNat 32 b
    have hx : x.toNat = (2 ^ 32 - b % 2 ^ 32 + a % 2 ^ 32) % 2 ^ 32 := by simp [x]
    have hlt : x.toNat % 2 ^ (k + 1) < 2 ^ (k + 1) := Nat.mod_lt _ (Nat.two_pow_pos _)
    have hdiff : x &&& (1#32 <<< (k + 1) - 1) = BitVec.ofNat 32 (x.toNat % 2 ^ (k + 1)) := by
      apply BitVec.eq_of_toNat_eq
      have hmask : (1#32 <<< (k + 1) - 1).toNat = 2 ^ (k + 1) - 1 := by
        interval_cases k <;> rfl
      have hle : x.toNat % 2 ^ (k + 1) ≤ x.toNat := Nat.mod_le _ _
      have := x.isLt
      rw [BitVec.toNat_and, hmask, Nat.and_two_pow_sub_one_eq_mod, BitVec.toNat_ofNat,
        Nat.mod_eq_of_lt (hle.trans_lt x.isLt)]
    have htop : BitVec.ofNat 32 (x.toNat % 2 ^ (k + 1)) &&& (1#32 <<< k) =
        BitVec.ofNat 32 (if 2 ^ k ≤ x.toNat % 2 ^ (k + 1) then 2 ^ k else 0) := by
      have hbit : 1#32 <<< k = BitVec.ofNat 32 (2 ^ k) := by
        interval_cases k <;> rfl
      rw [hbit, ← BitVec.ofNat_and, and_top hlt]
    have heq : getRelativeDist (k + 1) (BitVec.ofNat 32 a) (BitVec.ofNat 32 b) =
        BitVec.ofNat 32 (x.toNat % 2 ^ (k + 1)) -
          BitVec.ofNat 32 (if 2 ^ k ≤ x.toNat % 2 ^ (k + 1) then 2 ^ k else 0) <<< 1 := by
      rw [← htop, ← hdiff]
      rfl
    have hy : x.toNat % 2 ^ (k + 1) < 256 :=
      hlt.trans_le (Nat.pow_le_pow_right (by decide) hbits)
    have hc : (if 2 ^ k ≤ x.toNat % 2 ^ (k + 1) then 2 ^ k else 0) ≤ 128 := by
      have := Nat.pow_le_pow_right (n := 2) (by decide) hk
      split <;> omega
    have hmod : ((x.toNat % 2 ^ (k + 1) : Nat) : Int) = ((a : Int) - b) % (2 ^ (k + 1) : Nat) := by
      rw [hx]
      interval_cases k <;> omega
    rw [heq, toInt_sub_twice hy hc, relativeDist, Int.bmod_def, ← hmod, Nat.pow_succ]
    split <;> split <;> push_cast <;> omega

theorem relativeDist_bounds (hbits : bits ≤ 8) :
    -128 ≤ relativeDist bits a b ∧ relativeDist bits a b < 128 := by
  have hpos := Nat.two_pow_pos bits
  have hle : 2 ^ bits ≤ 2 ^ 8 := Nat.pow_le_pow_right (by decide) hbits
  have h₁ := Int.le_bmod (x := (a : Int) - b) hpos
  have h₂ := Int.bmod_lt (x := (a : Int) - b) hpos
  unfold relativeDist
  omega

end Distances

section Loops

variable {dist : Slot → Int} {used S : Finset Slot} {i j : Slot}

theorem hintKey_injective : Function.Injective (hintKey dist) := by
  intro i j h
  unfold hintKey at h
  exact Fin.ext (by omega)

theorem hintKey_lt_iff (h : j < i) : hintKey dist j < hintKey dist i ↔ dist j ≤ dist i := by
  have : j.val < i.val := h
  unfold hintKey
  omega

theorem latest_eq_some_iff :
    latest dist S = some i ↔ i ∈ S ∧ ∀ j ∈ S, hintKey dist j ≤ hintKey dist i :=
  best_eq_some_iff hintKey_injective

theorem earliest_eq_some_iff :
    earliest dist S = some i ↔ i ∈ S ∧ ∀ j ∈ S, hintKey dist i ≤ hintKey dist j := by
  have hinj : Function.Injective fun i => -hintKey dist i :=
    fun i j h => hintKey_injective (neg_inj.mp h)
  unfold earliest
  rw [best_eq_some_iff hinj]
  simp only [neg_le_neg_iff]

theorem latest_eq_none_iff : latest dist S = none ↔ S = ∅ := best_eq_none_iff

theorem earliest_eq_none_iff : earliest dist S = none ↔ S = ∅ := best_eq_none_iff

theorem mem_backward : i ∈ backward dist used ↔ i ∉ used ∧ 0 ≤ dist i := by simp [backward]

theorem mem_forward : i ∈ forward dist used ↔ i ∉ used ∧ dist i < 0 := by simp [forward]

/-- The distances with the marks of the used slots. -/
def mark (dist : Slot → Int) (used : Finset Slot) (i : Slot) : Int :=
  if i ∈ used then intMin else dist i

theorem update_mark : Function.update (mark dist used) i intMin = mark dist (insert i used) := by
  funext j
  by_cases hj : j = i
  · simp [hj, mark]
  · simp [hj, mark]

/-- The hints are far from the marks. -/
def Bounded (dist : Slot → Int) : Prop := ∀ i, -128 ≤ dist i ∧ dist i < 128

theorem usable_mark (hb : Bounded dist) : usable (mark dist used i) = true ↔ i ∉ used := by
  have := hb i
  unfold usable mark intMin intMax
  by_cases hi : i ∈ used
  · simp [hi]
  · simp only [hi, if_false, Bool.and_eq_true, bne_iff_ne, ne_eq, not_false_eq_true, iff_true]
    omega

theorem mark_of_notMem (hi : i ∉ used) : mark dist used i = dist i := if_neg hi

theorem findAltref_mark (hb : Bounded dist) :
    findAltref (mark dist used) = latest dist (backward dist used) := by
  refine scanBest_eq ?_ ?_ ?_
  · intro i
    rw [mem_backward, usable_mark hb, decide_eq_true_eq]
    refine and_congr_right fun hi => ?_
    rw [mark_of_notMem hi]
  · intro i j hj hle
    rw [mem_backward] at hj
    simp only [mark_of_notMem hj.1, decide_eq_true_eq] at hle ⊢
    omega
  · intro j hj i hi hlt
    rw [mem_backward] at hi hj
    rw [mark_of_notMem hi.1, mark_of_notMem hj.1, hintKey_lt_iff hlt, decide_eq_true_eq]

/-- The unused slots just before the frame, the only ones the last loop of the parser can find. -/
def adjacent (dist : Slot → Int) (used : Finset Slot) : Finset Slot :=
  Finset.univ.filter fun i => i ∉ used ∧ dist i = -1

/-- The unused slots further back. -/
def far (dist : Slot → Int) (used : Finset Slot) : Finset Slot :=
  Finset.univ.filter fun i => i ∉ used ∧ dist i < -1

theorem mem_adjacent : i ∈ adjacent dist used ↔ i ∉ used ∧ dist i = -1 := by simp [adjacent]

theorem mem_far : i ∈ far dist used ↔ i ∉ used ∧ dist i < -1 := by simp [far]

theorem findLatest_mark (hb : Bounded dist) :
    findLatest (mark dist used) = latest dist (adjacent dist used) := by
  have hunsigned : ∀ i, i ∉ used →
      (uintMax ≤ unsignedHint (mark dist used i) ↔ dist i = -1) := by
    intro i hi
    have := hb i
    rw [mark_of_notMem hi]
    unfold uintMax unsignedHint
    omega
  refine scanBest_eq ?_ ?_ ?_
  · intro i
    rw [mem_adjacent, usable_mark hb, decide_eq_true_eq]
    exact and_congr_right fun hi => (hunsigned i hi).symm
  · intro i j hj hle
    rw [mem_adjacent] at hj
    rw [decide_eq_true_eq] at hle ⊢
    exact ((hunsigned j hj.1).mpr hj.2).trans hle
  · intro j hj i hi hlt
    rw [mem_adjacent] at hi hj
    rw [mark_of_notMem hi.1, mark_of_notMem hj.1, hintKey_lt_iff hlt, hi.2, hj.2, decide_eq_true_eq]
    simp

/-- Without a slot at or after the frame, the loop for BWDREF takes the earliest one, unless it is
just before the frame. -/
theorem findBwdref_mark (hb : Bounded dist) : findBwdref (mark dist used) =
    (earliest dist (backward dist used)).or (earliest dist (far dist used)) := by
  let K : Slot → Int := fun i => -(8 * unsignedHint (dist i) + i.val)
  let S : Finset Slot := Finset.univ.filter fun i => i ∉ used ∧ dist i ≠ -1
  have hS : ∀ i, i ∈ S ↔ i ∉ used ∧ dist i ≠ -1 := by simp [S]
  have hK : Function.Injective K := by
    intro i j h
    have : (8 : Int) * unsignedHint (dist i) + i.val = 8 * unsignedHint (dist j) + j.val :=
      neg_inj.mp h
    exact Fin.ext (by omega)
  have hunsigned : ∀ i, unsignedHint (dist i) = if 0 ≤ dist i then dist i else dist i + 2 ^ 32 := by
    intro i
    have := hb i
    unfold unsignedHint
    split <;> omega
  have hbest : findBwdref (mark dist used) = best K S := by
    refine scanBest_eq ?_ ?_ ?_
    · intro i
      rw [hS, usable_mark hb, decide_eq_true_eq]
      refine and_congr_right fun hi => ?_
      have := hb i
      rw [mark_of_notMem hi, hunsigned, uintMax]
      split <;> omega
    · intro i j hj hlt
      rw [hS] at hj
      rw [decide_eq_true_eq] at hlt ⊢
      have := hb j
      rw [mark_of_notMem hj.1, hunsigned j] at hlt
      unfold uintMax
      split at hlt <;> omega
    · intro j hj i hi hlt
      rw [hS] at hi hj
      have : j.val < i.val := hlt
      rw [mark_of_notMem hi.1, mark_of_notMem hj.1, decide_eq_true_eq]
      simp only [K]
      omega
  rw [hbest]
  cases hback : earliest dist (backward dist used) with
  | some b =>
    obtain ⟨hmem, hmin⟩ := earliest_eq_some_iff.mp hback
    rw [mem_backward] at hmem
    rw [Option.some_or, best_eq_some_iff hK, hS]
    refine ⟨⟨hmem.1, by omega⟩, ?_⟩
    intro j hj
    rw [hS] at hj
    have := hb b
    have := hb j
    simp only [K, hunsigned]
    by_cases hpos : 0 ≤ dist j
    · have := hmin j (mem_backward.mpr ⟨hj.1, hpos⟩)
      unfold hintKey at this
      simp only [hpos, hmem.2, if_true]
      omega
    · simp only [hpos, hmem.2, if_true, if_false]
      omega
  | none =>
    have hempty := earliest_eq_none_iff.mp hback
    have hneg : ∀ i, i ∉ used → dist i < 0 := by
      intro i hi
      by_contra hpos
      have hmem : i ∈ backward dist used := mem_backward.mpr ⟨hi, by omega⟩
      rw [hempty] at hmem
      exact absurd hmem (Finset.notMem_empty i)
    rw [Option.none_or]
    cases hfar : earliest dist (far dist used) with
    | some m =>
      obtain ⟨hmem, hmin⟩ := earliest_eq_some_iff.mp hfar
      rw [mem_far] at hmem
      rw [best_eq_some_iff hK, hS]
      refine ⟨⟨hmem.1, by omega⟩, ?_⟩
      intro j hj
      rw [hS] at hj
      have hjneg := hneg j hj.1
      have := hmin j (mem_far.mpr ⟨hj.1, by omega⟩)
      unfold hintKey at this
      simp only [K, hunsigned, if_neg (not_le.mpr hjneg), if_neg (not_le.mpr (hneg m hmem.1))]
      omega
    | none =>
      have hnone := earliest_eq_none_iff.mp hfar
      rw [best_eq_none_iff]
      refine Finset.eq_empty_of_forall_notMem ?_
      intro i hi
      rw [hS] at hi
      have := hneg i hi.1
      have hmem : i ∈ far dist used := mem_far.mpr ⟨hi.1, by omega⟩
      rw [hnone] at hmem
      exact Finset.notMem_empty i hmem

end Loops

section Sets

variable {dist : Slot → Int} {used S P : Finset Slot} {i j e : Slot} {s : FrameRefs} {k l : Fin 7}
  {o : Option Slot}

theorem backward_insert : backward dist (insert i used) = (backward dist used).erase i := by
  ext j
  simp only [mem_backward, Finset.mem_insert, Finset.mem_erase]
  tauto

theorem forward_insert : forward dist (insert i used) = (forward dist used).erase i := by
  ext j
  simp only [mem_forward, Finset.mem_insert, Finset.mem_erase]
  tauto

theorem adjacent_eq : adjacent dist used = (forward dist used).filter fun i => dist i = -1 := by
  ext j
  rw [Finset.mem_filter, mem_adjacent, mem_forward]
  constructor
  · rintro ⟨hj, hdist⟩
    exact ⟨⟨hj, by omega⟩, hdist⟩
  · rintro ⟨⟨hj, -⟩, hdist⟩
    exact ⟨hj, hdist⟩

theorem far_eq : far dist used = (forward dist used).filter fun i => dist i < -1 := by
  ext j
  rw [Finset.mem_filter, mem_far, mem_forward]
  constructor
  · rintro ⟨hj, hdist⟩
    exact ⟨⟨hj, by omega⟩, hdist⟩
  · rintro ⟨⟨hj, -⟩, hdist⟩
    exact ⟨hj, hdist⟩

/-- A slot at or after the frame does not matter to those before it. -/
theorem forward_insert_of_backward (hi : i ∈ backward dist used) :
    forward dist (insert i used) = forward dist used := by
  rw [forward_insert]
  refine Finset.erase_eq_of_notMem ?_
  rw [mem_forward]
  have := (mem_backward.mp hi).2
  omega

theorem take_refFrameIdx : (s.take k o).refFrameIdx l =
    if l = k then o.or (s.refFrameIdx k) else s.refFrameIdx l := by
  cases o with
  | none =>
    by_cases hl : l = k <;> simp [FrameRefs.take, hl]
  | some i =>
    by_cases hl : l = k <;> simp [FrameRefs.take, hl]

theorem take_usedFrame : (s.take k o).usedFrame = o.elim s.usedFrame (insert · s.usedFrame) := by
  cases o <;> rfl

/-- The state of the parser that belongs to a set of used slots. -/
def marked (dist : Slot → Int) (s : FrameRefs) : ShortRefs := ⟨s.refFrameIdx, mark dist s.usedFrame⟩

theorem useFound_marked : (marked dist s).useFound k o = marked dist (s.take k o) := by
  cases o with
  | none => rfl
  | some i => simp [ShortRefs.useFound, ShortRefs.use, marked, FrameRefs.take, update_mark]

/-- A turn of the last loop of the parser on sets. -/
def FrameRefs.takeAdjacent (dist : Slot → Int) (e : Slot) (s : FrameRefs) (k : Fin 7) : FrameRefs :=
  if (s.refFrameIdx k).isSome then s
  else s.take k (some ((latest dist (adjacent dist s.usedFrame)).getD e))

theorem fill_marked (hb : Bounded dist) :
    (marked dist s).fill (some e) k = some (marked dist (s.takeAdjacent dist e k)) := by
  have huse : ∀ i, (marked dist s).use k i = marked dist (s.take k (some i)) :=
    fun i => useFound_marked (o := some i)
  unfold ShortRefs.fill FrameRefs.takeAdjacent
  by_cases hset : (s.refFrameIdx k).isSome
  · rw [if_pos hset, if_pos (show ((marked dist s).refidx k).isSome from hset)]
  · rw [if_neg hset, if_neg (show ¬ ((marked dist s).refidx k).isSome from hset)]
    have hfind : findLatest (marked dist s).frameOffs = latest dist (adjacent dist s.usedFrame) :=
      findLatest_mark hb
    rw [hfind]
    cases latest dist (adjacent dist s.usedFrame) with
    | none => simp [huse]
    | some i => simp [huse]

theorem foldlM_fill_marked (hb : Bounded dist) (ks : List (Fin 7)) :
    ks.foldlM (ShortRefs.fill (some e)) (marked dist s) =
      some (marked dist (ks.foldl (FrameRefs.takeAdjacent dist e) s)) := by
  induction ks generalizing s with
  | nil => rfl
  | cons k ks ih =>
    rw [List.foldlM_cons, fill_marked hb]
    exact ih

/-- The pick of BWDREF and ALTREF2 by the parser. -/
def pickBwdref (dist : Slot → Int) (used : Finset Slot) : Option Slot :=
  (earliest dist (backward dist used)).or (earliest dist (far dist used))

/-- The references of the parser, on sets. -/
def parsedRefs (dist : Slot → Int) (last golden e : Slot) : FrameRefs :=
  let s : FrameRefs :=
    ⟨![some last, none, none, some golden, some 0, some 0, some 0], {last, golden}⟩
  let s := s.take 6 (latest dist (backward dist s.usedFrame))
  let s := s.take 4 (pickBwdref dist s.usedFrame)
  let s := s.take 5 (pickBwdref dist s.usedFrame)
  ([1, 2, 3, 4, 5, 6] : List (Fin 7)).foldl (FrameRefs.takeAdjacent dist e) s

theorem exists_earliest (dist : Slot → Int) : ∃ e, earliest dist Finset.univ = some e := by
  rw [← Option.ne_none_iff_exists']
  intro hnone
  exact Finset.univ_nonempty.ne_empty (earliest_eq_none_iff.mp hnone)

/-- The parser on eight valid slots. -/
theorem shortSignaling_eq {bits cur : Nat} {prev : Slot → Nat} {last golden : Slot}
    (hbits : bits ≤ 8)
    (he : earliest (fun i => relativeDist bits (prev i) cur) Finset.univ = some e) :
    shortSignaling bits (fun i => some (prev i)) cur last golden =
      some (parsedRefs (fun i => relativeDist bits (prev i) cur) last golden e).refFrameIdx := by
  have hb : Bounded fun i => relativeDist bits (prev i) cur := fun i => relativeDist_bounds hbits
  have hoffs : (fun i : Slot => (some (prev i)).elim intMax fun hint =>
      (getRelativeDist bits (BitVec.ofNat 32 hint) (BitVec.ofNat 32 cur)).toInt) =
      fun i => relativeDist bits (prev i) cur := by
    funext i
    exact getRelativeDist_eq hbits
  unfold shortSignaling
  rw [hoffs]
  generalize (fun i => relativeDist bits (prev i) cur) = dist at he hb ⊢
  have hmark : Function.update (Function.update dist last intMin) golden intMin =
      mark dist {last, golden} := by
    have hnone : dist = mark dist ∅ := by
      funext i
      simp [mark]
    nth_rewrite 1 [hnone]
    rw [update_mark, update_mark]
    congr 1
    ext i
    simp
    tauto
  have hearliest : scanBest (fun i => (some (prev i)).isSome) dist
      (fun off earliest => decide (off < earliest)) intMax = some e := by
    rw [← he]
    refine scanBest_eq ?_ ?_ ?_
    · intro i
      have hlt : dist i < intMax := (hb i).2.trans (by decide)
      simp [hlt]
    · intro i j _ _
      have hlt : dist i < intMax := (hb i).2.trans (by decide)
      simp [hlt]
    · intro j _ i _ hlt
      have : j.val < i.val := hlt
      simp only [decide_eq_true_eq, hintKey]
      omega
  dsimp only
  rw [hearliest, hmark]
  have hstart : (⟨![some last, none, none, some golden, some 0, some 0, some 0],
      mark dist {last, golden}⟩ : ShortRefs) =
      marked dist ⟨![some last, none, none, some golden, some 0, some 0, some 0], {last, golden}⟩ :=
        rfl
  have hbwd : ∀ s, findBwdref (marked dist s).frameOffs = pickBwdref dist s.usedFrame :=
    fun s => findBwdref_mark hb
  rw [hstart, findAltref_mark hb]
  simp only [useFound_marked, hbwd, foldlM_fill_marked hb, Option.map_some]
  have hrefs : ∀ s, (marked dist s).refidx = s.refFrameIdx := fun _ => rfl
  rw [hrefs, parsedRefs]

end Sets

section LastLoop

variable {dist : Slot → Int} {used P : Finset Slot} {i j e p q : Slot} {s t : FrameRefs}
  {k l : Fin 7}

theorem takeForward_of_isSome (h : (s.refFrameIdx k).isSome) : s.takeForward dist k = s := if_pos h

theorem takeForward_of_none (h : s.refFrameIdx k = none) :
    s.takeForward dist k = s.take k (latest dist (forward dist s.usedFrame)) := by
  simp [FrameRefs.takeForward, h]

theorem takeForward_other (h : l ≠ k) : (s.takeForward dist k).refFrameIdx l = s.refFrameIdx l := by
  unfold FrameRefs.takeForward
  split
  · rfl
  · rw [take_refFrameIdx, if_neg h]

theorem takeAdjacent_of_isSome (h : (s.refFrameIdx k).isSome) : s.takeAdjacent dist e k =
    s := if_pos h

theorem takeAdjacent_of_none (h : s.refFrameIdx k = none) : s.takeAdjacent dist e k =
    s.take k (some ((latest dist (adjacent dist s.usedFrame)).getD e)) := by
  simp [FrameRefs.takeAdjacent, h]

/-- A reference that is set stays. -/
theorem foldl_takeAdjacent (ks : List (Fin 7)) (h : s.refFrameIdx l = some i) :
    (ks.foldl (FrameRefs.takeAdjacent dist e) s).refFrameIdx l = some i := by
  induction ks generalizing s with
  | nil => exact h
  | cons k ks ih =>
    apply ih
    unfold FrameRefs.takeAdjacent
    split
    · exact h
    · rename_i hnone
      have hne : l ≠ k := by
        rintro rfl
        simp [h] at hnone
      rw [take_refFrameIdx, if_neg hne]
      exact h

/-- What both loops take among the slots `P` before the frame is the same, when the latest of them
is just before the frame or the earliest of all. -/
theorem pick_eq_iff (hneg : ∀ i ∈ P, dist i < 0) :
    (latest dist P).or (some e) = some ((latest dist (P.filter fun i => dist i = -1)).getD e) ↔
      ∀ p, latest dist P = some p → dist p = -1 ∨ p = e := by
  cases hp : latest dist P with
  | none =>
    have hempty := latest_eq_none_iff.mp hp
    have hnone : latest dist (P.filter fun i => dist i = -1) = none := by
      rw [latest_eq_none_iff, hempty]
      rfl
    simp [hnone]
  | some p =>
    obtain ⟨hmem, hmax⟩ := latest_eq_some_iff.mp hp
    by_cases hone : dist p = -1
    · have hsame : latest dist (P.filter fun i => dist i = -1) = some p := by
        rw [latest_eq_some_iff, Finset.mem_filter]
        refine ⟨⟨hmem, hone⟩, ?_⟩
        intro j hj
        exact hmax j (Finset.mem_filter.mp hj).1
      simp [hsame, hone]
    · have hnone : latest dist (P.filter fun i => dist i = -1) = none := by
        rw [latest_eq_none_iff]
        refine Finset.eq_empty_of_forall_notMem ?_
        intro j hj
        obtain ⟨hjP, hj⟩ := Finset.mem_filter.mp hj
        have hkey : 8 * dist j + (j.val : Int) ≤ 8 * dist p + p.val := hmax j hjP
        have := hneg p hmem
        have := p.isLt
        omega
      simp [hnone, hone]

/-- Two picks in a row. -/
theorem two_picks_eq_iff (hneg : ∀ i ∈ P, dist i < 0) :
    ((latest dist P).or (some e) = some ((latest dist (P.filter fun i => dist i = -1)).getD e) ∧
      (latest dist ((latest dist P).elim P P.erase)).or (some e) = some ((latest dist ((P.erase
        ((latest dist (P.filter fun i => dist i = -1)).getD e)).filter fun i => dist i =
        -1)).getD e)) ↔
    (∀ p, latest dist P = some p → dist p = -1 ∨ p = e) ∧
      ∀ p q, latest dist P = some p → latest dist (P.erase p) = some q → dist q = -1 ∨ q = e := by
  rw [← pick_eq_iff hneg]
  refine and_congr_right fun hfirst => ?_
  cases hp : latest dist P with
  | none =>
    have hempty := latest_eq_none_iff.mp hp
    subst hempty
    simp
  | some p =>
    rw [hp, Option.some_or, Option.some.injEq] at hfirst
    rw [← hfirst, Option.elim_some, pick_eq_iff fun i hi => hneg i (Finset.mem_of_mem_erase hi)]
    constructor
    · intro h p' q hp' hq
      obtain rfl := Option.some.inj hp'
      exact h q hq
    · intro h q hq
      exact h p q rfl hq

/-- Of four slots before the frame, the third latest is not what BWDREF takes when it should not. -/
theorem third_ne (hneg : ∀ i ∈ P, dist i < 0) (hcard : 4 ≤ P.card) {p₁ p₂ p₃ : Slot}
    (h₃ : latest dist ((P.erase p₁).erase p₂) = some p₃) :
    p₃ ≠ (earliest dist (P.filter fun i => dist i < -1)).getD 0 := by
  obtain ⟨hmem, hmax⟩ := latest_eq_some_iff.mp h₃
  obtain ⟨q, hq⟩ : ∃ q, q ∈ (((P.erase p₁).erase p₂).erase p₃) := by
    refine Finset.card_pos.mp ?_
    rw [Finset.card_erase_of_mem hmem]
    have h₁ := Finset.pred_card_le_card_erase (s := P) (a := p₁)
    have h₂ := Finset.pred_card_le_card_erase (s := P.erase p₁) (a := p₂)
    omega
  obtain ⟨hne, hqP⟩ := Finset.mem_erase.mp hq
  have hle : hintKey dist q ≤ hintKey dist p₃ := hmax q hqP
  have hlt : hintKey dist q < hintKey dist p₃ := by
    refine lt_of_le_of_ne hle ?_
    intro heq
    exact hne (hintKey_injective heq)
  have hqmem : q ∈ P := Finset.mem_of_mem_erase (Finset.mem_of_mem_erase hqP)
  have hq8 := q.isLt
  have hp8 := p₃.isLt
  unfold hintKey at hlt
  cases hfar : earliest dist (P.filter fun i => dist i < -1) with
  | none =>
    have hempty := earliest_eq_none_iff.mp hfar
    have hone : ∀ i ∈ P, dist i = -1 := by
      intro i hi
      have hnot : i ∉ P.filter fun i => dist i < -1 := by
        rw [hempty]
        exact Finset.notMem_empty i
      rw [Finset.mem_filter, not_and] at hnot
      have := hnot hi
      have := hneg i hi
      omega
    have := hone q hqmem
    have := hone p₃ (Finset.mem_of_mem_erase (Finset.mem_of_mem_erase hmem))
    rw [Option.getD_none]
    rintro rfl
    simp only [Fin.val_zero] at hlt
    omega
  | some m =>
    rw [Option.getD_some]
    rintro rfl
    obtain ⟨hm, hmin⟩ := earliest_eq_some_iff.mp hfar
    have hdist := (Finset.mem_filter.mp hm).2
    have hqfar : q ∈ P.filter fun i => dist i < -1 := by
      rw [Finset.mem_filter]
      exact ⟨hqmem, by omega⟩
    have := hmin q hqfar
    unfold hintKey at this
    omega

theorem foldl_takeForward_two (h₁ : s.refFrameIdx 1 = none) (h₂ : s.refFrameIdx 2 = none)
    (h₄ : (s.refFrameIdx 4).isSome) (h₅ : (s.refFrameIdx 5).isSome)
    (h₆ : (s.refFrameIdx 6).isSome) :
    ([1, 2, 4, 5, 6] : List (Fin 7)).foldl (FrameRefs.takeForward dist) s =
      let s₁ := s.take 1 (latest dist (forward dist s.usedFrame))
      s₁.take 2 (latest dist (forward dist s₁.usedFrame)) := by
  have hkeep : ∀ k : Fin 7, k ≠ 1 → k ≠ 2 →
      ((s.takeForward dist 1).takeForward dist 2).refFrameIdx k = s.refFrameIdx k := by
    intro k hk₁ hk₂
    rw [takeForward_other hk₂, takeForward_other hk₁]
  simp only [List.foldl_cons, List.foldl_nil]
  rw [takeForward_of_isSome (k := 4) (by rw [hkeep 4 (by decide) (by decide)]; exact h₄),
    takeForward_of_isSome (k := 5) (by rw [hkeep 5 (by decide) (by decide)]; exact h₅),
    takeForward_of_isSome (k := 6) (by rw [hkeep 6 (by decide) (by decide)]; exact h₆),
    takeForward_of_none h₁, takeForward_of_none]
  rw [take_refFrameIdx, if_neg (by decide)]
  exact h₂

theorem foldl_takeAdjacent_two (h₁ : s.refFrameIdx 1 = none) (h₂ : s.refFrameIdx 2 = none)
    (h₃ : (s.refFrameIdx 3).isSome) (h₄ : (s.refFrameIdx 4).isSome) (h₅ : (s.refFrameIdx 5).isSome)
    (h₆ : (s.refFrameIdx 6).isSome) :
    ([1, 2, 3, 4, 5, 6] : List (Fin 7)).foldl (FrameRefs.takeAdjacent dist e) s =
      let s₁ := s.take 1 (some ((latest dist (adjacent dist s.usedFrame)).getD e))
      s₁.take 2 (some ((latest dist (adjacent dist s₁.usedFrame)).getD e)) := by
  have hkeep : ∀ k : Fin 7, (s.refFrameIdx k).isSome →
      (((s.takeAdjacent dist e 1).takeAdjacent dist e 2).refFrameIdx k).isSome := by
    intro k hk
    obtain ⟨i, hi⟩ := Option.isSome_iff_exists.mp hk
    have hset : ((s.takeAdjacent dist e 1).takeAdjacent dist e 2).refFrameIdx k = some i :=
      foldl_takeAdjacent [1, 2] hi
    rw [hset]
    rfl
  simp only [List.foldl_cons, List.foldl_nil]
  rw [takeAdjacent_of_isSome (k := 3) (hkeep 3 h₃), takeAdjacent_of_isSome (k := 4) (hkeep 4 h₄),
    takeAdjacent_of_isSome (k := 5) (hkeep 5 h₅), takeAdjacent_of_isSome (k := 6) (hkeep 6 h₆),
    takeAdjacent_of_none h₁, takeAdjacent_of_none]
  rw [take_refFrameIdx, if_neg (by decide)]
  exact h₂

end LastLoop

section Compare

variable {dist : Slot → Int} {last golden e : Slot}

/-- With three slots at or after the frame, the two processes differ in LAST2 and LAST3 at most. -/
theorem refs_eq_iff_of_three (hthree : 3 ≤ (backward dist {last, golden}).card)
    (he : earliest dist Finset.univ = some e) :
    (parsedRefs dist last golden e).refFrameIdx = setFrameRefs dist last golden ↔
      (∀ p, latest dist (forward dist {last, golden}) = some p → dist p = -1 ∨ p = e) ∧
        ∀ p q, latest dist (forward dist {last, golden}) = some p →
          latest dist ((forward dist {last, golden}).erase p) = some q → dist q = -1 ∨ q = e := by
  obtain ⟨a, ha⟩ : ∃ a, latest dist (backward dist {last, golden}) = some a := by
    rw [← Option.ne_none_iff_exists', ne_eq, latest_eq_none_iff, ← Finset.card_eq_zero]
    omega
  have hamem := (latest_eq_some_iff.mp ha).1
  have hcard₁ := Finset.card_erase_of_mem hamem
  obtain ⟨b, hb⟩ : ∃ b, earliest dist (backward dist (insert a {last, golden})) = some b := by
    rw [← Option.ne_none_iff_exists', ne_eq, earliest_eq_none_iff, ← Finset.card_eq_zero,
      backward_insert]
    omega
  have hbmem := (earliest_eq_some_iff.mp hb).1
  obtain ⟨c, hc⟩ : ∃ c, earliest dist (backward dist (insert b (insert a {last, golden}))) =
      some c := by
    have hcard₂ := Finset.card_erase_of_mem hbmem
    rw [backward_insert, hcard₁] at hcard₂
    rw [← Option.ne_none_iff_exists', ne_eq, earliest_eq_none_iff, ← Finset.card_eq_zero,
      backward_insert, backward_insert]
    omega
  have hcmem := (earliest_eq_some_iff.mp hc).1
  have hforward : forward dist (insert c (insert b (insert a {last, golden}))) =
      forward dist {last, golden} := by
    rw [forward_insert_of_backward hcmem, forward_insert_of_backward hbmem,
      forward_insert_of_backward hamem]
  let s : FrameRefs :=
    ⟨![some last, none, none, some golden, some b, some c, some a],
      insert c (insert b (insert a {last, golden}))⟩
  have hvec : ∀ x : Option Slot, Function.update (Function.update (Function.update
      ![some last, none, none, some golden, x, x, x] 6 (some a)) 4 (some b)) 5 (some c) =
      ![some last, none, none, some golden, some b, some c, some a] := by
    intro x
    funext k
    fin_cases k <;> rfl
  have hspec : setFrameRefs dist last golden = fun k =>
      ((([1, 2, 4, 5, 6] : List (Fin 7)).foldl (FrameRefs.takeForward dist) s).refFrameIdx k).or
        (some e) := by
    simp only [setFrameRefs, FrameRefs.take, ha, hb, hc, he, hvec, s]
  have hcode : parsedRefs dist last golden e =
      ([1, 2, 3, 4, 5, 6] : List (Fin 7)).foldl (FrameRefs.takeAdjacent dist e) s := by
    simp only [parsedRefs, pickBwdref, FrameRefs.take, ha, hb, hc, hvec, s, Option.some_or]
  have hneg : ∀ i ∈ forward dist {last, golden}, dist i < 0 := fun i hi => (mem_forward.mp hi).2
  have hsome : ∀ k, k ≠ 1 → k ≠ 2 → (s.refFrameIdx k).or (some e) = s.refFrameIdx k := by
    intro k hk₁ hk₂
    have hset : (s.refFrameIdx k).isSome := by
      fin_cases k
      · rfl
      · exact absurd rfl hk₁
      · exact absurd rfl hk₂
      · rfl
      · rfl
      · rfl
      · rfl
    exact Option.or_of_isSome hset
  have hused : ∀ o : Option Slot, forward dist (s.take 1 o).usedFrame =
      o.elim (forward dist {last, golden}) (forward dist {last, golden}).erase := by
    intro o
    rw [take_usedFrame]
    cases o with
    | none => exact hforward
    | some i => rw [Option.elim_some, Option.elim_some, forward_insert, hforward]
  rw [← two_picks_eq_iff hneg, hspec, hcode, foldl_takeForward_two rfl rfl rfl rfl rfl,
    foldl_takeAdjacent_two rfl rfl rfl rfl rfl rfl]
  have hone : ∀ x y, ((s.take 1 x).take 2 y).refFrameIdx 1 = x := by
    intro x y
    rw [take_refFrameIdx, if_neg (by decide), take_refFrameIdx, if_pos rfl]
    exact Option.or_none
  have htwo : ∀ x y, ((s.take 1 x).take 2 y).refFrameIdx 2 = y := by
    intro x y
    rw [take_refFrameIdx, if_pos rfl, take_refFrameIdx, if_neg (by decide)]
    exact Option.or_none
  have hrest : ∀ x y k, k ≠ 1 → k ≠ 2 →
      ((s.take 1 x).take 2 y).refFrameIdx k = s.refFrameIdx k := by
    intro x y k hk₁ hk₂
    rw [take_refFrameIdx, if_neg hk₂, take_refFrameIdx, if_neg hk₁]
  simp only [adjacent_eq, hused, Option.elim_some]
  rw [show forward dist s.usedFrame = forward dist {last, golden} from hforward]
  constructor
  · intro h
    have h₁ := congrFun h 1
    have h₂ := congrFun h 2
    rw [hone, hone] at h₁
    rw [htwo, htwo] at h₂
    exact ⟨h₁.symm, h₂.symm⟩
  · rintro ⟨h₁, h₂⟩
    funext k
    by_cases hk₁ : k = 1
    · rw [hk₁, hone, hone, h₁]
    by_cases hk₂ : k = 2
    · rw [hk₂, htwo, htwo, h₂]
    rw [hrest _ _ k hk₁ hk₂, hrest _ _ k hk₁ hk₂, hsome k hk₁ hk₂]

/-- At least three slots besides LAST and GOLDEN have a hint at or after the frame's. -/
def ThreeBackward (dist : Slot → Int) (last golden : Slot) : Prop :=
  3 ≤ (backward dist {last, golden}).card

/-- Of the other slots with a hint before the frame's, the two latest are just before the frame, or
have the earliest hint of all slots. -/
def TwoAdjacent (dist : Slot → Int) (last golden : Slot) : Prop :=
  ∀ i ∈ forward dist {last, golden},
    (∀ j ∈ forward dist {last, golden}, ∀ k ∈ forward dist {last, golden},
      hintKey dist i < hintKey dist j → hintKey dist i < hintKey dist k → j = k) →
    dist i = -1 ∨ ∀ j, hintKey dist i ≤ hintKey dist j

instance : Decidable (ThreeBackward dist last golden) := inferInstanceAs (Decidable (_ ≤ _))

theorem twoAdjacent_iff (he : earliest dist Finset.univ = some e) :
    TwoAdjacent dist last golden ↔
      (∀ p, latest dist (forward dist {last, golden}) = some p → dist p = -1 ∨ p = e) ∧
        ∀ p q, latest dist (forward dist {last, golden}) = some p →
          latest dist ((forward dist {last, golden}).erase p) = some q → dist q = -1 ∨ q = e := by
  have hearliest : ∀ i, (∀ j, hintKey dist i ≤ hintKey dist j) ↔ i = e := by
    intro i
    constructor
    · intro hmin
      have hi : earliest dist Finset.univ = some i :=
        earliest_eq_some_iff.mpr ⟨Finset.mem_univ i, fun j _ => hmin j⟩
      exact Option.some.inj (hi.symm.trans he)
    · rintro rfl j
      exact (earliest_eq_some_iff.mp he).2 j (Finset.mem_univ j)
  unfold TwoAdjacent
  simp only [hearliest]
  constructor
  · intro h
    refine ⟨?_, ?_⟩
    · intro p hp
      obtain ⟨hmem, hmax⟩ := latest_eq_some_iff.mp hp
      refine h p hmem ?_
      intro j hj k hk hlt
      exact absurd (hmax j hj) (not_le.mpr hlt)
    · intro p q hp hq
      obtain ⟨hmem, hmax⟩ := latest_eq_some_iff.mp hq
      have honly : ∀ j ∈ forward dist {last, golden}, hintKey dist q < hintKey dist j → j = p := by
        intro j hj hlt
        by_contra hne
        exact absurd (hmax j (Finset.mem_erase.mpr ⟨hne, hj⟩)) (not_le.mpr hlt)
      refine h q (Finset.mem_of_mem_erase hmem) ?_
      intro j hj k hk hltj hltk
      rw [honly j hj hltj, honly k hk hltk]
  · rintro ⟨hfirst, hsecond⟩ i hi hlater
    obtain ⟨p, hp⟩ : ∃ p, latest dist (forward dist {last, golden}) = some p := by
      rw [← Option.ne_none_iff_exists', ne_eq, latest_eq_none_iff]
      exact Finset.ne_empty_of_mem hi
    by_cases hip : i = p
    · rw [hip]
      exact hfirst p hp
    · obtain ⟨hmem, hmax⟩ := latest_eq_some_iff.mp hp
      have hlt : hintKey dist i < hintKey dist p :=
        lt_of_le_of_ne (hmax i hi) fun heq => hip (hintKey_injective heq)
      refine hsecond p i hp (latest_eq_some_iff.mpr ⟨Finset.mem_erase.mpr ⟨hip, hi⟩, ?_⟩)
      intro j hj
      obtain ⟨hne, hj⟩ := Finset.mem_erase.mp hj
      by_contra hlt'
      exact hne (hlater j hj p hmem (not_le.mp hlt') hlt)

theorem card_backward_add_forward (used : Finset Slot) :
    (backward dist used).card + (forward dist used).card + used.card = 8 := by
  have hback : backward dist used = usedᶜ.filter fun i => 0 ≤ dist i := by
    ext i
    rw [mem_backward, Finset.mem_filter, Finset.mem_compl]
  have hfor : forward dist used = usedᶜ.filter fun i => ¬ 0 ≤ dist i := by
    ext i
    rw [mem_forward, Finset.mem_filter, Finset.mem_compl, not_le]
  rw [hback, hfor, Finset.card_filter_add_card_filter_not, Finset.card_compl_add_card]
  rfl

variable {s : FrameRefs}

/-- LAST2 and LAST3 take the two latest slots before the frame. -/
theorem takeForward_two (h₁ : s.refFrameIdx 1 = none) (h₂ : s.refFrameIdx 2 = none)
    (hcard : 4 ≤ (forward dist s.usedFrame).card) : ∃ p₁ p₂ p₃,
      (s.takeForward dist 1).takeForward dist 2 = (s.take 1 (some p₁)).take 2 (some p₂) ∧
      latest dist (((forward dist s.usedFrame).erase p₁).erase p₂) = some p₃ := by
  have hpick : ∀ S : Finset Slot, 0 < S.card → ∃ p, latest dist S = some p := by
    intro S hS
    rw [← Option.ne_none_iff_exists', ne_eq, latest_eq_none_iff, ← Finset.card_eq_zero]
    omega
  obtain ⟨p₁, hp₁⟩ := hpick (forward dist s.usedFrame) (by omega)
  have hcard₁ := Finset.card_erase_of_mem (latest_eq_some_iff.mp hp₁).1
  obtain ⟨p₂, hp₂⟩ := hpick ((forward dist s.usedFrame).erase p₁) (by omega)
  have hcard₂ := Finset.card_erase_of_mem (latest_eq_some_iff.mp hp₂).1
  obtain ⟨p₃, hp₃⟩ := hpick (((forward dist s.usedFrame).erase p₁).erase p₂) (by omega)
  refine ⟨p₁, p₂, p₃, ?_, hp₃⟩
  rw [takeForward_of_none h₁, hp₁, takeForward_of_none]
  · rw [take_usedFrame, Option.elim_some, forward_insert, hp₂]
  · rw [take_refFrameIdx, if_neg (by decide)]
    exact h₂

/-- The third latest goes to BWDREF, or to ALTREF2 when BWDREF is set. -/
theorem foldl_takeForward_third (h₁ : s.refFrameIdx 1 = none)
    (h₂ : s.refFrameIdx 2 = none) {k : Fin 7} (hk : k = 4 ∨ k = 5 ∧ (s.refFrameIdx 4).isSome)
    (hnone : s.refFrameIdx k = none) (hcard : 4 ≤ (forward dist s.usedFrame).card) : ∃ p₁ p₂ p₃,
      latest dist (((forward dist s.usedFrame).erase p₁).erase p₂) = some p₃ ∧
      (([1, 2, 4, 5, 6] : List (Fin 7)).foldl (FrameRefs.takeForward dist) s).refFrameIdx k =
      some p₃ := by
  obtain ⟨p₁, p₂, p₃, hs, hp₃⟩ := takeForward_two h₁ h₂ hcard
  refine ⟨p₁, p₂, p₃, hp₃, ?_⟩
  simp only [List.foldl_cons, List.foldl_nil]
  rw [hs]
  have hkeep : ∀ j : Fin 7, j ≠ 1 → j ≠ 2 →
      ((s.take 1 (some p₁)).take 2 (some p₂)).refFrameIdx j = s.refFrameIdx j := by
    intro j hj₁ hj₂
    rw [take_refFrameIdx, if_neg hj₂, take_refFrameIdx, if_neg hj₁]
  have hused : forward dist ((s.take 1 (some p₁)).take 2 (some p₂)).usedFrame =
      ((forward dist s.usedFrame).erase p₁).erase p₂ := by
    rw [take_usedFrame, take_usedFrame, Option.elim_some, Option.elim_some, forward_insert,
      forward_insert]
  rcases hk with rfl | ⟨rfl, hset⟩
  · rw [takeForward_other (by decide), takeForward_other (by decide), takeForward_of_none, hused,
      hp₃, take_refFrameIdx, if_pos rfl, Option.some_or]
    rw [hkeep 4 (by decide) (by decide)]
    exact hnone
  · rw [takeForward_other (by decide), takeForward_of_isSome (k := 4), takeForward_of_none, hused,
      hp₃, take_refFrameIdx, if_pos rfl, Option.some_or]
    · rw [hkeep 5 (by decide) (by decide)]
      exact hnone
    · rw [hkeep 4 (by decide) (by decide)]
      exact hset

/-- With at most one slot left for BWDREF and ALTREF2, one of the two is wrong. -/
theorem refs_ne_of_one {t : FrameRefs} (hused : t.usedFrame = s.usedFrame)
    (h₁ : s.refFrameIdx 1 = none) (h₂ : s.refFrameIdx 2 = none) (h₄ : s.refFrameIdx 4 = none)
    (h₅ : s.refFrameIdx 5 = none) (ht₄ : t.refFrameIdx 4 = some 0) (ht₅ : t.refFrameIdx 5 = some 0)
    (hcard : 4 ≤ (forward dist s.usedFrame).card) (hone : (backward dist s.usedFrame).card ≤ 1) :
    let s₁ := s.take 4 (earliest dist (backward dist s.usedFrame))
    let s₂ := s₁.take 5 (earliest dist (backward dist s₁.usedFrame))
    let t₁ := t.take 4 (pickBwdref dist t.usedFrame)
    let t₂ := t₁.take 5 (pickBwdref dist t₁.usedFrame)
    ∃ k, (([1, 2, 3, 4, 5, 6] : List (Fin 7)).foldl (FrameRefs.takeAdjacent dist e) t₂).refFrameIdx
      k ≠
      ((([1, 2, 4, 5, 6] : List (Fin 7)).foldl (FrameRefs.takeForward dist) s₂).refFrameIdx k).or
        (some e) := by
  intro s₁ s₂ t₁ t₂
  have hneg : ∀ i ∈ forward dist s.usedFrame, dist i < 0 := fun i hi => (mem_forward.mp hi).2
  cases hb : earliest dist (backward dist s.usedFrame) with
  | none =>
    have hs : s₂ = s := by
      simp only [s₂, s₁, hb, FrameRefs.take]
    obtain ⟨p₁, p₂, p₃, hp₃, hspec⟩ := foldl_takeForward_third h₁ h₂ (.inl rfl) h₄ hcard
    have hset : t₂.refFrameIdx 4 = some ((earliest dist (far dist s.usedFrame)).getD 0) := by
      simp only [t₂, t₁, take_refFrameIdx, pickBwdref, hused, hb, ht₄, Option.none_or]
      rw [if_neg (by decide), if_pos trivial]
      cases earliest dist (far dist s.usedFrame) <;> rfl
    refine ⟨4, ?_⟩
    rw [foldl_takeAdjacent _ hset, hs, hspec, Option.some_or, far_eq]
    intro heq
    exact third_ne hneg hcard hp₃ (Option.some.inj heq).symm
  | some b =>
    have hmem := (earliest_eq_some_iff.mp hb).1
    have hback : earliest dist (backward dist (insert b s.usedFrame)) = none := by
      have hcard₁ := Finset.card_erase_of_mem hmem
      rw [earliest_eq_none_iff, backward_insert, ← Finset.card_eq_zero]
      omega
    have hs₁ : s₁ = s.take 4 (some b) := by
      simp only [s₁, hb]
    have hs : s₂ = s.take 4 (some b) := by
      have hnext : s₁.usedFrame = insert b s.usedFrame := by
        rw [hs₁, take_usedFrame, Option.elim_some]
      simp only [s₂, hnext, hback]
      exact hs₁
    have hforward : forward dist s₂.usedFrame = forward dist s.usedFrame := by
      rw [hs, take_usedFrame, Option.elim_some, forward_insert_of_backward hmem]
    have hs₂ : ∀ k : Fin 7, k ≠ 4 → s₂.refFrameIdx k = s.refFrameIdx k := by
      intro k hk
      rw [hs, take_refFrameIdx, if_neg hk]
    have hset₄ : (s₂.refFrameIdx 4).isSome := by
      rw [hs, take_refFrameIdx, if_pos rfl]
      rfl
    have hcard₂ : 4 ≤ (forward dist s₂.usedFrame).card := by
      rw [hforward]
      exact hcard
    obtain ⟨p₁, p₂, p₃, hp₃, hspec⟩ := foldl_takeForward_third
      ((hs₂ 1 (by decide)).trans h₁) ((hs₂ 2 (by decide)).trans h₂) (.inr ⟨rfl, hset₄⟩)
      ((hs₂ 5 (by decide)).trans h₅) hcard₂
    rw [hforward] at hp₃
    have hnext : t₁.usedFrame = insert b s.usedFrame := by
      simp only [t₁, take_usedFrame, pickBwdref, hused, hb, Option.some_or, Option.elim_some]
    have hset : t₂.refFrameIdx 5 = some ((earliest dist (far dist s.usedFrame)).getD 0) := by
      have hfar : far dist (insert b s.usedFrame) = far dist s.usedFrame := by
        rw [far_eq, far_eq, forward_insert_of_backward hmem]
      have hzero : t₁.refFrameIdx 5 = some 0 := by
        simp only [t₁, take_refFrameIdx]
        rw [if_neg (by decide)]
        exact ht₅
      simp only [t₂, take_refFrameIdx, pickBwdref, hnext, hback, hfar, hzero, Option.none_or]
      rw [if_pos trivial]
      cases earliest dist (far dist s.usedFrame) <;> rfl
    refine ⟨5, ?_⟩
    rw [foldl_takeAdjacent _ hset, hspec, Option.some_or, far_eq]
    intro heq
    exact third_ne hneg hcard hp₃ (Option.some.inj heq).symm

/-- With fewer than three slots at or after the frame, BWDREF or ALTREF2 has a wrong slot. -/
theorem refs_ne_of_few (hfew : ¬ ThreeBackward dist last golden)
    (he : earliest dist Finset.univ = some e) :
    (parsedRefs dist last golden e).refFrameIdx ≠ setFrameRefs dist last golden := by
  intro heq
  have hcards : (backward dist {last, golden}).card ≤ 2 ∧
      4 ≤ (forward dist {last, golden}).card := by
    have hused := Finset.card_le_two (a := last) (b := golden)
    have hsum : (backward dist {last, golden}).card + (forward dist {last, golden}).card +
      ({last, golden} : Finset Slot).card = 8 := card_backward_add_forward _
    unfold ThreeBackward at hfew
    omega
  unfold parsedRefs setFrameRefs at heq
  rw [he] at heq
  dsimp only at heq
  have hsets : ∀ x, latest dist (backward dist {last, golden}) = x →
      4 ≤ (forward dist (x.elim {last, golden} (insert · {last, golden}))).card ∧
      (backward dist (x.elim {last, golden} (insert · {last, golden}))).card ≤ 1 := by
    intro x hx
    cases x with
    | none =>
      rw [Option.elim_none]
      rw [latest_eq_none_iff.mp hx, Finset.card_empty]
      exact ⟨hcards.2, by omega⟩
    | some a =>
      have hmem := (latest_eq_some_iff.mp hx).1
      have hcard := Finset.card_erase_of_mem hmem
      rw [Option.elim_some, forward_insert_of_backward hmem, backward_insert]
      omega
  have hcard := hsets _ rfl
  generalize latest dist (backward dist {last, golden}) = x at heq hcard
  obtain ⟨s₀, hs₀⟩ : ∃ s : FrameRefs,
      s = ⟨![some last, none, none, some golden, none, none, none], {last, golden}⟩ := ⟨_, rfl⟩
  obtain ⟨t₀, ht₀⟩ : ∃ t : FrameRefs,
      t = ⟨![some last, none, none, some golden, some 0, some 0, some 0], {last, golden}⟩ :=
        ⟨_, rfl⟩
  rw [← hs₀, ← ht₀] at heq
  have hs : ∀ k : Fin 7, k ≠ 6 → (s₀.take 6 x).refFrameIdx k =
      ![some last, none, none, some golden, none, none, none] k := by
    intro k hk
    rw [take_refFrameIdx, if_neg hk, hs₀]
  have ht : ∀ k : Fin 7, k ≠ 6 → (t₀.take 6 x).refFrameIdx k =
      ![some last, none, none, some golden, some 0, some 0, some 0] k := by
    intro k hk
    rw [take_refFrameIdx, if_neg hk, ht₀]
  have hus : (s₀.take 6 x).usedFrame = x.elim {last, golden} (insert · {last, golden}) := by
    rw [take_usedFrame, hs₀]
  have hut : (t₀.take 6 x).usedFrame = x.elim {last, golden} (insert · {last, golden}) := by
    rw [take_usedFrame, ht₀]
  rw [← hus] at hcard
  have hdiffer := refs_ne_of_one (e := e) (hut.trans hus.symm) (hs 1 (by decide)) (hs 2 (by decide))
    (hs 4 (by decide)) (hs 5 (by decide)) (ht 4 (by decide)) (ht 5 (by decide)) hcard.1 hcard.2
  dsimp only at hdiffer
  obtain ⟨k, hne⟩ := hdiffer
  exact hne (congrFun heq k)

/-- The parser derives the references of the standard exactly when three slots besides the explicit
ones are at or after the frame, and what LAST2 and LAST3 should take is just before it or the
earliest of all. An order hint has up to 8 bits. -/
theorem short_signaling_standard_iff (orderHintBitsMinus1 : Fin 8) (prev : Slot → Nat) (cur : Nat)
    (last golden : Slot) :
    let bits := orderHintBitsMinus1.val + 1
    let dist : Slot → Int := fun i => relativeDist bits (prev i) cur
    shortSignaling bits (fun i => some (prev i)) cur last golden =
      some (setFrameRefs dist last golden) ↔
      ThreeBackward dist last golden ∧ TwoAdjacent dist last golden := by
  intro bits dist
  obtain ⟨e, he⟩ := exists_earliest dist
  have hbits : bits ≤ 8 := orderHintBitsMinus1.isLt
  rw [shortSignaling_eq hbits he, Option.some.injEq, twoAdjacent_iff he]
  constructor
  · intro heq
    have hthree : ThreeBackward dist last golden := by
      by_contra hfew
      exact refs_ne_of_few hfew he heq
    exact ⟨hthree, (refs_eq_iff_of_three hthree he).mp heq⟩
  · rintro ⟨hthree, htwo⟩
    exact (refs_eq_iff_of_three hthree he).mpr htwo

/-- A frame after eight others, as in a stream without reordering: BWDREF is the earliest slot that
is left, and ALTREF stays slot 0. -/
theorem short_signaling_forgets_unset :
    shortSignaling 7 (fun i => some (10 + i.val)) 20 7 6 =
      some ![some 7, some 0, some 0, some 6, some 0, some 1, some 0] ∧
    setFrameRefs (fun i => relativeDist 7 (10 + i.val) 20) 7 6 =
      ![some 7, some 5, some 4, some 6, some 3, some 2, some 1] := by
  decide +kernel

end Compare

end Rkvdec.Av1
