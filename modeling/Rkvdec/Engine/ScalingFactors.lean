import Mathlib.Data.List.GetD
import Mathlib.Tactic.IntervalCases
import Rkvdec.Bitstream.SegmentHeader
import Rkvdec.Engine.PackedTables
import Rkvdec.Lib.Cuts

/-! The scaling lists of H.265 from the bits to the table of the codec: what `scaling_list_data()`
codes, what the parser stores of it, and what `H265PackScalingList` writes. -/
namespace Rkvdec.Engine.Scaling

open Lib (length_flatMap_range getD_flatMap_range)
open Bitstream (exec exec_bind exec_bind_ok exec_pure exec_throw flag brUe brSe u8 BitReader Byte)
open Tables (transpose activeScalingList packScalingList scalingListSize)
open Bitstream.H265 (P ParseResult ScalingList Sps Pps coefLoop parseScalingListOf parseScalingLists
  parseScalingListData scalingListIds diagScan4x4 diagScan8x8 defaultScalingIntra
    defaultScalingInter)

section Syntax

/-- The elements of one list: the reference with `scaling_list_pred_matrix_id_delta`, or the
coefficients with `scaling_list_dc_coef_minus8` and `scaling_list_delta_coef`. -/
inductive ListSyntax where
  | predicted (delta : Nat)
  | coded (dcCoefMinus8 : Int) (deltaCoefs : List Int)
deriving DecidableEq

def matrixStep (szId : Nat) : Nat := if szId = 3 then 3 else 1

def coefNum (szId : Nat) : Nat := if szId = 0 then 16 else 64

/-- The scan order of a size, as raster positions. -/
def scanOrder (szId : Nat) : List Nat := if szId = 0 then diagScan4x4 else diagScan8x8

def readDeltaCoefs : Nat → P (List Int)
  | 0 => pure []
  | n + 1 => do
    let delta ← brSe
    return delta :: (← readDeltaCoefs n)

def readPredicted (szId matId : Nat) : P ListSyntax := do
  let delta ← brUe
  if matId < delta * matrixStep szId then throw .invalid else return .predicted delta

def readDc (szId : Nat) : P Int :=
  if 1 < szId then do
    let dcCoefMinus8 ← brSe
    if dcCoefMinus8 < -7 ∨ 247 < dcCoefMinus8 then throw .invalid else return dcCoefMinus8
  else pure 0

def readCoded (szId : Nat) : P ListSyntax := do
  let dcCoefMinus8 ← readDc szId
  let deltaCoefs ← readDeltaCoefs (coefNum szId)
  return .coded dcCoefMinus8 deltaCoefs

/-- The syntax of one list, within the ranges of its elements. -/
def readList (szId matId : Nat) : P ListSyntax := do
  if (← flag) = false then readPredicted szId matId else readCoded szId

/-- `scaling_list_data()`: the lists that are coded, with their sizes and matrices. -/
def readLists : List (Nat × Nat) → P (List ((Nat × Nat) × ListSyntax))
  | [] => pure []
  | (szId, matId) :: rest => do
    let syn ← readList szId matId
    return ((szId, matId), syn) :: (← readLists rest)

/-- The list coded for a size and a matrix. -/
def syntaxOf (syns : List ((Nat × Nat) × ListSyntax)) (szId matId : Nat) : ListSyntax :=
  ((syns.find? fun s => s.1 = (szId, matId)).map Prod.snd).getD (.predicted 0)

end Syntax

section Meaning

/-- A scaling list in scan order, with its DC coefficient. -/
structure Factors where
  coefs : List Nat
  dc : Nat
deriving DecidableEq

/-- Table 7-6 for the intra matrices, in scan order. -/
def defaultIntra : List Nat :=
  [16, 16, 16, 16, 16, 16, 16, 16, 16, 16, 17, 16, 17, 16, 17, 18,
    17, 18, 18, 17, 18, 21, 19, 20, 21, 20, 19, 21, 24, 22, 22, 24,
    24, 22, 22, 24, 25, 25, 27, 30, 27, 25, 25, 29, 31, 35, 35, 31,
    29, 36, 41, 44, 41, 36, 47, 54, 54, 47, 65, 70, 65, 88, 88, 115]

/-- Table 7-6 for the inter matrices. -/
def defaultInter : List Nat :=
  [16, 16, 16, 16, 16, 16, 16, 16, 16, 16, 17, 17, 17, 17, 17, 18,
    18, 18, 18, 18, 18, 20, 20, 20, 20, 20, 20, 20, 24, 24, 24, 24,
    24, 24, 24, 24, 25, 25, 25, 25, 25, 25, 25, 28, 28, 28, 28, 28,
    28, 33, 33, 33, 33, 33, 41, 41, 41, 41, 54, 54, 54, 71, 71, 91]

/-- The default list of a size and a matrix. -/
def defaultFactors (szId matId : Nat) : Factors where
  coefs :=
    if szId = 0 then List.replicate 16 16 else if matId < 3 then defaultIntra else defaultInter
  dc := 16

/-- `nextCoef` after each `scaling_list_delta_coef`. -/
def accumulate : Int → List Int → List Nat
  | _, [] => []
  | nextCoef, delta :: rest =>
    ((nextCoef + delta + 256) % 256).toNat :: accumulate ((nextCoef + delta + 256) % 256) rest

/-- The scaling list of a size and a matrix: coded, predicted from a matrix before it, or the
default. -/
def factors (syn : Nat → Nat → ListSyntax) (szId matId : Nat) : Factors :=
  match syn szId matId with
  | .coded dcCoefMinus8 deltaCoefs =>
    ⟨accumulate (dcCoefMinus8 + 8) deltaCoefs, (dcCoefMinus8 + 8).toNat⟩
  | .predicted 0 => defaultFactors szId matId
  | .predicted (delta + 1) =>
    if h : (delta + 1) * matrixStep szId ≤ matId then
      factors syn szId (matId - (delta + 1) * matrixStep szId)
    else defaultFactors szId matId
termination_by matId
decreasing_by
  have : 0 < matrixStep szId := by
    unfold matrixStep
    split <;> omega
  have := Nat.mul_pos (show 0 < delta + 1 by omega) this
  omega

end Meaning

section Layout

/-- The row length of a list, as it is stored. -/
def rowLength (szId : Nat) : Nat := if szId = 0 then 4 else 8

/-- Where the table has the list of a size and a matrix. The two matrices of the largest size follow
each other. -/
def factorOffset (szId matId : Nat) : Nat :=
  match szId with
  | 0 => 16 * matId
  | 1 => 96 + 64 * matId
  | 2 => 480 + 64 * matId
  | _ => 864 + 64 * (matId / 3)

/-- Where it has the DC coefficient; those of the largest size are three bytes apart. -/
def dcOffset (szId matId : Nat) : Nat := if szId = 2 then 1344 + matId else 1350 + 3 * (matId / 3)

/-- A raster position in the transposed list. -/
def transposed (szId pos : Nat) : Nat :=
  pos % rowLength szId * rowLength szId + pos / rowLength szId

/-- The table has a list at its place: transposed, the smallest size once more as it is, and the DC
coefficient of the two larger ones. -/
structure Holds (table : List Byte) (szId matId : Nat) (f : Factors) : Prop where
  coefs : ∀ i < coefNum szId, (table.getD (factorOffset szId matId +
    transposed szId ((scanOrder szId).getD i 0)) 0).toNat = f.coefs.getD i 0
  again : szId = 0 → ∀ i < 16, (table.getD (1248 + 16 * matId + diagScan4x4.getD i 0) 0).toNat =
    f.coefs.getD i 0
  dc : 1 < szId → (table.getD (dcOffset szId matId) 0).toNat = f.dc

end Layout

section Reading

variable {o o' : ParseResult} {br br' : BitReader} {sl sl' : ScalingList} {szId matId : Nat}

/-- Coefficients at their raster positions. -/
def place (scan coefs l : List Nat) : List Nat :=
  (scan.zip coefs).foldl (fun l pc => l.set pc.1 pc.2) l

/-- What the parser makes of a list that it has read. -/
def store (sl : ScalingList) (szId matId : Nat) : ListSyntax → ScalingList
  | .predicted 0 => sl
  | .predicted (delta + 1) =>
    let src := matId - (delta + 1) * matrixStep szId
    (sl.setList szId matId (sl.list szId src)).setDc szId matId (sl.dc szId src)
  | .coded dcCoefMinus8 deltaCoefs =>
    let l := place (scanOrder szId) (accumulate (dcCoefMinus8 + 8) deltaCoefs) (sl.list szId matId)
    (sl.setDc szId matId (dcCoefMinus8 + 8).toNat).setList szId matId l

/-- The ranges of the elements of a list. -/
def ListSyntax.Fits (szId matId : Nat) : ListSyntax → Prop
  | .predicted delta => delta * matrixStep szId ≤ matId
  | .coded dcCoefMinus8 deltaCoefs =>
    -7 ≤ dcCoefMinus8 ∧ dcCoefMinus8 ≤ 247 ∧ deltaCoefs.length = coefNum szId

theorem readDeltaCoefs_of_coefLoop {scan l l' : List Nat} {nextCoef : Int}
    (h : exec (coefLoop scan nextCoef l) o br = ((.ok l', o'), br')) :
    ∃ deltas, exec (readDeltaCoefs scan.length) o br = ((.ok deltas, o'), br') ∧
      deltas.length = scan.length ∧ l' = place scan (accumulate nextCoef deltas) l := by
  induction scan generalizing nextCoef l o br with
  | nil =>
    obtain ⟨⟨rfl, rfl⟩, rfl⟩ : (l = l' ∧ o = o') ∧ br = br' := by
      simpa [coefLoop, exec_pure] using h
    exact ⟨[], rfl, rfl, rfl⟩
  | cons pos scan ih =>
    obtain ⟨delta, o₁, br₁, hse, hrest⟩ := exec_bind_ok h
    obtain ⟨deltas, hread, hlen, hl⟩ := ih hrest
    refine ⟨delta :: deltas, ?_, by simp [hlen], ?_⟩
    · rw [List.length_cons, readDeltaCoefs, exec_bind, hse]
      dsimp only
      rw [exec_bind, hread]
      rfl
    · have hsmall : u8 ((nextCoef + delta + 256) % 256).toNat =
          ((nextCoef + delta + 256) % 256).toNat := by
        unfold u8
        omega
      rw [hl, hsmall]
      rfl

theorem not_exec_throw {α σ : Type} {e : Bitstream.ParseError} {s s' : σ}
    {br br' : BitReader} {a : α}
    (h : exec (throw e : Bitstream.Parser σ α) s br = ((.ok a, s'), br')) : False := by
  rw [exec_throw] at h
  cases h

theorem exec_ok_bind {α β σ : Type} {p : Bitstream.Parser σ α}
    {f : α → Bitstream.Parser σ β} {s s' : σ} {br br' : BitReader} {a : α}
    (h : exec p s br = ((.ok a, s'), br')) :
    exec (p >>= f) s br = exec (f a) s' br' := by
  rw [exec_bind, h]

theorem length_scanOrder (szId : Nat) : (scanOrder szId).length = coefNum szId := by
  unfold scanOrder coefNum
  split <;> rfl

theorem dc_setList (l : List Nat) (z m : Nat) : (sl.setList szId matId l).dc z m = sl.dc z m := by
  unfold ScalingList.setList
  split <;> rfl

theorem dc_of_small (h : ¬1 < szId) (d : Nat) : sl.setDc szId matId d = sl := by
  obtain rfl | rfl : szId = 0 ∨ szId = 1 := by omega
  · rfl
  · rfl

/-- The parser reads the elements of a list and stores what they mean. -/
theorem readList_of_parse
    (hparse : exec (parseScalingListOf sl szId matId) o br = ((.ok sl', o'), br')) :
    ∃ syn, exec (readList szId matId) o br = ((.ok syn, o'), br') ∧ syn.Fits szId matId ∧
      sl' = store sl szId matId syn := by
  unfold parseScalingListOf at hparse
  obtain ⟨b, o₁, br₁, hflag, hparse⟩ := exec_bind_ok hparse
  cases b with
  | false =>
    rw [if_pos rfl] at hparse
    obtain ⟨delta, o₂, br₂, hue, hparse⟩ := exec_bind_ok hparse
    have hstep : (if szId = 3 then 3 else 1) = matrixStep szId := rfl
    dsimp only at hparse
    rw [hstep] at hparse
    have hread : exec (readList szId matId) o br = exec (readPredicted szId matId) o₁ br₁ :=
      exec_ok_bind hflag
    have hpred : exec (readPredicted szId matId) o₁ br₁ =
        exec (if matId < delta * matrixStep szId then
      throw .invalid else return ListSyntax.predicted delta) o₂ br₂ := exec_ok_bind hue
    rw [hread, hpred]
    by_cases hzero : delta = 0
    · rw [if_pos hzero] at hparse
      cases hparse
      subst hzero
      rw [if_neg (by omega)]
      exact ⟨.predicted 0, rfl, by simp [ListSyntax.Fits], rfl⟩
    · rw [if_neg hzero] at hparse
      by_cases hfar : matId < delta * matrixStep szId
      · rw [if_pos hfar] at hparse
        obtain ⟨_, _, _, hthrow, -⟩ := exec_bind_ok hparse
        exact (not_exec_throw hthrow).elim
      · rw [if_neg hfar] at hparse
        cases hparse
        rw [if_neg hfar]
        refine ⟨.predicted delta, rfl, not_lt.mp hfar, ?_⟩
        obtain ⟨d, rfl⟩ := Nat.exists_eq_succ_of_ne_zero hzero
        rw [dc_setList]
        rfl
  | true =>
    rw [if_neg (by decide)] at hparse
    have hscan : (if szId = 0 then diagScan4x4 else diagScan8x8) = scanOrder szId := rfl
    have hread : exec (readList szId matId) o br = exec (readCoded szId) o₁ br₁ :=
      exec_ok_bind hflag
    dsimp only at hparse
    rw [hscan] at hparse
    rw [hread]
    by_cases hlarge : 1 < szId
    · rw [if_pos hlarge] at hparse
      obtain ⟨dcMinus8, o₂, br₂, hse, hparse⟩ := exec_bind_ok hparse
      by_cases hdc : dcMinus8 < -7 ∨ 247 < dcMinus8
      · rw [if_pos hdc] at hparse
        obtain ⟨_, _, _, hthrow, -⟩ := exec_bind_ok hparse
        exact (not_exec_throw hthrow).elim
      · rw [if_neg hdc] at hparse
        obtain ⟨l, o₃, br₃, hloop, hparse⟩ := exec_bind_ok hparse
        cases hparse
        obtain ⟨deltas, hdeltas, hlen, hl⟩ := readDeltaCoefs_of_coefLoop hloop
        rw [length_scanOrder] at hdeltas hlen
        have hdcRead : exec (readDc szId) o₁ br₁ = ((.ok dcMinus8, o₂), br₂) := by
          unfold readDc
          rw [if_pos hlarge, exec_ok_bind hse, if_neg hdc]
          rfl
        have hcoded : exec (readCoded szId) o₁ br₁ = ((.ok (.coded dcMinus8 deltas), o'), br') := by
          unfold readCoded
          rw [exec_ok_bind hdcRead, exec_ok_bind hdeltas]
          rfl
        refine ⟨.coded dcMinus8 deltas, hcoded, ⟨by omega, by omega, hlen⟩, ?_⟩
        have hsmall : u8 (dcMinus8 + 8).toNat = (dcMinus8 + 8).toNat := by
          unfold u8
          omega
        rw [hl, hsmall]
        rfl
    · rw [if_neg hlarge] at hparse
      obtain ⟨l, o₃, br₃, hloop, hparse⟩ := exec_bind_ok hparse
      cases hparse
      obtain ⟨deltas, hdeltas, hlen, hl⟩ := readDeltaCoefs_of_coefLoop hloop
      rw [length_scanOrder] at hdeltas hlen
      have hdcRead : exec (readDc szId) o₁ br₁ = ((.ok 0, o₁), br₁) := by
        unfold readDc
        rw [if_neg hlarge]
        rfl
      have hcoded : exec (readCoded szId) o₁ br₁ = ((.ok (.coded 0 deltas), o'), br') := by
        unfold readCoded
        rw [exec_ok_bind hdcRead, exec_ok_bind hdeltas]
        rfl
      refine ⟨.coded 0 deltas, hcoded, ⟨by omega, by omega, hlen⟩, ?_⟩
      rw [hl]
      dsimp only [store]
      rw [dc_of_small hlarge]
      rfl

/-- The parser reads the lists in turn and stores each. -/
theorem readLists_of_parse {ids : List (Nat × Nat)}
    (hparse : exec (parseScalingLists ids sl) o br = ((.ok sl', o'), br')) :
    ∃ syns, exec (readLists ids) o br = ((.ok syns, o'), br') ∧ syns.map Prod.fst = ids ∧
      (∀ s ∈ syns, s.2.Fits s.1.1 s.1.2) ∧
      sl' = syns.foldl (fun sl s => store sl s.1.1 s.1.2 s.2) sl := by
  induction ids generalizing sl o br with
  | nil =>
    cases hparse
    exact ⟨[], rfl, rfl, by simp, rfl⟩
  | cons id rest ih =>
    obtain ⟨sl₁, o₁, br₁, hlist, hrest⟩ := exec_bind_ok hparse
    obtain ⟨syn, hread, hfits, rfl⟩ := readList_of_parse hlist
    obtain ⟨syns, hreads, hids, hall, hsl⟩ := ih hrest
    refine ⟨(id, syn) :: syns, ?_, by simp [hids], ?_, by simpa using hsl⟩
    · unfold readLists
      rw [exec_ok_bind hread, exec_ok_bind hreads]
      rfl
    · intro s hs
      rcases List.mem_cons.mp hs with rfl | hs
      · exact hfits
      · exact hall s hs

theorem syntaxOf_of_mem {syns : List ((Nat × Nat) × ListSyntax)} {s : (Nat × Nat) × ListSyntax}
    (hnodup : (syns.map Prod.fst).Nodup) (hs : s ∈ syns) : syntaxOf syns s.1.1 s.1.2 = s.2 := by
  have hfind : syns.find? (fun t => t.1 = (s.1.1, s.1.2)) = some s := by
    induction syns with
    | nil => cases hs
    | cons t syns ih =>
      rw [List.map_cons, List.nodup_cons] at hnodup
      rcases List.mem_cons.mp hs with rfl | hs
      · simp
      · have hne : t.1 ≠ s.1 := by
          intro he
          exact hnodup.1 (he ▸ List.mem_map_of_mem hs)
        rw [List.find?_cons_of_neg (by simpa using hne)]
        exact ih hnodup.2 hs
  unfold syntaxOf
  rw [hfind]
  rfl

end Reading

section Storing

variable {sl sl' : ScalingList} {szId matId sz m : Nat}

theorem length_place (scan coefs l : List Nat) : (place scan coefs l).length = l.length := by
  induction scan generalizing coefs l with
  | nil => rfl
  | cons pos scan ih =>
    cases coefs with
    | nil => rfl
    | cons c coefs => simpa [place] using ih coefs (l.set pos c)

theorem getD_place_of_not_mem {scan : List Nat} {p : Nat} (hp : p ∉ scan) (coefs l : List Nat) :
    (place scan coefs l).getD p 0 = l.getD p 0 := by
  induction scan generalizing coefs l with
  | nil => rfl
  | cons pos scan ih =>
    cases coefs with
    | nil => rfl
    | cons c coefs =>
      rw [List.mem_cons, not_or] at hp
      have hrest := ih hp.2 coefs (l.set pos c)
      have hset : (l.set pos c).getD p 0 = l.getD p 0 := by
        simp [List.getD_eq_getElem?_getD, List.getElem?_set_ne (Ne.symm hp.1)]
      exact hrest.trans hset

/-- The coefficient of a scan position is the one read for it. -/
theorem getD_place {scan coefs l : List Nat} (hnodup : scan.Nodup)
    (hlen : coefs.length = scan.length) (hin : ∀ p ∈ scan, p < l.length) {i : Nat}
    (hi : i < scan.length) :
    (place scan coefs l).getD (scan.getD i 0) 0 = coefs.getD i 0 := by
  induction scan generalizing coefs l i with
  | nil => exact absurd hi (Nat.not_lt_zero i)
  | cons pos scan ih =>
    cases coefs with
    | nil => cases hlen
    | cons c coefs =>
      rw [List.nodup_cons] at hnodup
      have hpos : pos < l.length := hin pos List.mem_cons_self
      cases i with
      | zero =>
        have hrest := getD_place_of_not_mem hnodup.1 coefs (l.set pos c)
        have hset : (l.set pos c).getD pos 0 = c := by
          simp [List.getD_eq_getElem?_getD, List.getElem?_set_self hpos]
        exact hrest.trans hset
      | succ i =>
        have hlen' : coefs.length = scan.length := by simpa using hlen
        have hin' : ∀ p ∈ scan, p < (l.set pos c).length := by
          intro p hp
          rw [List.length_set]
          exact hin p (List.mem_cons_of_mem pos hp)
        exact ih hnodup.2 hlen' hin' (Nat.lt_of_succ_lt_succ hi)

/-- A stored list has these coefficients and this DC coefficient. -/
structure Means (sl : ScalingList) (szId matId : Nat) (f : Factors) : Prop where
  size : (sl.list szId matId).length = coefNum szId
  coefs : ∀ i < coefNum szId, (sl.list szId matId).getD ((scanOrder szId).getD i 0) 0 =
    f.coefs.getD i 0
  dc : 1 < szId → sl.dc szId matId = f.dc

/-- Every size has its six matrices. -/
structure Sized (sl : ScalingList) : Prop where
  size4x4 : sl.scalingList4x4.length = 6
  size8x8 : sl.scalingList8x8.length = 6
  size16x16 : sl.scalingList16x16.length = 6
  size32x32 : sl.scalingList32x32.length = 6
  sizeDc16x16 : sl.scalingListDc16x16.length = 6
  sizeDc32x32 : sl.scalingListDc32x32.length = 6

theorem sized_setDefault : Sized .setDefault := ⟨rfl, rfl, rfl, rfl, rfl, rfl⟩

theorem Sized.setList (h : Sized sl) (szId matId : Nat) (l : List Nat) :
    Sized (sl.setList szId matId l) := by
  unfold ScalingList.setList
  split <;> exact ⟨by simp [h.size4x4], by simp [h.size8x8], by simp [h.size16x16],
    by simp [h.size32x32],
    by simp [h.sizeDc16x16], by simp [h.sizeDc32x32]⟩

theorem Sized.setDc (h : Sized sl) (szId matId : Nat) (dc : Nat) :
    Sized (sl.setDc szId matId dc) := by
  unfold ScalingList.setDc
  split <;> exact ⟨by simp [h.size4x4], by simp [h.size8x8], by simp [h.size16x16],
    by simp [h.size32x32],
    by simp [h.sizeDc16x16], by simp [h.sizeDc32x32]⟩

theorem list_setDc (dc : Nat) : (sl.setDc szId matId dc).list sz m = sl.list sz m := by
  unfold ScalingList.setDc
  split <;> rfl

theorem list_setList_ne (hsz : szId < 4) (hz : sz < 4) (hne : (szId, matId) ≠ (sz, m))
    (l : List Nat) :
    (sl.setList szId matId l).list sz m = sl.list sz m := by
  by_cases hs : szId = sz
  · have hm : matId ≠ m := by
      intro he
      exact hne (by rw [hs, he])
    subst hs
    interval_cases szId <;>
      simp [ScalingList.setList, ScalingList.list, List.getD_eq_getElem?_getD,
        List.getElem?_set_ne hm]
  · interval_cases szId <;> interval_cases sz <;> first | rfl | exact absurd rfl hs

theorem list_setList_self (h : Sized sl) (hsz : szId < 4) (hm : matId < 6) (l : List Nat) :
    (sl.setList szId matId l).list szId matId = l := by
  obtain ⟨h0, h1, h2, h3, -, -⟩ := h
  interval_cases szId <;>
    simp [ScalingList.setList, ScalingList.list, List.getD_eq_getElem?_getD, *]

theorem dc_setDc_ne (hsz : szId < 4) (hz : sz < 4) (hne : (szId, matId) ≠ (sz, m)) (hlarge : 1 < sz)
    (dc : Nat) : (sl.setDc szId matId dc).dc sz m = sl.dc sz m := by
  by_cases hs : szId = sz
  · have hm : matId ≠ m := by
      intro he
      exact hne (by rw [hs, he])
    subst hs
    interval_cases szId <;>
      simp [ScalingList.setDc, ScalingList.dc, List.getD_eq_getElem?_getD, List.getElem?_set_ne hm]
  · interval_cases szId <;> interval_cases sz <;> first | rfl | exact absurd rfl hs

theorem dc_setDc_self (h : Sized sl) (hsz : szId < 4) (hm : matId < 6) (hlarge : 1 < szId)
    (dc : Nat) :
    (sl.setDc szId matId dc).dc szId matId = dc := by
  obtain ⟨-, -, -, -, h2, h3⟩ := h
  interval_cases szId <;>
    simp [ScalingList.setDc, ScalingList.dc, List.getD_eq_getElem?_getD, *]

/-- Storing one list leaves the others. -/
theorem Means.store_ne {f : Factors} (h : Means sl sz m f) (hsz : szId < 4) (hz : sz < 4)
    (hne : (szId, matId) ≠ (sz, m)) (syn : ListSyntax) :
    Means (store sl szId matId syn) sz m f := by
  obtain ⟨hsize, hcoefs, hdc⟩ := h
  cases syn with
  | predicted delta =>
    cases delta with
    | zero => exact ⟨hsize, hcoefs, hdc⟩
    | succ delta =>
      refine ⟨?_, ?_, ?_⟩
      · rw [store, list_setDc, list_setList_ne hsz hz hne]
        exact hsize
      · rw [store, list_setDc, list_setList_ne hsz hz hne]
        exact hcoefs
      · intro hlarge
        rw [store, dc_setDc_ne hsz hz hne hlarge, dc_setList]
        exact hdc hlarge
  | coded dcCoefMinus8 deltaCoefs =>
    refine ⟨?_, ?_, ?_⟩
    · rw [store, list_setList_ne hsz hz hne, list_setDc]
      exact hsize
    · rw [store, list_setList_ne hsz hz hne, list_setDc]
      exact hcoefs
    · intro hlarge
      rw [store, dc_setList, dc_setDc_ne hsz hz hne hlarge]
      exact hdc hlarge

theorem Sized.store (h : Sized sl) (szId matId : Nat) (syn : ListSyntax) :
    Sized (store sl szId matId syn) := by
  cases syn with
  | predicted delta =>
    cases delta with
    | zero => exact h
    | succ delta => exact (h.setList szId matId _).setDc szId matId _
  | coded dcCoefMinus8 deltaCoefs => exact (h.setDc szId matId _).setList szId matId _

theorem length_accumulate (nextCoef : Int) (deltas : List Int) :
    (accumulate nextCoef deltas).length = deltas.length := by
  induction deltas generalizing nextCoef with
  | nil => rfl
  | cons delta deltas ih => simp [accumulate, ih]

theorem factors_of_coded {syn : Nat → Nat → ListSyntax} {dcCoefMinus8 : Int} {deltaCoefs : List Int}
    (h : syn szId matId = .coded dcCoefMinus8 deltaCoefs) : factors syn szId matId =
      ⟨accumulate (dcCoefMinus8 + 8) deltaCoefs, (dcCoefMinus8 + 8).toNat⟩ := by
  rw [factors, h]

theorem factors_of_default {syn : Nat → Nat → ListSyntax} (h : syn szId matId = .predicted 0) :
    factors syn szId matId = defaultFactors szId matId := by
  rw [factors, h]

theorem factors_of_predicted {syn : Nat → Nat → ListSyntax} {delta : Nat}
    (h : syn szId matId = .predicted (delta + 1)) (hle : (delta + 1) * matrixStep szId ≤ matId) :
    factors syn szId matId = factors syn szId (matId - (delta + 1) * matrixStep szId) := by
  rw [factors, h]
  exact dif_pos hle

theorem scanOrder_nodup (szId : Nat) : (scanOrder szId).Nodup := by
  unfold scanOrder
  split <;> decide

theorem scanOrder_lt {p : Nat} (h : p ∈ scanOrder szId) : p < coefNum szId := by
  unfold scanOrder at h
  unfold coefNum
  split
  · rename_i hzero
    rw [if_pos hzero] at h
    exact (by decide : ∀ p ∈ diagScan4x4, p < 16) p h
  · rename_i hzero
    rw [if_neg hzero] at h
    exact (by decide : ∀ p ∈ diagScan8x8, p < 64) p h

/-- The stored list means what its elements mean, if the list it is predicted from already does. -/
theorem Means.store_self {syn : Nat → Nat → ListSyntax} (hsized : Sized sl) (hsz : szId < 4)
    (hm : matId < 6) (hdefault : Means sl szId matId (defaultFactors szId matId))
    (hfits : (syn szId matId).Fits szId matId)
    (hsrc : ∀ k, 0 < k → k * matrixStep szId ≤ matId →
      Means sl szId (matId - k * matrixStep szId)
        (factors syn szId (matId - k * matrixStep szId))) :
    Means (Scaling.store sl szId matId (syn szId matId)) szId matId (factors syn szId matId) := by
  cases hsyn : syn szId matId with
  | predicted delta =>
    rw [hsyn] at hfits
    cases delta with
    | zero =>
      rw [factors_of_default hsyn]
      exact hdefault
    | succ delta =>
      obtain ⟨hsize, hcoefs, hdc⟩ := hsrc (delta + 1) (by omega) hfits
      rw [factors_of_predicted hsyn hfits]
      refine ⟨?_, ?_, ?_⟩
      · rw [Scaling.store, list_setDc, list_setList_self hsized hsz hm]
        exact hsize
      · rw [Scaling.store, list_setDc, list_setList_self hsized hsz hm]
        exact hcoefs
      · intro hlarge
        rw [Scaling.store, dc_setDc_self (hsized.setList szId matId _) hsz hm hlarge]
        exact hdc hlarge
  | coded dcCoefMinus8 deltaCoefs =>
    rw [hsyn] at hfits
    obtain ⟨-, -, hlen⟩ := hfits
    rw [factors_of_coded hsyn]
    have hself := hsized.setDc szId matId (dcCoefMinus8 + 8).toNat
    have hplaced :
        ∀ i < coefNum szId, (place (scanOrder szId) (accumulate (dcCoefMinus8 + 8) deltaCoefs)
        (sl.list szId matId)).getD ((scanOrder szId).getD i 0) 0 =
          (accumulate (dcCoefMinus8 + 8) deltaCoefs).getD i 0 := by
      intro i hi
      apply getD_place (scanOrder_nodup szId)
      · rw [length_accumulate, hlen, length_scanOrder]
      · intro p hp
        rw [hdefault.size]
        exact scanOrder_lt hp
      · rwa [length_scanOrder]
    refine ⟨?_, ?_, ?_⟩
    · rw [Scaling.store, list_setList_self hself hsz hm, length_place]
      exact hdefault.size
    · rw [Scaling.store, list_setList_self hself hsz hm]
      exact hplaced
    · intro hlarge
      rw [Scaling.store, dc_setList, dc_setDc_self hsized hsz hm hlarge]

theorem scalingListIds_lt {id : Nat × Nat} (h : id ∈ scalingListIds) : id.1 < 4 ∧ id.2 < 6 :=
  (by decide : ∀ id ∈ scalingListIds, id.1 < 4 ∧ id.2 < 6) id h

/-- The list that a list is predicted from has been read before it. -/
theorem source_read {done rest : List (Nat × Nat)}
    (hids : scalingListIds = done ++ (szId, matId) :: rest) {k : Nat} (hk : 0 < k)
    (hle : k * matrixStep szId ≤ matId) :
    (szId, matId - k * matrixStep szId) ∈ done := by
  have hmem : (szId, matId) ∈ scalingListIds := by simp [hids]
  obtain ⟨-, hm⟩ := scalingListIds_lt hmem
  have hstep : 0 < matrixStep szId := by
    unfold matrixStep
    split <;> omega
  have hk6 : k < 6 := by
    have := Nat.le_mul_of_pos_right k hstep
    dsimp only at hm
    omega
  have hlen : done.length < 20 := by
    have := congrArg List.length hids
    simp [scalingListIds] at this
    omega
  have hdone : done = scalingListIds.take done.length := by simp [hids]
  have hid : (szId, matId) = scalingListIds.getD done.length (0, 0) := by simp [hids]
  have hall : ∀ n < 20, ∀ k < 6, k = 0 ∨
      (scalingListIds.getD n (0, 0)).2 < k * matrixStep (scalingListIds.getD n (0, 0)).1 ∨
      ((scalingListIds.getD n (0, 0)).1, (scalingListIds.getD n (0, 0)).2 -
        k * matrixStep (scalingListIds.getD n (0, 0)).1) ∈ scalingListIds.take n := by
    decide +kernel
  have hn := hall done.length hlen k hk6
  rw [← hid, ← hdone] at hn
  rcases hn with hzero | hfar | hread
  · omega
  · exact absurd hle (Nat.not_le.mpr hfar)
  · exact hread

theorem means_setDefault (hsz : szId < 4) (hm : matId < 6) :
    Means .setDefault szId matId (defaultFactors szId matId) := by
  have hsize : ∀ z < 4, ∀ m < 6, (ScalingList.setDefault.list z m).length = coefNum z := by decide
  have hcoefs : ∀ z < 4, ∀ m < 6, ∀ i < coefNum z,
      (ScalingList.setDefault.list z m).getD ((scanOrder z).getD i 0) 0 =
        (defaultFactors z m).coefs.getD i 0 := by decide +kernel
  have hdc : ∀ z < 4, ∀ m < 6, 1 < z →
      ScalingList.setDefault.dc z m = (defaultFactors z m).dc := by decide
  exact ⟨hsize szId hsz matId hm, hcoefs szId hsz matId hm, hdc szId hsz matId hm⟩

/-- After some of the lists, those mean what their elements mean and the others are at the
default. -/
structure Stored (syn : Nat → Nat → ListSyntax) (done : List (Nat × Nat))
    (sl : ScalingList) : Prop where
  sized : Sized sl
  read : ∀ id ∈ done, Means sl id.1 id.2 (factors syn id.1 id.2)
  unread : ∀ z < 4, ∀ m < 6, (z, m) ∉ done → Means sl z m (defaultFactors z m)

theorem stored_start (syn : Nat → Nat → ListSyntax) : Stored syn [] .setDefault := by
  refine ⟨sized_setDefault, by simp, ?_⟩
  intro z hz m hm _
  exact means_setDefault hz hm

theorem Stored.store {syn : Nat → Nat → ListSyntax} {done rest : List (Nat × Nat)}
    (h : Stored syn done sl) (hids : scalingListIds = done ++ (szId, matId) :: rest)
    (hfits : (syn szId matId).Fits szId matId) :
    Stored syn (done ++ [(szId, matId)]) (Scaling.store sl szId matId (syn szId matId)) := by
  have hmem : (szId, matId) ∈ scalingListIds := by simp [hids]
  obtain ⟨hsz, hm⟩ := scalingListIds_lt hmem
  have hnew : (szId, matId) ∉ done := by
    have hnodup : scalingListIds.Nodup := by decide
    rw [hids, List.nodup_append] at hnodup
    intro hold
    exact hnodup.2.2 _ hold _ List.mem_cons_self rfl
  refine ⟨h.sized.store szId matId _, ?_, ?_⟩
  · intro id hid
    rcases List.mem_append.mp hid with hid | hid
    · have hne : (szId, matId) ≠ (id.1, id.2) := by
        intro he
        exact hnew (he ▸ hid)
      have hin : id ∈ scalingListIds := by simp [hids, hid]
      exact (h.read id hid).store_ne hsz (scalingListIds_lt hin).1 hne _
    · rw [List.mem_singleton] at hid
      subst hid
      apply Means.store_self h.sized hsz hm (h.unread szId hsz matId hm hnew) hfits
      intro k hk hle
      exact h.read _ (source_read hids hk hle)
  · intro z hz m hm' hnot
    rw [List.mem_append, not_or, List.mem_singleton] at hnot
    exact (h.unread z hz m hm' hnot.1).store_ne hsz hz (Ne.symm hnot.2) _

theorem Stored.stores {syn : Nat → Nat → ListSyntax} {done : List (Nat × Nat)}
    {syns : List ((Nat × Nat) × ListSyntax)} (h : Stored syn done sl)
    (hids : scalingListIds = done ++ syns.map Prod.fst) (hsyn : ∀ s ∈ syns, syn s.1.1 s.1.2 = s.2)
    (hfits : ∀ s ∈ syns, s.2.Fits s.1.1 s.1.2) :
    Stored syn scalingListIds (syns.foldl (fun sl s => Scaling.store sl s.1.1 s.1.2 s.2) sl) := by
  induction syns generalizing done sl with
  | nil =>
    rw [hids]
    simpa using h
  | cons s syns ih =>
    rw [List.forall_mem_cons] at hsyn hfits
    obtain ⟨hthis, hsyn⟩ := hsyn
    have hstep := h.store (by simpa using hids) (hthis ▸ hfits.1)
    rw [hthis] at hstep
    exact ih hstep (by simpa using hids) hsyn hfits.2

end Storing

section Packing

variable {sl : ScalingList} {szId matId : Nat}

theorem length_transpose (dim : Nat) (l : List Nat) : (transpose dim l).length = dim * dim :=
  length_flatMap_range fun _ _ => by simp

theorem getD_transpose {dim row col : Nat} (l : List Nat) (hrow : row < dim) (hcol : col < dim) :
    (transpose dim l).getD (dim * row + col) 0 = l.getD (col * dim + row) 0 := by
  unfold transpose
  rw [getD_flatMap_range 0 (fun _ _ => by simp) hrow hcol]
  simp [List.getD_eq_getElem?_getD, hcol]

def blocks (dim n : Nat) (lists : List (List Nat)) : List Nat :=
  (List.range n).flatMap fun m => transpose dim (lists.getD m [])

theorem length_blocks (dim n : Nat) (lists : List (List Nat)) :
    (blocks dim n lists).length = n * (dim * dim) :=
  length_flatMap_range fun _ _ => length_transpose dim _

theorem getD_blocks {dim n m pos : Nat} (lists : List (List Nat)) (hm : m < n)
    (hpos : pos < dim * dim) :
    (blocks dim n lists).getD (dim * dim * m + (pos % dim * dim + pos / dim)) 0 =
      (lists.getD m []).getD pos 0 := by
  have hdim : 0 < dim := Nat.pos_of_mul_pos_left (by omega : 0 < dim * dim)
  have hrow := Nat.mod_lt pos hdim
  have hcol : pos / dim < dim := Nat.div_lt_of_lt_mul hpos
  have hin : pos % dim * dim + pos / dim < dim * dim := by
    have : (pos % dim + 1) * dim ≤ dim * dim := Nat.mul_le_mul_right dim hrow
    rw [Nat.succ_mul] at this
    omega
  unfold blocks
  rw [getD_flatMap_range 0 (fun _ _ => length_transpose dim _) hm hin, Nat.mul_comm (pos % dim) dim,
    getD_transpose _ hrow hcol, Nat.mul_comm (pos / dim) dim, Nat.div_add_mod]

/-- The words of the table, part by part. -/
def packed (sl : ScalingList) : List Nat :=
  blocks 4 6 sl.scalingList4x4 ++
    (blocks 8 6 sl.scalingList8x8 ++ (blocks 8 6 sl.scalingList16x16 ++
    (blocks 8 2 sl.scalingList32x32 ++ (List.replicate 256 0 ++
      (((List.range 6).flatMap fun m => transpose 4 (transpose 4 (sl.scalingList4x4.getD m []))) ++
        ((List.range 6).map (sl.scalingListDc16x16.getD · 0) ++
          (((List.range 2).flatMap fun m => [sl.scalingListDc32x32.getD m 0, 0, 0]) ++
            List.replicate 4 0)))))))

theorem packScalingList_packed {sps : Sps} {pps : Pps} {outSize : Nat} {table : List Byte}
    (h : packScalingList sps pps outSize = some table) :
    table = (packed (activeScalingList sps pps)).map (BitVec.ofNat 8) := by
  unfold packScalingList at h
  split at h
  · cases h
  · rw [Option.some.injEq] at h
    rw [← h]
    simp only [packed, blocks, List.append_assoc]

theorem getD_skip {l₁ l₂ : List Nat} {n k : Nat} (h : l₁.length = n) :
    (l₁ ++ l₂).getD (n + k) 0 = l₂.getD k 0 := by
  rw [List.getD_append_right _ _ _ _ (by omega), h, Nat.add_sub_cancel_left]

/-- The stored list that takes the place of a matrix in the table. -/
def slotOf (szId matId : Nat) : Nat := if szId = 3 then matId / 3 else matId

theorem transposed_lt {pos : Nat} (hpos : pos < coefNum szId) :
    transposed szId pos < coefNum szId := by
  unfold transposed rowLength
  unfold coefNum at hpos ⊢
  split
  · rename_i hzero
    rw [if_pos hzero] at hpos
    omega
  · rename_i hzero
    rw [if_neg hzero] at hpos
    omega

/-- A coefficient of the table is that of the stored list in its place. -/
theorem getD_packed (sl : ScalingList) (hsz : szId < 4) (hm : matId < 6) {pos : Nat}
    (hpos : pos < coefNum szId) :
    (packed sl).getD (factorOffset szId matId + transposed szId pos) 0 =
      (sl.list szId (slotOf szId matId)).getD pos 0 := by
  have h4 := length_blocks 4 6 sl.scalingList4x4
  have h8 := length_blocks 8 6 sl.scalingList8x8
  have h16 := length_blocks 8 6 sl.scalingList16x16
  have h32 := length_blocks 8 2 sl.scalingList32x32
  have hlt := transposed_lt hpos
  unfold packed
  interval_cases szId
  · have hlt : transposed 0 pos < 16 := hlt
    have hoffset : factorOffset 0 matId = 16 * matId := rfl
    rw [hoffset, List.getD_append _ _ _ _ (by omega)]
    exact getD_blocks sl.scalingList4x4 hm hpos
  · have hlt : transposed 1 pos < 64 := hlt
    have hoffset : factorOffset 1 matId = 96 + 64 * matId := rfl
    rw [hoffset, Nat.add_assoc, getD_skip h4, List.getD_append _ _ _ _ (by omega)]
    exact getD_blocks sl.scalingList8x8 hm hpos
  · have hlt : transposed 2 pos < 64 := hlt
    have hoffset : factorOffset 2 matId = 96 + (384 + 64 * matId) := by
      simp only [factorOffset]
      omega
    rw [hoffset, Nat.add_assoc, Nat.add_assoc, getD_skip h4, getD_skip h8,
      List.getD_append _ _ _ _ (by omega)]
    exact getD_blocks sl.scalingList16x16 hm hpos
  · have hlt : transposed 3 pos < 64 := hlt
    have hslot : matId / 3 < 2 := by omega
    have hoffset : factorOffset 3 matId = 96 + (384 + (384 + 64 * (matId / 3))) := by
      simp only [factorOffset]
      omega
    rw [hoffset, Nat.add_assoc, Nat.add_assoc, Nat.add_assoc, getD_skip h4, getD_skip h8,
      getD_skip h16, List.getD_append _ _ _ _ (by omega)]
    exact getD_blocks sl.scalingList32x32 hslot hpos

theorem getD_packed_again (sl : ScalingList) (hm : matId < 6) {pos : Nat} (hpos : pos < 16) :
    (packed sl).getD (1248 + 16 * matId + pos) 0 = (sl.list 0 matId).getD pos 0 := by
  have h4 := length_blocks 4 6 sl.scalingList4x4
  have h8 := length_blocks 8 6 sl.scalingList8x8
  have h16 := length_blocks 8 6 sl.scalingList16x16
  have h32 := length_blocks 8 2 sl.scalingList32x32
  have hblank : (List.replicate 256 0).length = 256 := List.length_replicate
  have hagain :=
    length_flatMap_range (f := fun m => transpose 4 (transpose 4 (sl.scalingList4x4.getD m [])))
    (n := 6) fun _ _ => length_transpose 4 _
  have hrow : pos / 4 < 4 := by omega
  have hcol := Nat.mod_lt pos (show 4 > 0 by omega)
  unfold packed
  rw [show 1248 = 96 + (384 + (384 + (128 + 256))) from rfl]
  simp only [Nat.add_assoc]
  rw [getD_skip h4, getD_skip h8, getD_skip h16, getD_skip h32, getD_skip hblank,
    List.getD_append _ _ _ _ (by omega),
    getD_flatMap_range 0 (fun _ _ => length_transpose 4 _) hm hpos, ← Nat.div_add_mod pos 4,
    getD_transpose _ hrow hcol, Nat.mul_comm, getD_transpose _ hcol hrow, Nat.mul_comm]
  rfl

theorem getD_packed_dc (sl : ScalingList) (hsz : szId < 4) (hlarge : 1 < szId) (hm : matId < 6) :
    (packed sl).getD (dcOffset szId matId) 0 = sl.dc szId (slotOf szId matId) := by
  have h4 := length_blocks 4 6 sl.scalingList4x4
  have h8 := length_blocks 8 6 sl.scalingList8x8
  have h16 := length_blocks 8 6 sl.scalingList16x16
  have h32 := length_blocks 8 2 sl.scalingList32x32
  have hblank : (List.replicate 256 0).length = 256 := List.length_replicate
  have hagain :=
    length_flatMap_range (f := fun m => transpose 4 (transpose 4 (sl.scalingList4x4.getD m [])))
    (n := 6) fun _ _ => length_transpose 4 _
  have hdc16 : ((List.range 6).map (sl.scalingListDc16x16.getD · 0)).length = 6 := by simp
  unfold packed dcOffset
  interval_cases szId
  · rw [if_pos rfl, show 1344 = 96 + (384 + (384 + (128 + (256 + 96)))) from rfl]
    simp only [Nat.add_assoc]
    rw [getD_skip h4, getD_skip h8, getD_skip h16, getD_skip h32, getD_skip hblank,
      getD_skip hagain, List.getD_append _ _ _ _ (by omega)]
    simp [List.getD_eq_getElem?_getD, hm, ScalingList.dc, slotOf]
  · rw [if_neg (by omega), show 1350 = 96 + (384 + (384 + (128 + (256 + (96 + 6))))) from rfl]
    simp only [Nat.add_assoc]
    rw [getD_skip h4, getD_skip h8, getD_skip h16, getD_skip h32, getD_skip hblank,
      getD_skip hagain, getD_skip hdc16]
    interval_cases matId <;> rfl

end Packing

section Arrival

variable {sl : ScalingList} {szId matId : Nat} {table : List Byte} {f g : Factors}

/-- A list of its size, with coefficients of a byte. -/
structure Factors.Fits (szId : Nat) (f : Factors) : Prop where
  size : f.coefs.length = coefNum szId
  coefs : ∀ c ∈ f.coefs, c < 256
  dc : f.dc < 256

theorem accumulate_lt {nextCoef : Int} {deltas : List Int} {c : Nat}
    (h : c ∈ accumulate nextCoef deltas) :
    c < 256 := by
  induction deltas generalizing nextCoef with
  | nil => cases h
  | cons delta deltas ih =>
    rcases List.mem_cons.mp h with rfl | h
    · omega
    · exact ih h

theorem fits_default (szId matId : Nat) : (defaultFactors szId matId).Fits szId := by
  unfold defaultFactors
  by_cases hzero : szId = 0
  · subst hzero
    exact ⟨rfl, (by decide : ∀ c ∈ List.replicate 16 16, c < 256), (by decide : 16 < 256)⟩
  · simp only [if_neg hzero]
    have hnum : coefNum szId = 64 := if_neg hzero
    split
    · exact ⟨hnum ▸ rfl, by decide, (by decide : 16 < 256)⟩
    · exact ⟨hnum ▸ rfl, by decide, (by decide : 16 < 256)⟩

theorem fits_factors {syn : Nat → Nat → ListSyntax} (hsyn : ∀ z m, (syn z m).Fits z m)
    (szId matId : Nat) :
    (factors syn szId matId).Fits szId := by
  induction matId using Nat.strong_induction_on with
  | _ matId ih =>
    have hfits := hsyn szId matId
    cases h : syn szId matId with
    | predicted delta =>
      rw [h] at hfits
      cases delta with
      | zero =>
        rw [factors_of_default h]
        exact fits_default szId matId
      | succ delta =>
        have hstep : 0 < matrixStep szId := by
          unfold matrixStep
          split <;> omega
        have hpos := Nat.mul_pos (show 0 < delta + 1 by omega) hstep
        rw [factors_of_predicted h hfits]
        have hle : (delta + 1) * matrixStep szId ≤ matId := hfits
        exact ih _ (by omega)
    | coded dcCoefMinus8 deltaCoefs =>
      rw [h] at hfits
      obtain ⟨hlow, hhigh, hlen⟩ := hfits
      rw [factors_of_coded h]
      refine ⟨?_, fun c hc => accumulate_lt hc, ?_⟩
      · rw [length_accumulate, hlen]
      · dsimp only
        omega

theorem fits_syntaxOf {syns : List ((Nat × Nat) × ListSyntax)}
    (h : ∀ s ∈ syns, s.2.Fits s.1.1 s.1.2) (szId matId : Nat) :
    (syntaxOf syns szId matId).Fits szId matId := by
  unfold syntaxOf
  cases hfind : syns.find? (fun s => s.1 = (szId, matId)) with
  | none => simp [ListSyntax.Fits]
  | some s =>
    have hid : s.1 = (szId, matId) := by simpa using List.find?_some hfind
    have hfits := h s (List.mem_of_find?_eq_some hfind)
    rw [hid] at hfits
    exact hfits

theorem toNat_getD_map {words : List Nat} {i : Nat} (h : words.getD i 0 < 256) :
    ((words.map (BitVec.ofNat 8)).getD i 0).toNat = words.getD i 0 := by
  have hmap : (words.map (BitVec.ofNat 8)).getD i 0 = BitVec.ofNat 8 (words.getD i 0) := by
    by_cases hi : i < words.length
    · simp [List.getD_eq_getElem?_getD, hi]
    · simp [List.getD_eq_getElem?_getD, hi]
  rw [hmap, BitVec.toNat_ofNat, Nat.mod_eq_of_lt h]

theorem Factors.Fits.getD_lt (h : f.Fits szId) (i : Nat) : f.coefs.getD i 0 < 256 := by
  by_cases hi : i < f.coefs.length
  · rw [List.getD_eq_getElem _ _ hi]
    exact h.coefs _ (List.getElem_mem hi)
  · rw [List.getD_eq_default _ _ (by omega)]
    omega

/-- What the stored list of the slot means is what the table has. -/
theorem holds_of_means (hsz : szId < 4) (hm : matId < 6) (hf : f.Fits szId)
    (h : Means sl szId (slotOf szId matId) f) :
    Holds ((packed sl).map (BitVec.ofNat 8)) szId matId f := by
  have hscan : ∀ i < coefNum szId, (scanOrder szId).getD i 0 < coefNum szId := by
    intro i hi
    rw [← length_scanOrder szId] at hi
    rw [List.getD_eq_getElem _ _ hi]
    exact scanOrder_lt (List.getElem_mem hi)
  refine ⟨?_, ?_, ?_⟩
  · intro i hi
    have hword := getD_packed sl hsz hm (hscan i hi)
    rw [h.coefs i hi] at hword
    rw [toNat_getD_map (hword ▸ hf.getD_lt i), hword]
  · intro hzero i hi
    subst hzero
    have hword := getD_packed_again sl hm (hscan i hi)
    have hcoef := h.coefs i hi
    have hslot : slotOf 0 matId = matId := rfl
    have hdiag : scanOrder 0 = diagScan4x4 := rfl
    rw [hslot, hdiag] at hcoef
    rw [hdiag, hcoef] at hword
    rw [toNat_getD_map (hword ▸ hf.getD_lt i), hword]
  · intro hlarge
    have hword := getD_packed_dc sl hsz hlarge hm
    rw [h.dc hlarge] at hword
    rw [toNat_getD_map (hword ▸ hf.dc), hword]

/-- The table has one list in a place. -/
theorem Holds.unique (hlarge : 1 < szId) (h : Holds table szId matId f)
    (h' : Holds table szId matId g) (hf : f.coefs.length = coefNum szId)
    (hg : g.coefs.length = coefNum szId) : f = g := by
  have hcoefs : f.coefs = g.coefs := by
    apply List.ext_getElem (hf.trans hg.symm)
    intro i hi hi'
    have hsame := (h.coefs i (hf ▸ hi)).symm.trans (h'.coefs i (hf ▸ hi))
    rwa [List.getD_eq_getElem _ _ hi, List.getD_eq_getElem _ _ hi'] at hsame
  have hdc : f.dc = g.dc := (h.dc hlarge).symm.trans (h'.dc hlarge)
  cases f
  cases g
  cases hcoefs
  cases hdc
  rfl

/-- The last list takes its place in the table from the default intra list. -/
theorem Stored.holds_iff {syn : Nat → Nat → ListSyntax} (h : Stored syn scalingListIds sl)
    (hsyn : ∀ z m, (syn z m).Fits z m) :
    (∀ id ∈ scalingListIds, Holds ((packed sl).map (BitVec.ofNat 8)) id.1 id.2
      (factors syn id.1 id.2)) ↔
      factors syn 3 3 = ⟨defaultIntra, 16⟩ := by
  have hdefault : Holds ((packed sl).map (BitVec.ofNat 8)) 3 3 (defaultFactors 3 1) :=
    holds_of_means (by omega) (by omega) (fits_default 3 1)
      (h.unread 3 (by omega) 1 (by omega) (by decide))
  constructor
  · intro hall
    exact (hall (3, 3) (by decide)).unique (by omega) hdefault (fits_factors hsyn 3 3).size
      (fits_default 3 1).size
  · intro hlast id hid
    obtain ⟨hsz, hm⟩ := scalingListIds_lt hid
    have hfits := fits_factors hsyn id.1 id.2
    by_cases hthree : id = (3, 3)
    · subst hthree
      dsimp only
      rw [hlast]
      exact hdefault
    · have hslot : slotOf id.1 id.2 = id.2 :=
        (by decide : ∀ id ∈ scalingListIds, id ≠ (3, 3) → slotOf id.1 id.2 = id.2) id hid hthree
      apply holds_of_means hsz hm hfits
      rw [hslot]
      exact h.read id hid

end Arrival

section Tables

/-- A table that is packed from a list that was read has all of its scaling lists if and only if the
last one, the larger of the two 32x32 matrices, is the default of the intra matrices: the parser
stores it behind the second place, from which it is packed. -/
theorem scaling_lists_reach_iff {o o' : ParseResult} {br br' : BitReader} {sl : ScalingList}
    (h : exec parseScalingListData o br = ((.ok sl, o'), br')) :
    ∃ syns, exec (readLists scalingListIds) o br = ((.ok syns, o'), br') ∧
      ∀ sps pps outSize table, activeScalingList sps pps = sl →
        packScalingList sps pps outSize = some table →
          ((∀ id ∈ scalingListIds, Holds table id.1 id.2 (factors (syntaxOf syns) id.1 id.2)) ↔
            factors (syntaxOf syns) 3 3 = ⟨defaultIntra, 16⟩) := by
  obtain ⟨syns, hread, hids, hfits, hsl⟩ := readLists_of_parse h
  refine ⟨syns, hread, ?_⟩
  intro sps pps outSize table hactive hpack
  have hnodup : (syns.map Prod.fst).Nodup := by
    rw [hids]
    decide
  have hstored : Stored (syntaxOf syns) scalingListIds sl := by
    rw [hsl]
    apply (stored_start (syntaxOf syns)).stores
    · rw [hids]
      rfl
    · exact fun s hs => syntaxOf_of_mem hnodup hs
    · exact hfits
  rw [packScalingList_packed hpack, hactive]
  exact hstored.holds_iff (fits_syntaxOf hfits)

/-- All lists at their defaults but the last, which is predicted from the first 32x32 one. -/
def predictedReader : BitReader := .init [0x55, 0x55, 0x55, 0x55, 0x54, 0x80]

/-- All lists at their defaults. -/
def defaultReader : BitReader := .init [0x55, 0x55, 0x55, 0x55, 0x55]

/-- A list that is read decides what the table is compared with. -/
theorem syntax_of_read {br : BitReader} {syns : List ((Nat × Nat) × ListSyntax)}
    {o o' : ParseResult} {br' : BitReader} (syns' : List ((Nat × Nat) × ListSyntax))
    (h : exec (readLists scalingListIds) o br = ((.ok syns, o'), br'))
    (h' : (exec (readLists scalingListIds) o br).1.1.toOption = some syns') : syns = syns' := by
  rw [h] at h'
  exact Option.some.inj h'

/-- The theorem on a stream whose last list is predicted: the table has them all. -/
theorem scaling_lists_reach_iff_predicted : ∃ syns sl o' br' table,
    exec parseScalingListData {} predictedReader = ((.ok sl, o'), br') ∧
    exec (readLists scalingListIds) {} predictedReader = ((.ok syns, o'), br') ∧
    packScalingList { scalingList := sl } {} scalingListSize = some table ∧
    ∀ id ∈ scalingListIds, Holds table id.1 id.2 (factors (syntaxOf syns) id.1 id.2) := by
  have hparse : exec parseScalingListData {} predictedReader =
    ((.ok (ScalingList.setDefault.setList 3 3 defaultScalingIntra), {}),
    ⟨predictedReader.data, 42, false⟩) := rfl
  obtain ⟨syns, hread, hiff⟩ := scaling_lists_reach_iff hparse
  have hsyns := syntax_of_read (scalingListIds.map fun id =>
    (id, ListSyntax.predicted (if id = (3, 3) then 1 else 0))) hread (by decide +kernel)
  have hlast : factors (syntaxOf syns) 3 3 = ⟨defaultIntra, 16⟩ := by
    subst hsyns
    have hpredicted : syntaxOf (scalingListIds.map fun id => (id, ListSyntax.predicted
        (if id = (3, 3) then 1 else 0))) 3 3 = .predicted (0 + 1) := by decide
    rw [factors_of_predicted hpredicted (by decide), factors_of_default (by decide)]
    rfl
  refine ⟨syns, _, _, _, _, hparse, hread, rfl, ?_⟩
  exact (hiff { scalingList := ScalingList.setDefault.setList 3 3 defaultScalingIntra } {}
    scalingListSize _ rfl rfl).mpr hlast

/-- With all lists at their defaults the table has the intra matrix twice. -/
theorem inter_32x32_lost : ∃ syns sl o' br' table,
    exec parseScalingListData {} defaultReader = ((.ok sl, o'), br') ∧
    exec (readLists scalingListIds) {} defaultReader = ((.ok syns, o'), br') ∧
    packScalingList { scalingList := sl } {} scalingListSize = some table ∧
    factors (syntaxOf syns) 3 3 = ⟨defaultInter, 16⟩ ∧
    ¬∀ id ∈ scalingListIds, Holds table id.1 id.2 (factors (syntaxOf syns) id.1 id.2) := by
  have hparse : exec parseScalingListData {} defaultReader =
    ((.ok .setDefault, {}), ⟨defaultReader.data, 40, false⟩) := rfl
  obtain ⟨syns, hread, -⟩ := readLists_of_parse hparse
  have hsyns := syntax_of_read (scalingListIds.map fun id => (id, ListSyntax.predicted 0)) hread
    (by decide +kernel)
  have hlast : factors (syntaxOf syns) 3 3 = ⟨defaultInter, 16⟩ := by
    subst hsyns
    rw [factors_of_default (by decide)]
    rfl
  refine ⟨syns, _, _, _, _, hparse, hread, rfl, hlast, ?_⟩
  intro hall
  have hbyte := (hall (3, 3) (by decide)).coefs 63 (by decide)
  dsimp only at hbyte
  rw [hlast] at hbyte
  revert hbyte
  decide +kernel

end Tables

end Rkvdec.Engine.Scaling
