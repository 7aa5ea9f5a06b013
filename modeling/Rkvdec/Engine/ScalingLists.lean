import Rkvdec.Bitstream.MatrixSyntax
import Rkvdec.Bitstream.MultiSlice
import Rkvdec.Lib.Cuts
import Mathlib.Tactic.IntervalCases

/-! The scaling lists that are in effect after an access unit of H.264, what the table packer makes
of them, and where they are those of the standard. -/
namespace Rkvdec.Bitstream.H264

open Lib (length_flatMap_range getElem?_flatMap_range)

section Standard

def listSize (i : Nat) : Nat := if i < 6 then 16 else 64

/-- The list that values in the order of the scan make. -/
def matrixOf (i : Nat) (values : List Nat) : List Nat :=
  inverseScan (scanOf i) values (List.replicate (listSize i) 0)

/-- The default lists of the standard, in the order of the scan. -/
def defaultTable (i : Nat) : List Nat :=
  if i < 3 then [6, 13, 13, 20, 20, 20, 28, 28, 28, 28, 32, 32, 32, 37, 37, 42]
  else if i < 6 then [10, 14, 14, 20, 20, 20, 24, 24, 24, 24, 27, 27, 27, 30, 30, 34]
  else if i % 2 = 0 then
    [6, 10, 10, 13, 11, 13, 16, 16, 16, 16, 18, 18, 18, 18, 18, 23, 23, 23, 23, 23, 23, 25, 25, 25,
      25, 25, 25, 25, 27, 27, 27, 27, 27, 27, 27, 27, 29, 29, 29, 29, 29, 29, 29, 31, 31, 31, 31,
      31, 31, 33, 33, 33, 33, 33, 36, 36, 36, 36, 38, 38, 38, 40, 40, 42]
  else
    [9, 13, 13, 15, 13, 15, 17, 17, 17, 17, 19, 19, 19, 19, 19, 21, 21, 21, 21, 21, 21, 22, 22, 22,
      22, 22, 22, 22, 24, 24, 24, 24, 24, 24, 24, 24, 25, 25, 25, 25, 25, 25, 25, 27, 27, 27, 27,
      27, 27, 28, 28, 28, 28, 28, 30, 30, 30, 30, 32, 32, 32, 33, 33, 35]

def defaultList (i : Nat) : List Nat := matrixOf i (defaultTable i)

def flatList (i : Nat) : List Nat := List.replicate (listSize i) 16

def codedAt (lists : List CodedList) (i : Nat) : CodedList := lists.getD i .absent

/-- List `i` as it is coded, or `other` where it is absent. -/
def codedOr (lists : List CodedList) (i : Nat) (other : List Nat) : List Nat :=
  match codedAt lists i with
  | .explicit values => matrixOf i values
  | .useDefault => defaultList i
  | .absent => other

/-- The fall-back rules of Table 7-2: the first list of a chain falls back to `start`, the others to
the list before them. -/
def derive (start : Nat → List Nat) (lists : List CodedList) : Nat → List Nat
  | 0 => codedOr lists 0 (start 0)
  | 1 => codedOr lists 1 (derive start lists 0)
  | i + 2 =>
    codedOr lists (i + 2)
      (if i + 2 = 3 ∨ i + 2 = 6 ∨ i + 2 = 7 then start (i + 2)
      else if i + 2 < 6 then derive start lists (i + 1)
      else derive start lists i)

/-- The lists in effect. Rule set A starts from the default lists, rule set B from those of the
sequence. -/
def effective (seq : SeqMatrix) (pic : PicMatrix) (i : Nat) : List Nat :=
  match pic.lists, seq.lists with
  | some p, some s => derive (derive defaultList s) p i
  | some p, none => derive defaultList p i
  | none, some s => derive defaultList s i
  | none, none => flatList i

/-- The lists that blocks are scaled with: those of 8x8 blocks only where there are such blocks, and
those of their chroma only at 4:4:4. -/
def Used (seq : SeqMatrix) (pic : PicMatrix) (i : Nat) : Prop :=
  i < 6 ∨ pic.transform8x8 = true ∧ (i < 8 ∨ seq.is444 = true ∧ i < 12)

end Standard

section Packer

/-- `H264PackScalingList`. -/
def packScalingList (sm : ScalingMatrix) (enable : Bool) : List Nat :=
  if enable then
    (List.range 6).flatMap (fun i => (sm.scalingList4x4.getD i []).take 16) ++
      (List.range 2).flatMap fun i => (sm.scalingList8x8.getD i []).take 64
  else List.replicate 224 16

/-- Where list `i` is in the packed table. -/
def packedAt (i : Nat) : Nat := if i < 6 then i * 16 else 96 + (i - 6) * 64

/-- List `i` as the result has it. -/
def matrixInUse (out : ParseResult) (i : Nat) : List Nat :=
  if out.hasScalingMatrix then listAt out.scalingMatrix i else flatList i

/-- The lists in use are those of the standard, in the result and in the packed table, which has
eight. -/
structure InEffect (out : ParseResult) (seq : SeqMatrix) (pic : PicMatrix) : Prop where
  lists : ∀ i, Used seq pic i → matrixInUse out i = effective seq pic i
  packed : ∀ i < 8, Used seq pic i → ∀ j < listSize i,
    (packScalingList out.scalingMatrix out.hasScalingMatrix)[packedAt i + j]? =
    (effective seq pic i)[j]?

end Packer

section Sets

/-- Where the matrix was read that is the last one: `replaced` if its parameter set came again
without. -/
inductive Source where
  | nowhere
  | seq
  | pic
  | replaced
deriving DecidableEq

/-- The parameter sets that were read last. -/
structure Sets where
  seq : Option SeqMatrix := none
  pic : Option PicMatrix := none
  source : Source := .nowhere

def Sets.withSeq (s : Sets) (seq : SeqMatrix) : Sets :=
  { s with
    seq := some seq
    source := if seq.lists.isSome then .seq else if s.source = .seq then .replaced else s.source }

def Sets.withPic (s : Sets) (pic : PicMatrix) : Sets :=
  { s with
    pic := some pic
    source := if pic.lists.isSome then .pic else if s.source = .pic then .replaced else s.source }

/-- What a unit adds. A PPS is read with the chroma format of the SPS before it. -/
def Sets.next (s : Sets) (u : UnitRun ParseResult) : Sets :=
  match u.kind with
  | .sps =>
    match (exec readSeqMatrix () u.reader).1.1 with
    | .ok seq => s.withSeq seq
    | .error _ => s
  | .pps =>
    match (exec (readPicMatrix (u.before.sps.chromaFormatIdc = 3)) () u.reader).1.1 with
    | .ok pic => s.withPic pic
    | .error _ => s
  | _ => s

def Sets.after (s : Sets) (units : List (UnitRun ParseResult)) : Sets := units.foldl Sets.next s

/-- The matrix that was read last is the one that is due: that of the PPS, or of the SPS if the PPS
has none. -/
def Sets.Fresh (s : Sets) (seq : SeqMatrix) (pic : PicMatrix) : Prop :=
  s.source = if pic.lists.isSome then .pic else if seq.lists.isSome then .seq else .nowhere

instance (s : Sets) (seq : SeqMatrix) (pic : PicMatrix) : Decidable (s.Fresh seq pic) :=
  inferInstanceAs (Decidable (_ = _))

/-- The lists are coded so that the code does not take a wrong one for them. -/
def Sent (seq : SeqMatrix) (pic : PicMatrix) : Prop :=
  match pic.lists, seq.lists with
  | some p, s =>
    (∀ i < 6, codedAt p i ≠ .useDefault ∧ (i = 0 ∨ i = 3 → codedAt p i ≠ .absent)) ∧
      (pic.transform8x8 = true → seq.is444 = false ∧
        ∀ i, i = 6 ∨ i = 7 → codedAt p i = .absent → s = none)
  | none, some s => ∀ i, Used seq pic i → ∃ values, codedAt s i = .explicit values
  | none, none => True

/-- The parameter sets of an access unit were parsed. -/
def Parses (au : List Byte × Nat) (out : ParseResult) : Prop :=
  ∀ u ∈ (auUnits au.1 au.2 out).units, u.kind ≠ .slice → u.Accepted

/-- The result and the parameter sets, access unit by access unit. -/
def follow (st : ParseResult × Sets) (au : List Byte × Nat) : ParseResult × Sets :=
  ((parseAccessUnit au.1 au.2 st.1).2, st.2.after (auUnits au.1 au.2 st.1).units)

/-- That of every access unit, in the state it finds. -/
def AllParse : List (List Byte × Nat) → ParseResult × Sets → Prop
  | [], _ => True
  | au :: aus, st => Parses au st.1 ∧ AllParse aus (follow st au)

end Sets

section Lists

variable {sm : ScalingMatrix} {start start' : Nat → List Nat} {lists lists' : List CodedList}
  {i j k n : Nat}
  {list : List Nat}

/-- A matrix that has all its lists. -/
structure WellFormed (sm : ScalingMatrix) : Prop where
  count4x4 : sm.scalingList4x4.length = 6
  count8x8 : sm.scalingList8x8.length = 6
  size : ∀ i < 12, (listAt sm i).length = listSize i

theorem wellFormed_empty : WellFormed {} where
  count4x4 := rfl
  count8x8 := rfl
  size := by decide

theorem listAt_empty (hi : i < 12) : listAt {} i = List.replicate (listSize i) 0 := by
  revert i
  decide

theorem listAt_putList (hsm : WellFormed sm) (hi : i < 12) (hj : j < 12) :
    listAt (putList sm i list) j = if i = j then list else listAt sm j := by
  have hset (l : List (List Nat)) (a b : Nat) (ha : a < l.length) :
      (l.set a list).getD b [] = if a = b then list else l.getD b [] := by
    simp only [List.getD_eq_getElem?_getD, List.getElem?_set]
    split_ifs with hab
    · rfl
    · rfl
  have h4 := hsm.count4x4
  have h8 := hsm.count8x8
  unfold putList listAt
  by_cases hsmall : i < 6
  · rw [if_pos hsmall]
    by_cases hjsmall : j < 6
    · rw [if_pos hjsmall, if_pos hjsmall, hset _ _ _ (by omega)]
    · rw [if_neg hjsmall, if_neg hjsmall, if_neg (by omega)]
  · rw [if_neg hsmall]
    by_cases hjsmall : j < 6
    · rw [if_pos hjsmall, if_pos hjsmall, if_neg (by omega)]
    · rw [if_neg hjsmall, if_neg hjsmall, hset _ _ _ (by omega)]
      split_ifs <;> first | rfl | omega

theorem WellFormed.put (hsm : WellFormed sm) (hi : i < 12) (hlist : list.length = listSize i) :
    WellFormed (putList sm i list) where
  count4x4 := by
    unfold putList
    split
    · exact (List.length_set ..).trans hsm.count4x4
    · exact hsm.count4x4
  count8x8 := by
    unfold putList
    split
    · exact hsm.count8x8
    · exact (List.length_set ..).trans hsm.count8x8
  size j hj := by
    rw [listAt_putList hsm hi hj]
    split_ifs with heq
    · rw [hlist, heq]
    · exact hsm.size j hj

theorem length_inverseScan (scan values list : List Nat) :
    (inverseScan scan values list).length = list.length := by
  induction scan generalizing values list with
  | nil => rfl
  | cons pos scan ih =>
    cases values with
    | nil => rfl
    | cons value values => rw [inverseScan, ih, List.length_set]

theorem length_matrixOf (i : Nat) (values : List Nat) :
    (matrixOf i values).length = listSize i := by
  rw [matrixOf, length_inverseScan, List.length_replicate]

/-- List `i` as it is stored: one that is not coded explicitly is zero. -/
def storedList (coded : CodedList) (i : Nat) : List Nat :=
  match coded with
  | .explicit values => matrixOf i values
  | _ => List.replicate (listSize i) 0

theorem storeAll_spec (hsm : WellFormed sm) (hk : k + lists.length ≤ 12)
    (hzero : ∀ j, k ≤ j → j < 12 → listAt sm j = List.replicate (listSize j) 0) :
    WellFormed (storeAll sm k lists) ∧ ∀ j < 12, listAt (storeAll sm k lists) j =
      if k ≤ j then storedList (codedAt lists (j - k)) j else listAt sm j := by
  induction lists generalizing sm k with
  | nil =>
    refine ⟨hsm, fun j hj => ?_⟩
    split
    · exact hzero j ‹_› hj
    · rfl
  | cons coded rest ih =>
    rw [List.length_cons] at hk
    have hput : storeCoded sm k coded = putList sm k (storedList coded k) := by
      have hown := hzero k (Nat.le_refl k) (by omega)
      have hsame : putList sm k (List.replicate (listSize k) 0) = sm := by
        rw [← hown, putList_listAt]
      cases coded with
      | explicit values => rw [storeCoded, storedList, matrixOf, hown]
      | absent => exact hsame.symm
      | useDefault => exact hsame.symm
    have hsize : (storedList coded k).length = listSize k := by
      cases coded with
      | explicit values => exact length_matrixOf k values
      | absent => exact List.length_replicate
      | useDefault => exact List.length_replicate
    have hown (j : Nat) (hj : j < 12) : listAt (putList sm k (storedList coded k)) j =
        if k = j then storedList coded k else listAt sm j := listAt_putList hsm (by omega) hj
    rw [storeAll, hput]
    obtain ⟨hwell, hlists⟩ :=
      ih (hsm.put (by omega) hsize) (k := k + 1) (by omega) fun j hkj hj => by
      rw [hown j hj, if_neg (by omega), hzero j (by omega) hj]
    refine ⟨hwell, fun j hj => ?_⟩
    rw [hlists j hj, hown j hj]
    rcases Nat.lt_trichotomy j k with hlt | rfl | hlt
    · rw [if_neg (by omega), if_neg (by omega), if_neg (by omega)]
    · rw [if_neg (by omega), if_pos rfl, if_pos (Nat.le_refl j), Nat.sub_self]
      rfl
    · rw [if_pos (by omega), if_pos (by omega)]
      have hstep : j - k = j - (k + 1) + 1 := by omega
      rw [hstep]
      rfl

/-- The matrix that is made of lists only. -/
theorem storeAll_empty (hlen : lists.length ≤ 12) : WellFormed (storeAll {} 0 lists) ∧
    ∀ j < 12, listAt (storeAll {} 0 lists) j = storedList (codedAt lists j) j := by
  obtain ⟨hwell, hlists⟩ :=
    storeAll_spec wellFormed_empty (by omega : 0 + lists.length ≤ 12) fun j _ hj =>
    listAt_empty hj
  refine ⟨hwell, fun j hj => ?_⟩
  rw [hlists j hj, if_pos (Nat.zero_le j), Nat.sub_zero]

/-- The lists of a chain that do not fall back to the one before them. -/
def HeadsChain (i : Nat) : Prop := i = 0 ∨ i = 3 ∨ i = 6 ∨ i = 7

instance (i : Nat) : Decidable (HeadsChain i) := inferInstanceAs (Decidable (_ ∨ _))

theorem derive_eq (start : Nat → List Nat) (lists : List CodedList) (i : Nat) :
    derive start lists i =
    codedOr lists i (if HeadsChain i then start i
      else if i < 6 then derive start lists (i - 1) else derive start lists (i - 2)) := by
  match i with
  | 0 => rfl
  | 1 => rfl
  | i + 2 =>
    have hheads : HeadsChain (i + 2) ↔ i + 2 = 3 ∨ i + 2 = 6 ∨ i + 2 = 7 := by
      simp [HeadsChain]
    rw [derive]
    simp only [hheads]
    rfl

/-- Two derivations agree where each list is coded alike, up to what it falls back to. -/
theorem derive_congr
    (hhead : ∀ i < n, HeadsChain i → codedOr lists i (start i) = codedOr lists' i (start' i))
    (hrest : ∀ i < n, ¬HeadsChain i → ∀ other, codedOr lists i other = codedOr lists' i other)
    (hi : i < n) :
    derive start lists i = derive start' lists' i := by
  induction i using Nat.strong_induction_on with
  | _ i ih =>
    rw [derive_eq start, derive_eq start']
    by_cases hheads : HeadsChain i
    · rw [if_pos hheads, if_pos hheads]
      exact hhead i hi hheads
    · have hpos : 0 < i := Nat.pos_of_ne_zero fun hzero => hheads (.inl hzero)
      rw [if_neg hheads, if_neg hheads, ih (i - 1) (by omega) (by omega),
        ih (i - 2) (by omega) (by omega)]
      exact hrest i hi hheads _

theorem length_codedOr (hother : list.length = listSize i) :
    (codedOr lists i list).length = listSize i := by
  unfold codedOr
  split
  · exact length_matrixOf i _
  · exact length_matrixOf i _
  · exact hother

theorem listSize_before (hheads : ¬HeadsChain i) :
    listSize (if i < 6 then i - 1 else i - 2) = listSize i := by
  unfold HeadsChain at hheads
  unfold listSize
  split_ifs <;> first | rfl | omega

theorem length_derive (hstart : ∀ i, (start i).length = listSize i) (i : Nat) :
    (derive start lists i).length = listSize i := by
  induction i using Nat.strong_induction_on with
  | _ i ih =>
    rw [derive_eq]
    refine length_codedOr ?_
    by_cases hheads : HeadsChain i
    · rw [if_pos hheads]
      exact hstart i
    · have hpos : 0 < i := Nat.pos_of_ne_zero fun hzero => hheads (.inl hzero)
      have hsize := listSize_before hheads
      rw [if_neg hheads]
      split_ifs at hsize ⊢ with hsmall
      · rw [ih (i - 1) (by omega), hsize]
      · rw [ih (i - 2) (by omega), hsize]

/-- What `parse_pps` falls back to. -/
def startOfPps (i : Nat) : List Nat :=
  if i < 3 then default4x4Intra else if i < 6 then default4x4Inter
  else if i % 2 = 0 then default8x8Intra else default8x8Inter

/-- A list that asks for the default is taken for one that is absent. -/
def CodedList.sansDefault : CodedList → CodedList
  | useDefault => absent
  | coded => coded

theorem length_startOfPps (i : Nat) : (startOfPps i).length = listSize i := by
  unfold startOfPps listSize
  split_ifs <;> first | rfl | omega

/-- `fallBack` puts what heads the chain, or the list before. -/
theorem fallBack_eq (sm : ScalingMatrix) (hk : k < 8) :
    fallBack sm k = putList sm k (if HeadsChain k then startOfPps k else listAt sm (k - 1)) := by
  interval_cases k <;> rfl

/-- The lists before `k` are resolved, the others are as they are stored. -/
structure Resolved (lists : List CodedList) (k : Nat) (sm : ScalingMatrix) : Prop where
  wellFormed : WellFormed sm
  before : ∀ i < k, listAt sm i = derive startOfPps (lists.map CodedList.sansDefault) i
  after : ∀ i, k ≤ i → i < lists.length → listAt sm i = storedList (codedAt lists i) i

theorem codedAt_map (f : CodedList → CodedList) (hf : f .absent = .absent)
    (lists : List CodedList) (i : Nat) :
    codedAt (lists.map f) i = f (codedAt lists i) := by
  unfold codedAt
  rw [List.getD_eq_getElem?_getD, List.getD_eq_getElem?_getD, List.getElem?_map]
  cases lists[i]? with
  | none => exact hf.symm
  | some coded => rfl

theorem resolved_step (h : Resolved lists k sm) (hk : k < lists.length) (hlen : lists.length ≤ 8) :
    Resolved lists (k + 1)
      (if (codedAt lists k).flags.1 && !(codedAt lists k).flags.2 then sm else fallBack sm k) := by
  have hderive := derive_eq startOfPps (lists.map CodedList.sansDefault) k
  unfold codedOr at hderive
  rw [codedAt_map _ rfl] at hderive
  -- a list that falls back is put, and it is the one that is due
  have hput (hsans : (codedAt lists k).sansDefault = .absent) :
      Resolved lists (k + 1) (fallBack sm k) := by
    rw [hsans] at hderive
    have hdue : (if HeadsChain k then startOfPps k else listAt sm (k - 1)) =
        derive startOfPps (lists.map CodedList.sansDefault) k := by
      rw [hderive]
      by_cases hheads : HeadsChain k
      · rw [if_pos hheads, if_pos hheads]
      · have hsmall : 0 < k ∧ k < 6 := by
          unfold HeadsChain at hheads
          omega
        rw [if_neg hheads, if_neg hheads, if_pos hsmall.2, h.before (k - 1) (by omega)]
    have hsize : (derive startOfPps (lists.map CodedList.sansDefault) k).length = listSize k :=
      length_derive length_startOfPps k
    rw [fallBack_eq sm (by omega), hdue]
    refine ⟨h.wellFormed.put (by omega) hsize, fun i hi => ?_, fun i hki hi => ?_⟩
    · rw [listAt_putList h.wellFormed (by omega) (by omega)]
      split_ifs with heq
      · rw [heq]
      · exact h.before i (by omega)
    · rw [listAt_putList h.wellFormed (by omega) (by omega), if_neg (by omega)]
      exact h.after i (by omega) hi
  cases hcoded : codedAt lists k with
  | absent => exact hput (by rw [hcoded]; rfl)
  | useDefault => exact hput (by rw [hcoded]; rfl)
  | explicit values =>
    refine ⟨h.wellFormed, fun i hi => ?_, fun i hki hi => h.after i (by omega) hi⟩
    rcases Nat.lt_succ_iff_lt_or_eq.mp hi with hlt | rfl
    · exact h.before i hlt
    · have hstored := h.after i (Nat.le_refl i) hk
      rw [hcoded] at hstored hderive
      exact hstored.trans hderive.symm

theorem resolved_all (hlen : lists.length ≤ 8) (hk : k ≤ lists.length) (h : Resolved lists k sm) :
    Resolved lists lists.length (resolveLists ((lists.drop k).map CodedList.flags) k sm) := by
  induction hn : lists.length - k generalizing k sm with
  | zero =>
    have heq : k = lists.length := by omega
    rw [List.drop_eq_nil_of_le (by omega)]
    exact heq ▸ h
  | succ n ih =>
    have hlt : k < lists.length := by omega
    have hat : codedAt lists k = lists[k] := by
      rw [codedAt, List.getD_eq_getElem?_getD, List.getElem?_eq_getElem hlt]
      rfl
    have hstep := resolved_step h hlt hlen
    rw [hat] at hstep
    rw [List.drop_eq_getElem_cons hlt]
    exact ih hlt hstep (by omega)

/-- The matrix of a PPS: its lists fall back within the PPS. -/
theorem picStored_spec (hlen : lists.length ≤ 8) :
    WellFormed (picStored lists) ∧ ∀ i < lists.length,
    listAt (picStored lists) i = derive startOfPps (lists.map CodedList.sansDefault) i := by
  obtain ⟨hwell, hlists⟩ := storeAll_empty (by omega : lists.length ≤ 12)
  have hstart : Resolved lists 0 (storeAll {} 0 lists) :=
    ⟨hwell, fun i hi => absurd hi (Nat.not_lt_zero i), fun i _ hi => hlists i (by omega)⟩
  have hall := resolved_all hlen (Nat.zero_le _) hstart
  exact ⟨hall.wellFormed, hall.before⟩

end Lists

section Comparison

variable {seq : SeqMatrix} {pic : PicMatrix} {p lists : List CodedList} {i : Nat}
  {out : ParseResult}
  {sm : ScalingMatrix}

theorem startOfPps_six : startOfPps 6 = defaultList 6 := by decide +kernel

theorem startOfPps_seven : startOfPps 7 = defaultList 7 := by decide +kernel

theorem Used.lt (h : Used seq pic i) : i < 12 := by
  rcases h with h | ⟨-, h | ⟨-, h⟩⟩
  · omega
  · omega
  · exact h

theorem count_le (pic : PicMatrix) : pic.count ≤ 8 := by
  unfold PicMatrix.count
  split <;> omega

theorem codedAt_take {n : Nat} (hi : i < n) : codedAt (lists.take n) i = codedAt lists i := by
  simp only [codedAt, List.getD_eq_getElem?_getD, List.getElem?_take_of_lt hi]

theorem codedOr_explicit {values other : List Nat} (h : codedAt lists i = .explicit values) :
    codedOr lists i other = matrixOf i values := by
  rw [codedOr, h]

/-- The lists of a PPS that are coded so that their rule set does not matter. -/
theorem derive_sent {start : Nat → List Nat} {n : Nat} (hn : n ≤ 8)
    (hcoded : ∀ j < 6, codedAt p j ≠ .useDefault ∧ (j = 0 ∨ j = 3 → codedAt p j ≠ .absent))
    (hstart : ∀ j < n, j = 6 ∨ j = 7 → codedAt p j = .absent → start j = defaultList j)
    (hi : i < n) :
    derive startOfPps ((p.take n).map CodedList.sansDefault) i = derive start p i := by
  have hat (j : Nat) (hj : j < n) : codedAt ((p.take n).map CodedList.sansDefault) j =
      (codedAt p j).sansDefault := by
    rw [codedAt_map _ rfl, codedAt_take hj]
  have hdefault (j : Nat) (hj : j = 6 ∨ j = 7) : startOfPps j = defaultList j := by
    rcases hj with rfl | rfl
    · exact startOfPps_six
    · exact startOfPps_seven
  refine derive_congr (fun j hj hheads => ?_) (fun j hj hheads other => ?_) hi
  · unfold codedOr
    rw [hat j hj]
    have height : j < 6 ∨ j = 6 ∨ j = 7 := by omega
    cases hlist : codedAt p j with
    | explicit values => rfl
    | useDefault =>
      rcases height with hsmall | hlarge
      · exact absurd hlist (hcoded j hsmall).1
      · exact hdefault j hlarge
    | absent =>
      rcases height with hsmall | hlarge
      · unfold HeadsChain at hheads
        exact absurd hlist ((hcoded j hsmall).2 (by omega))
      · exact (hdefault j hlarge).trans (hstart j hj hlarge hlist).symm
  · unfold codedOr
    rw [hat j hj]
    unfold HeadsChain at hheads
    cases hlist : codedAt p j with
    | explicit values => rfl
    | useDefault => exact absurd hlist (hcoded j (by omega)).1
    | absent => rfl

/-- The matrix of the PPS is the one in effect. -/
theorem picStored_effective (hpic : pic.lists = some p) (hcount : pic.count ≤ p.length)
    (hsent : Sent seq pic) (hused : Used seq pic i) :
    listAt (picStored (p.take pic.count)) i = effective seq pic i := by
  simp only [Sent, hpic] at hsent
  obtain ⟨hcoded, hlarge⟩ := hsent
  have hlen : (p.take pic.count).length = pic.count := by
    rw [List.length_take, Nat.min_eq_left hcount]
  have hi : i < pic.count := by
    unfold PicMatrix.count
    rcases hused with hsmall | ⟨htransform, hi⟩
    · split <;> omega
    · have h444 := (hlarge htransform).1
      rw [h444] at hi
      rw [if_pos htransform]
      rcases hi with hi | ⟨hno, -⟩
      · exact hi
      · cases hno
  have htransform (hi : 6 < pic.count) : pic.transform8x8 = true := by
    unfold PicMatrix.count at hi
    by_contra hno
    rw [if_neg hno] at hi
    omega
  rw [(picStored_spec (by rw [hlen]; exact count_le pic)).2 i (by rwa [hlen])]
  unfold effective
  rw [hpic]
  cases hseq : seq.lists with
  | none => exact derive_sent (count_le pic) hcoded (fun _ _ _ _ => rfl) hi
  | some s =>
    refine derive_sent (count_le pic) hcoded (fun j hj hjlarge habsent => ?_) hi
    have hnone := (hlarge (htransform (by omega))).2 j hjlarge habsent
    rw [hseq] at hnone
    cases hnone

/-- The matrix of the SPS is the one in effect. -/
theorem seqStored_effective (hpic : pic.lists = none) (hseq : seq.lists = some lists)
    (hlen : lists.length ≤ 12) (hsent : Sent seq pic) (hused : Used seq pic i) :
    listAt (storeAll {} 0 lists) i = effective seq pic i := by
  simp only [Sent, hpic, hseq] at hsent
  obtain ⟨values, hvalues⟩ := hsent i hused
  unfold effective
  rw [(storeAll_empty hlen).2 i hused.lt, hvalues, hpic, hseq]
  dsimp only
  rw [derive_eq, codedOr_explicit hvalues]
  rfl

/-- The packed table holds the lists that are in use. -/
theorem packed_matrixInUse (hsm : WellFormed out.scalingMatrix) {j : Nat} (hi : i < 8)
    (hj : j < listSize i) :
    (packScalingList out.scalingMatrix out.hasScalingMatrix)[packedAt i + j]? =
    (matrixInUse out i)[j]? := by
  unfold packScalingList matrixInUse packedAt
  cases out.hasScalingMatrix with
  | false =>
    simp only [Bool.false_eq_true, if_false, flatList]
    rw [List.getElem?_replicate, List.getElem?_replicate, if_pos hj, if_pos]
    unfold listSize at hj
    split_ifs at hj ⊢ <;> omega
  | true =>
    simp only [if_true]
    have hsmall (r : Nat) (hr : r < 6) :
        ((out.scalingMatrix.scalingList4x4.getD r []).take 16).length = 16 := by
      have hsize := hsm.size r (by omega)
      rw [listAt, if_pos hr, listSize, if_pos hr] at hsize
      rw [List.length_take, hsize]
      rfl
    have hlarge (r : Nat) (hr : r < 2) :
        ((out.scalingMatrix.scalingList8x8.getD r []).take 64).length = 64 := by
      have hsize := hsm.size (r + 6) (by omega)
      rw [listAt, if_neg (by omega), listSize, if_neg (by omega), Nat.add_sub_cancel] at hsize
      rw [List.length_take, hsize]
      rfl
    have hlen := length_flatMap_range hsmall
    unfold listSize at hj
    unfold listAt
    split_ifs at hj ⊢ with hi6
    · rw [List.getElem?_append_left (by rw [hlen]; omega), getElem?_flatMap_range hsmall hi6 hj,
        List.getElem?_take_of_lt hj]
    · rw [List.getElem?_append_right (by rw [hlen]; omega), hlen]
      have hoff : 96 + (i - 6) * 64 + j - 6 * 16 = (i - 6) * 64 + j := by omega
      rw [hoff, getElem?_flatMap_range hlarge (by omega) hj, List.getElem?_take_of_lt hj]

end Comparison

section Invariant

variable {v : ScalingMatrix × Bool} {sets : Sets} {u : UnitRun ParseResult} {s : Au}

/-- The matrix is the one that was read last, and made of the lists of its parameter set. -/
structure Current (v : ScalingMatrix × Bool) (sets : Sets) : Prop where
  wellFormed : WellFormed v.1
  some_read : v.2 = true ↔ sets.source ≠ .nowhere
  of_seq : sets.source = .seq → ∃ seq lists, sets.seq = some seq ∧ seq.lists = some lists ∧
    lists.length ≤ 12 ∧ v.1 = storeAll {} 0 lists
  of_pic : sets.source = .pic → ∃ pic lists, sets.pic = some pic ∧ pic.lists = some lists ∧
    pic.count ≤ lists.length ∧ v.1 = picStored (lists.take pic.count)

theorem current_start : Current (matrixView {}) {} where
  wellFormed := wellFormed_empty
  some_read := by decide
  of_seq := nofun
  of_pic := nofun

theorem Current.withSeq (h : Current v sets) {seq : SeqMatrix}
    (hlen : ∀ lists, seq.lists = some lists → lists.length = if seq.is444 then 12 else 8) :
    Current (match seq.lists with
      | none => v
      | some lists => (storeAll {} 0 lists, true)) (sets.withSeq seq) := by
  unfold Sets.withSeq
  cases hlists : seq.lists with
  | some lists =>
    have hle : lists.length ≤ 12 := by
      rw [hlen lists hlists]
      split <;> omega
    exact ⟨(storeAll_empty hle).1, by simp, fun _ => ⟨seq, lists, rfl, hlists, hle, rfl⟩,
      fun hpic => by simp at hpic⟩
  | none =>
    simp only [Option.isSome_none, Bool.false_eq_true, if_false]
    split_ifs with hsource
    · refine ⟨h.wellFormed, ?_, fun hseq => by simp at hseq, fun hpic => by simp at hpic⟩
      rw [h.some_read, hsource]
      simp
    · exact ⟨h.wellFormed, h.some_read, fun hseq => absurd hseq hsource, h.of_pic⟩

theorem Current.withPic (h : Current v sets) {pic : PicMatrix}
    (hlen : ∀ lists, pic.lists = some lists → pic.count ≤ lists.length) :
    Current (match pic.lists with
      | none => v
      | some lists => (picStored (lists.take pic.count), true)) (sets.withPic pic) := by
  unfold Sets.withPic
  cases hlists : pic.lists with
  | some lists =>
    have hle : (lists.take pic.count).length ≤ 8 := by
      rw [List.length_take]
      exact (Nat.min_le_left _ _).trans (count_le pic)
    exact ⟨(picStored_spec hle).1, by simp, fun hseq => by simp at hseq,
      fun _ => ⟨pic, lists, rfl, hlists, hlen lists hlists, rfl⟩⟩
  | none =>
    simp only [Option.isSome_none, Bool.false_eq_true, if_false]
    split_ifs with hsource
    · refine ⟨h.wellFormed, ?_, fun hseq => by simp at hseq, fun hpic => by simp at hpic⟩
      rw [h.some_read, hsource]
      simp
    · exact ⟨h.wellFormed, h.some_read, h.of_seq, fun hpic => absurd hpic hsource⟩

theorem exec_of_accepted (h : u.Accepted) : ∃ br,
    exec u.parser u.before u.reader = ((.ok (), u.outcome.1.2), br) := by
  obtain ⟨⟨⟩, s, br, hout⟩ := h
  refine ⟨br, ?_⟩
  rw [hout]
  exact hout

/-- A unit that is an SPS or a PPS is read as the syntax has it. -/
theorem Current.next_sps (h : Current (matrixView u.before) sets) (hkind : u.kind = .sps)
    (hparser : u.parser = spsUnit) (haccepted : u.Accepted) :
    Current (matrixView u.outcome.1.2) (sets.next u) := by
  obtain ⟨br, hexec⟩ := exec_of_accepted haccepted
  rw [hparser] at hexec
  obtain ⟨seq, t, br'', hread, hlen, hview⟩ := reports_spsUnit _ () _ _ _ _ rfl hexec
  unfold Sets.next
  rw [hkind, hview, hread]
  exact h.withSeq hlen

theorem Current.next_pps (h : Current (matrixView u.before) sets) (hkind : u.kind = .pps)
    (hparser : u.parser = ppsUnit) (haccepted : u.Accepted) :
    Current (matrixView u.outcome.1.2) (sets.next u) := by
  obtain ⟨br, hexec⟩ := exec_of_accepted haccepted
  rw [hparser] at hexec
  obtain ⟨pic, t, br'', hread, hlen, hview⟩ :=
    reports_ppsUnit (u.before.sps.chromaFormatIdc = 3) _ () _ _ _ _ rfl hexec
  unfold Sets.next
  rw [hkind, hview, hread]
  exact h.withPic hlen

theorem after_append (sets : Sets) (units : List (UnitRun ParseResult)) (u : UnitRun ParseResult) :
    sets.after (units ++ [u]) = (sets.after units).next u := by
  unfold Sets.after
  rw [List.foldl_append]
  rfl

/-- As long as the parameter sets were accepted. -/
def Tracks (sets : Sets) (s : Au) : Prop :=
  (∀ u ∈ s.units, u.kind ≠ .slice → u.Accepted) →
    Current (matrixView s.result.1) (sets.after s.units)

theorem Tracks.parse (h : Tracks sets s) (hbefore : u.before = s.result.1)
    (hnext : ∀ sets, Current (matrixView u.before) sets → (u.kind ≠ .slice → u.Accepted) →
      Current (matrixView u.outcome.1.2) (sets.next u)) : Tracks sets (s.parse u) := by
  intro hall
  have hunits : (s.parse u).units = s.units ++ [u] := rfl
  rw [hunits] at hall ⊢
  rw [after_append]
  refine hnext _ ?_ (hall u (by simp))
  rw [hbefore]
  exact h fun v hv => hall v (List.mem_append_left _ hv)

theorem matrixView_finishSlice (s : Au) (nalRefIdc : Nat) (payload : List Byte) (headerBits : Nat) :
    matrixView (finishSlice s nalRefIdc payload headerBits).result.1 = matrixView s.result.1 ∧
      (finishSlice s nalRefIdc payload headerBits).units = s.units := by
  simp only [finishSlice]
  split
  · exact ⟨rfl, rfl⟩
  · exact ⟨rfl, rfl⟩

theorem Tracks.slice (h : Tracks sets s) {nalRefIdc nalUnitType : Nat} (hkind : u.kind = .slice)
    (hparser : u.parser = parseSliceHeader nalRefIdc nalUnitType)
    (hbefore : u.before = s.result.1) :
    Tracks sets (s.parse u) := by
  refine h.parse hbefore fun sets hcurrent _ => ?_
  have hkeeps : Keeps matrixView (parseSliceHeader nalRefIdc nalUnitType) :=
    (keeps_parseSliceHeader nalRefIdc nalUnitType).comp matrixView
  have hview := hkeeps u.before u.reader
  rw [← hparser] at hview
  have hsame : sets.next u = sets := by
    unfold Sets.next
    rw [hkind]
  rw [hsame]
  exact (congrArg (Current · sets) hview).mpr hcurrent

theorem tracks_visit (h : Tracks sets s) (rbsp : List Byte) : Tracks sets (visit s rbsp) := by
  have hspsKind : UnitKind.sps ≠ .slice := by decide
  have hppsKind : UnitKind.pps ≠ .slice := by decide
  simp only [visit]
  split_ifs with hsps hpps hslice hmissing hfailed
  · refine h.parse rfl fun sets hcurrent haccepted => ?_
    exact hcurrent.next_sps rfl rfl (haccepted hspsKind)
  · refine h.parse rfl fun sets hcurrent haccepted => ?_
    exact hcurrent.next_pps rfl rfl (haccepted hppsKind)
  · exact h
  · exact h.slice rfl rfl rfl
  · have hparsed := h.slice (u := ⟨.slice, parseSliceHeader ((rbsp.headD 0).toNat / 2 ^ 5 % 4)
      ((rbsp.headD 0).toNat % 2 ^ 5), s.result.1, .init (rbsp.drop 1)⟩) rfl rfl rfl
    obtain ⟨hview, hunits⟩ := matrixView_finishSlice (s.parse ⟨.slice, parseSliceHeader
      ((rbsp.headD 0).toNat / 2 ^ 5 % 4) ((rbsp.headD 0).toNat % 2 ^ 5), s.result.1,
        .init (rbsp.drop 1)⟩)
      ((rbsp.headD 0).toNat / 2 ^ 5 % 4) (rbsp.drop 1) _
    unfold Tracks
    rw [hview, hunits]
    exact hparsed
  · exact h

theorem matrixView_parseAccessUnit (au : List Byte × Nat) (out : ParseResult) :
    matrixView (parseAccessUnit au.1 au.2 out).2 = matrixView (auUnits au.1 au.2 out).result.1 := by
  have hclose (s : Au) : matrixView (closeAu s).2 = matrixView s.result.1 := by
    unfold closeAu
    split
    · rfl
    · split
      · rfl
      · rfl
  exact hclose (auUnits au.1 au.2 out)

/-- What an access unit preserves. -/
theorem Current.follow {st : ParseResult × Sets} {au : List Byte × Nat}
    (h : Current (matrixView st.1) st.2) (hparses : Parses au st.1) :
    Current (matrixView (follow st au).1) (follow st au).2 := by
  have htracks : Tracks st.2 (auUnits au.1 au.2 st.1) := by
    unfold auUnits
    refine auLoop_rule (P := Tracks st.2) (fun s rbsp _ hs => tracks_visit hs rbsp)
      (fun s e hs => hs) _ _ _ rfl ?_
    exact fun _ => h
  have hcurrent := htracks hparses
  rw [← matrixView_parseAccessUnit] at hcurrent
  exact hcurrent

theorem current_foldl {st : ParseResult × Sets} {aus : List (List Byte × Nat)}
    (h : Current (matrixView st.1) st.2) (hparse : AllParse aus st) :
    Current (matrixView (aus.foldl follow st).1) (aus.foldl follow st).2 := by
  induction aus generalizing st with
  | nil => exact h
  | cons au aus ih => exact ih (h.follow hparse.1) hparse.2

/-- A matrix that is current is in effect as the standard has it, if it is the one that is due and
its lists are coded so that none of them falls back wrongly. -/
theorem Current.inEffect {out : ParseResult} {seq : SeqMatrix} {pic : PicMatrix}
    (h : Current (matrixView out) sets) (hseq : sets.seq = some seq) (hpic : sets.pic = some pic)
    (hfresh : sets.Fresh seq pic) (hsent : Sent seq pic) :
    InEffect out seq pic := by
  have hlists (i : Nat) (hused : Used seq pic i) : matrixInUse out i = effective seq pic i := by
    have hread : out.hasScalingMatrix = true ↔ sets.source ≠ .nowhere := h.some_read
    unfold Sets.Fresh at hfresh
    unfold matrixInUse
    cases hp : pic.lists with
    | some p =>
      rw [hp, Option.isSome_some, if_pos rfl] at hfresh
      obtain ⟨pic', lists, hpic', hlists, hcount, hmatrix⟩ := h.of_pic hfresh
      obtain rfl : pic = pic' := Option.some.inj (hpic.symm.trans hpic')
      have hsm : out.scalingMatrix = picStored (lists.take pic.count) := hmatrix
      rw [if_pos (hread.mpr (by rw [hfresh]; nofun)), hsm]
      exact picStored_effective hlists hcount hsent hused
    | none =>
      rw [hp] at hfresh
      cases hs : seq.lists with
      | some s =>
        rw [hs] at hfresh
        obtain ⟨seq', lists, hseq', hlists, hlen, hmatrix⟩ := h.of_seq hfresh
        obtain rfl : seq = seq' := Option.some.inj (hseq.symm.trans hseq')
        have hsm : out.scalingMatrix = storeAll {} 0 lists := hmatrix
        rw [if_pos (hread.mpr (by rw [hfresh]; nofun)), hsm]
        exact seqStored_effective hp hlists hlen hsent hused
      | none =>
        rw [hs] at hfresh
        have hno : ¬out.hasScalingMatrix = true := fun hyes => hread.mp hyes hfresh
        rw [if_neg hno]
        simp only [effective, hp, hs]
  refine ⟨hlists, fun i hi hused j hj => ?_⟩
  rw [packed_matrixInUse h.wellFormed hi hj, hlists i hused]

end Invariant

section Fallback

/-- The lists of every SPS and PPS that are in effect after an access unit, and those that are
packed, are the lists of the standard if the matrix that is due was read last, and each list that is
used is coded so that none is taken for the one that it falls back to. -/
theorem lists_in_effect (aus : List (List Byte × Nat)) (hparse : AllParse aus ({}, {}))
    {seq : SeqMatrix} {pic : PicMatrix} (hseq : (aus.foldl follow ({}, {})).2.seq = some seq)
    (hpic : (aus.foldl follow ({}, {})).2.pic = some pic)
    (hfresh : (aus.foldl follow ({}, {})).2.Fresh seq pic) (hsent : Sent seq pic) :
    InEffect (aus.foldl follow ({}, {})).1 seq pic :=
  (current_foldl current_start hparse).inEffect hseq hpic hfresh hsent

/-- An access unit that is accepted has all its parameter sets parsed. -/
theorem parses_of_ok {au : List Byte × Nat} {out : ParseResult}
    (h : (parseAccessUnit au.1 au.2 out).1 = .ok) :
    Parses au out := by
  intro u hu _
  exact (auUnits_parsed au.1 au.2 out).accepted (status_of_ok h) u hu

/-- The PPS sends the first list of both chains. -/
def chainsSent : List Byte × Nat :=
  ([0, 0, 1, 0x67, 0x42, 0x00, 0x0a, 0xda, 0x71, 0, 0, 1, 0x68, 0xce, 0x38, 0x61, 0x00, 0x42, 0x43,
    0x00, 0xa4, 0xc0, 0, 0, 1, 0x65, 0x88, 0x84, 0x21], 64)

def flatChains : PicMatrix :=
  ⟨false, some [.explicit (List.replicate 16 16), .absent, .absent,
    .explicit (List.replicate 16 20), .absent, .absent]⟩

theorem chains_inherited : InEffect (follow ({}, {}) chainsSent).1 ⟨false, none⟩ flatChains := by
  have hok : (parseAccessUnit chainsSent.1 chainsSent.2 {}).1 = .ok := by decide +kernel
  have hlists : ∀ i < 6, codedAt (flatChains.lists.getD []) i ≠ .useDefault ∧
      (i = 0 ∨ i = 3 → codedAt (flatChains.lists.getD []) i ≠ .absent) := by decide
  exact lists_in_effect [chainsSent] ⟨parses_of_ok hok, trivial⟩ (by decide +kernel)
    (by decide +kernel)
    (by decide +kernel) ⟨hlists, fun htransform => by cases htransform⟩

/-- The SPS sends no list of its matrix. -/
def nothingSent : List Byte × Nat :=
  ([0, 0, 1, 0x67, 0x64, 0x00, 0x0a, 0xad, 0x00, 0xe9, 0xe4, 0, 0, 1, 0x68, 0xce, 0x38, 0x80,
    0, 0, 1, 0x65, 0x88, 0x84, 0x21], 64)

/-- The lists that are not sent are not the default ones but zero. -/
theorem absent_lists_zero :
    (parseAccessUnit nothingSent.1 nothingSent.2 {}).1 = .ok ∧
      (follow ({}, {}) nothingSent).2.seq = some ⟨false, some (List.replicate 8 .absent)⟩ ∧
      (follow ({}, {}) nothingSent).2.pic = some ⟨false, none⟩ ∧
      matrixInUse (follow ({}, {}) nothingSent).1 0 = List.replicate 16 0 ∧
      ¬InEffect (follow ({}, {}) nothingSent).1 ⟨false, some (List.replicate 8 .absent)⟩
        ⟨false, none⟩ := by
  have hzero : matrixInUse (follow ({}, {}) nothingSent).1 0 = List.replicate 16 0 := by
    decide +kernel
  refine ⟨by decide +kernel, by decide +kernel, by decide +kernel, hzero, fun h => ?_⟩
  have hfirst := h.lists 0 (.inl (by decide))
  rw [hzero] at hfirst
  revert hfirst
  decide

end Fallback

end Rkvdec.Bitstream.H264
