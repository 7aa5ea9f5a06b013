import Rkvdec.Bitstream.Mirroring

/-! The scaling lists of H.264 as the syntax of the parameter sets codes them, and that the parsers
read just these. -/
namespace Rkvdec.Bitstream.H264

section Coded

/-- A scaling list as it is coded: left out, the default one, or its values in the order of the
scan. -/
inductive CodedList where
  | absent
  | useDefault
  | explicit (values : List Nat)
deriving DecidableEq

/-- The scan of list `i`; its positions are those of the list. -/
def scanOf (i : Nat) : List Nat := if i < 6 then zigZag4x4 else zigZag8x8

/-- `scaling_list`, from a position of the scan on; `none` is `useDefaultScalingMatrixFlag`. -/
def readListValues : Nat → Bool → Nat → Nat → Parser Unit (Option (List Nat))
  | 0, _, _, _ => pure (some [])
  | n + 1, first, lastScale, nextScale => do
    let nextScale ←
      if nextScale ≠ 0 then do
        let deltaScale ← brSe
        pure (((lastScale : Int) + deltaScale + 256) % 256).toNat
      else pure nextScale
    if first ∧ nextScale = 0 then pure none
    else
      let value := if nextScale = 0 then lastScale else nextScale
      let values ← readListValues n false value nextScale
      pure (values.map (value :: ·))

def CodedList.ofValues : Option (List Nat) → CodedList
  | none => useDefault
  | some values => explicit values

/-- The lists from `i` on, each behind its present flag. -/
def readCodedLists : Nat → Nat → Parser Unit (List CodedList)
  | 0, _ => pure []
  | n + 1, i => do
    if ← flag then
      let values ← readListValues (scanOf i).length true 8 8
      let rest ← readCodedLists n (i + 1)
      pure (CodedList.ofValues values :: rest)
    else
      let rest ← readCodedLists n (i + 1)
      pure (.absent :: rest)

theorem total_readListValues (n : Nat) (first : Bool) (last next : Nat) :
    Total (readListValues n first last next) := by
  induction n generalizing first last next with
  | zero => exact total_pure _
  | succ n ih =>
    have hrest (scale : Nat) : Total (if first = true ∧ scale = 0 then pure none
        else readListValues n false (if scale = 0 then last else scale) scale >>= fun values =>
          pure (values.map ((if scale = 0 then last else scale) :: ·)) : Parser Unit
            (Option (List Nat))) := by
      split
      · exact total_pure _
      · exact (ih _ _ _).bind fun _ => total_pure _
    rw [readListValues]
    split
    · exact total_brSe.bind fun _ => hrest _
    · exact hrest _

theorem total_readCodedLists (n i : Nat) : Total (readCodedLists n i) := by
  induction n generalizing i with
  | zero => exact total_pure _
  | succ n ih =>
    refine total_flag.bind fun present => ?_
    split
    · exact (total_readListValues _ _ _ _).bind fun _ => (ih _).bind fun _ => total_pure _
    · exact (ih _).bind fun _ => total_pure _

/-- What a sequence parameter set says of its lists. -/
structure SeqMatrix where
  is444 : Bool
  lists : Option (List CodedList)
deriving DecidableEq

/-- `seq_parameter_set_data`, up to its scaling lists. -/
def readSeqMatrix : Parser Unit SeqMatrix := do
  let profileIdc ← brU 8
  let _ ← brU 8
  let _ ← brU 8
  let _ ← brUe
  if profileIdc ∈ highProfiles then
    let chromaFormatIdc ← brUe
    if u8 chromaFormatIdc = 3 then
      let _ ← flag
    let _ ← brUe
    let _ ← brUe
    let _ ← flag
    if ← flag then
      let lists ← readCodedLists (if u8 chromaFormatIdc = 3 then 12 else 8) 0
      pure ⟨u8 chromaFormatIdc = 3, some lists⟩
    else pure ⟨u8 chromaFormatIdc = 3, none⟩
  else pure ⟨false, none⟩

/-- What a picture parameter set says of its lists. -/
structure PicMatrix where
  transform8x8 : Bool
  lists : Option (List CodedList)
deriving DecidableEq

/-- `pic_parameter_set_rbsp`, up to its scaling lists. The chroma format is that of the SPS. -/
def readPicMatrix (is444 : Bool) : Parser Unit PicMatrix := do
  let _ ← brUe
  let _ ← brUe
  let _ ← flag
  let _ ← flag
  let _ ← brUe
  let _ ← brUe
  let _ ← brUe
  let _ ← flag
  let _ ← brU 2
  let _ ← brSe
  let _ ← brSe
  let _ ← brSe
  let _ ← flag
  let _ ← flag
  let _ ← flag
  if ← brMoreRbspData then
    let transform8x8 ← flag
    if ← flag then
      let lists ← readCodedLists (if transform8x8 then 8 else 6) 0
      let more ← readCodedLists (if transform8x8 && is444 then 4 else 0) 8
      pure ⟨transform8x8, some (lists ++ more)⟩
    else pure ⟨transform8x8, none⟩
  else pure ⟨false, none⟩

end Coded

section Stored

/-- List `i` of a matrix. -/
def listAt (sm : ScalingMatrix) (i : Nat) : List Nat :=
  if i < 6 then sm.scalingList4x4.getD i [] else sm.scalingList8x8.getD (i - 6) []

def putList (sm : ScalingMatrix) (i : Nat) (list : List Nat) : ScalingMatrix :=
  if i < 6 then { sm with scalingList4x4 := sm.scalingList4x4.set i list }
  else { sm with scalingList8x8 := sm.scalingList8x8.set (i - 6) list }

/-- The values of a scan at their positions. -/
def inverseScan : List Nat → List Nat → List Nat → List Nat
  | pos :: scan, value :: values, list => inverseScan scan values (list.set pos value)
  | _, _, list => list

/-- A list that is not coded explicitly is left as it is. -/
def storeCoded (sm : ScalingMatrix) (i : Nat) : CodedList → ScalingMatrix
  | .explicit values => putList sm i (inverseScan (scanOf i) values (listAt sm i))
  | _ => sm

def storeAll (sm : ScalingMatrix) : Nat → List CodedList → ScalingMatrix
  | _, [] => sm
  | i, coded :: rest => storeAll (storeCoded sm i coded) (i + 1) rest

/-- What `parse_pps` notes of a list: whether it is present, and whether it asks for the default. -/
def CodedList.flags : CodedList → Bool × Bool
  | absent => (false, false)
  | useDefault => (true, true)
  | explicit _ => (true, false)

variable {P : ParseResult → Prop} {sm : ScalingMatrix} {i n last next : Nat} {first : Bool}
  {list : List Nat}

theorem putList_listAt (sm : ScalingMatrix) (i : Nat) : putList sm i (listAt sm i) = sm := by
  have hself (l : List (List Nat)) (k : Nat) : l.set k (l.getD k []) = l := by
    refine List.ext_getElem? fun j => ?_
    rw [List.getElem?_set]
    split
    · rename_i heq
      subst heq
      split
      · rename_i hlt
        rw [List.getD_eq_getElem?_getD, List.getElem?_eq_getElem hlt]
        rfl
      · rename_i hge
        rw [List.getElem?_eq_none (Nat.not_lt.mp hge)]
    · rfl
  unfold putList listAt
  split
  · rw [hself]
  · rw [hself]

/-- The loop stores the values that the syntax codes. -/
theorem mirrors_scalingLoop (zz : List Nat) (hlast : last < 256) (hnext : next < 256) :
    Mirrors P (scalingLoop zz first last next last list) (readListValues zz.length first last next)
      fun a b s => P s ∧ (first = false → b.isSome) ∧
        a = (match b with
          | some values => (inverseScan zz values list, false)
          | none => (list, true)) := by
  induction zz generalizing first last next list with
  | nil => exact mirrors_pure fun s hs => ⟨hs, fun _ => rfl, rfl⟩
  | cons pos zz ih =>
    rw [scalingLoop, List.length_cons, readListValues]
    -- with the next scale known both store a value, or both stop at the first
    have hrest (scale : Nat) (hscale : scale < 256) :
        Mirrors P
          (if first = true ∧ scale = 0 then pure (list, true)
          else scalingLoop zz false (if scale = 0 then last else scale) scale
            (if scale = 0 then last else scale)
            (list.set pos (u8 (if scale = 0 then last else scale))))
          (if first = true ∧ scale = 0 then pure none
          else readListValues zz.length false (if scale = 0 then last else scale) scale >>=
            fun values =>
            pure (values.map ((if scale = 0 then last else scale) :: ·)))
          fun a b s => P s ∧ (first = false → b.isSome) ∧
            a = (match b with
              | some values => (inverseScan (pos :: zz) values list, false)
              | none => (list, true)) := by
      refine Mirrors.cond (fun hstop => ?_) fun _ => ?_
      · refine mirrors_pure fun s hs => ⟨hs, ?_, rfl⟩
        intro hfirst
        rw [hfirst] at hstop
        cases hstop.1
      · generalize hvalue : (if scale = 0 then last else scale) = value
        have hlt : value < 256 := by
          rw [← hvalue]
          split
          · exact hlast
          · exact hscale
        have hbyte : u8 value = value := Nat.mod_eq_of_lt hlt
        rw [hbyte]
        refine Mirrors.pure_right (ih hlt hscale) ?_
        rintro a b s ⟨hs, hsome, rfl⟩
        obtain ⟨values, rfl⟩ := Option.isSome_iff_exists.mp (hsome rfl)
        exact ⟨hs, fun _ => rfl, rfl⟩
    refine Mirrors.cond (fun _ => ?_) fun _ => hrest next hnext
    exact Mirrors.bind_same mirrors_brSe fun delta => hrest _ (by omega)

theorem parseMatrixList_eq (sm : ScalingMatrix) (i : Nat) : parseMatrixList sm i =
    scalingLoop (scanOf i) true 8 8 8 (listAt sm i) >>= fun x => pure (putList sm i x.1, x.2) := by
  unfold parseMatrixList parseScalingList listAt putList scanOf
  split
  · rfl
  · rfl

/-- A list of the matrix, behind its present flag, is stored if it is coded explicitly. -/
theorem mirrors_parseMatrixList (sm : ScalingMatrix) (i : Nat) :
    Mirrors P (parseMatrixList sm i) (readListValues (scanOf i).length true 8 8) fun a b s =>
      P s ∧ a.1 = storeCoded sm i (CodedList.ofValues b) ∧ a.2 = b.isNone := by
  have hscan : (if i < 6 then zigZag4x4 else zigZag8x8) = scanOf i := rfl
  have hloop (list : List Nat) : Mirrors P (scalingLoop (scanOf i) true 8 8 8 list)
      (readListValues (scanOf i).length true 8 8) fun a b s => P s ∧
        a.1 = (match b with
          | some values => inverseScan (scanOf i) values list
          | none => list) ∧ a.2 = b.isNone := by
    refine (mirrors_scalingLoop (scanOf i) (by decide) (by decide)).mono ?_
    rintro a (_ | values) s ⟨hs, -, rfl⟩
    · exact ⟨hs, rfl, rfl⟩
    · exact ⟨hs, rfl, rfl⟩
  have hput (values : Option (List Nat)) :
      putList sm i (match values with
        | some values => inverseScan (scanOf i) values (listAt sm i)
        | none => listAt sm i) = storeCoded sm i (CodedList.ofValues values) := by
    cases values with
    | none => exact putList_listAt sm i
    | some values => rfl
  rw [parseMatrixList_eq]
  refine Mirrors.pure_left (hloop _) ?_
  rintro a b s ⟨hs, hlist, hdefault⟩
  exact ⟨hs, by rw [hlist, hput], hdefault⟩

theorem mirrors_parseSeqScalingLists (n i : Nat) (sm : ScalingMatrix) :
    Mirrors P (parseSeqScalingLists n i sm) (readCodedLists n i) fun a lists s =>
      P s ∧ a = storeAll sm i lists ∧ lists.length = n := by
  induction n generalizing i sm with
  | zero => exact mirrors_pure fun s hs => ⟨hs, rfl, rfl⟩
  | succ n ih =>
    rw [parseSeqScalingLists, readCodedLists]
    refine Mirrors.bind_same mirrors_flag fun present => Mirrors.cond (fun _ => ?_) fun _ => ?_
    · refine Mirrors.bind (mirrors_parseMatrixList sm i) fun a values => Mirrors.pre ?_
      obtain ⟨stored, useDefault⟩ := a
      rintro ⟨rfl, -⟩
      refine Mirrors.pure_right (ih (i + 1) _) ?_
      rintro a rest s ⟨hs, rfl, hlen⟩
      exact ⟨hs, rfl, congrArg (· + 1) hlen⟩
    · refine Mirrors.pure_right (ih (i + 1) sm) ?_
      rintro a rest s ⟨hs, rfl, hlen⟩
      exact ⟨hs, rfl, congrArg (· + 1) hlen⟩

/-- The same for the lists of a PPS, which go to the matrix of the result at once. -/
theorem mirrors_parsePicScalingLists (n i : Nat) (h : Bool) (sm : ScalingMatrix) :
    Mirrors (fun s => s.scalingMatrix = sm ∧ s.hasScalingMatrix = h) (parsePicScalingLists n i)
      (readCodedLists n i) fun a lists s => (s.scalingMatrix = storeAll sm i lists ∧
        s.hasScalingMatrix = h) ∧
        a = lists.map CodedList.flags ∧ lists.length = n := by
  induction n generalizing i sm with
  | zero => exact mirrors_pure fun s hs => ⟨hs, rfl, rfl⟩
  | succ n ih =>
    rw [parsePicScalingLists, readCodedLists]
    refine Mirrors.bind_same mirrors_flag fun present =>
      Mirrors.cond (fun hpresent => ?_) fun habsent => ?_
    · refine Mirrors.get_bind fun o hsm => ?_
      rw [hsm.1]
      refine Mirrors.bind (mirrors_parseMatrixList sm i) fun a values => Mirrors.pre ?_
      obtain ⟨stored, useDefault⟩ := a
      rintro ⟨rfl, hdefault⟩
      refine Mirrors.modify_bind (Q := fun s => s.scalingMatrix =
        storeCoded sm i (CodedList.ofValues values) ∧
        s.hasScalingMatrix = h) (fun s hs => ⟨rfl, hs.2⟩) ?_
      refine Mirrors.pure_bind ?_
      refine Mirrors.bind (ih (i + 1) _) fun flags rest => Mirrors.pre ?_
      rintro ⟨rfl, hlen⟩
      refine mirrors_pure fun s hs => ⟨hs, ?_, congrArg (· + 1) hlen⟩
      dsimp only at hdefault
      rw [List.map_cons, hpresent, hdefault]
      cases values with
      | none => rfl
      | some values => rfl
    · have hno : present = false := by simpa using habsent
      refine Mirrors.pure_bind ?_
      refine Mirrors.bind (ih (i + 1) sm) fun flags rest => Mirrors.pre ?_
      rintro ⟨rfl, hlen⟩
      refine mirrors_pure fun s hs => ⟨hs, ?_, congrArg (· + 1) hlen⟩
      rw [List.map_cons, hno]
      rfl

end Stored

section Units

/-- The matrix of the result, and whether there is one. -/
def matrixView (o : ParseResult) : ScalingMatrix × Bool := (o.scalingMatrix, o.hasScalingMatrix)

variable {v : ScalingMatrix × Bool}

theorem keeps_matrix_setSps (g : Sps → Sps) : Keeps matrixView (setSps g) := .modify fun _ => rfl

theorem keeps_matrix_setPps (g : Pps → Pps) : Keeps matrixView (setPps g) := .modify fun _ => rfl

theorem keeps_matrix_spsFlag (bit : Nat) : Keeps matrixView (spsFlag bit) :=
  keeps_flag.bind fun _ => .cond (keeps_pure _) fun _ => keeps_matrix_setSps _

theorem keeps_matrix_parseOffsetsForRefFrame (n i : Nat) :
    Keeps matrixView (parseOffsetsForRefFrame n i) := by
  induction n generalizing i with
  | zero => exact keeps_pure ()
  | succ n ih => exact keeps_brSe.bind fun _ => (keeps_matrix_setSps _).bind fun _ => ih _

theorem keeps_matrix_parseVuiParameters : Keeps matrixView parseVuiParameters := by
  unfold parseVuiParameters
  with_reducible repeat' first
    | assumption | exact keeps_parseHrdParameters | exact .modify fun _ => rfl
    | refine .bind ?_ fun _ => ?_ | refine .cond ?_ fun _ => ?_ | simp

theorem mirrors_spsFlag (bit : Nat) :
    Mirrors (fun s => matrixView s = v) (spsFlag bit) (flag : Parser Unit Bool)
    fun _ _ s => matrixView s = v := by
  refine Mirrors.flag_store ?_
  intro b s br r s' br' hs hexec
  cases b with
  | false =>
    cases hexec
    exact ⟨rfl, hs⟩
  | true =>
    cases hexec
    exact ⟨rfl, hs⟩

theorem mirrors_ppsFlag (bit : Nat) :
    Mirrors (fun s => matrixView s = v) (ppsFlag bit) (flag : Parser Unit Bool)
    fun _ _ s => matrixView s = v := by
  refine Mirrors.flag_store ?_
  intro b s br r s' br' hs hexec
  cases b with
  | false =>
    cases hexec
    exact ⟨rfl, hs⟩
  | true =>
    cases hexec
    exact ⟨rfl, hs⟩

/-- The matrix that `parse_sps` returns is made of the lists that the SPS codes. -/
structure SeqStored (v : ScalingMatrix × Bool) (sm : Option ScalingMatrix) (seq : SeqMatrix)
    (s : ParseResult) :
    Prop where
  stored : sm = seq.lists.map (storeAll {} 0)
  count : ∀ lists, seq.lists = some lists → lists.length = if seq.is444 then 12 else 8
  view : matrixView s = v

theorem reports_parseSpsFields :
    Reports (fun s => matrixView s = v) parseSpsFields readSeqMatrix (SeqStored v) := by
  unfold parseSpsFields readSeqMatrix
  refine Reports.modify_bind (Q := fun s => matrixView s = v) (fun _ hs => hs) ?_
  refine Reports.bind_same (mirrors_brU 8) fun profileIdc => ?_
  refine Reports.modify_bind (Q := fun s => matrixView s = v) (fun _ hs => hs) ?_
  refine Reports.bind_same (mirrors_brU 8) fun constraintSetFlags => ?_
  refine Reports.modify_bind (Q := fun s => matrixView s = v) (fun _ hs => hs) ?_
  refine Reports.bind_same (mirrors_brU 8) fun levelIdc => ?_
  refine Reports.modify_bind (Q := fun s => matrixView s = v) (fun _ hs => hs) ?_
  refine Reports.bind_same mirrors_brUe fun seqParameterSetId => ?_
  refine Reports.modify_bind (Q := fun s => matrixView s = v) (fun _ hs => hs) ?_
  extract_lets rest
  have hrest (sm : Option ScalingMatrix) : Ends matrixView sm (rest sm) := by
    dsimp only [rest]
    with_reducible repeat' first
      | assumption | exact ends_pure | exact keeps_matrix_parseVuiParameters
      | exact keeps_matrix_parseOffsetsForRefFrame _ _ | exact keeps_matrix_spsFlag _
      | exact keeps_matrix_setSps _ | refine .bind ?_ fun _ => ?_ | refine .cond ?_ fun _ => ?_
      | simp
  clear_value rest
  have hends {sm : Option ScalingMatrix} {seq : SeqMatrix}
      (hstored : sm = seq.lists.map (storeAll {} 0))
      (hcount : ∀ lists, seq.lists = some lists → lists.length = if seq.is444 then 12 else 8) :
      Reports (fun s => matrixView s = v) (rest sm) (pure seq : Parser Unit SeqMatrix)
        (SeqStored v) :=
    (hrest sm).reports fun s s' hs hview => ⟨hstored, hcount, hview.trans hs⟩
  refine Reports.cond (fun _ => ?_) fun _ => ?_
  · refine Reports.bind_same mirrors_brUe fun chromaFormatIdc => ?_
    refine Reports.modify_bind (Q := fun s => matrixView s = v) (fun _ hs => hs) ?_
    refine Reports.cond_both ?_ fun hlists => Reports.bind (mirrors_spsFlag _) fun _ _ => hlists
    refine Reports.bind_same mirrors_brUe fun bitDepthLumaMinus8 => ?_
    refine Reports.modify_bind (Q := fun s => matrixView s = v) (fun _ hs => hs) ?_
    refine Reports.bind_same mirrors_brUe fun bitDepthChromaMinus8 => ?_
    refine Reports.modify_bind (Q := fun s => matrixView s = v) (fun _ hs => hs) ?_
    refine Reports.bind (mirrors_spsFlag _) fun _ _ => ?_
    refine Reports.bind_same mirrors_flag fun present => Reports.cond (fun _ => ?_) fun _ => ?_
    · refine Reports.bind (mirrors_parseSeqScalingLists _ 0 {}) fun sm lists => Reports.pre ?_
      rintro ⟨rfl, hlen⟩
      refine Reports.pure_bind (hends rfl ?_)
      rintro _ ⟨⟩
      simpa using hlen
    · exact Reports.pure_bind (hends rfl nofun)
  · refine Reports.modify_bind (Q := fun s => matrixView s = v) (fun _ hs => hs) ?_
    exact Reports.pure_bind (hends rfl nofun)

/-- How many lists of a PPS the parser reads. -/
def PicMatrix.count (pic : PicMatrix) : Nat := if pic.transform8x8 then 8 else 6

/-- The matrix that `parse_pps` makes of lists that are coded. -/
def picStored (lists : List CodedList) : ScalingMatrix :=
  resolveLists (lists.map CodedList.flags) 0 (storeAll {} 0 lists)

/-- `parse_pps` leaves the matrix as it is, or it makes one of the lists that the PPS codes. -/
structure PicStored (v : ScalingMatrix × Bool) (hasScaling : Bool) (pic : PicMatrix)
    (s : ParseResult) : Prop where
  present : hasScaling = pic.lists.isSome
  count : ∀ lists, pic.lists = some lists → pic.count ≤ lists.length
  view : matrixView s = (match pic.lists with
    | none => v
    | some lists => (picStored (lists.take pic.count), v.2))

theorem reports_parsePpsFields (is444 : Bool) :
    Reports (fun s => matrixView s = v) parsePpsFields (readPicMatrix is444) (PicStored v) := by
  unfold parsePpsFields readPicMatrix
  refine Reports.modify_bind (Q := fun s => matrixView s = v) (fun _ hs => hs) ?_
  refine Reports.bind_same mirrors_brUe fun picParameterSetId => ?_
  refine Reports.modify_bind (Q := fun s => matrixView s = v) (fun _ hs => hs) ?_
  refine Reports.bind_same mirrors_brUe fun seqParameterSetId => ?_
  refine Reports.modify_bind (Q := fun s => matrixView s = v) (fun _ hs => hs) ?_
  refine Reports.bind (mirrors_ppsFlag _) fun _ _ => ?_
  refine Reports.bind (mirrors_ppsFlag _) fun _ _ => ?_
  refine Reports.bind_same mirrors_brUe fun numSliceGroupsMinus1 => ?_
  refine Reports.modify_bind (Q := fun s => matrixView s = v) (fun _ hs => hs) ?_
  refine Reports.cond_left (fun _ => reports_throw _) fun _ => ?_
  refine Reports.bind_same mirrors_brUe fun numRefIdxL0 => ?_
  refine Reports.modify_bind (Q := fun s => matrixView s = v) (fun _ hs => hs) ?_
  refine Reports.bind_same mirrors_brUe fun numRefIdxL1 => ?_
  refine Reports.modify_bind (Q := fun s => matrixView s = v) (fun _ hs => hs) ?_
  refine Reports.bind (mirrors_ppsFlag _) fun _ _ => ?_
  refine Reports.bind_same (mirrors_brU 2) fun weightedBipredIdc => ?_
  refine Reports.modify_bind (Q := fun s => matrixView s = v) (fun _ hs => hs) ?_
  refine Reports.bind_same mirrors_brSe fun picInitQpMinus26 => ?_
  refine Reports.modify_bind (Q := fun s => matrixView s = v) (fun _ hs => hs) ?_
  refine Reports.bind_same mirrors_brSe fun picInitQsMinus26 => ?_
  refine Reports.modify_bind (Q := fun s => matrixView s = v) (fun _ hs => hs) ?_
  refine Reports.bind_same mirrors_brSe fun chromaQpIndexOffset => ?_
  refine Reports.modify_bind (Q := fun s => matrixView s = v) (fun _ hs => hs) ?_
  refine Reports.bind (mirrors_ppsFlag _) fun _ _ => ?_
  refine Reports.bind (mirrors_ppsFlag _) fun _ _ => ?_
  refine Reports.bind (mirrors_ppsFlag _) fun _ _ => ?_
  refine Reports.bind_same mirrors_brMoreRbspData fun more => Reports.cond (fun _ => ?_) fun _ => ?_
  · refine Reports.bind_same mirrors_flag fun transform8x8Mode => ?_
    refine Reports.cond_left_both ?_ fun hlists =>
      Reports.modify_bind (Q := fun s => matrixView s = v) (fun _ hs => hs) hlists
    refine Reports.bind_same mirrors_flag fun hasScaling => ?_
    extract_lets done rest
    have hrest : Ends matrixView hasScaling (rest ()) := by
      dsimp only [rest, done]
      with_reducible repeat' first
        | assumption | exact ends_pure | exact keeps_matrix_setPps _ | refine .bind ?_ fun _ => ?_
        | refine .cond ?_ fun _ => ?_ | simp
    clear_value rest
    refine Reports.cond (fun hscaling => ?_) fun hscaling => ?_
    · refine Reports.modify_bind (Q := fun s => matrixView s = v) (fun _ hs => hs) ?_
      refine Reports.modify_bind (Q := fun s => s.scalingMatrix = {} ∧ s.hasScalingMatrix = v.2)
        (fun _ hs => ⟨rfl, congrArg Prod.snd hs⟩) ?_
      refine Reports.bind (mirrors_parsePicScalingLists _ 0 v.2 {}) fun flags lists =>
        Reports.pre ?_
      rintro ⟨rfl, hlen⟩
      refine Reports.modify_bind (Q := fun s => matrixView s = (picStored lists, v.2)) ?_ ?_
      · rintro s ⟨hsm, hhas⟩
        exact Prod.ext (congrArg (resolveLists (lists.map CodedList.flags) 0) hsm) hhas
      refine Reports.right_pure (total_readCodedLists _ _) fun more => ?_
      refine hrest.reports fun s s' hs hview => ⟨hscaling, ?_, ?_⟩
      · rintro _ ⟨⟩
        rw [List.length_append, hlen]
        exact Nat.le_add_right _ _
      · have hcount : (lists ++ more).take
            (PicMatrix.count ⟨transform8x8Mode, some (lists ++ more)⟩) = lists := by
          rw [PicMatrix.count, ← hlen, List.take_left]
        dsimp only
        rw [hcount]
        exact hview.trans hs
    · refine hrest.reports fun s s' hs hview => ⟨by simpa using hscaling, nofun, hview.trans hs⟩
  · refine Reports.modify_bind (Q := fun s => matrixView s = v) (fun _ hs => hs) ?_
    have hends : Ends matrixView false (pure false : P Bool) := ends_pure
    exact hends.reports fun s s' hs hview => ⟨rfl, nofun, hview.trans hs⟩

/-- The unit parser of an SPS puts its lists into effect, if it has some. -/
theorem reports_spsUnit : Reports (fun s => matrixView s = v) spsUnit readSeqMatrix fun _ seq s =>
    (∀ lists, seq.lists = some lists → lists.length = if seq.is444 then 12 else 8) ∧
      matrixView s = (match seq.lists with
        | none => v
        | some lists => (storeAll {} 0 lists, true)) := by
  have hparse : Reports (fun s => matrixView s = v) parseSps readSeqMatrix (SeqStored v) :=
    reports_parseSpsFields.gives fun sm seq => gives_checked sm fun s hs => hs
  refine hparse.gives fun sm seq => ?_
  refine Gives.bind (gives_modify (Q := SeqStored v sm seq) fun s hs =>
    ⟨hs.stored, hs.count, hs.view⟩) fun _ => ?_
  intro s br a s' br' hs hexec
  refine ⟨hs.count, ?_⟩
  rw [hs.stored] at hexec
  cases hlists : seq.lists with
  | none =>
    rw [hlists] at hexec
    cases hexec
    exact hs.view
  | some lists =>
    rw [hlists] at hexec
    obtain ⟨_, s₁, br₁, hstore, hrest⟩ := exec_bind_ok hexec
    cases hstore
    have hkeeps : Keeps matrixView (get >>= fun o : ParseResult =>
        if o.hasPps = true then setPps fun p => { p with
          flags := p.flags ||| ppsFlagScalingMatrixPresent }
        else pure ()) :=
      keeps_get.bind fun o => .cond (keeps_pure ()) fun _ => keeps_matrix_setPps _
    have hview :=
      hkeeps { s with scalingMatrix := storeAll {} 0 lists, hasScalingMatrix := true } br
    rw [hrest] at hview
    exact hview

/-- The unit parser of a PPS as well. -/
theorem reports_ppsUnit (is444 : Bool) :
    Reports (fun s => matrixView s = v) ppsUnit (readPicMatrix is444) fun _ pic s =>
      (∀ lists, pic.lists = some lists → pic.count ≤ lists.length) ∧
        matrixView s = (match pic.lists with
          | none => v
          | some lists => (picStored (lists.take pic.count), true)) := by
  have hparse : Reports (fun s => matrixView s = v) parsePps (readPicMatrix is444) (PicStored v) :=
    (reports_parsePpsFields is444).gives fun hasScaling pic =>
      gives_checked hasScaling fun s hs => hs
  refine hparse.gives fun hasScaling pic => ?_
  refine Gives.bind (gives_modify (Q := PicStored v hasScaling pic) fun s hs =>
    ⟨hs.present, hs.count, hs.view⟩) fun _ => ?_
  intro s br a s' br' hs hexec
  refine ⟨hs.count, ?_⟩
  have hview := hs.view
  rw [hs.present] at hexec
  cases hlists : pic.lists with
  | none =>
    rw [hlists] at hexec hview
    have hkeeps : Keeps matrixView (get >>= fun o : ParseResult =>
        if o.hasScalingMatrix = true then
          setPps fun p => { p with flags := p.flags ||| ppsFlagScalingMatrixPresent }
        else pure ()) :=
      keeps_get.bind fun o => .cond (keeps_pure ()) fun _ => keeps_matrix_setPps _
    have hkept := hkeeps s br
    change exec (get >>= fun o : ParseResult =>
        if o.hasScalingMatrix = true then
          setPps fun p => { p with flags := p.flags ||| ppsFlagScalingMatrixPresent }
        else pure ()) s br = _ at hexec
    rw [hexec] at hkept
    exact hkept.trans hview
  | some lists =>
    rw [hlists] at hexec hview
    cases hexec
    have hmatrix : s.scalingMatrix = picStored (lists.take pic.count) := congrArg Prod.fst hview
    exact congrArg (fun sm => (sm, true)) hmatrix

end Units

end Rkvdec.Bitstream.H264
