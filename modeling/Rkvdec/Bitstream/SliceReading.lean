import Rkvdec.Bitstream.SliceSyntax

/-! What `parse_slice_header` of H.264 takes from a written header, and what it stores. -/
namespace Rkvdec.Bitstream.H264

open Lib (bitsOf golomb)

section Lists

variable {o : ParseResult} {w : List Bool} {a : Unit} {o' : ParseResult}

theorem decodes_brBits {α : Type} {f : Nat → P α} {b : α}
    (hf : ∀ n, w.length ≤ n → Decodes (f n) o w b o') :
    Decodes (brBits >>= f) o w b o' := Decodes.turns hf

/-- An array with room for `size` entries. -/
def push {α : Type} (size : Nat) (l : List α) (x : α) : List α :=
  if l.length < size then l ++ [x] else l

theorem foldl_push {α : Type} (size : Nat) (l xs : List α) :
    xs.foldl (push size) l = l ++ xs.take (size - l.length) := by
  induction xs generalizing l with
  | nil => simp
  | cons x xs ih =>
    rw [List.foldl_cons, ih]
    by_cases hroom : l.length < size
    · obtain ⟨k, hk⟩ : ∃ k, size - l.length = k + 1 := ⟨size - l.length - 1, by omega⟩
      have hnext : size - (l ++ [x]).length = k := by
        rw [List.length_append, List.length_singleton]
        omega
      rw [push, if_pos hroom, hnext, hk, List.take_succ_cons, List.append_assoc]
      rfl
    · have hfull : size - l.length = 0 := by omega
      rw [push, if_neg hroom, hfull, List.take_zero, List.take_zero]

theorem storeRplmL0_eq (op : RplmOp) (o : ParseResult) :
    storeRplmL0 op o = { o with rplmL0 := push 32 o.rplmL0 op } := by
  unfold storeRplmL0 push
  split
  · rfl
  · rfl

theorem storeRplmL1_eq (op : RplmOp) (o : ParseResult) :
    storeRplmL1 op o = { o with rplmL1 := push 32 o.rplmL1 op } := by
  unfold storeRplmL1 push
  split
  · rfl
  · rfl

theorem storeMmco_push (m : Mmco) (o : ParseResult) :
    storeMmco m o = { o with mmco := push 16 o.mmco m } := by
  unfold storeMmco push
  split
  · rfl
  · rfl

/-- A modification as the parser takes it: an operand behind every code. -/
def commandBits (cs : List RplmOp) : List Bool :=
  (cs.flatMap fun c => golomb c.op ++ golomb c.value) ++ golomb 3

def storeCommands (store : RplmOp → ParseResult → ParseResult) (cs : List RplmOp)
    (o : ParseResult) : ParseResult :=
  cs.foldl (fun o c => store ⟨u8 c.op, c.value⟩ o) o

/-- A command as it is stored. -/
def stored (c : RplmOp) : RplmOp := ⟨u8 c.op, c.value⟩

theorem storeCommands_L0 (cs : List RplmOp) (o : ParseResult) :
    storeCommands storeRplmL0 cs o =
    { o with rplmL0 := (cs.map stored).foldl (push 32) o.rplmL0 } := by
  induction cs generalizing o with
  | nil => rfl
  | cons c cs ih =>
    have hstep : storeCommands storeRplmL0 (c :: cs) o =
        storeCommands storeRplmL0 cs (storeRplmL0 (stored c) o) := rfl
    rw [hstep, ih, storeRplmL0_eq]
    rfl

theorem storeCommands_L1 (cs : List RplmOp) (o : ParseResult) :
    storeCommands storeRplmL1 cs o =
    { o with rplmL1 := (cs.map stored).foldl (push 32) o.rplmL1 } := by
  induction cs generalizing o with
  | nil => rfl
  | cons c cs ih =>
    have hstep : storeCommands storeRplmL1 (c :: cs) o =
        storeCommands storeRplmL1 cs (storeRplmL1 (stored c) o) := rfl
    rw [hstep, ih, storeRplmL1_eq]
    rfl

theorem decodes_rplmLoop {store : RplmOp → ParseResult → ParseResult} {cs : List RplmOp}
    {turns : Nat} (hcs : CommandsInUe cs) (hturns : cs.length < turns) :
    Decodes (rplmLoop store turns) o (commandBits cs) () (storeCommands store cs o) := by
  induction cs generalizing turns o with
  | nil =>
    obtain ⟨turns, rfl⟩ : ∃ n, turns = n + 1 := ⟨turns - 1, by omega⟩
    have hbits : commandBits [] = golomb 3 ++ [] := (List.append_nil _).symm
    rw [hbits]
    unfold rplmLoop
    refine (decodes_brUe (by decide)).bind ?_
    rw [if_pos rfl]
    exact decodes_pure () o
  | cons c cs ih =>
    obtain ⟨turns, rfl⟩ : ∃ n, turns = n + 1 := ⟨turns - 1, by omega⟩
    obtain ⟨hop, hopUe, hvalue⟩ := hcs c List.mem_cons_self
    have hrest := ih (o := store ⟨u8 c.op, c.value⟩ o)
      (fun c' hc' => hcs c' (List.mem_cons_of_mem _ hc')) (Nat.lt_of_succ_lt_succ hturns)
    have hbits : commandBits (c :: cs) = golomb c.op ++ (golomb c.value ++ commandBits cs) := by
      rw [commandBits, List.flatMap_cons, List.append_assoc, List.append_assoc]
      rfl
    have hmore : commandBits cs ≠ [] := by
      intro hnil
      exact Lib.golomb_ne_nil 3 (List.append_eq_nil_iff.mp hnil).2
    rw [hbits]
    unfold rplmLoop
    refine (decodes_brUe hopUe).bind ?_
    rw [if_neg hop]
    exact (decodes_brUe hvalue).bind (.update (.more hmore hrest))

theorem decodes_ueIf {c : Prop} [Decidable c] {v : Nat} (h : if c then InUe v else v = 0) :
    Decodes (ueIf c) o (if c then golomb v else []) v o := by
  unfold ueIf
  split
  · rw [if_pos ‹_›] at h
    exact decodes_brUe h
  · rw [if_neg ‹_›] at h
    rw [h]
    exact decodes_pure 0 o

/-- The operations up to the first one that the standard does not have. -/
def storeOperations (ms : List Mmco) (o : ParseResult) : ParseResult :=
  (ms.takeWhile fun m => m.op ≤ 6).foldl (fun o m => storeMmco m o) o

theorem storeOperations_eq (ms : List Mmco) (o : ParseResult) :
    storeOperations ms o =
    { o with mmco := (ms.takeWhile fun m => m.op ≤ 6).foldl (push 16) o.mmco } := by
  unfold storeOperations
  generalize ms.takeWhile (fun m => m.op ≤ 6) = l
  induction l generalizing o with
  | nil => rfl
  | cons m l ih =>
    rw [List.foldl_cons, ih, storeMmco_push]
    rfl

theorem writeOperations_ne_nil (ms : List Mmco) : (writeOperations ms).bits ≠ [] := by
  cases ms with
  | nil => exact Lib.golomb_ne_nil 0
  | cons m ms =>
    unfold writeOperations
    intro hnil
    split at hnil
    · rw [List.append_assoc] at hnil
      exact Lib.golomb_ne_nil _ (List.append_eq_nil_iff.mp hnil).1
    · exact Lib.golomb_ne_nil _ hnil

/-- Every operation that is taken has a bit or more. -/
theorem length_writeOperations (ms : List Mmco) :
    (ms.takeWhile fun m => m.op ≤ 6).length ≤ (writeOperations ms).bits.length := by
  induction ms with
  | nil => exact Nat.zero_le _
  | cons m ms ih =>
    have hlength := Lib.length_golomb m.op
    rw [List.takeWhile_cons, writeOperations]
    by_cases hop : m.op ≤ 6
    · rw [if_pos (decide_eq_true hop), if_pos hop, List.length_cons, List.length_append,
        List.length_append]
      omega
    · rw [if_neg (by simpa using hop)]
      exact Nat.zero_le _

theorem decodes_mmcoLoop {ms : List Mmco} {turns : Nat} (hms : ∀ m ∈ ms, Operands m)
    (hturns : (ms.takeWhile fun m => m.op ≤ 6).length < turns) :
    Decodes (mmcoLoop turns) o (writeOperations ms).bits () (storeOperations ms o) := by
  induction ms generalizing turns o with
  | nil =>
    obtain ⟨turns, rfl⟩ : ∃ n, turns = n + 1 := ⟨turns - 1, by omega⟩
    have hbits : (writeOperations []).bits = golomb 0 ++ [] := (List.append_nil _).symm
    rw [hbits]
    unfold mmcoLoop
    refine (decodes_brUe (by decide)).bind ?_
    rw [if_pos rfl]
    exact decodes_pure () o
  | cons m ms ih =>
    obtain ⟨turns, rfl⟩ : ∃ n, turns = n + 1 := ⟨turns - 1, by omega⟩
    have hm := hms m List.mem_cons_self
    unfold mmcoLoop
    by_cases hop : m.op ≤ 6
    · rw [List.takeWhile_cons, if_pos (decide_eq_true hop)] at hturns
      have hrest := ih (o := storeMmco m o) (fun m' hm' => hms m' (List.mem_cons_of_mem _ hm'))
        (Nat.lt_of_succ_lt_succ hturns)
      have hbits : (writeOperations (m :: ms)).bits =
          golomb m.op ++ (writeOperands m ++ (writeOperations ms).bits) := by
        rw [writeOperations, if_pos hop, List.append_assoc]
      have hstored : storeOperations (m :: ms) o = storeOperations ms (storeMmco m o) := by
        rw [storeOperations, List.takeWhile_cons, if_pos (decide_eq_true hop)]
        rfl
      have hu8 : u8 m.op = m.op := Nat.mod_eq_of_lt (by omega)
      have hmore : writeOperands m ++ (writeOperations ms).bits ≠ [] := by
        intro hnil
        exact writeOperations_ne_nil ms (List.append_eq_nil_iff.mp hnil).2
      rw [hbits, hstored]
      refine (decodes_brUe hm.op.2).bind ?_
      rw [if_neg hm.op.1]
      refine .more hmore ?_
      rw [if_neg (by simpa using hop)]
      unfold writeOperands
      rw [List.append_assoc, List.append_assoc, List.append_assoc]
      refine (decodes_ueIf hm.difference).bind ((decodes_ueIf hm.longTermPicNum).bind ?_)
      refine (decodes_ueIf hm.longTermFrameIdx).bind ((decodes_ueIf hm.maxLongTermFrameIdx).bind ?_)
      rw [hu8]
      exact .update hrest
    · have hbits : (writeOperations (m :: ms)).bits = golomb m.op ++ [] := by
        rw [writeOperations, if_neg hop, List.append_nil]
      have hstored : storeOperations (m :: ms) o = o := by
        rw [storeOperations, List.takeWhile_cons, if_neg (by simpa using hop)]
        rfl
      rw [hbits, hstored]
      refine (decodes_brUe hm.op.2).bind ?_
      rw [if_neg hm.op.1]
      refine .eof fun e => ?_
      rw [if_pos (.inl (by omega))]
      exact decodes_pure () o

end Lists

section References

variable {o o' : ParseResult} {w : List Bool} {h : SliceSyntax} {sps : Sps} {pps : Pps}

/-- A weight is skipped with its offset. -/
theorem decodes_skipWeights {chroma : Bool} {e : WeightEntry} (he : e.InRange) :
    Decodes (skipWeights chroma) o (writeWeights chroma e) () o := by
  unfold skipWeights writeWeights
  rw [List.append_assoc, isSome_eq_bits writeLuma e.luma rfl]
  refine (decodes_flag _).bind (.opt o (fun _ => rfl) (fun hsome hrest => ?_) ?_)
  · obtain ⟨⟨weight, offset⟩, hvalue⟩ := Option.isSome_iff_exists.mp hsome
    obtain ⟨hweight, hoffset⟩ := he.luma _ _ hvalue
    rw [hvalue, writeLuma, List.append_assoc]
    exact (decodes_se hweight).bind ((decodes_se hoffset).bind hrest)
  · refine .cond (fun hchroma => ?_) fun hchroma => ?_
    · rw [if_pos hchroma, isSome_eq_bits writeChroma e.chroma rfl]
      refine (decodes_flag _).bind (.cond (fun hsome => ?_) fun hnone => ?_)
      · obtain ⟨⟨weight, offset, weight', offset'⟩, hvalue⟩ := Option.isSome_iff_exists.mp hsome
        obtain ⟨hweight, hoffset, hweight', hoffset'⟩ := he.chroma _ _ _ _ hvalue
        rw [if_pos hsome, hvalue]
        simp only [writeChroma, List.append_assoc]
        refine (decodes_se hweight).bind ((decodes_se hoffset).bind ((decodes_se hweight').bind ?_))
        exact (decodes_se hoffset').last
      · rw [if_neg hnone]
        exact decodes_pure () o
    · rw [if_neg hchroma]
      exact decodes_pure () o

def modificationBits : Option (List RplmOp) → List Bool
  | some cs => [true] ++ commandBits cs
  | none => [false]

def storeModification (setFlag : Nat → ParseResult → ParseResult)
    (store : RplmOp → ParseResult → ParseResult) :
    Option (List RplmOp) → ParseResult → ParseResult
  | some cs, o => storeCommands store cs (setFlag 1 o)
  | none, o => setFlag 0 o

theorem length_commandBits (cs : List RplmOp) : cs.length < (commandBits cs).length := by
  have hend : (golomb 3).length = 5 := rfl
  rw [commandBits, List.length_append, hend]
  induction cs with
  | nil => decide
  | cons c cs ih =>
    have hlength := Lib.length_golomb c.op
    rw [List.flatMap_cons, List.length_append, List.length_append, List.length_cons]
    omega

theorem decodes_commands (store : RplmOp → ParseResult → ParseResult) {cs : List RplmOp}
    (hcs : CommandsInUe cs) :
    Decodes (brBits >>= fun n => rplmLoop store (n + 1)) o (commandBits cs) ()
      (storeCommands store cs o) := by
  refine decodes_brBits fun n hn => decodes_rplmLoop hcs ?_
  have hlength := length_commandBits cs
  omega

/-- What the counts are when the header does not override them. -/
def storeCounts (pps : Pps) (h : SliceSyntax) (s : SliceParams) : SliceParams :=
  match h.numRefIdxActiveOverride with
  | some (l0, l1) => { s with
      numRefIdxL0ActiveMinus1 := u8 l0
      numRefIdxL1ActiveMinus1 := if h.kind = sliceTypeB then u8 l1 else s.numRefIdxL1ActiveMinus1 }
  | none => { s with
      numRefIdxL0ActiveMinus1 := pps.numRefIdxL0DefaultActiveMinus1
      numRefIdxL1ActiveMinus1 := pps.numRefIdxL1DefaultActiveMinus1 }

def setModL0 (m : Nat) (o : ParseResult) : ParseResult :=
  { o with refPicListModificationFlagL0 := u8 m }
def setModL1 (m : Nat) (o : ParseResult) : ParseResult :=
  { o with refPicListModificationFlagL1 := u8 m }

/-- What `parse_slice_header` makes of the lists of a slice with references. -/
def storeRefPicLists (h : SliceSyntax) (o : ParseResult) : ParseResult :=
  let o := { o with slice := storeCounts o.pps h o.slice }
  let o := storeModification setModL0 storeRplmL0 h.modificationL0 o
  if h.kind = sliceTypeB then storeModification setModL1 storeRplmL1 h.modificationL1 o else o

/-- The commands of a modification, which has none when it is left out. -/
def commandsOf (cs : Option (List RplmOp)) : List RplmOp := (cs.getD []).map stored

theorem storeModification_L0 (cs : Option (List RplmOp)) (o : ParseResult) :
    storeModification setModL0 storeRplmL0 cs o = { o with
      refPicListModificationFlagL0 := cs.isSome.toNat
      rplmL0 := (commandsOf cs).foldl (push 32) o.rplmL0 } := by
  cases cs with
  | none => rfl
  | some cs => exact storeCommands_L0 cs (setModL0 1 o)

theorem storeModification_L1 (cs : Option (List RplmOp)) (o : ParseResult) :
    storeModification setModL1 storeRplmL1 cs o = { o with
      refPicListModificationFlagL1 := cs.isSome.toNat
      rplmL1 := (commandsOf cs).foldl (push 32) o.rplmL1 } := by
  cases cs with
  | none => rfl
  | some cs => exact storeCommands_L1 cs (setModL1 1 o)

theorem storeRefPicLists_eq (h : SliceSyntax) (o : ParseResult) : storeRefPicLists h o = { o with
    slice := storeCounts o.pps h o.slice
    refPicListModificationFlagL0 := h.modificationL0.isSome.toNat
    rplmL0 := (commandsOf h.modificationL0).foldl (push 32) o.rplmL0
    refPicListModificationFlagL1 :=
      if h.kind = sliceTypeB then h.modificationL1.isSome.toNat else o.refPicListModificationFlagL1
    rplmL1 := if h.kind = sliceTypeB then (commandsOf h.modificationL1).foldl (push 32)
      o.rplmL1 else o.rplmL1 } := by
  simp only [storeRefPicLists, storeModification_L0, storeModification_L1]
  split
  · rfl
  · rfl

theorem storeCounts_L0 (hexpr : h.Expressible sps pps) (s : SliceParams) :
    (storeCounts pps h s).numRefIdxL0ActiveMinus1 = h.numRefIdxL0ActiveMinus1 pps := by
  unfold storeCounts SliceSyntax.numRefIdxL0ActiveMinus1
  cases hoverride : h.numRefIdxActiveOverride with
  | none => rfl
  | some counts =>
    have hrange := (hexpr.counts counts.1 counts.2 hoverride).1
    exact Nat.mod_eq_of_lt (by omega)

theorem storeCounts_L1 (hexpr : h.Expressible sps pps) (hb : h.kind = sliceTypeB)
    (s : SliceParams) :
    (storeCounts pps h s).numRefIdxL1ActiveMinus1 = h.numRefIdxL1ActiveMinus1 pps := by
  unfold storeCounts SliceSyntax.numRefIdxL1ActiveMinus1
  cases hoverride : h.numRefIdxActiveOverride with
  | none => rfl
  | some counts =>
    have hrange := (hexpr.counts counts.1 counts.2 hoverride).2
    exact (if_pos hb).trans (Nat.mod_eq_of_lt (by omega))

def refPicListBits (h : SliceSyntax) : List Bool :=
  writeOverride h ++ (modificationBits h.modificationL0 ++
    (if h.kind = sliceTypeB then modificationBits h.modificationL1 else []))

theorem decodes_modification (setFlag : Nat → ParseResult → ParseResult)
    (store : RplmOp → ParseResult → ParseResult) {cs : Option (List RplmOp)} {q : P Unit}
    (hcs : ∀ l, cs = some l → CommandsInUe l)
    (hq : Decodes q (storeModification setFlag store cs o) w () o') :
    Decodes (brU1 >>= fun m => (modify (setFlag m) : P PUnit) >>= fun _ =>
      if m ≠ 0 then brBits >>= fun n => rplmLoop store (n + 1) >>= fun _ => q else q) o
      (modificationBits cs ++ w) () o' := by
  cases cs with
  | none => exact (decodes_brU1 false).bind (.update hq)
  | some l =>
    have hloop := (decodes_commands store (o := setFlag 1 o) (hcs l rfl)).bind (f := fun _ => q) hq
    exact (decodes_brU1 true).bind (.update hloop)

/-- The modification at the end of a structure. -/
theorem decodes_lastModification (setFlag : Nat → ParseResult → ParseResult)
    (store : RplmOp → ParseResult → ParseResult) {cs : Option (List RplmOp)}
    (hcs : ∀ l, cs = some l → CommandsInUe l) :
    Decodes (brU1 >>= fun m => (modify (setFlag m) : P PUnit) >>= fun _ =>
      if m ≠ 0 then brBits >>= fun n => rplmLoop store (n + 1) else pure ()) o
      (modificationBits cs) () (storeModification setFlag store cs o) := by
  cases cs with
  | none => exact (decodes_brU1 false).bind (.update (decodes_pure () _))
  | some l => exact (decodes_brU1 true).bind (.update (decodes_commands store (hcs l rfl)))

theorem decodes_parseRefPicLists (hexpr : h.Expressible sps pps) :
    Decodes (parseRefPicLists h.kind) o (refPicListBits h) () (storeRefPicLists h o) := by
  unfold parseRefPicLists refPicListBits writeOverride
  rw [isSome_eq_bits (writeCounts (h.kind = sliceTypeB)) h.numRefIdxActiveOverride rfl,
    List.append_assoc]
  refine .look ((decodes_flag _).bind ?_)
  refine .optElse { o with slice := storeCounts o.pps h o.slice } (fun hnone => ?_)
    (fun hsome hrest => ?_) ?_
  · rw [Bool.not_eq_true, Option.isSome_eq_false_iff, Option.isNone_iff_eq_none] at hnone
    unfold storeCounts
    rw [hnone]
  · obtain ⟨⟨l0, l1⟩, hvalue⟩ := Option.isSome_iff_exists.mp hsome
    obtain ⟨hl0, hl1⟩ := hexpr.counts _ _ hvalue
    unfold storeCounts at hrest
    rw [hvalue] at hrest ⊢
    unfold writeCounts
    rw [List.append_assoc]
    refine (decodes_brUe (hl0.trans (by decide))).bind
      (.update (.opt _ (fun hb => ?_) (fun hb hrest => ?_) hrest))
    · dsimp only
      rw [if_neg hb]
    · have hcount : (if h.kind = sliceTypeB then u8 l1 else o.slice.numRefIdxL1ActiveMinus1) =
          u8 l1 := if_pos hb
      dsimp only at hrest
      rw [hcount] at hrest
      exact (decodes_brUe (hl1.trans (by decide))).bind (.update hrest)
  · refine decodes_modification setModL0 storeRplmL0 (fun l hl => (hexpr.commandsL0 l hl).1) ?_
    unfold storeRefPicLists
    by_cases hb : h.kind = sliceTypeB
    · simp only [if_pos hb]
      exact decodes_lastModification setModL1 storeRplmL1 fun l hl => (hexpr.commandsL1 l hl).1
    · simp only [if_neg hb]
      exact decodes_pure () _

end References

section Header

variable (sps : Sps) (pps : Pps) (nalRefIdc nalUnitType : Nat) (h : SliceSyntax)

def storeIdr (o : ParseResult) : ParseResult :=
  { o with decode := { o.decode with
      flags := if nalUnitType = 5 then o.decode.flags ||| decodeParamFlagIdrPic else o.decode.flags
      idrPicId := if nalUnitType = 5 then u16 h.idrPicId else o.decode.idrPicId } }

def storeDirect (o : ParseResult) : ParseResult :=
  { o with slice := { o.slice with
      flags := if h.kind = sliceTypeB ∧ h.directSpatialMvPredFlag = true then
        o.slice.flags ||| sliceFlagDirectSpatialMvPred else o.slice.flags } }

def storeInter (o : ParseResult) : ParseResult := if h.Inter then storeRefPicLists h o else o

/-- The elements of the picture order count. -/
def pocBits : List Bool :=
  if sps.picOrderCntType = 0 then
    bitsOf (sps.log2MaxPicOrderCntLsbMinus4 + 4) h.picOrderCntLsb ++
      (if bottomPresent pps false then writeSe h.deltaPicOrderCntBottom else [])
  else if sps.picOrderCntType = 1 ∧ hasFlag sps.flags spsFlagDeltaPicOrderAlwaysZero = false then
    writeSe h.deltaPicOrderCnt0 ++
      (if bottomPresent pps false then writeSe h.deltaPicOrderCnt1 else [])
  else []

def storePocElements (d : DecodeParams) : DecodeParams :=
  if sps.picOrderCntType = 0 then
    { d with
      picOrderCntLsb := u16 h.picOrderCntLsb
      deltaPicOrderCntBottom := if bottomPresent pps false then h.deltaPicOrderCntBottom else 0 }
  else if sps.picOrderCntType = 1 ∧ hasFlag sps.flags spsFlagDeltaPicOrderAlwaysZero = false then
    { d with
      deltaPicOrderCnt0 := h.deltaPicOrderCnt0
      deltaPicOrderCnt1 := if bottomPresent pps false then h.deltaPicOrderCnt1 else 0 }
  else d

def storePoc (o : ParseResult) : ParseResult :=
  { o with decode := storePocElements sps pps h o.decode }

/-- Whether the parser reads weights for chroma. -/
def readsChroma : Bool := sps.chromaFormatIdc ≠ 0

def weightBits : List Bool :=
  golomb h.lumaLog2WeightDenom ++
    ((if readsChroma sps then golomb h.chromaLog2WeightDenom else []) ++
    (h.weightsL0.flatMap (writeWeights (readsChroma sps)) ++
      (if h.kind = sliceTypeB then h.weightsL1.flatMap (writeWeights (readsChroma sps)) else [])))

def markingBits : List Bool :=
  if nalUnitType = 5 then [h.noOutputOfPriorPicsFlag] ++ [h.longTermReferenceFlag]
  else
    match h.adaptiveMarking with
    | some ms => [true] ++ (writeOperations ms).bits
    | none => [false]

def storeMarking (o : ParseResult) : ParseResult :=
  if nalUnitType = 5 then
    { o with
      idrNoOutputOfPriorPicsFlag := h.noOutputOfPriorPicsFlag.toNat
      idrLongTermReferenceFlag := h.longTermReferenceFlag.toNat }
  else
    match h.adaptiveMarking with
    | some ms => storeOperations ms { o with adaptiveRefPicMarkingModeFlag := 1 }
    | none => { o with adaptiveRefPicMarkingModeFlag := 0 }

/-- What is stored of the elements in front of the lists. -/
def storeHead (o : ParseResult) : ParseResult :=
  { o with
    slice := {
      firstMbInSlice := h.firstMbInSlice
      sliceType := u8 h.kind
      colourPlaneId :=
        u8 (if hasFlag sps.flags spsFlagSeparateColourPlane then h.colourPlaneId else 0)
      redundantPicCnt :=
        u8 (if hasFlag pps.flags ppsFlagRedundantPicCntPresent then h.redundantPicCnt else 0)
      flags := if h.kind = sliceTypeB ∧ h.directSpatialMvPredFlag = true then
        0 ||| sliceFlagDirectSpatialMvPred else 0 }
    decode := storePocElements sps pps h {
      nalRefIdc := nalRefIdc
      frameNum := u16 h.frameNum
      flags := if nalUnitType = 5 then 0 ||| decodeParamFlagIdrPic else 0
      idrPicId := if nalUnitType = 5 then u16 h.idrPicId else 0 } }

/-- What is stored of the whole header. -/
def storeHeader (o : ParseResult) : ParseResult :=
  let o := storeInter h (storeHead sps pps nalRefIdc nalUnitType h o)
  if nalRefIdc ≠ 0 then storeMarking nalUnitType h o else o

/-- The bits the parser takes for the header. -/
def sliceBits : List Bool := List.flatten [
  golomb h.firstMbInSlice,
  golomb h.sliceType,
  golomb h.picParameterSetId,
  if hasFlag sps.flags spsFlagSeparateColourPlane then bitsOf 2 h.colourPlaneId else [],
  bitsOf (sps.log2MaxFrameNumMinus4 + 4) h.frameNum,
  if hasFlag sps.flags spsFlagFrameMbsOnly then [] else [false],
  if nalUnitType = 5 then golomb h.idrPicId else [],
  pocBits sps pps h,
  if hasFlag pps.flags ppsFlagRedundantPicCntPresent then golomb h.redundantPicCnt else [],
  if h.kind = sliceTypeB then [h.directSpatialMvPredFlag] else [],
  if h.Inter then refPicListBits h else [],
  if h.Weighted pps then weightBits sps h else [],
  if nalRefIdc ≠ 0 then markingBits nalUnitType h else []]

end Header

section Reading

variable {out : ParseResult} {nalRefIdc nalUnitType : Nat} {h : SliceSyntax}

variable {sps : Sps} {pps : Pps} {o : ParseResult}

theorem storeIdr_pos (hidr : nalUnitType = 5) : storeIdr nalUnitType h o =
    { o with decode := { o.decode with
      flags := o.decode.flags ||| decodeParamFlagIdrPic
      idrPicId := u16 h.idrPicId } } := by
  simp only [storeIdr, if_pos hidr]

theorem storeIdr_neg (hother : ¬nalUnitType = 5) : storeIdr nalUnitType h o = o := by
  simp only [storeIdr, if_neg hother]

theorem storePoc_lsb (hlsb : sps.picOrderCntType = 0) : storePoc sps pps h o =
    { o with decode := { o.decode with
      picOrderCntLsb := u16 h.picOrderCntLsb
      deltaPicOrderCntBottom :=
        if bottomPresent pps false then h.deltaPicOrderCntBottom else 0 } } := by
  simp only [storePoc, storePocElements, if_pos hlsb]

theorem storePoc_delta (hlsb : ¬sps.picOrderCntType = 0)
    (hdelta : sps.picOrderCntType = 1 ∧ hasFlag sps.flags spsFlagDeltaPicOrderAlwaysZero = false) :
    storePoc sps pps h o =
    { o with decode := { o.decode with
      deltaPicOrderCnt0 := h.deltaPicOrderCnt0
      deltaPicOrderCnt1 := if bottomPresent pps false then h.deltaPicOrderCnt1 else 0 } } := by
  simp only [storePoc, storePocElements, if_neg hlsb, if_pos hdelta]

theorem storePoc_none (hlsb : ¬sps.picOrderCntType = 0)
    (hdelta : ¬(sps.picOrderCntType = 1 ∧
    hasFlag sps.flags spsFlagDeltaPicOrderAlwaysZero = false)) :
    storePoc sps pps h o = o := by
  simp only [storePoc, storePocElements, if_neg hlsb, if_neg hdelta]

theorem storeDirect_pos (hb : h.kind = sliceTypeB) (hdirect : h.directSpatialMvPredFlag = true) :
    storeDirect h o =
    { o with
      slice := { o.slice with flags := o.slice.flags ||| sliceFlagDirectSpatialMvPred } } := by
  simp only [storeDirect, hb, hdirect, and_self, if_true]

theorem storeDirect_neg (hother : ¬(h.kind = sliceTypeB ∧ h.directSpatialMvPredFlag = true)) :
    storeDirect h o = o := by
  simp only [storeDirect, if_neg hother]

theorem SliceSyntax.Weighted.inter (hweighted : h.Weighted pps) : h.Inter := by
  rcases hweighted with ⟨-, hp | hsp⟩ | ⟨-, hb⟩
  · exact .inl hp
  · exact .inr (.inl hsp)
  · exact .inr (.inr hb)

theorem toNat_flag (b : Bool) : u8 b.toNat = b.toNat := by
  cases b with
  | false => rfl
  | true => rfl

theorem decodes_marking (hexpr : h.Expressible sps pps) :
    Decodes (if nalUnitType = 5 then
      brU1 >>= fun noOutput =>
        (modify fun o : ParseResult => { o with idrNoOutputOfPriorPicsFlag := u8 noOutput }) >>=
          fun _ =>
        brU1 >>= fun longTerm => modify fun o : ParseResult => { o with
          idrLongTermReferenceFlag := u8 longTerm }
      else
        brU1 >>= fun adaptive =>
          (modify fun o : ParseResult => { o with
            adaptiveRefPicMarkingModeFlag := u8 adaptive }) >>= fun _ =>
          if adaptive ≠ 0 then brBits >>= fun n => mmcoLoop (n + 1) else pure ()) o
      (markingBits nalUnitType h) () (storeMarking nalUnitType h o) := by
  simp only [markingBits, storeMarking]
  refine .cond (fun hidr => ?_) fun hidr => ?_
  · simp only [if_pos hidr]
    rw [← toNat_flag h.noOutputOfPriorPicsFlag, ← toNat_flag h.longTermReferenceFlag]
    exact (decodes_brU1 _).bind (.update (.put (decodes_brU1 _)))
  · simp only [if_neg hidr]
    cases hmarking : h.adaptiveMarking with
    | none => exact (decodes_brU1 false).bind (.update (decodes_pure () _))
    | some ms =>
      refine (decodes_brU1 true).bind
        (.update (decodes_brBits fun n hn => decodes_mmcoLoop (hexpr.operations ms hmarking) ?_))
      have hlength := length_writeOperations ms
      omega

theorem decodes_parseSliceFields (nalRefIdc nalUnitType : Nat) (hsets : SetsInRange out.sps out.pps)
    (hexpr : h.Expressible out.sps out.pps) :
    Decodes (parseSliceFields nalRefIdc nalUnitType) out
      (sliceBits out.sps out.pps nalRefIdc nalUnitType h) ()
      (storeHeader out.sps out.pps nalRefIdc nalUnitType h out) := by
  have htype := hexpr.sliceType
  have hppsId := hexpr.picParameterSetId
  have hplane := hexpr.colourPlaneId
  have hframe : out.sps.log2MaxFrameNumMinus4 + 4 ≤ 32 := by
    have hrange := hsets.log2MaxFrameNum
    omega
  have hlsb : out.sps.log2MaxPicOrderCntLsbMinus4 + 4 ≤ 32 := by
    have hrange := hsets.log2MaxPicOrderCntLsb
    omega
  have hidr := hexpr.idrPicId
  have hredundant := hexpr.redundantPicCnt
  obtain ⟨hlumaDenom, hchromaDenom⟩ := hexpr.denominators
  unfold parseSliceFields sliceBits
  simp only [List.flatten_cons]
  refine .update (.update (.look (.look ?_)))
  dsimp only
  refine .store (decodes_brUe hexpr.firstMbInSlice) ((decodes_brUe (by omega)).bind ?_)
  refine .cond (fun hbig => ?_) fun _ => ?_
  · split at hbig
    · omega
    · omega
  refine .update ((decodes_brUe (by omega)).bind ?_)
  refine .field 0 rfl (fun _ => decodes_brU (v := h.colourPlaneId) (by decide) (by omega)) ?_
  refine .store (decodes_brU hframe hexpr.frameNum)
    (.optNot (fun _ hrest => (decodes_flag false).bind hrest) ?_)
  refine .optMap (storeIdr nalUnitType h) storeIdr_neg (fun hpoc hrest => ?_) ?_
  · exact .update (.store (decodes_brUe (by omega)) (hrest.from (storeIdr_pos hpoc)))
  refine .either (storePoc out.sps out.pps h) storePoc_none (fun hpoc hrest => ?_)
    (fun hother hpoc hrest => ?_) ?_
  · refine .assoc (.store (decodes_brU hlsb hexpr.picOrderCntLsb) ?_)
    exact .field 0 rfl (fun _ => decodes_se hexpr.deltaPicOrderCntBottom)
      (hrest.from (storePoc_lsb hpoc))
  · refine .assoc (.store (decodes_se hexpr.deltaPicOrderCnt0) ?_)
    exact .field 0 rfl (fun _ => decodes_se hexpr.deltaPicOrderCnt1)
      (hrest.from (storePoc_delta hother hpoc))
  refine .field 0 rfl (fun _ => decodes_brUe (v := h.redundantPicCnt) (by omega)) ?_
  refine .optMap (storeDirect h) (fun hother => storeDirect_neg fun hb => hother hb.1)
    (fun hb hrest => ?_) ?_
  · refine (decodes_flag _).bind (.cond (fun hdirect => .update ?_) fun hdirect => ?_)
    · exact hrest.from (storeDirect_pos hb hdirect)
    · exact hrest.from (storeDirect_neg fun hb => hdirect hb.2)
  refine .optMap (storeInter h) (fun hother => if_neg hother) (fun hinter hrest => ?_) ?_
  · exact (decodes_parseRefPicLists hexpr).bind (hrest.from (if_pos hinter))
  refine Decodes.from (t := storeInter h (storeHead out.sps out.pps nalRefIdc nalUnitType h out)) ?_
    rfl
  refine .optMap id (fun _ => rfl) (fun hweighted hrest => ?_) ?_
  · have hweighted' : h.Weighted out.pps := hweighted
    have hinter : h.Inter := hweighted'.inter
    simp only [weightBits, readsChroma]
    refine .assoc
      ((decodes_brUe (by omega)).bind (.assoc (.opt _ (fun _ => rfl) (fun _ hrest => ?_) ?_)))
    · exact (decodes_brUe (by omega)).bind hrest
    refine .look
      (.assoc ((Decodes.skip ?_ fun e he => decodes_skipWeights (hexpr.weightsL0 e he)).bind ?_))
    · rw [storeInter, if_pos hinter, storeRefPicLists_eq]
      exact (hexpr.numWeightsL0 hweighted').trans (congrArg (· + 1) (storeCounts_L0 hexpr _).symm)
    refine .opt _ (fun _ => rfl) (fun hb hrest => ?_) hrest
    refine (Decodes.skip ?_ fun e he => decodes_skipWeights (hexpr.weightsL1 e he)).bind hrest
    rw [storeInter, if_pos hinter, storeRefPicLists_eq]
    exact (hexpr.numWeightsL1 hweighted' hb).trans
      (congrArg (· + 1) (storeCounts_L1 hexpr hb _).symm)
  rw [List.flatten_nil, List.append_nil]
  refine .cond (fun href => ?_) fun href => ?_
  · rw [if_pos href, storeHeader, if_pos href]
    exact decodes_marking hexpr
  · rw [if_neg href, storeHeader, if_neg href]
    exact decodes_pure () _

end Reading

end Rkvdec.Bitstream.H264
