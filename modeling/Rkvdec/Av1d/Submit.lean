import Rkvdec.Dense.Submit

/-! Submission to the AV1 core: the user's register list is checked entry by entry and its addresses
are replaced, and the kick programs the last value listed for each register. -/
namespace Rkvdec.Av1d

open Rkvdec.Dense (Buffer bufLookup InBuffer bufLookup_mem)

/-- `RKMPP_REG_WRITE`. -/
structure RegWrite where
  offset : Nat
  value : BitVec 32
  bufferHandle : Nat := 0
  iovaOffset : Nat := 0
deriving DecidableEq, Repr

/-- The swreg index of the entry. -/
def RegWrite.idx (w : RegWrite) : Nat := w.offset / 4

/-- `RKMPP_SUBMIT_JOB_IN`; the counts are the lengths of the lists. -/
structure SubmitIn where
  writes : List RegWrite
  bufRefs : List Nat := []

def maxRegWrites : Nat := 384
def maxBufRefs : Nat := 16
def kickRegOffset : Nat := 4
def kickRegBit : BitVec 32 := 1

/-- `RKAV1D_DMA_LSB_IDX`. -/
def dmaLsbIdx : List Nat :=
  [65, 67, 69, 71, 73, 75, 77, 79, 81, 83, 85, 87, 89, 91, 93, 95,
    97, 99, 101, 103, 105, 107, 109, 111, 113, 133, 135, 137, 139,
    141, 143, 145, 147, 167, 169, 171, 173, 175, 177, 179, 183, 190,
    192, 194, 196, 198, 200, 202, 204, 224, 226, 228, 230, 232, 234,
    236, 238, 326, 328, 339, 341, 348, 350, 505, 507]

def isAddressLsbReg (swregIdx : Nat) : Bool := dmaLsbIdx.contains swregIdx

def isAddressMsbReg (swregIdx : Nat) : Bool := dmaLsbIdx.contains (swregIdx + 1)

/-- The entry sets the kick bit. -/
def RegWrite.kicks (w : RegWrite) : Bool :=
  w.offset == kickRegOffset && w.value &&& kickRegBit != 0

/-- One turn of the loop over the list: the entry with its value. -/
def resolveWrite (bufs : List Buffer) (src : RegWrite) : Except NtStatus RegWrite :=
  if src.offset % 4 ≠ 0 ∨ 512 * 4 ≤ src.offset then .error .invalidParameter
  else if src.bufferHandle = 0 then
    if isAddressLsbReg src.idx then .error .invalidParameter
    else if isAddressMsbReg src.idx ∧ src.value ≠ 0 then .error .invalidParameter
    else .ok src
  else if isAddressLsbReg src.idx = false then .error .invalidParameter
  else
    match bufLookup bufs src.bufferHandle with
    | none => .error .invalidHandle
    | some buf =>
      if buf.size ≤ src.iovaOffset then .error .invalidParameter
      else .ok { src with value := BitVec.ofNat 32 (buf.iova + src.iovaOffset) }

def resolveWrites (bufs : List Buffer) : List RegWrite → Except NtStatus (List RegWrite)
  | [] => .ok []
  | src :: rest => do
    let w ← resolveWrite bufs src
    let ws ← resolveWrites bufs rest
    pure (w :: ws)

/-- `RkMppJobSubmit` with the outcome of the pool allocation and of queue admission given: the list
of the job. -/
def submitJob (bufs : List Buffer) (allocOk admitted : Bool) (input : SubmitIn) :
    Except NtStatus (List RegWrite) :=
  if maxRegWrites < input.writes.length ∨ maxBufRefs < input.bufRefs.length then
    .error .invalidParameter
  else if input.writes.any RegWrite.kicks = false then .error .invalidParameter
  else if allocOk = false then .error .insufficientResources
  else
    match resolveWrites bufs input.writes with
    | .error status => .error status
    | .ok writes => if admitted = false then .error .deviceBusy else .ok writes

/-- The arrays `RkMppJobStart` makes of the list: `av1_vals`, `av1_seen` and the bitmap
`cur_nonzero`. -/
structure Shadow where
  vals : Nat → BitVec 32 := fun _ => 0
  seen : Nat → Bool := fun _ => false
  nonzero : Nat → Bool := fun _ => false

def Shadow.store (s : Shadow) (w : RegWrite) : Shadow :=
  if 512 ≤ w.idx then s
  else
    { vals := Function.update s.vals w.idx w.value
      seen := Function.update s.seen w.idx true
      nonzero := if w.value ≠ 0 then Function.update s.nonzero w.idx true else s.nonzero }

def shadow (writes : List RegWrite) : Shadow := writes.foldl Shadow.store {}

variable {bufs : List Buffer} {w src : RegWrite} {writes ws : List RegWrite} {idx : Nat}

theorem shadow_snoc : shadow (writes ++ [w]) = (shadow writes).store w := by
  simp [shadow]

/-- The entry is for the register. -/
def RegWrite.For (idx : Nat) (w : RegWrite) : Prop := w.idx = idx ∧ idx < 512

instance : Decidable (w.For idx) := inferInstanceAs (Decidable (_ ∧ _))

theorem store_for (s : Shadow) (h : w.For idx) :
    (s.store w).vals idx = w.value ∧ (s.store w).seen idx = true := by
  obtain ⟨rfl, hlt⟩ := h
  simp [Shadow.store, Nat.not_le.mpr hlt]

theorem store_other (s : Shadow) (h : ¬ w.For idx) :
    (s.store w).vals idx = s.vals idx ∧ (s.store w).seen idx = s.seen idx ∧
      (s.store w).nonzero idx = s.nonzero idx := by
  unfold Shadow.store
  split
  · exact ⟨rfl, rfl, rfl⟩
  · rename_i hlt
    have hne : idx ≠ w.idx := by
      intro he
      exact h ⟨he.symm, by omega⟩
    refine ⟨Function.update_of_ne hne _ _, Function.update_of_ne hne _ _, ?_⟩
    split
    · exact Function.update_of_ne hne _ _
    · rfl

/-- The last entry listed for a register. -/
def lastFor (writes : List RegWrite) (idx : Nat) : Option RegWrite :=
  writes.reverse.find? fun w => decide (w.For idx)

theorem lastFor_snoc : lastFor (writes ++ [w]) idx =
    if w.For idx then some w else lastFor writes idx := by
  by_cases h : w.For idx <;> simp [lastFor, h]

theorem lastFor_some (h : lastFor writes idx = some w) : w ∈ writes ∧ w.For idx := by
  refine ⟨List.mem_reverse.mp (List.mem_of_find?_eq_some h), ?_⟩
  simpa using List.find?_some h

theorem lastFor_none (h : lastFor writes idx = none) : ∀ w ∈ writes, ¬ w.For idx := by
  intro w hw
  simpa using List.find?_eq_none.mp h w (List.mem_reverse.mpr hw)

/-- The arrays have the last value listed for a register, or nothing. -/
theorem shadow_eq (writes : List RegWrite) (idx : Nat) :
    (shadow writes).vals idx = ((lastFor writes idx).map RegWrite.value).getD 0 ∧
      (shadow writes).seen idx = (lastFor writes idx).isSome := by
  induction writes using List.reverseRecOn with
  | nil => exact ⟨rfl, rfl⟩
  | append_singleton ws w ih =>
    rw [shadow_snoc, lastFor_snoc]
    by_cases h : w.For idx
    · obtain ⟨hval, hseen⟩ := store_for (shadow ws) h
      simp [h, hval, hseen]
    · obtain ⟨hval, hseen, -⟩ := store_other (shadow ws) h
      rw [hval, hseen, if_neg h]
      exact ih

/-- A register in the bitmap is listed. -/
theorem seen_of_nonzero (h : (shadow writes).nonzero idx = true) :
    (shadow writes).seen idx = true := by
  induction writes using List.reverseRecOn with
  | nil => cases h
  | append_singleton ws w ih =>
    rw [shadow_snoc] at h ⊢
    by_cases hfor : w.For idx
    · exact (store_for _ hfor).2
    · obtain ⟨-, hseen, hnonzero⟩ := store_other (shadow ws) hfor
      rw [hseen]
      exact ih (hnonzero ▸ h)

/-- A register whose last value is not zero is in the bitmap. -/
theorem nonzero_of_val (h : (shadow writes).vals idx ≠ 0) : (shadow writes).nonzero idx = true := by
  induction writes using List.reverseRecOn with
  | nil => exact absurd rfl h
  | append_singleton ws w ih =>
    rw [shadow_snoc] at h ⊢
    by_cases hfor : w.For idx
    · rw [(store_for _ hfor).1] at h
      obtain ⟨rfl, hlt⟩ := hfor
      unfold Shadow.store
      rw [if_neg (by omega), if_pos h]
      exact Function.update_self _ _ _
    · obtain ⟨hval, -, hnonzero⟩ := store_other (shadow ws) hfor
      rw [hnonzero]
      exact ih (hval ▸ h)

section Resolve

/-- What an accepted entry looks like in the job. -/
structure Resolved (bufs : List Buffer) (src w : RegWrite) : Prop where
  offset : w.offset = src.offset
  aligned : src.offset % 4 = 0
  inRange : src.offset < 512 * 4
  lsb : isAddressLsbReg src.idx = true → InBuffer bufs w.value
  msb : isAddressMsbReg src.idx = true → w.value = 0
  plain : isAddressLsbReg src.idx = false → w.value = src.value

/-- No register is the low half of one address and the high half of another. -/
theorem lsb_not_msb (h : isAddressLsbReg idx = true) : isAddressMsbReg idx = false := by
  have hall : ∀ i ∈ dmaLsbIdx, isAddressMsbReg i = false := by decide
  exact hall idx (by simpa [isAddressLsbReg] using h)

theorem resolveWrite_ok (h : resolveWrite bufs src = .ok w) : Resolved bufs src w := by
  unfold resolveWrite at h
  split at h
  · cases h
  rename_i hoffset
  have haligned : src.offset % 4 = 0 := by omega
  have hrange : src.offset < 512 * 4 := by omega
  split at h
  · split at h
    · cases h
    · rename_i hlsb
      split at h
      · cases h
      · rename_i hmsb
        cases h
        refine ⟨rfl, haligned, hrange, fun hreg => absurd hreg hlsb, fun hreg => ?_, fun _ => rfl⟩
        by_contra hvalue
        exact hmsb ⟨hreg, hvalue⟩
  · split at h
    · cases h
    · rename_i hlsb
      have hlow : isAddressLsbReg src.idx = true := by simpa using hlsb
      split at h
      · cases h
      · rename_i buf hbuf
        split at h
        · cases h
        · rename_i hsize
          cases h
          refine ⟨rfl, haligned, hrange, fun _ => ?_, fun hmsb => ?_, fun hno => ?_⟩
          · refine ⟨buf, (bufLookup_mem hbuf).1, ?_⟩
            have hwindow := buf.window
            simp only [BitVec.toNat_ofNat]
            omega
          · rw [lsb_not_msb hlow] at hmsb
            cases hmsb
          · rw [hlow] at hno
            cases hno

theorem resolveWrites_ok {srcs : List RegWrite} (h : resolveWrites bufs srcs = .ok ws) :
    List.Forall₂ (Resolved bufs) srcs ws := by
  induction srcs generalizing ws with
  | nil =>
    cases h
    exact .nil
  | cons src rest ih =>
    simp only [resolveWrites] at h
    cases hw : resolveWrite bufs src with
    | error status =>
      rw [hw] at h
      cases h
    | ok w =>
      rw [hw] at h
      cases hrest : resolveWrites bufs rest with
      | error status =>
        rw [hrest] at h
        cases h
      | ok ws' =>
        rw [hrest] at h
        cases h
        exact .cons (resolveWrite_ok hw) (ih hrest)

theorem submitJob_ok {allocOk admitted : Bool} {input : SubmitIn}
    (h : submitJob bufs allocOk admitted input = .ok writes) :
    List.Forall₂ (Resolved bufs) input.writes writes ∧ input.writes.any RegWrite.kicks = true := by
  unfold submitJob at h
  split at h
  · cases h
  split at h
  · cases h
  rename_i hkick
  split at h
  · cases h
  split at h
  · cases h
  rename_i ws hresolve
  split at h
  · cases h
  · cases h
    exact ⟨resolveWrites_ok hresolve, by simpa using hkick⟩

theorem mem_resolved {srcs : List RegWrite} (h : List.Forall₂ (Resolved bufs) srcs ws)
    (hw : w ∈ ws) :
    ∃ src ∈ srcs, Resolved bufs src w := by
  induction h with
  | nil => cases hw
  | cons hhead _ ih =>
    rcases List.mem_cons.mp hw with rfl | hw
    · exact ⟨_, List.mem_cons_self, hhead⟩
    · obtain ⟨src, hsrc, hres⟩ := ih hw
      exact ⟨src, List.mem_cons_of_mem _ hsrc, hres⟩

/-- The entries the job and the input list last for a register belong together. -/
theorem lastFor_resolved {srcs : List RegWrite} (h : List.Forall₂ (Resolved bufs) srcs ws)
    (idx : Nat) :
    Option.Rel (Resolved bufs) (lastFor srcs idx) (lastFor ws idx) := by
  unfold lastFor
  have hreverse := List.rel_reverse h
  generalize srcs.reverse = before at hreverse ⊢
  generalize ws.reverse = after at hreverse ⊢
  induction hreverse with
  | nil => exact .none
  | @cons src w srcs ws hhead _ ih =>
    have hfor : w.For idx ↔ src.For idx := by
      unfold RegWrite.For RegWrite.idx
      rw [hhead.offset]
    by_cases hsrc : src.For idx
    · simpa [hsrc, hfor.mpr hsrc] using Option.Rel.some hhead
    · simpa [hsrc, mt hfor.mp hsrc] using ih

/-- The arrays hold what the submission checked. -/
structure Sound (bufs : List Buffer) (writes : List RegWrite) : Prop where
  lsb : ∀ idx, isAddressLsbReg idx = true → (shadow writes).seen idx = true →
    InBuffer bufs ((shadow writes).vals idx)
  msb : ∀ idx, isAddressMsbReg idx = true → (shadow writes).seen idx = true →
    (shadow writes).vals idx = 0
  inRange : ∀ w ∈ writes, w.idx < 512
  kick : (shadow writes).vals (kickRegOffset / 4) &&& kickRegBit ≠ 0

/-- A register that is listed has the value of one entry, which was resolved. -/
theorem seen_resolved {srcs : List RegWrite} (h : List.Forall₂ (Resolved bufs) srcs ws)
    (hseen : (shadow ws).seen idx = true) :
    ∃ src w, Resolved bufs src w ∧ src.idx = idx ∧ (shadow ws).vals idx = w.value := by
  obtain ⟨hval, hsome⟩ := shadow_eq ws idx
  rw [hsome] at hseen
  obtain ⟨w, hw⟩ := Option.isSome_iff_exists.mp hseen
  obtain ⟨hmem, hfor⟩ := lastFor_some hw
  obtain ⟨src, -, hres⟩ := mem_resolved h hmem
  refine ⟨src, w, hres, ?_, by rw [hval, hw]; rfl⟩
  rw [RegWrite.idx, ← hres.offset]
  exact hfor.1

/-- The value of the kick register is the last one the input lists for it. -/
theorem kick_value {srcs : List RegWrite} (h : List.Forall₂ (Resolved bufs) srcs ws) :
    (shadow ws).vals 1 = ((lastFor srcs 1).map RegWrite.value).getD 0 := by
  rw [(shadow_eq ws 1).1]
  have hrel := lastFor_resolved h 1
  generalize hsrc : lastFor srcs 1 = a at hrel
  generalize lastFor ws 1 = b at hrel
  cases hrel with
  | none => rfl
  | some hres =>
    have hidx := (lastFor_some hsrc).2.1
    have hplain : isAddressLsbReg 1 = false := by decide
    simp [hres.plain (hidx ▸ hplain)]

/-- An accepted list is programmed as it was checked, iff its last entry for the kick register has
the kick bit. -/
theorem accepted_list_sound_iff {allocOk admitted : Bool} {input : SubmitIn}
    (h : submitJob bufs allocOk admitted input = .ok writes) :
    Sound bufs writes ↔ ∃ w, lastFor input.writes (kickRegOffset / 4) = some w ∧
      w.value &&& kickRegBit ≠ 0 := by
  obtain ⟨hres, -⟩ := submitJob_ok h
  have hkick := kick_value hres
  constructor
  · intro hsound
    have hbit := hsound.kick
    change (shadow writes).vals 1 &&& kickRegBit ≠ 0 at hbit
    rw [hkick] at hbit
    cases hlast : lastFor input.writes 1 with
    | none => simp [hlast] at hbit
    | some w => exact ⟨w, hlast, by simpa [hlast] using hbit⟩
  · rintro ⟨w, hlast, hbit⟩
    refine ⟨?_, ?_, ?_, ?_⟩
    · intro idx hlsb hseen
      obtain ⟨src, w, hw, rfl, hval⟩ := seen_resolved hres hseen
      rw [hval]
      exact hw.lsb hlsb
    · intro idx hmsb hseen
      obtain ⟨src, w, hw, rfl, hval⟩ := seen_resolved hres hseen
      rw [hval]
      exact hw.msb hmsb
    · intro w hw
      obtain ⟨src, -, hsrc⟩ := mem_resolved hres hw
      have hrange := hsrc.inRange
      rw [RegWrite.idx, hsrc.offset]
      omega
    · change (shadow writes).vals 1 &&& kickRegBit ≠ 0
      change lastFor input.writes 1 = some w at hlast
      rw [hkick, hlast]
      exact hbit

/-- An accepted list whose second entry takes the kick bit back. -/
abbrev kickTakenBack : SubmitIn := ⟨[⟨4, 1, 0, 0⟩, ⟨4, 0, 0, 0⟩], []⟩

/-- It is accepted, and the kick register gets 0. -/
theorem kick_bit_overwritten : ∃ writes, submitJob [] true true kickTakenBack = .ok writes ∧
    (shadow writes).vals 1 = 0 ∧ ¬ Sound [] writes := by
  refine ⟨kickTakenBack.writes, rfl, rfl, ?_⟩
  intro hsound
  exact hsound.kick rfl

/-- One address and the kick. -/
abbrev addressAndKick : SubmitIn := ⟨[⟨64 * 4, 0, 0, 0⟩, ⟨65 * 4, 0, 7, 16⟩, ⟨4, 1, 0, 0⟩], []⟩

abbrev oneBuffer : List Buffer := [⟨7, 0x1000, 64, by decide⟩]

theorem accepted_list_sound_address : ∃ writes,
    submitJob oneBuffer true true addressAndKick = .ok writes ∧ Sound oneBuffer writes := by
  obtain ⟨writes, hok⟩ : ∃ writes, submitJob oneBuffer true true addressAndKick = .ok writes :=
    ⟨_, rfl⟩
  exact ⟨writes, hok, (accepted_list_sound_iff hok).mpr ⟨⟨4, 1, 0, 0⟩, rfl, by decide⟩⟩

end Resolve

end Rkvdec.Av1d
