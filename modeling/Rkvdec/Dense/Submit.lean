import Rkvdec.Dense.Bank

/-! Dense submission up to the queue: the user's bank with every listed slot replaced by an
address inside one of the submitting file's buffers. -/
namespace Rkvdec.Dense

/-- A DMA buffer of a file. Its IOVA range lies in the 32-bit window the IOMMU hands out. -/
structure Buffer where
  cookie : Nat
  iova : Nat
  size : Nat
  window : iova + size ≤ 2 ^ 32
deriving DecidableEq

/-- `RKMPP_DENSE_IOVA_SLOT`. -/
structure IovaSlot where
  regIdx : Nat
  iovaOffset : Nat
  bufferHandle : Nat
deriving DecidableEq

/-- `RKMPP_SUBMIT_DENSE_JOB_IN`; the counts are the lengths of the lists, and a buffer reference
is its handle. -/
structure SubmitIn where
  kickValue : BitVec 32
  bank : Bank
  iovaSlots : List IovaSlot
  bufRefs : List Nat

def maxDenseIovaSlots : Nat := 64
def maxBufRefs : Nat := 16

/-- `RKVDEC2_REG_DEC_E_BIT`. -/
def decEBit : BitVec 32 := 1

/-- `RkMppBufLookupIovaLocked`: the first buffer of the file's list with that cookie. -/
def bufLookup (bufs : List Buffer) (cookie : Nat) : Option Buffer :=
  bufs.find? fun b => b.cookie == cookie

/-- One turn of the substitution loop. -/
def resolveSlot (bufs : List Buffer) (slot : IovaSlot) (bank : Bank) : Except NtStatus Bank :=
  if isAddressReg slot.regIdx = false then .error .invalidParameter
  else if slot.bufferHandle = 0 then .error .invalidParameter
  else
    match bufLookup bufs slot.bufferHandle with
    | none => .error .invalidHandle
    | some buf =>
      if buf.size ≤ slot.iovaOffset then .error .invalidParameter
      else
        match bank.stamp slot.regIdx (BitVec.ofNat 32 (buf.iova + slot.iovaOffset)) with
        | none => .error .invalidParameter
        | some bank => .ok bank

/-- The substitution loop of `RkMppJobSubmitDense`. -/
def resolveSlots (bufs : List Buffer) (slots : List IovaSlot) (bank : Bank) :
    Except NtStatus Bank :=
  slots.foldlM (fun bank slot => resolveSlot bufs slot bank) bank

/-- The part of a job the register programming reads. -/
structure Program where
  bank : Bank
  kickValue : BitVec 32
  iovaSlots : List IovaSlot
  bufRefs : List Nat

/-- `RkMppJobSubmitDense` with the outcome of the pool allocation and of queue admission given. -/
def submitDense (bufs : List Buffer) (allocOk admitted : Bool) (input : SubmitIn) :
    Except NtStatus Program :=
  if maxDenseIovaSlots < input.iovaSlots.length ∨ maxBufRefs < input.bufRefs.length then
    .error .invalidParameter
  else if input.kickValue &&& decEBit = 0 then .error .invalidParameter
  else if allocOk = false then .error .insufficientResources
  else
    match resolveSlots bufs input.iovaSlots input.bank with
    | .error status => .error status
    | .ok bank =>
      if admitted = false then .error .deviceBusy
      else .ok ⟨bank, input.kickValue, input.iovaSlots, input.bufRefs⟩

variable {bufs : List Buffer} {slot : IovaSlot} {slots : List IovaSlot} {bank bank' : Bank}
  {r q : Nat} {v : BitVec 32}

/-- The word lies inside a buffer of the file. -/
def InBuffer (bufs : List Buffer) (v : BitVec 32) : Prop :=
  ∃ b ∈ bufs, b.iova ≤ v.toNat ∧ v.toNat < b.iova + b.size

theorem addrWord_stamp (h : bank.stamp r v = some bank') :
    bank'.addrWord q = if q = r then some v else bank.addrWord q := by
  unfold Bank.stamp at h
  unfold Bank.addrWord
  unfold caddrFirst caddrLast codaddrFirst codaddrLast at *
  split at h
  · rename_i hr
    obtain rfl := Option.some.inj h
    by_cases hq : q = r
    · subst hq
      have hlt : q - 128 < caddrWords := by
        unfold caddrWords
        omega
      simp [hr, Vector.getElem?_setIfInBounds_self_of_lt hlt]
    · rw [if_neg hq]
      split
      · have hne : r - 128 ≠ q - 128 := by omega
        rw [Vector.getElem?_setIfInBounds_ne hne]
      · rfl
  · split at h
    · rename_i hr hr'
      obtain rfl := Option.some.inj h
      by_cases hq : q = r
      · subst hq
        have hlt : q - 160 < codaddrWords := by
          unfold codaddrWords
          omega
        simp [hr, hr', Vector.getElem?_setIfInBounds_self_of_lt hlt]
      · rw [if_neg hq]
        split
        · rfl
        · split
          · have hne : r - 160 ≠ q - 160 := by omega
            rw [Vector.getElem?_setIfInBounds_ne hne]
          · rfl
    · simp at h

theorem bufLookup_mem {cookie : Nat} {b : Buffer} (h : bufLookup bufs cookie = some b) :
    b ∈ bufs ∧ b.cookie = cookie := by
  have := List.find?_some h
  exact ⟨List.mem_of_find?_eq_some h, by simpa using this⟩

/-- A turn that does not fail stamps an address of one of the file's buffers and nothing else. -/
theorem resolveSlot_ok (h : resolveSlot bufs slot bank = .ok bank') :
    ∃ b ∈ bufs, b.cookie = slot.bufferHandle ∧ ∃ v, InBuffer bufs v ∧
      ∀ q, bank'.addrWord q = if q = slot.regIdx then some v else bank.addrWord q := by
  unfold resolveSlot at h
  split at h
  · simp at h
  · split at h
    · simp at h
    · split at h
      · simp at h
      · rename_i b hlook
        obtain ⟨hmem, hcookie⟩ := bufLookup_mem hlook
        split at h
        · simp at h
        · rename_i hsize
          split at h
          · simp at h
          · rename_i stamped hstamp
            obtain rfl : stamped = bank' := by simpa using h
            refine ⟨b, hmem, hcookie, _, ?_, fun q => addrWord_stamp hstamp⟩
            have hwin := b.window
            refine ⟨b, hmem, ?_⟩
            simp only [BitVec.toNat_ofNat]
            omega

/-- After the loop a register some slot names holds an address of the file, and every other
register holds what the user put there. -/
theorem resolveSlots_ok (h : resolveSlots bufs slots bank = .ok bank') :
    (∀ r, (∀ s ∈ slots, s.regIdx ≠ r) → bank'.addrWord r = bank.addrWord r) ∧
    (∀ s ∈ slots, ∀ v, bank'.addrWord s.regIdx = some v → InBuffer bufs v) := by
  induction slots generalizing bank with
  | nil =>
    obtain rfl : bank = bank' := Except.ok.inj h
    simp
  | cons slot slots ih =>
    rw [resolveSlots, List.foldlM_cons] at h
    cases hslot : resolveSlot bufs slot bank with
    | error status =>
      rw [hslot] at h
      exact absurd h (by simp [bind, Except.bind])
    | ok mid =>
      rw [hslot] at h
      obtain ⟨-, -, -, v₀, hv₀, hword⟩ := resolveSlot_ok hslot
      obtain ⟨hkeep, hown⟩ := ih (show resolveSlots bufs slots mid = .ok bank' from h)
      constructor
      · intro r hr
        rw [hkeep r fun s hs => hr s (List.mem_cons_of_mem _ hs), hword, if_neg]
        exact fun heq => hr slot List.mem_cons_self heq.symm
      · intro s hs v hv
        by_cases hlater : ∃ s' ∈ slots, s'.regIdx = s.regIdx
        · obtain ⟨s', hs', heq⟩ := hlater
          exact hown s' hs' v (heq ▸ hv)
        · rcases List.mem_cons.mp hs with rfl | hs
          · rw [hkeep _ fun s' hs' heq => hlater ⟨s', hs', heq⟩, hword, if_pos rfl] at hv
            obtain rfl := Option.some.inj hv
            exact hv₀
          · exact absurd ⟨s, hs, rfl⟩ hlater

/-- The loop ends only if every slot names a buffer of the file. -/
theorem resolveSlots_owned (h : resolveSlots bufs slots bank = .ok bank') :
    ∀ s ∈ slots, ∃ b ∈ bufs, b.cookie = s.bufferHandle := by
  induction slots generalizing bank with
  | nil => simp
  | cons slot slots ih =>
    rw [resolveSlots, List.foldlM_cons] at h
    cases hslot : resolveSlot bufs slot bank with
    | error status =>
      rw [hslot] at h
      exact absurd h (by simp [bind, Except.bind])
    | ok mid =>
      rw [hslot] at h
      obtain ⟨b, hb, hcookie, -⟩ := resolveSlot_ok hslot
      intro s hs
      rcases List.mem_cons.mp hs with rfl | hs
      · exact ⟨b, hb, hcookie⟩
      · exact ih (show resolveSlots bufs slots mid = .ok bank' from h) s hs

/-- An accepted submission has its kick bit set, and its bank is the user's bank after the
substitution loop. -/
theorem submitDense_ok {allocOk admitted : Bool} {input : SubmitIn} {prog : Program}
    (h : submitDense bufs allocOk admitted input = .ok prog) :
    resolveSlots bufs input.iovaSlots input.bank = .ok prog.bank ∧
      prog.kickValue &&& decEBit ≠ 0 ∧ prog.iovaSlots = input.iovaSlots := by
  unfold submitDense at h
  split at h
  · simp at h
  · split at h
    · simp at h
    · rename_i hbit
      split at h
      · simp at h
      · split at h
        · simp at h
        · rename_i bank hres
          split at h
          · simp at h
          · obtain rfl := Except.ok.inj h
            exact ⟨hres, hbit, rfl⟩

end Rkvdec.Dense
