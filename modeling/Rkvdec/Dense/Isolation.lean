import Rkvdec.Dense.Submit

/-! Which addresses an accepted submission makes the codec use. -/
namespace Rkvdec.Dense

variable {bufs : List Buffer} {bank : Bank} {kickValue : BitVec 32} {mmioLen swregBase r off : Nat}
  {v : BitVec 32} {ws : List (Nat × BitVec 32)}

theorem mem_bankWrites {range : Nat × List (BitVec 32)} :
    (off, v) ∈ bankWrites swregBase range ↔
      ∃ idx, range.1 ≤ idx ∧ range.2[idx - range.1]? = some v ∧ idx ≠ kickRegIdx ∧
        off = idx * 4 + swregBase := by
  simp only [bankWrites, List.mem_filterMap, Prod.exists,
    List.mk_mem_zipIdx_iff_le_and_getElem?_sub]
  constructor
  · rintro ⟨word, idx, ⟨hle, hget⟩, hw⟩
    split at hw
    · simp at hw
    · obtain ⟨rfl, rfl⟩ : idx * 4 + swregBase = off ∧ word = v := by simpa using hw
      exact ⟨idx, hle, hget, by assumption, rfl⟩
  · rintro ⟨idx, hle, hget, hne, rfl⟩
    exact ⟨v, idx, ⟨hle, hget⟩, by simp [hne]⟩

/-- A word a bank holds for register `r` is inside that bank's index range. -/
theorem getElem?_toList {n : Nat} {words : Vector (BitVec 32) n} {i : Nat}
    (h : words.toList[i]? = some v) : i < n ∧ words[i]? = some v := by
  have hlt : i < words.toList.length := (List.getElem?_eq_some_iff.mp h).1
  refine ⟨by simpa using hlt, ?_⟩
  simpa using h

/-- The kick writes to an address register the word the bank holds for it, and only that. -/
theorem mem_kickWrites (hws : kickWrites mmioLen swregBase bank kickValue = some ws)
    (hr : isAddressReg r = true) :
    (r * 4 + swregBase, v) ∈ ws ↔ bank.addrWord r = some v := by
  rw [isAddressReg_iff] at hr
  unfold kickWrites at hws
  split at hws
  · simp at hws
  · split at hws
    · simp at hws
    · obtain rfl := Option.some.inj hws
      have hcancel : ∀ idx, r * 4 + swregBase = idx * 4 + swregBase ↔ idx = r := by
        intro idx
        omega
      simp only [List.mem_append, List.mem_flatMap, Bank.ranges, List.mem_cons, List.not_mem_nil,
        or_false, mem_bankWrites, Prod.mk.injEq, hcancel]
      unfold Bank.addrWord
      unfold commonFirst cparamFirst caddrFirst codaddrFirst hipocFirst statFirst kickRegIdx
        caddrLast codaddrLast
      constructor
      · rintro (⟨range, hrange, idx, hle, hget, hne, rfl⟩ | ⟨hkick, -⟩)
        · rcases hrange with rfl | rfl | rfl | rfl | rfl | rfl
          all_goals
            obtain ⟨hlt, hget⟩ := getElem?_toList hget
            dsimp only at hle hlt hget
          · unfold commonWords at hlt
            omega
          · unfold cparamWords at hlt
            omega
          · rw [if_pos (by unfold caddrWords at hlt; omega)]
            exact hget
          · rw [if_neg (by omega), if_pos (by unfold codaddrWords at hlt; omega)]
            exact hget
          · unfold hipocWords at hlt
            omega
          · unfold statWords at hlt
            omega
        · omega
      · intro h
        left
        split at h
        · rename_i hin
          exact ⟨_, .inr (.inr (.inl rfl)), r, hin.1, by simpa using h, by omega, rfl⟩
        · split at h
          · rename_i hin
            exact ⟨_, .inr (.inr (.inr (.inl rfl))), r, hin.1, by simpa using h, by omega, rfl⟩
          · simp at h

/-- Every address word of an accepted submission that reaches the codec is zero or inside a
buffer of the submitting file exactly when the user's bank has this property on the address
registers no slot names: the bank is copied as it is and only named registers are replaced. -/
theorem kick_addresses_owned_iff {allocOk admitted : Bool} {input : SubmitIn} {prog : Program}
    (hsubmit : submitDense bufs allocOk admitted input = .ok prog)
    (hws : kickWrites mmioLen swregBase prog.bank prog.kickValue = some ws) :
    (∀ r v, isAddressReg r = true → (r * 4 + swregBase, v) ∈ ws → v = 0 ∨ InBuffer bufs v) ↔
      ∀ r v, isAddressReg r = true → (∀ s ∈ input.iovaSlots, s.regIdx ≠ r) →
        input.bank.addrWord r = some v → v = 0 ∨ InBuffer bufs v := by
  obtain ⟨hkeep, hown⟩ := resolveSlots_ok (submitDense_ok hsubmit).1
  constructor
  · intro h r v hr hnone hv
    refine h r v hr ((mem_kickWrites hws hr).mpr ?_)
    rw [hkeep r hnone, hv]
  · intro h r v hr hmem
    have hv := (mem_kickWrites hws hr).mp hmem
    by_cases hslot : ∃ s ∈ input.iovaSlots, s.regIdx = r
    · obtain ⟨s, hs, rfl⟩ := hslot
      exact .inr (hown s hs v hv)
    · have hnone : ∀ s ∈ input.iovaSlots, s.regIdx ≠ r := fun s hs heq => hslot ⟨s, hs, heq⟩
      rw [hkeep r hnone] at hv
      exact h r v hr hnone hv

/-- A window that reaches past the statistics bank, the highest one, takes the whole job. -/
theorem kickWrites_isSome (bank : Bank) (kickValue : BitVec 32)
    (h : 278 * 4 + swregBase ≤ mmioLen) :
    ∃ ws, kickWrites mmioLen swregBase bank kickValue = some ws := by
  unfold kickWrites
  rw [if_neg, if_neg]
  · exact ⟨_, rfl⟩
  · unfold kickRegIdx
    omega
  · simp only [Bank.ranges, List.any_cons, List.any_nil, Vector.length_toList, Bool.or_eq_true,
      decide_eq_true_eq, Bool.or_false]
    unfold commonFirst commonWords cparamFirst cparamWords caddrFirst caddrWords codaddrFirst
      codaddrWords hipocFirst hipocWords statFirst statWords
    omega

/-- A file with one buffer, and the address of a buffer it does not own. -/
def oneBuffer : List Buffer := [⟨2, 0xFFDC0000, 0x10000, by decide⟩]

def zeroBank : Bank :=
  ⟨Vector.replicate _ 0, Vector.replicate _ 0, Vector.replicate _ 0, Vector.replicate _ 0,
    Vector.replicate _ 0, Vector.replicate _ 0⟩

/-- Register 128 is substituted; register 129 holds the raw word `raw`. -/
def rawInput (raw : BitVec 32) : SubmitIn where
  kickValue := 1
  bank := { zeroBank with commonAddr := zeroBank.commonAddr.setIfInBounds 1 raw }
  iovaSlots := [⟨128, 0x40, 2⟩]
  bufRefs := []

def rawProgram (raw : BitVec 32) : Program where
  bank := { zeroBank with
    commonAddr := (zeroBank.commonAddr.setIfInBounds 1 raw).setIfInBounds 0 0xFFDC0040 }
  kickValue := 1
  iovaSlots := [⟨128, 0x40, 2⟩]
  bufRefs := []


theorem submitDense_rawInput (raw : BitVec 32) :
    submitDense oneBuffer true true (rawInput raw) = .ok (rawProgram raw) := by
  have hres : resolveSlots oneBuffer (rawInput raw).iovaSlots (rawInput raw).bank =
      .ok (rawProgram raw).bank := by
    have hbuf : bufLookup oneBuffer 2 = some ⟨2, 0xFFDC0000, 0x10000, by decide⟩ := by rfl
    simp only [resolveSlots, rawInput, List.foldlM_cons, resolveSlot, hbuf]
    rfl
  unfold submitDense
  rw [hres]
  simp [rawInput, rawProgram, maxDenseIovaSlots, maxBufRefs, decEBit]

/-- The raw word of register 129 reaches the codec although no buffer of the file holds it. -/
theorem raw_address_reaches_codec :
    ∃ prog ws, submitDense oneBuffer true true (rawInput 0xFFB00000) = .ok prog ∧
      kickWrites 0x800 0x100 prog.bank prog.kickValue = some ws ∧
      ¬ ∀ r v, isAddressReg r = true → (r * 4 + 0x100, v) ∈ ws → v = 0 ∨ InBuffer oneBuffer v := by
  obtain ⟨ws, hws⟩ := kickWrites_isSome (rawProgram 0xFFB00000).bank 1
    (show 278 * 4 + 0x100 ≤ 0x800 by decide)
  refine ⟨_, ws, submitDense_rawInput _, hws, fun h => ?_⟩
  have hmem := (mem_kickWrites hws (r := 129) (v := 0xFFB00000) (by decide)).mpr (by rfl)
  rcases h 129 _ (by decide) hmem with hz | ⟨b, hb, hlo, -⟩
  · exact absurd hz (by decide)
  · obtain rfl : b = _ := List.mem_singleton.mp hb
    exact absurd hlo (by decide)

/-- A submission that leaves register 129 zero keeps inside the file's buffer. -/
theorem zero_address_owned :
    ∃ ws, kickWrites 0x800 0x100 (rawProgram 0).bank (rawProgram 0).kickValue = some ws ∧
      ∀ r v, isAddressReg r = true → (r * 4 + 0x100, v) ∈ ws → v = 0 ∨ InBuffer oneBuffer v := by
  obtain ⟨ws, hws⟩ := kickWrites_isSome (rawProgram 0).bank 1
    (show 278 * 4 + 0x100 ≤ 0x800 by decide)
  refine ⟨ws, hws, (kick_addresses_owned_iff (submitDense_rawInput 0) hws).mpr ?_⟩
  intro r v hr hnone hv
  left
  unfold Bank.addrWord at hv
  split at hv
  · simp only [rawInput, zeroBank, Vector.getElem?_setIfInBounds, Vector.getElem?_replicate] at hv
    split at hv
    · split at hv <;> simp_all
    · split at hv <;> simp_all
  · split at hv
    · simp only [rawInput, zeroBank, Vector.getElem?_replicate] at hv
      split at hv <;> simp_all
    · simp at hv

end Rkvdec.Dense
