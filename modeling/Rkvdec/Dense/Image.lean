import Rkvdec.Dense.Isolation

/-! Register images. A register builder emits registers one by one; `H26xDenseOutput` carries them
to the driver, which puts the addresses in and writes the codec. -/
namespace Rkvdec.Dense

def commonLast : Nat := 32
def cparamLast : Nat := 112
def hipocLast : Nat := 204
def statLast : Nat := 277

/-- `H26xDenseOutput`. -/
structure DenseOutput where
  bank : Bank
  iovaSlots : List IovaSlot
  kickValue : BitVec 32

/-- The output after `memset`. -/
def DenseOutput.zero : DenseOutput := ⟨zeroBank, [], 0⟩

/-- `H26xDenseSlotFor`; the pointer is the store through it. -/
def denseSlotFor (regOffset : Nat) : Option (BitVec 32 → Bank → Bank) :=
  let idx := regOffset / 4
  if idx = kickRegIdx then none
  else if commonFirst ≤ idx ∧ idx ≤ commonLast then
    some fun v bank => { bank with common := bank.common.setIfInBounds (idx - commonFirst) v }
  else if cparamFirst ≤ idx ∧ idx ≤ cparamLast then
    some fun v bank => { bank with
      codecParams := bank.codecParams.setIfInBounds (idx - cparamFirst) v }
  else if caddrFirst ≤ idx ∧ idx ≤ caddrLast then
    some fun v bank => { bank with
      commonAddr := bank.commonAddr.setIfInBounds (idx - caddrFirst) v }
  else if codaddrFirst ≤ idx ∧ idx ≤ codaddrLast then
    some fun v bank => { bank with
      codecAddr := bank.codecAddr.setIfInBounds (idx - codaddrFirst) v }
  else if hipocFirst ≤ idx ∧ idx ≤ hipocLast then
    some fun v bank => { bank with highPoc := bank.highPoc.setIfInBounds (idx - hipocFirst) v }
  else if statFirst ≤ idx ∧ idx ≤ statLast then
    some fun v bank => { bank with stat := bank.stat.setIfInBounds (idx - statFirst) v }
  else none

/-- `emit_plain`; `none` is the failure. -/
def emitPlain (out : DenseOutput) (off : Nat) (value : BitVec 32) : Option DenseOutput :=
  if off / 4 = kickRegIdx then some { out with kickValue := value }
  else
    match denseSlotFor off with
    | none => none
    | some store => some { out with bank := store value out.bank }

/-- `emit_iova`. -/
def emitIova (out : DenseOutput) (off handle iovaOffset : Nat) : Option DenseOutput :=
  if handle = 0 then some out
  else if maxDenseIovaSlots ≤ out.iovaSlots.length then none
  else if (denseSlotFor off).isNone then none
  else if isAddressReg (off / 4) = false then none
  else some { out with iovaSlots := out.iovaSlots ++ [⟨off / 4, iovaOffset, handle⟩] }

/-- One `EMIT_P` or `EMIT_I` of a register builder. -/
inductive Emit where
  | plain (off : Nat) (value : BitVec 32)
  | iova (off handle iovaOffset : Nat)

namespace Emit

def run (out : DenseOutput) : Emit → Option DenseOutput
  | plain off value => emitPlain out off value
  | iova off handle iovaOffset => emitIova out off handle iovaOffset

def reg : Emit → Nat
  | plain off _ => off / 4
  | iova off .. => off / 4

/-- The slot the emission takes. -/
def slot : Emit → Option IovaSlot
  | plain .. => none
  | iova off handle iovaOffset => if handle = 0 then none else some ⟨off / 4, iovaOffset, handle⟩

/-- The register is one the emission may name. -/
def lands : Emit → Bool
  | plain off _ => off / 4 = kickRegIdx || (denseSlotFor off).isSome
  | iova off .. => (denseSlotFor off).isSome && isAddressReg (off / 4)

/-- No address is emitted as a plain value. -/
def safe : Emit → Bool
  | plain off value => !isAddressReg (off / 4) || value == 0
  | iova .. => true

def isIova : Emit → Bool
  | plain .. => false
  | iova .. => true

/-- The buffer of the slot is one of the file's and reaches past the offset. -/
def backed (bufs : List Buffer) (e : Emit) : Bool :=
  match e.slot with
  | none => true
  | some s =>
    match bufLookup bufs s.bufferHandle with
    | none => false
    | some b => s.iovaOffset < b.size

end Emit

/-- The emissions of a builder in a row, into an output that was cleared. -/
def emitAll (emits : List Emit) : Option DenseOutput :=
  emits.foldlM (fun out e => e.run out) .zero

/-- The request `WinBe_SubmitDense` makes of an output. -/
def DenseOutput.input (out : DenseOutput) : SubmitIn := ⟨out.kickValue, out.bank, out.iovaSlots, []⟩

/-- The address the driver puts in for a slot. -/
def IovaSlot.address (bufs : List Buffer) (s : IovaSlot) : BitVec 32 :=
  match bufLookup bufs s.bufferHandle with
  | none => 0
  | some b => BitVec.ofNat 32 (b.iova + s.iovaOffset)

/-- What the codec is to get for an emission. -/
def Emit.value (bufs : List Buffer) : Emit → BitVec 32
  | .plain _ value => value
  | e => (e.slot.map (IovaSlot.address bufs)).getD 0

variable {bufs : List Buffer} {bank bank' : Bank} {slots : List IovaSlot} {s : IovaSlot}
  {r q off : Nat}
  {v : BitVec 32} {ws : List (Nat × BitVec 32)} {mmioLen swregBase : Nat} {kickValue : BitVec 32}

/-- The words of a bank have the word for a register. -/
def InRange {n : Nat} (first : Nat) (words : Vector (BitVec 32) n) (r : Nat)
    (v : BitVec 32) : Prop :=
  first ≤ r ∧ words[r - first]? = some v

/-- The bank has the word for a register. -/
def Bank.Holds (bank : Bank) (r : Nat) (v : BitVec 32) : Prop :=
  InRange commonFirst bank.common r v ∨ InRange cparamFirst bank.codecParams r v ∨
    InRange caddrFirst bank.commonAddr r v ∨ InRange codaddrFirst bank.codecAddr r v ∨
    InRange hipocFirst bank.highPoc r v ∨ InRange statFirst bank.stat r v

/-- What the registers are to be: the kick register has its own word. -/
def Loaded (bank : Bank) (kickValue : BitVec 32) (r : Nat) (w : BitVec 32) : Prop :=
  if r = kickRegIdx then w = kickValue else bank.Holds r w

section Words

variable {n first idx : Nat} {words : Vector (BitVec 32) n} {w : BitVec 32}

theorem inRange_lt (h : InRange first words r w) : first ≤ r ∧ r < first + n := by
  have hlt := (Vector.getElem?_eq_some_iff.mp h.2).1
  exact ⟨h.1, by omega⟩

theorem inRange_set (hlo : first ≤ idx) (hhi : idx < first + n) :
    InRange first (words.setIfInBounds (idx - first) v) r w ↔
      if r = idx then w = v else InRange first words r w := by
  by_cases hr : r = idx
  · subst hr
    have hlt : r - first < n := by omega
    simp [InRange, hlo, Vector.getElem?_setIfInBounds_self_of_lt hlt, eq_comm]
  · rw [if_neg hr]
    refine and_congr_right fun hle => ?_
    rw [Vector.getElem?_setIfInBounds_ne (by omega)]

/-- The store through the pointer sets the register and no other. -/
theorem holds_store {store : BitVec 32 → Bank → Bank} (h : denseSlotFor off = some store) :
    (store v bank).Holds r w ↔ if r = off / 4 then w = v else bank.Holds r w := by
  have hcommon : InRange commonFirst bank.common r w → 8 ≤ r ∧ r < 33 := inRange_lt
  have hcparam : InRange cparamFirst bank.codecParams r w → 64 ≤ r ∧ r < 113 := inRange_lt
  have hcaddr : InRange caddrFirst bank.commonAddr r w → 128 ≤ r ∧ r < 143 := inRange_lt
  have hcodaddr : InRange codaddrFirst bank.codecAddr r w → 160 ≤ r ∧ r < 200 := inRange_lt
  have hhipoc : InRange hipocFirst bank.highPoc r w → 200 ≤ r ∧ r < 205 := inRange_lt
  have hstat : InRange statFirst bank.stat r w → 256 ≤ r ∧ r < 278 := inRange_lt
  unfold denseSlotFor at h
  generalize off / 4 = idx at *
  dsimp only at h
  repeat' split at h
  all_goals cases h
  all_goals
    rename_i hin
    unfold Bank.Holds
    dsimp only
    rw [inRange_set hin.1 (hin.2.trans_lt (by decide))]
    by_cases hr : r = idx
    · subst hr
      simp only [if_true]
      simp only [commonFirst, cparamFirst, caddrFirst, codaddrFirst, hipocFirst, statFirst,
        commonLast, cparamLast, caddrLast, codaddrLast, hipocLast, statLast] at hin
      grind
    · simp only [if_neg hr]

/-- The driver stamps an address where a builder would store it. -/
theorem holds_stamp (h : bank.stamp q v = some bank') :
    bank'.Holds r w ↔ if r = q then w = v else bank.Holds r w := by
  have hstore : ∃ store, denseSlotFor (q * 4) = some store ∧ store v bank = bank' := by
    unfold Bank.stamp at h
    unfold denseSlotFor
    rw [Nat.mul_div_cancel q (by decide)]
    split at h
    · rename_i hin
      obtain rfl := Option.some.inj h
      unfold caddrFirst caddrLast at hin
      simp [hin, kickRegIdx, commonFirst, commonLast, cparamFirst, cparamLast, caddrFirst,
        caddrLast, show q ≠ 10 by omega, show ¬ q ≤ 32 by omega, show ¬ q ≤ 112 by omega]
    · split at h
      · rename_i hout hin
        obtain rfl := Option.some.inj h
        unfold codaddrFirst codaddrLast at hin
        simp [hin, hout, kickRegIdx, commonFirst, commonLast, cparamFirst, cparamLast, codaddrFirst,
          codaddrLast, show q ≠ 10 by omega, show ¬ q ≤ 32 by omega, show ¬ q ≤ 112 by omega]
      · cases h
  obtain ⟨store, hslot, rfl⟩ := hstore
  rw [holds_store hslot, Nat.mul_div_cancel q (by decide)]

/-- The kick writes every register the bank has a word for, and the kick register last. -/
theorem kick_writes (hws : kickWrites mmioLen swregBase bank kickValue = some ws) :
    (∀ r w, (r * 4 + swregBase, w) ∈ ws ↔ Loaded bank kickValue r w) ∧
      ∃ init, ws = init ++ [(kickRegIdx * 4 + swregBase, kickValue)] ∧
        ∀ w, (kickRegIdx * 4 + swregBase, w) ∉ init := by
  unfold kickWrites at hws
  split at hws
  · cases hws
  split at hws
  · cases hws
  obtain rfl := Option.some.inj hws
  have hcancel : ∀ r idx, r * 4 + swregBase = idx * 4 + swregBase ↔ idx = r := by
    intro r idx
    omega
  have hrange : ∀ r w, (∃ range ∈ bank.ranges, range.1 ≤ r ∧ range.2[r - range.1]? = some w) ↔
      bank.Holds r w := by
    simp [Bank.ranges, Bank.Holds, InRange]
  have hinit : ∀ r w, (r * 4 + swregBase, w) ∈ bank.ranges.flatMap (bankWrites swregBase) ↔
      r ≠ kickRegIdx ∧ bank.Holds r w := by
    intro r w
    simp only [List.mem_flatMap, mem_bankWrites, hcancel, ← hrange]
    constructor
    · rintro ⟨range, hmem, idx, hle, hget, hne, rfl⟩
      exact ⟨hne, range, hmem, hle, hget⟩
    · rintro ⟨hne, range, hmem, hle, hget⟩
      exact ⟨range, hmem, r, hle, hget, hne, rfl⟩
  refine ⟨fun r w => ?_, _, rfl, fun w hw => ((hinit kickRegIdx w).mp hw).1 rfl⟩
  rw [List.mem_append, List.mem_singleton, Prod.mk.injEq, hinit, hcancel, Loaded]
  by_cases hr : r = kickRegIdx <;> simp [hr, eq_comm]

end Words

section Substitution

/-- The slot is one the driver takes from the file. -/
def IovaSlot.Owned (bufs : List Buffer) (s : IovaSlot) : Prop :=
  isAddressReg s.regIdx = true ∧ s.bufferHandle ≠ 0 ∧
    ∃ b, bufLookup bufs s.bufferHandle = some b ∧ s.iovaOffset < b.size

theorem resolveSlot_owned (bank : Bank) (h : s.Owned bufs) :
    ∃ bank', resolveSlot bufs s bank = .ok bank' ∧
    ∀ r w, bank'.Holds r w ↔ if r = s.regIdx then w = s.address bufs else bank.Holds r w := by
  obtain ⟨hreg, hhandle, b, hlook, hsize⟩ := h
  have hstamp : ∃ bank', bank.stamp s.regIdx (s.address bufs) = some bank' := by
    rw [isAddressReg_iff] at hreg
    unfold Bank.stamp caddrFirst caddrLast codaddrFirst codaddrLast
    rcases hreg with hreg | hreg
    · rw [if_pos hreg]
      exact ⟨_, rfl⟩
    · rw [if_neg (by omega), if_pos (by omega)]
      exact ⟨_, rfl⟩
  obtain ⟨bank', hstamp⟩ := hstamp
  refine ⟨bank', ?_, fun r w => holds_stamp hstamp⟩
  simp only [IovaSlot.address, hlook] at hstamp
  simp [resolveSlot, hreg, hhandle, hlook, hsize.not_ge, hstamp]

/-- The driver's loop over owned slots puts in every address, and leaves every other register. -/
theorem resolveSlots_owned_all (bank : Bank) (hslots : ∀ s ∈ slots, s.Owned bufs)
    (hnodup : (slots.map IovaSlot.regIdx).Nodup) :
    ∃ bank', resolveSlots bufs slots bank = .ok bank' ∧
      (∀ s ∈ slots, ∀ w, bank'.Holds s.regIdx w ↔ w = s.address bufs) ∧
      ∀ r, r ∉ slots.map IovaSlot.regIdx → ∀ w, bank'.Holds r w ↔ bank.Holds r w := by
  induction slots generalizing bank with
  | nil => exact ⟨bank, rfl, by simp, by simp⟩
  | cons s slots ih =>
    obtain ⟨hfresh, hnodup⟩ := List.nodup_cons.mp hnodup
    obtain ⟨mid, hmid, hholds⟩ := resolveSlot_owned bank (hslots s List.mem_cons_self)
    obtain ⟨bank', hrun, hset, hkeep⟩ :=
      ih mid (fun s' hs' => hslots s' (List.mem_cons_of_mem _ hs')) hnodup
    refine ⟨bank', ?_, fun s' hs' w => ?_, fun r hr w => ?_⟩
    · rw [resolveSlots, List.foldlM_cons, hmid]
      exact hrun
    · rcases List.mem_cons.mp hs' with rfl | hs'
      · rw [hkeep _ hfresh, hholds, if_pos rfl]
      · exact hset s' hs' w
    · rw [List.map_cons, List.mem_cons, not_or] at hr
      rw [hkeep r hr.2, hholds, if_neg hr.1]

end Substitution

section Building

variable {out out' : DenseOutput} {e : Emit} {done emits : List Emit}

/-- What an output has of the emissions so far. -/
structure Carries (done : List Emit) (out : DenseOutput) : Prop where
  slots : out.iovaSlots = done.filterMap Emit.slot
  plain : ∀ off v, .plain off v ∈ done → ∀ w, Loaded out.bank out.kickValue (off / 4) w ↔ w = v
  rest : ∀ r, (∀ off v, .plain off v ∈ done → off / 4 ≠ r) →
    ∀ w, Loaded out.bank out.kickValue r w ↔ Loaded zeroBank 0 r w

theorem emitPlain_loaded (h : emitPlain out off v = some out') : out'.iovaSlots = out.iovaSlots ∧
    ∀ r w, Loaded out'.bank out'.kickValue r w ↔
      if r = off / 4 then w = v else Loaded out.bank out.kickValue r w := by
  unfold emitPlain at h
  split at h
  · rename_i hkick
    obtain rfl := Option.some.inj h
    refine ⟨rfl, fun r w => ?_⟩
    by_cases hr : r = kickRegIdx <;> simp [Loaded, hkick, hr]
  · rename_i hkick
    split at h
    · cases h
    rename_i store hslot
    obtain rfl := Option.some.inj h
    refine ⟨rfl, fun r w => ?_⟩
    unfold Loaded
    rw [holds_store hslot]
    by_cases hr : r = off / 4
    · rw [hr, if_neg hkick, if_pos rfl, if_pos rfl]
    · rw [if_neg hr, if_neg hr]

/-- An emission into a register that nothing was emitted to before. -/
theorem Carries.step (h : Carries done out) (hfresh : e.reg ∉ done.map Emit.reg)
    (hrun : e.run out = some out') : Carries (done ++ [e]) out' := by
  cases e with
  | plain off v =>
    obtain ⟨hslots, hloaded⟩ := emitPlain_loaded hrun
    refine ⟨?_, fun off' v' hmem w => ?_, fun r hr w => ?_⟩
    · rw [hslots, h.slots, List.filterMap_append]
      exact (List.append_nil _).symm
    · rcases List.mem_append.mp hmem with hmem | hmem
      · have hne : off' / 4 ≠ off / 4 := fun heq => hfresh (List.mem_map.mpr ⟨_, hmem, heq⟩)
        rw [hloaded, if_neg hne, h.plain off' v' hmem]
      · obtain ⟨rfl, rfl⟩ := Emit.plain.inj (List.mem_singleton.mp hmem)
        rw [hloaded, if_pos rfl]
    · rw [hloaded, if_neg (hr off v (by simp)).symm]
      exact h.rest r (fun off' v' hmem => hr off' v' (List.mem_append_left _ hmem)) w
  | iova off handle iovaOffset =>
    have hkeep : out'.bank = out.bank ∧ out'.kickValue = out.kickValue ∧
        out'.iovaSlots = out.iovaSlots ++ (Emit.iova off handle iovaOffset).slot.toList := by
      simp only [Emit.run, emitIova] at hrun
      split_ifs at hrun with hzero
      · obtain rfl := Option.some.inj hrun
        exact ⟨rfl, rfl, by simp [Emit.slot, hzero]⟩
      · obtain rfl := Option.some.inj hrun
        exact ⟨rfl, rfl, by simp [Emit.slot, hzero]⟩
    obtain ⟨hbank, hkick, hslots⟩ := hkeep
    refine ⟨?_, fun off' v' hmem => ?_, fun r hr => ?_⟩
    · rw [hslots, h.slots, List.filterMap_append]
      cases hs : (Emit.iova off handle iovaOffset).slot <;> simp [hs]
    · rw [hbank, hkick]
      exact h.plain off' v' (by simpa using hmem)
    · rw [hbank, hkick]
      exact h.rest r fun off' v' hmem => hr off' v' (List.mem_append_left _ hmem)

theorem length_slots_le (emits : List Emit) :
    (emits.filterMap Emit.slot).length ≤ emits.countP Emit.isIova := by
  rw [List.length_filterMap_eq_countP]
  refine List.countP_mono_left fun e _ hslot => ?_
  cases e with
  | plain => cases hslot
  | iova => rfl

theorem Emit.run_some (out : DenseOutput) (hlands : e.lands = true)
    (hroom : e.isIova = true → out.iovaSlots.length < maxDenseIovaSlots) :
    ∃ out', e.run out = some out' := by
  cases e with
  | plain off v =>
    simp only [Emit.lands, Bool.or_eq_true, decide_eq_true_eq, Option.isSome_iff_exists] at hlands
    simp only [Emit.run, emitPlain]
    by_cases hkick : off / 4 = kickRegIdx
    · rw [if_pos hkick]
      exact ⟨_, rfl⟩
    · obtain ⟨store, hslot⟩ := hlands.resolve_left hkick
      rw [if_neg hkick, hslot]
      exact ⟨_, rfl⟩
  | iova off handle iovaOffset =>
    simp only [Emit.lands, Bool.and_eq_true, Option.isSome_iff_exists] at hlands
    obtain ⟨⟨store, hslot⟩, hreg⟩ := hlands
    have hroom := hroom rfl
    simp only [Emit.run, emitIova, hslot, hreg]
    by_cases hzero : handle = 0
    · exact ⟨out, if_pos hzero⟩
    · exact ⟨_, by rw [if_neg hzero, if_neg hroom.not_ge]; rfl⟩

/-- What a builder may emit: every register once, an address to address registers only, at most as
many addresses as there are slots, and the kick with its bit set. -/
structure WellEmitted (emits : List Emit) : Prop where
  distinct : (emits.map Emit.reg).Nodup
  lands : ∀ e ∈ emits, e.lands = true
  safe : ∀ e ∈ emits, e.safe = true
  room : emits.countP Emit.isIova ≤ maxDenseIovaSlots
  kick : ∃ v, .plain (kickRegIdx * 4) v ∈ emits ∧ v &&& decEBit ≠ 0

theorem emitAll_carries (h : WellEmitted emits) :
    ∃ out, emitAll emits = some out ∧ Carries emits out := by
  have hgo : ∀ (todo done : List Emit) (out : DenseOutput), done ++ todo = emits →
      Carries done out →
      ∃ out', todo.foldlM (fun out e => e.run out) out = some out' ∧ Carries emits out' := by
    intro todo
    induction todo with
    | nil =>
      rintro done out rfl hcarries
      rw [List.append_nil]
      exact ⟨out, rfl, hcarries⟩
    | cons e todo ih =>
      intro done out heq hcarries
      have hmem : e ∈ emits := by simp [← heq]
      have hfresh : e.reg ∉ done.map Emit.reg := by
        have hnodup := h.distinct
        rw [← heq, List.map_append, List.nodup_append] at hnodup
        exact fun hdone => hnodup.2.2 e.reg hdone e.reg (by simp) rfl
      obtain ⟨mid, hmid⟩ := Emit.run_some out (h.lands e hmem) fun hiova => by
        have hroom := h.room
        have hle := length_slots_le done
        rw [← heq, List.countP_append, List.countP_cons_of_pos hiova] at hroom
        rw [hcarries.slots]
        omega
      obtain ⟨out', hrun, hend⟩ :=
        ih (done ++ [e]) mid (by simpa using heq) (hcarries.step hfresh hmid)
      exact ⟨out', by rw [List.foldlM_cons, hmid]; exact hrun, hend⟩
  exact hgo emits [] .zero rfl ⟨rfl, by simp, fun _ _ _ => Iff.rfl⟩

section Codec

/-- The codec is programmed with the emissions. -/
structure Programs (bufs : List Buffer) (swregBase : Nat) (emits : List Emit)
    (ws : List (Nat × BitVec 32)) : Prop where
  written : ∀ e ∈ emits, ∀ w, (e.reg * 4 + swregBase, w) ∈ ws ↔ w = e.value bufs
  cleared : ∀ r w, r ∉ emits.map Emit.reg → (r * 4 + swregBase, w) ∈ ws → w = 0
  owned : ∀ r w, isAddressReg r = true → (r * 4 + swregBase, w) ∈ ws → w = 0 ∨ InBuffer bufs w
  kickLast : ∃ init w, ws = init ++ [(kickRegIdx * 4 + swregBase, w)] ∧ w &&& decEBit ≠ 0 ∧
    ∀ v, (kickRegIdx * 4 + swregBase, v) ∉ init

/-- The driver accepts the output, and programs the codec with the emissions. -/
def ReachesCodec (bufs : List Buffer) (mmioLen swregBase : Nat) (emits : List Emit)
    (out : DenseOutput) : Prop :=
  ∃ prog ws, submitDense bufs true true out.input = .ok prog ∧
    kickWrites mmioLen swregBase prog.bank prog.kickValue = some ws ∧
    Programs bufs swregBase emits ws

theorem zero_loaded {w : BitVec 32} (h : Loaded zeroBank 0 r w) : w = 0 := by
  have hzero : ∀ n i : Nat, (Vector.replicate n (0 : BitVec 32))[i]? = some w → w = 0 := by
    intro n i hget
    rw [Vector.getElem?_replicate] at hget
    split at hget
    · exact (Option.some.inj hget).symm
    · cases hget
  unfold Loaded at h
  split at h
  · exact h
  · rcases h with ⟨-, h⟩ | ⟨-, h⟩ | ⟨-, h⟩ | ⟨-, h⟩ | ⟨-, h⟩ | ⟨-, h⟩
    all_goals exact hzero _ _ h

theorem zero_loaded_zero (h : (denseSlotFor off).isSome = true) :
    Loaded zeroBank 0 (off / 4) 0 := by
  have hget : ∀ {first last n : Nat}, first ≤ off / 4 ∧ off / 4 ≤ last → last < first + n →
      InRange first (Vector.replicate n 0) (off / 4) 0 := by
    intro first last n hin hlast
    exact ⟨hin.1, by rw [Vector.getElem?_replicate, if_pos (by omega)]⟩
  unfold denseSlotFor at h
  dsimp only at h
  unfold Loaded
  split_ifs at h ⊢ with hkick hcommon hcparam hcaddr hcodaddr hhipoc hstat
  · rfl
  · exact .inl (hget hcommon (by decide))
  · exact .inr (.inl (hget hcparam (by decide)))
  · exact .inr (.inr (.inl (hget hcaddr (by decide))))
  · exact .inr (.inr (.inr (.inl (hget hcodaddr (by decide)))))
  · exact .inr (.inr (.inr (.inr (.inl (hget hhipoc (by decide))))))
  · exact .inr (.inr (.inr (.inr (.inr (hget hstat (by decide))))))
  · cases h

theorem IovaSlot.Owned.inBuffer (h : s.Owned bufs) : InBuffer bufs (s.address bufs) := by
  obtain ⟨-, -, b, hlook, hsize⟩ := h
  have hwindow := b.window
  refine ⟨b, (bufLookup_mem hlook).1, ?_⟩
  simp only [IovaSlot.address, hlook, BitVec.toNat_ofNat]
  omega

theorem Emit.slot_reg (h : e.slot = some s) : s.regIdx = e.reg := by
  cases e with
  | plain => cases h
  | iova =>
    simp only [Emit.slot] at h
    split_ifs at h
    cases h
    rfl

theorem Emit.backed_slot (h : e.backed bufs = true) (hslot : e.slot = some s) :
    ∃ b, bufLookup bufs s.bufferHandle = some b ∧ s.iovaOffset < b.size := by
  simp only [Emit.backed, hslot] at h
  split at h
  · cases h
  · exact ⟨_, ‹_›, of_decide_eq_true h⟩

/-- What the codec is to get for an address that takes a slot. -/
theorem Emit.value_slot (h : e.slot = some s) : e.value bufs = s.address bufs := by
  cases e with
  | plain => cases h
  | iova => simp [Emit.value, h]

/-- Every slot of the output is the one of an emission. -/
theorem Carries.emitted (h : Carries emits out) (hs : s ∈ out.iovaSlots) :
    ∃ e ∈ emits, e.slot = some s := by
  rw [h.slots] at hs
  exact List.mem_filterMap.mp hs

theorem Carries.mem_slots (h : Carries emits out) (he : e ∈ emits) (hslot : e.slot = some s) :
    s ∈ out.iovaSlots := by
  rw [h.slots]
  exact List.mem_filterMap.mpr ⟨e, he, hslot⟩

theorem WellEmitted.eq_of_reg (h : WellEmitted emits) {e' : Emit} (he : e ∈ emits)
    (he' : e' ∈ emits) (hreg : e.reg = e'.reg) : e = e' :=
  List.inj_on_of_nodup_map h.distinct he he' hreg

theorem WellEmitted.slot_owned (h : WellEmitted emits) (hbacked : ∀ e ∈ emits, e.backed bufs = true)
    (he : e ∈ emits) (hslot : e.slot = some s) : s.Owned bufs := by
  have hlands := h.lands e he
  cases e with
  | plain => cases hslot
  | iova off handle iovaOffset =>
    have hfound := Emit.backed_slot (hbacked _ he) hslot
    simp only [Emit.slot] at hslot
    split_ifs at hslot with hzero
    cases hslot
    simp only [Emit.lands, Bool.and_eq_true] at hlands
    exact ⟨hlands.2, hzero, hfound⟩

theorem WellEmitted.slots_nodup (h : WellEmitted emits) :
    ((emits.filterMap Emit.slot).map IovaSlot.regIdx).Nodup := by
  rw [List.Nodup, List.pairwise_map]
  refine (List.pairwise_map.mp h.distinct).filterMap _ fun e e' hne s hs s' hs' heq => hne ?_
  rw [← Emit.slot_reg hs, ← Emit.slot_reg hs', heq]

/-- The bank of an output with the addresses of its slots put in. -/
structure Substituted (bufs : List Buffer) (out : DenseOutput) (bank : Bank) : Prop where
  owned : ∀ s ∈ out.iovaSlots, s.Owned bufs
  set : ∀ s ∈ out.iovaSlots, ∀ w, bank.Holds s.regIdx w ↔ w = s.address bufs
  keep : ∀ r, r ∉ out.iovaSlots.map IovaSlot.regIdx →
    ∀ w, bank.Holds r w ↔ out.bank.Holds r w

namespace Substituted

theorem loaded_slot (h : Substituted bufs out bank) (hs : s ∈ out.iovaSlots) (v w : BitVec 32) :
    Loaded bank v s.regIdx w ↔ w = s.address bufs := by
  have hne : s.regIdx ≠ kickRegIdx := by
    rcases isAddressReg_iff.mp (h.owned s hs).1 with hreg | hreg <;> unfold kickRegIdx <;> omega
  rw [Loaded, if_neg hne]
  exact h.set s hs w

/-- A register without a slot keeps what the builder gave it. -/
theorem loaded_keep (h : Substituted bufs out bank) (hr : r ∉ out.iovaSlots.map IovaSlot.regIdx)
    (w : BitVec 32) : Loaded bank out.kickValue r w ↔ Loaded out.bank out.kickValue r w := by
  rw [Loaded, Loaded, h.keep r hr]

/-- The register of an emission has its value. -/
theorem written (h : Substituted bufs out bank) (hwell : WellEmitted emits)
    (hcarries : Carries emits out) (he : e ∈ emits) (w : BitVec 32) :
    Loaded bank out.kickValue e.reg w ↔ w = e.value bufs := by
  cases hslot : e.slot with
  | some s =>
    rw [← Emit.slot_reg hslot, Emit.value_slot hslot]
    exact h.loaded_slot (hcarries.mem_slots he hslot) _ w
  | none =>
    have hnoslot : e.reg ∉ out.iovaSlots.map IovaSlot.regIdx := by
      intro hreg
      obtain ⟨s, hs, hreg⟩ := List.mem_map.mp hreg
      obtain ⟨e', he', hslot'⟩ := hcarries.emitted hs
      rw [hwell.eq_of_reg he he' (hreg.symm.trans (Emit.slot_reg hslot')), hslot'] at hslot
      cases hslot
    rw [h.loaded_keep hnoslot]
    cases e with
    | plain off x => exact hcarries.plain off x he w
    | iova off handle iovaOffset =>
      -- an address that takes no slot leaves the register zero
      have hlands := hwell.lands _ he
      simp only [Emit.lands, Bool.and_eq_true] at hlands
      rw [hcarries.rest _ fun off' x hmem heq => by cases hwell.eq_of_reg hmem he heq]
      simp only [Emit.value, hslot, Option.map_none, Option.getD_none]
      constructor
      · exact zero_loaded
      · rintro rfl
        exact zero_loaded_zero hlands.1

/-- A register without an emission is zero. -/
theorem cleared (h : Substituted bufs out bank) (hcarries : Carries emits out)
    (hr : r ∉ emits.map Emit.reg) {w : BitVec 32} (hw : Loaded bank out.kickValue r w) : w = 0 := by
  have hnoslot : r ∉ out.iovaSlots.map IovaSlot.regIdx := by
    intro hreg
    obtain ⟨s, hs, rfl⟩ := List.mem_map.mp hreg
    obtain ⟨e, he, hslot⟩ := hcarries.emitted hs
    exact hr (List.mem_map.mpr ⟨e, he, (Emit.slot_reg hslot).symm⟩)
  rw [h.loaded_keep hnoslot, hcarries.rest] at hw
  · exact zero_loaded hw
  · rintro off x hx rfl
    exact hr (List.mem_map.mpr ⟨_, hx, rfl⟩)

/-- An address register has an address of the file's, or none. -/
theorem inBuffer (h : Substituted bufs out bank) (hwell : WellEmitted emits)
    (hcarries : Carries emits out) (hr : isAddressReg r = true) {w : BitVec 32}
    (hw : Loaded bank out.kickValue r w) : w = 0 ∨ InBuffer bufs w := by
  by_cases hreg : r ∈ emits.map Emit.reg
  · obtain ⟨e, he, rfl⟩ := List.mem_map.mp hreg
    rw [(h.written hwell hcarries he w).mp hw]
    cases hslot : e.slot with
    | some s =>
      right
      rw [Emit.value_slot hslot]
      exact (h.owned s (hcarries.mem_slots he hslot)).inBuffer
    | none =>
      left
      have hsafe := hwell.safe e he
      cases e with
      | plain off x =>
        have hr : isAddressReg (off / 4) = true := hr
        simp only [Emit.safe, hr, Bool.not_true, Bool.false_or, beq_iff_eq] at hsafe
        exact hsafe
      | iova => simp [Emit.value, hslot]
  · exact .inl (h.cleared hcarries hreg hw)

end Substituted

/-- The driver accepts an output and puts in the addresses. -/
theorem Carries.submit (hcarries : Carries emits out) (h : WellEmitted emits)
    (hbacked : ∀ e ∈ emits, e.backed bufs = true) :
    ∃ bank, Substituted bufs out bank ∧ out.kickValue &&& decEBit ≠ 0 ∧
      submitDense bufs true true out.input = .ok ⟨bank, out.kickValue, out.iovaSlots, []⟩ := by
  have hslots : ∀ s ∈ out.iovaSlots, s.Owned bufs := by
    intro s hs
    obtain ⟨e, he, hslot⟩ := hcarries.emitted hs
    exact h.slot_owned hbacked he hslot
  have hnodup : (out.iovaSlots.map IovaSlot.regIdx).Nodup := by
    rw [hcarries.slots]
    exact h.slots_nodup
  obtain ⟨bank, hbank, hset, hkeep⟩ := resolveSlots_owned_all out.bank hslots hnodup
  obtain ⟨v, hv, hbit⟩ := h.kick
  obtain rfl : v = out.kickValue := by
    simpa [Loaded] using (hcarries.plain _ v hv v).mpr rfl
  have hroom : ¬ maxDenseIovaSlots < out.iovaSlots.length := by
    rw [hcarries.slots]
    exact ((length_slots_le emits).trans h.room).not_gt
  refine ⟨bank, ⟨hslots, hset, hkeep⟩, hbit, ?_⟩
  simpa [submitDense, DenseOutput.input, hroom, hbank] using hbit

/-- Every register a builder emits reaches the codec with its value, every other is cleared, and
every address is one of the file's. -/
theorem emits_reach_codec (h : WellEmitted emits)
    (hbacked : ∀ e ∈ emits, e.backed bufs = true) (hwindow : 278 * 4 + swregBase ≤ mmioLen) :
    ∃ out, emitAll emits = some out ∧ ReachesCodec bufs mmioLen swregBase emits out := by
  obtain ⟨out, hout, hcarries⟩ := emitAll_carries h
  obtain ⟨bank, hbank, hbit, hsubmit⟩ := hcarries.submit h hbacked
  obtain ⟨ws, hws⟩ := kickWrites_isSome bank out.kickValue hwindow
  obtain ⟨hmem, init, hlast, honce⟩ := kick_writes hws
  refine ⟨out, hout, _, ws, hsubmit, hws, ?_⟩
  exact {
    written := fun e he w => (hmem e.reg w).trans (hbank.written h hcarries he w)
    cleared := fun r w hr hw => hbank.cleared hcarries hr ((hmem r w).mp hw)
    owned := fun r w hr hw => hbank.inBuffer h hcarries hr ((hmem r w).mp hw)
    kickLast := ⟨init, out.kickValue, hlast, hbit, honce⟩ }

end Codec

end Building

end Rkvdec.Dense
