import Rkvdec.Iommu.Domain

/-! What the page-table functions do to the entry of each page number. -/
namespace Rkvdec.Iommu

/-- The physical address an entry of the given format points at: bits 31:12 are address bits
31:12; on AV1D bits 11:4 are address bits 39:32. -/
def pteAddress (isAv1d : Bool) (pte : BitVec 32) : BitVec 64 :=
  (pte &&& 0xfffff000#32).setWidth 64 |||
    if isAv1d then ((pte >>> 4) &&& 0xff#32).setWidth 64 <<< 32 else 0

/-- The entry is valid and grants what a mapping of `pfn` grants. -/
structure PteMaps (isAv1d : Bool) (pte : BitVec 32) (pfn : Pfn) (writable : Bool) : Prop where
  valid : pte.getLsbD 0 = true
  address : (pteAddress isAv1d pte).toNat = pfn.val * pageSize
  writable : pte.getLsbD 2 = writable

theorem getLsbD_mask64 {i : Nat} (hi : i < 64) :
    (0xfffff000#64).getLsbD i = decide (12 ≤ i ∧ i < 32) := by
  interval_cases i <;> rfl

theorem getLsbD_mask32 {i : Nat} (hi : i < 32) :
    (0xfffff000#32).getLsbD i = decide (12 ≤ i) := by
  interval_cases i <;> rfl

theorem getLsbD_small {x : BitVec 32} {i : Nat} (hx : x.toNat < 16) (hi : 4 ≤ i) :
    x.getLsbD i = false := by
  apply Nat.testBit_lt_two_pow
  calc x.toNat < 2 ^ 4 := hx
    _ ≤ 2 ^ i := Nat.pow_le_pow_right (by decide) hi

theorem Pfn.phys_toNat (pfn : Pfn) : pfn.phys.toNat = pfn.val * pageSize := by
  have h := pfn.addressable
  unfold pageSize at h
  simp only [Pfn.phys, BitVec.toNat_shiftLeft, BitVec.toNat_ofNat, Nat.shiftLeft_eq, pageSize]
  omega

theorem Pfn.phys_low (pfn : Pfn) {i : Nat} (hi : i < 12) : pfn.phys.getLsbD i = false := by
  simp [Pfn.phys, hi]

theorem getLsbD_high {x : BitVec 64} {i : Nat} (hx : x >>> 32 = 0) (hi : 32 ≤ i) :
    x.getLsbD i = false := by
  have h : (x >>> 32).getLsbD (i - 32) = false := by rw [hx]; simp
  rwa [BitVec.getLsbD_ushiftRight, Nat.add_sub_cancel' hi] at h

/-- The low bits of an entry: valid, readable where the format has the bit, writable. -/
def pteBits (isAv1d writable : Bool) : BitVec 32 :=
  ptePageValid ||| (if isAv1d then 0 else ptePageReadable) |||
    (if writable then ptePageWritable else 0)

/-- Whether `MapMdl` asks for write access. -/
def grantsWrite (isAv1d : Bool) (role : Nat) : Bool :=
  isAv1d || role != usageBitstreamInput

/-- Below 4 GiB both formats come to the page address and the permission bits. -/
theorem encodePte_low {isAv1d : Bool} {x : BitVec 64} {role : Nat} (hx : x >>> 32 = 0) :
    encodePte isAv1d x (pteFlags isAv1d role) =
      (x &&& 0xfffff000#64).setWidth 32 ||| pteBits isAv1d (grantsWrite isAv1d role) := by
  cases isAv1d with
  | true =>
    simp [encodePte, pteFlags, pteBits, grantsWrite, hx, ptePageReadable, ptePageWritable,
      ptePageValid, BitVec.or_assoc]
  | false =>
    by_cases hr : role = usageBitstreamInput
    · simp [encodePte, pteFlags, pteBits, grantsWrite, hr, ptePageReadable, ptePageWritable,
        ptePageValid, BitVec.or_assoc]
    · simp [encodePte, pteFlags, pteBits, grantsWrite, hr, ptePageReadable, ptePageWritable,
        ptePageValid, BitVec.or_assoc]

theorem pteBits_small {isAv1d writable : Bool} : (pteBits isAv1d writable).toNat < 16 := by
  cases isAv1d <;> cases writable <;> decide

/-- Bit `i` of an entry: an address bit from 12 on, a permission bit below 4. -/
theorem getLsbD_entry {x : BitVec 64} {c : BitVec 32} {i : Nat} (hi : i < 32) :
    ((x &&& 0xfffff000#64).setWidth 32 ||| c).getLsbD i =
      ((decide (12 ≤ i) && x.getLsbD i) || c.getLsbD i) := by
  have hmask : (0xfffff000#64).getLsbD i = decide (12 ≤ i) := by
    rw [getLsbD_mask64 (by omega)]
    simp [hi]
  rw [BitVec.getLsbD_or, BitVec.getLsbD_setWidth, BitVec.getLsbD_and, hmask,
    Bool.and_comm (x.getLsbD i)]
  simp [hi]

/-- Below 4 GiB the address part of an entry is the page's address: the permission bits sit
below bit 4, where neither format looks for address bits. -/
theorem pteAddress_entry {isAv1d : Bool} {pfn : Pfn} {c : BitVec 32} (hx : pfn.phys >>> 32 = 0)
    (hc : c.toNat < 16) :
    pteAddress isAv1d ((pfn.phys &&& 0xfffff000#64).setWidth 32 ||| c) = pfn.phys := by
  have hlow : (((pfn.phys &&& 0xfffff000#64).setWidth 32 ||| c) &&& 0xfffff000#32).setWidth 64 =
      pfn.phys := by
    apply BitVec.eq_of_getLsbD_eq
    intro i hi
    by_cases h32 : i < 32
    · rw [BitVec.getLsbD_setWidth, BitVec.getLsbD_and, getLsbD_entry h32, getLsbD_mask32 h32]
      by_cases h12 : 12 ≤ i
      · simp [hi, h12, getLsbD_small hc (show 4 ≤ i by omega)]
      · simp [h12, pfn.phys_low (show i < 12 by omega)]
    · rw [getLsbD_high hx (by omega), BitVec.getLsbD_setWidth,
        BitVec.getLsbD_of_ge _ i (by omega), Bool.and_false]
  have hmid : (((pfn.phys &&& 0xfffff000#64).setWidth 32 ||| c) >>> 4) &&& 0xff#32 = 0 := by
    apply BitVec.eq_of_getLsbD_eq
    intro i hi
    rw [BitVec.getLsbD_and, BitVec.getLsbD_ushiftRight]
    by_cases h8 : i < 8
    · rw [getLsbD_entry (by omega), getLsbD_small hc (by omega)]
      simp [show ¬ 12 ≤ 4 + i by omega]
    · have hff : (0xff#32).getLsbD i = false := by
        interval_cases i <;> rfl
      simp [hff]
  unfold pteAddress
  rw [hlow, hmid]
  cases isAv1d <;> simp

/-- What `MapMdl` writes for a frame below 4 GiB maps that frame, writable as asked. -/
theorem pteMaps_encodePte {isAv1d : Bool} {pfn : Pfn} {role : Nat} (hx : pfn.phys >>> 32 = 0) :
    PteMaps isAv1d (encodePte isAv1d pfn.phys (pteFlags isAv1d role)) pfn
      (grantsWrite isAv1d role) := by
  rw [encodePte_low hx]
  refine ⟨?_, ?_, ?_⟩
  · rw [getLsbD_entry (by decide)]
    cases isAv1d <;> cases grantsWrite _ role <;> rfl
  · rw [pteAddress_entry hx pteBits_small, Pfn.phys_toNat]
  · rw [getLsbD_entry (by decide)]
    cases isAv1d <;> cases grantsWrite _ role <;> rfl

namespace Domain

variable {d d' : Domain} {p q b i n pdi pti : Nat} {v flags : BitVec 32} {phys : BitVec 64}

/-- Everything the allocator keeps: the format and the three bitmaps. -/
def books (d : Domain) : Bool × Bitmap × Bitmap × Bitmap :=
  (d.isAv1d, d.iovaBitmap, d.iovaStartBitmap, d.iovaEndBitmap)

theorem books_eq (h : d'.books = d.books) : d'.isAv1d = d.isAv1d ∧
    d'.iovaBitmap = d.iovaBitmap ∧ d'.iovaStartBitmap = d.iovaStartBitmap ∧
    d'.iovaEndBitmap = d.iovaEndBitmap := by
  simpa [books, Prod.ext_iff] using h

/-- The directory and table index of page `b + i`, counted from page `b`. -/
theorem page_index (hb : b < iovaPages) :
    b * pageSize / 2 ^ 22 % 1024 + (b * pageSize / 2 ^ 12 % 1024 + i) / ptEntries =
        (b + i) / ptEntries ∧
      (b * pageSize / 2 ^ 12 % 1024 + i) % ptEntries = (b + i) % ptEntries := by
  unfold iovaPages at hb
  unfold pageSize ptEntries
  omega

@[simp] theorem books_setPte : (d.setPte pdi pti v).books = d.books := by
  unfold setPte
  split <;> rfl

/-- A store reaches the page whose indices it names, when its table exists, and no other. -/
theorem pte_setPte : (d.setPte (p / ptEntries) (p % ptEntries) v).pte q =
    if q = p ∧ (d.pts (p / ptEntries)).isSome then v else d.pte q := by
  unfold setPte
  cases hpt : d.pts (p / ptEntries) with
  | none => simp
  | some pt =>
    by_cases hq : q = p
    · subst hq
      simp [pte]
    · by_cases hdir : q / ptEntries = p / ptEntries
      · have hidx : q % ptEntries ≠ p % ptEntries := by
          unfold ptEntries at *
          omega
        simp [pte, hdir, hpt, hq, Function.update_of_ne hidx]
      · simp [pte, hq, Function.update_of_ne hdir]

/-- Clearing an entry works whether or not its table exists: an absent table reads zero. -/
theorem pte_setPte_zero : (d.setPte (p / ptEntries) (p % ptEntries) 0).pte q =
    if q = p then 0 else d.pte q := by
  rw [pte_setPte]
  by_cases hq : q = p
  · subst hq
    cases hpt : d.pts (q / ptEntries) with
    | none => simp [pte, hpt]
    | some pt => simp
  · simp [hq]

@[simp] theorem books_unmapFrom {iova : Nat} : (unmapFrom iova i n d).books = d.books := by
  induction n generalizing i d with
  | zero => rfl
  | succ n ih =>
    simp only [unmapFrom]
    split
    · rfl
    · rw [ih, books_setPte]

@[simp] theorem books_unmapAt {iova : Nat} : (d.unmapAt iova n).books = d.books :=
  books_unmapFrom

theorem pte_unmapFrom (hb : b < iovaPages) (hn : b + i + n ≤ iovaPages) :
    (unmapFrom (b * pageSize) i n d).pte q =
      if b + i ≤ q ∧ q < b + i + n then 0 else d.pte q := by
  induction n generalizing i d with
  | zero => simp [unmapFrom]
  | succ n ih =>
    obtain ⟨hpdi, hpti⟩ := page_index (i := i) hb
    have hdir : ¬ pdEntries ≤ (b + i) / ptEntries := by
      unfold pdEntries ptEntries iovaPages at *
      omega
    simp only [unmapFrom, hpdi, hpti, if_neg hdir]
    rw [ih (by omega), pte_setPte_zero]
    by_cases hq : q = b + i
    · simp [hq]
    · by_cases hin : b + (i + 1) ≤ q ∧ q < b + (i + 1) + n
      · rw [if_pos hin, if_pos (by omega)]
      · rw [if_neg hin, if_neg hq, if_neg (by omega)]

/-- `unmapAt` zeroes its own pages and no others, across directory boundaries. -/
theorem pte_unmapAt (hb : b < iovaPages) (hn : b + n ≤ iovaPages) :
    (d.unmapAt (b * pageSize) n).pte q = if b ≤ q ∧ q < b + n then 0 else d.pte q :=
  pte_unmapFrom (i := 0) hb hn

/-- Returning pages to the bitmaps leaves the tables alone. -/
theorem freeIova_tables {iova : Nat} :
    (d.freeIova iova n).pte = d.pte ∧ (d.freeIova iova n).isAv1d = d.isAv1d := by
  unfold freeIova
  split
  · exact ⟨rfl, rfl⟩
  · split
    · exact ⟨rfl, rfl⟩
    · dsimp only
      split
      · exact ⟨rfl, rfl⟩
      · split <;> exact ⟨rfl, rfl⟩

theorem books_ensurePt (d : Domain) (pdi : Nat) (alloc : Option (BitVec 32)) :
    (d.ensurePt pdi alloc).2.books = d.books := by
  unfold ensurePt
  split
  · rfl
  · split <;> rfl

/-- A new page table is zeroed, so no entry changes whether or not the allocation succeeds. -/
theorem pte_ensurePt (d : Domain) (pdi q : Nat) (alloc : Option (BitVec 32)) :
    (d.ensurePt pdi alloc).2.pte q = d.pte q := by
  unfold ensurePt
  cases hpt : d.pts pdi with
  | some pt => rfl
  | none =>
    cases alloc with
    | none => rfl
    | some phys =>
      by_cases hq : q / ptEntries = pdi
      · simp [pte, hq, hpt]
      · simp [pte, Function.update_of_ne hq]

theorem ensurePt_isSome (d : Domain) (pdi : Nat) (alloc : Option (BitVec 32))
    (h : (d.ensurePt pdi alloc).1 = true) :
    ((d.ensurePt pdi alloc).2.pts pdi).isSome := by
  unfold ensurePt at *
  cases hpt : d.pts pdi with
  | some pt => simp [hpt]
  | none =>
    cases alloc with
    | none => simp [hpt] at h
    | some phys => simp

theorem mapAt_one_eq {alloc : Nat → Option (BitVec 32)} (hp : p < iovaPages) :
    d.mapAt (p * pageSize) phys 1 flags alloc =
      match d.ensurePt (p / ptEntries) (alloc 0) with
      | (false, d) => (.insufficientResources, d)
      | (true, d) =>
        (.success, d.setPte (p / ptEntries) (p % ptEntries) (encodePte d.isAv1d phys flags)) := by
  obtain ⟨hpdi, hpti⟩ := page_index (i := 0) hp
  have hdir : ¬ pdEntries ≤ p / ptEntries := by
    unfold pdEntries ptEntries iovaPages at *
    omega
  rcases hpt : d.ensurePt (p / ptEntries) (alloc 0) with ⟨_ | _, d₁⟩
  · simp only [mapAt, mapFrom, hpdi, Nat.add_zero p, hpt, if_neg hdir, Nat.lt_irrefl, if_false]
  · simp only [mapAt, mapFrom, hpdi, hpti, Nat.add_zero p, hpt, if_neg hdir, Nat.zero_mul,
      BitVec.add_zero]

/-- Mapping one page either installs its entry and nothing else, or changes no entry. -/
theorem mapAt_one {alloc : Nat → Option (BitVec 32)} {status : NtStatus} (hp : p < iovaPages)
    (h : d.mapAt (p * pageSize) phys 1 flags alloc = (status, d')) :
    d'.books = d.books ∧
      ((status = .success ∧
          ∀ q, d'.pte q = if q = p then encodePte d.isAv1d phys flags else d.pte q) ∨
        (status = .insufficientResources ∧ ∀ q, d'.pte q = d.pte q)) := by
  rw [mapAt_one_eq hp] at h
  have hbooks := books_ensurePt d (p / ptEntries) (alloc 0)
  have hpte := fun q => pte_ensurePt d (p / ptEntries) q (alloc 0)
  have hsome := ensurePt_isSome d (p / ptEntries) (alloc 0)
  rcases hres : d.ensurePt (p / ptEntries) (alloc 0) with ⟨ok, d₁⟩
  rw [hres] at h hbooks hpte hsome
  cases ok with
  | false =>
    obtain ⟨rfl, rfl⟩ := Prod.mk.inj h
    exact ⟨hbooks, .inr ⟨rfl, hpte⟩⟩
  | true =>
    obtain ⟨rfl, rfl⟩ := Prod.mk.inj h
    have hav : d₁.isAv1d = d.isAv1d := (books_eq hbooks).1
    refine ⟨books_setPte.trans hbooks, .inl ⟨rfl, fun q => ?_⟩⟩
    rw [pte_setPte, hsome rfl, hav, hpte q]
    simp

end Domain

end Rkvdec.Iommu
