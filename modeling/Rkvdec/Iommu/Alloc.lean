import Rkvdec.Iommu.Table
import Rkvdec.Lib.Region

/-! The allocator reads and writes its bitmaps as a family of disjoint page ranges. -/
namespace Rkvdec.Iommu.Domain

variable {d d' : Domain} {bm : Bitmap} {w b run pageCount base : Nat}

/-- Every page from `lo` up to `hi` is free. -/
def Clear (bm : Bitmap) (lo hi : Nat) : Prop :=
  ∀ k, lo ≤ k → k < hi → bm.test k = false

theorem Clear.cons {lo hi : Nat} (h : Clear bm (lo + 1) hi) (h0 : bm.test lo = false) :
    Clear bm lo hi := by
  intro k hlo hhi
  by_cases hk : k = lo
  · rw [hk, h0]
  · exact h k (by omega) hhi

theorem test_word (hb : b < 64) : bm.test (w * 64 + b) = (bm.word w).getLsbD b := by
  have hdiv : (w * 64 + b) / 64 = w := by omega
  have hmod : (w * 64 + b) % 64 = b := by omega
  simp [Bitmap.test, hdiv, hmod]

/-- The run counter counts the clear bits right above the scan position. -/
def RunAt (bm : Bitmap) (top pos run : Nat) : Prop :=
  Clear bm pos (pos + run) ∧ pos + run ≤ top

theorem scanWord_sound {top : Nat} (pageCount : Nat) (hb : b ≤ 64)
    (hrun : RunAt bm top (w * 64 + b) run) :
    match scanWord (bm.word w) w pageCount b run with
    | .inl base => RunAt bm top base pageCount
    | .inr run => RunAt bm top (w * 64) run := by
  induction b generalizing run with
  | zero => simpa [scanWord] using hrun
  | succ b ih =>
    obtain ⟨hclear, htop⟩ := hrun
    by_cases hbit : (bm.word w).getLsbD b = true
    · simp only [scanWord, if_pos hbit]
      exact ih (by omega) ⟨fun k h1 h2 => absurd h2 (by omega), by omega⟩
    · have h0 : bm.test (w * 64 + b) = false := by
        rw [test_word (by omega)]
        simpa using hbit
      have hnext : RunAt bm top (w * 64 + b) (run + 1) := by
        refine ⟨?_, by omega⟩
        have hshift : w * 64 + b + (run + 1) = w * 64 + (b + 1) + run := by omega
        rw [hshift]
        exact Clear.cons hclear h0
      by_cases hcount : run + 1 = pageCount
      · simp only [scanWord, if_neg hbit, if_pos hcount]
        exact hcount ▸ hnext
      · simp only [scanWord, if_neg hbit, if_neg hcount]
        exact ih (by omega) hnext

theorem scanWords_sound {top : Nat} (hrun : RunAt bm top (w * 64) run)
    (h : scanWords bm pageCount w run = some base) : RunAt bm top base pageCount := by
  induction w generalizing run with
  | zero => simp [scanWords] at h
  | succ w ih =>
    have hw : RunAt bm top (w * 64 + 64) run := by
      rwa [show (w + 1) * 64 = w * 64 + 64 by omega] at hrun
    have hsound := scanWord_sound pageCount le_rfl hw
    simp only [scanWords] at h
    cases hscan : scanWord (bm.word w) w pageCount 64 run with
    | inl found =>
      rw [hscan] at h hsound
      obtain rfl := Option.some.inj h
      exact hsound
    | inr run' =>
      rw [hscan] at h hsound
      exact ih hsound h

/-- The allocator hands out a range that was free from its first page to its last. -/
theorem scanWords_clear
    (h : scanWords d.iovaBitmap pageCount (iovaPages / 64) 0 = some base) :
    base + pageCount ≤ iovaPages ∧ Clear d.iovaBitmap base (base + pageCount) := by
  have hstart : RunAt d.iovaBitmap iovaPages (iovaPages / 64 * 64) 0 :=
    ⟨fun k h1 h2 => by omega, by decide⟩
  obtain ⟨hclear, htop⟩ := scanWords_sound hstart h
  exact ⟨htop, hclear⟩

/-- The three bitmaps together describe the family `rs`: its pages, its first pages, and the
pages one past its last ones. -/
structure Booked (d : Domain) (rs : List Region) : Prop where
  separated : Region.Separated iovaPages rs
  alloc : d.iovaBitmap.Marks fun p => ∃ r ∈ rs, r.Covers p
  start : d.iovaStartBitmap.Marks fun p => ∃ r ∈ rs, r.base = p
  stop : d.iovaEndBitmap.Marks fun p => ∃ r ∈ rs, r.stop = p

variable {rs : List Region} {r : Region} {iova n p q : Nat} {status : NtStatus}

theorem Booked.congr (h : Booked d rs) (hb : d'.books = d.books) : Booked d' rs := by
  obtain ⟨-, ha, hs, he⟩ := books_eq hb
  exact ⟨h.separated, ha ▸ h.alloc, hs ▸ h.start, he ▸ h.stop⟩

/-- What freeing a range that starts an allocation leaves behind. -/
theorem freeIova_eq (hp : base + n ≤ iovaPages) (hn : 0 < n)
    (hstart : d.iovaStartBitmap.test base = true) :
    d.freeIova (base * pageSize) n =
      { d with
        iovaBitmap := d.iovaBitmap.clearRange base n
        iovaStartBitmap := d.iovaStartBitmap.clear base
        iovaEndBitmap := d.iovaEndBitmap.clear (base + n) } := by
  unfold iovaPages at hp
  have h1 : ¬ iovaPages * pageSize ≤ base * pageSize := by
    unfold iovaPages pageSize
    omega
  have h2 : ¬ base * pageSize % pageSize ≠ 0 := by
    unfold pageSize
    omega
  have h3 : base * pageSize / pageSize = base := by
    unfold pageSize
    omega
  have h4 : ¬ (n = 0 ∨ (iovaPages + 2 ^ 32 - n) % 2 ^ 32 < base) := by
    unfold iovaPages
    omega
  simp only [freeIova, if_neg h1, if_neg h2, h3, if_neg h4, hstart, Bool.true_eq_false, if_false]

/-- Allocating books one more region; on failure nothing changed. -/
theorem Booked.allocIova (h : Booked d rs) (hn : 0 < n)
    (ha : d.allocIova n = (status, iova, d')) :
    (status = .success ∧ ∃ base, iova = base * pageSize ∧ Booked d' (⟨base, n⟩ :: rs) ∧
        d'.isAv1d = d.isAv1d ∧ d'.pte = d.pte ∧
        (d'.freeIova (base * pageSize) n).books = d.books) ∨
      (status = .insufficientResources ∧ d' = d) := by
  unfold Domain.allocIova at ha
  cases hscan : scanWords d.iovaBitmap n (iovaPages / 64) 0 with
  | none =>
    rw [hscan] at ha
    obtain ⟨rfl, -, rfl⟩ : _ ∧ _ ∧ _ := by simpa using ha.symm
    exact .inr ⟨rfl, rfl⟩
  | some base =>
    rw [hscan] at ha
    obtain ⟨rfl, rfl, rfl⟩ : _ ∧ _ ∧ _ := by simpa using ha.symm
    obtain ⟨htop, hclear⟩ := scanWords_clear hscan
    have hfree : ∀ p, Region.Covers ⟨base, n⟩ p → ∀ s ∈ rs, ¬ s.Covers p := by
      intro p hp s hs hsp
      have := hclear p hp.1 hp.2
      simp [(h.alloc p).mpr ⟨s, hs, hsp⟩] at this
    have hsep : Region.Separated iovaPages (⟨base, n⟩ :: rs) :=
      h.separated.cons hn htop hfree
    have hcovers : Region.Covers ⟨base, n⟩ base := hsep.covers_base List.mem_cons_self
    -- No allocation starts at the new base or ends where the new one ends.
    have hnostart : d.iovaStartBitmap.test base = false := by
      by_contra hset
      obtain ⟨s, hs, hbase⟩ := (h.start base).mp (by simpa using hset)
      exact hfree base hcovers s hs (hbase ▸ h.separated.covers_base hs)
    have hnostop : d.iovaEndBitmap.test (base + n) = false := by
      by_contra hset
      obtain ⟨s, hs, hstop⟩ := (h.stop (base + n)).mp (by simpa using hset)
      have heq := hsep.eq_of_stop_eq (List.mem_cons_self) (List.mem_cons_of_mem _ hs) hstop.symm
      exact hfree base hcovers s hs (heq ▸ hcovers)
    refine .inl ⟨rfl, base, rfl, ⟨hsep, ?_, ?_, ?_⟩, rfl, rfl, ?_⟩
    · intro p
      rw [Bitmap.test_setRange]
      simp [h.alloc p, Region.Covers, Region.stop]
    · intro p
      rw [Bitmap.test_set, Bool.or_eq_true, h.start p]
      simp [eq_comm (a := p)]
    · intro p
      rw [Bitmap.test_set, Bool.or_eq_true, h.stop p]
      simp [Region.stop, eq_comm (a := p)]
    · rw [freeIova_eq htop hn (by simp)]
      simp only [books, Bitmap.clearRange_setRange hclear, Bitmap.clear_set hnostart,
        Bitmap.clear_set hnostop]

/-- Freeing a booked region takes it, and only it, off the books. -/
theorem Booked.freeIova (h : Booked d rs) (hr : r ∈ rs) :
    Booked (d.freeIova (r.base * pageSize) r.len) (rs.filter (· ≠ r)) := by
  have hstart : d.iovaStartBitmap.test r.base = true := (h.start r.base).mpr ⟨r, hr, rfl⟩
  rw [freeIova_eq (h.separated.bounded r hr) (h.separated.nonempty r hr) hstart]
  refine ⟨h.separated.sublist List.filter_sublist, ?_, ?_, ?_⟩
  · intro p
    rw [Bitmap.test_clearRange, Bool.and_eq_true, h.alloc p]
    constructor
    · rintro ⟨hout, s, hs, hsp⟩
      have hne : s ≠ r := by
        rintro rfl
        simp [show s.base ≤ p ∧ p < s.base + s.len from hsp] at hout
      exact ⟨s, by simp [hs, hne], hsp⟩
    · rintro ⟨s, hs, hsp⟩
      obtain ⟨hs, hne⟩ : s ∈ rs ∧ s ≠ r := by simpa using hs
      refine ⟨?_, s, hs, hsp⟩
      have hnot : ¬ (r.base ≤ p ∧ p < r.base + r.len) :=
        fun hrp => hne (h.separated.eq_of_covers hs hr hsp hrp)
      rw [decide_eq_false hnot, Bool.not_false]
  · intro p
    rw [Bitmap.test_clear, Bool.and_eq_true, h.start p]
    constructor
    · rintro ⟨hout, s, hs, rfl⟩
      exact ⟨s, by simp [hs]; rintro rfl; simp at hout, rfl⟩
    · rintro ⟨s, hs, rfl⟩
      obtain ⟨hs, hne⟩ : s ∈ rs ∧ s ≠ r := by simpa using hs
      refine ⟨?_, s, hs, rfl⟩
      have hbase : s.base ≠ r.base := fun hb => hne (h.separated.eq_of_base_eq hs hr hb)
      simpa using hbase
  · intro p
    rw [Bitmap.test_clear, Bool.and_eq_true, h.stop p]
    constructor
    · rintro ⟨hout, s, hs, rfl⟩
      exact ⟨s, by simp [hs]; rintro rfl; simp [Region.stop] at hout, rfl⟩
    · rintro ⟨s, hs, rfl⟩
      obtain ⟨hs, hne⟩ : s ∈ rs ∧ s ≠ r := by simpa using hs
      refine ⟨?_, s, hs, rfl⟩
      have hstop : ¬ s.stop = r.base + r.len := fun he => hne (h.separated.eq_of_stop_eq hs hr he)
      rw [decide_eq_false hstop, Bool.not_false]

theorem scanEnd_some {pg e : Nat} (h : scanEnd bm pg n = some e) :
    bm.test e = true ∧ pg ≤ e ∧ ∀ k, pg ≤ k → k < e → bm.test k = false := by
  induction n generalizing pg with
  | zero => simp [scanEnd] at h
  | succ n ih =>
    simp only [scanEnd] at h
    split at h
    · obtain rfl := Option.some.inj h
      exact ⟨by assumption, le_rfl, fun k h1 h2 => absurd h2 (by omega)⟩
    · rename_i hclear
      obtain ⟨hset, hle, hmin⟩ := ih h
      refine ⟨hset, by omega, fun k h1 h2 => ?_⟩
      by_cases hk : k = pg
      · simpa [hk] using hclear
      · exact hmin k (by omega) h2

theorem scanEnd_none {pg k : Nat} (h : scanEnd bm pg n = none) (h1 : pg ≤ k) (h2 : k < pg + n) :
    bm.test k = false := by
  induction n generalizing pg with
  | zero => omega
  | succ n ih =>
    simp only [scanEnd] at h
    split at h
    · simp at h
    · rename_i hclear
      by_cases hk : k = pg
      · simpa [hk] using hclear
      · exact ih h (by omega) (by omega)

/-- The size recovered from the end bitmap is the size the region was booked with, whatever
regions abut it. -/
theorem Booked.scanEnd_eq (h : Booked d rs) (hr : r ∈ rs) :
    scanEnd d.iovaEndBitmap (r.base + 1) (iovaPages - r.base) = some r.stop := by
  have hlen := h.separated.nonempty r hr
  have hbound := h.separated.bounded r hr
  have hown : d.iovaEndBitmap.test r.stop = true := (h.stop r.stop).mpr ⟨r, hr, rfl⟩
  have hbetween : r.base + 1 ≤ r.stop ∧ r.stop < r.base + 1 + (iovaPages - r.base) := by
    unfold Region.stop at *
    omega
  cases hscan : scanEnd d.iovaEndBitmap (r.base + 1) (iovaPages - r.base) with
  | none =>
    have := scanEnd_none hscan hbetween.1 hbetween.2
    simp [hown] at this
  | some e =>
    obtain ⟨hset, hle, hmin⟩ := scanEnd_some hscan
    obtain ⟨s, hs, rfl⟩ := (h.stop e).mp hset
    have hfirst := h.separated.stop_le_stop hr hs hle
    by_cases heq : s.stop = r.stop
    · rw [heq]
    · have := hmin r.stop hbetween.1 (by omega)
      simp [hown] at this

/-- `UnmapMdl` either takes one booked region off the books and zeroes exactly its entries, or
changes nothing. -/
theorem Booked.unmapMdl (h : Booked d rs) (hu : d.unmapMdl iova = (status, d')) :
    (status = .success ∧ ∃ r ∈ rs, iova = r.base * pageSize ∧ Booked d' (rs.filter (· ≠ r)) ∧
        d'.isAv1d = d.isAv1d ∧ ∀ q, d'.pte q = if r.Covers q then 0 else d.pte q) ∨
      (status = .invalidParameter ∧ d' = d) := by
  have hfail : (NtStatus.invalidParameter, d) = (status, d') →
      status = .invalidParameter ∧ d' = d := fun heq => by
    obtain ⟨rfl, rfl⟩ := Prod.mk.inj heq
    exact ⟨rfl, rfl⟩
  unfold Domain.unmapMdl at hu
  split at hu
  · exact .inr (hfail hu)
  · split at hu
    · exact .inr (hfail hu)
    · rename_i hrange halign
      dsimp only at hu
      split at hu
      · exact .inr (hfail hu)
      · rename_i hset
        obtain ⟨r, hr, hbase⟩ := (h.start (iova / pageSize)).mp (by simpa using hset)
        have hiova : iova = r.base * pageSize := by
          rw [hbase]
          unfold pageSize at *
          omega
        rw [← hbase, h.scanEnd_eq hr] at hu
        obtain ⟨rfl, rfl⟩ := Prod.mk.inj hu
        have hlen : r.stop - r.base = r.len := by
          unfold Region.stop
          omega
        have hbound := h.separated.bounded r hr
        have hpos := h.separated.nonempty r hr
        have hlt : r.base < iovaPages := by
          unfold Region.stop at hbound
          omega
        refine .inl ⟨rfl, r, hr, hiova, ?_, ?_, fun q => ?_⟩
        · rw [hiova, hlen]
          exact (h.congr books_unmapAt).freeIova hr
        · rw [freeIova_tables.2, (books_eq books_unmapAt).1]
        · rw [freeIova_tables.1, hiova, hlen]
          exact pte_unmapAt hlt hbound

theorem books_freeIova_congr (h : d'.books = d.books) :
    (d'.freeIova iova n).books = (d.freeIova iova n).books := by
  obtain ⟨hav, ha, hs, he⟩ := books_eq h
  simp only [Domain.freeIova, hs]
  split_ifs <;> simp [books, hav, ha, hs, he]

end Rkvdec.Iommu.Domain
