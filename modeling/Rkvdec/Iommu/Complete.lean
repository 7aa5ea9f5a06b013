import Rkvdec.Iommu.Refinement

/-! The allocator misses no free range: it hands out the highest one there is, and nothing else in
the domain changes. -/
namespace Rkvdec.Iommu

namespace Domain

variable {d d' : Domain} {bm : Bitmap} {w b n base pos run p : Nat} {rs : List Region}

/-- `n` free pages in a row, from page `base` on. -/
structure FreeRun (bm : Bitmap) (n base : Nat) : Prop where
  bound : base + n ≤ iovaPages
  clear : Clear bm base (base + n)

/-- No free run of `n` pages lies higher. -/
def Highest (bm : Bitmap) (n base : Nat) : Prop :=
  FreeRun bm n base ∧ ∀ other, FreeRun bm n other → other ≤ base

/-- What the scan knows at page `pos`: no free run starts here or higher, and the run it counts is
too short and goes no further up. -/
structure Scanned (bm : Bitmap) (n pos run : Nat) : Prop where
  rejected : ∀ base, FreeRun bm n base → base < pos
  short : run < n
  ends : pos + run = iovaPages ∨ bm.test (pos + run) = true

theorem Scanned.occupied (h : Scanned bm n (pos + 1) run) (hbit : bm.test pos = true) :
    Scanned bm n pos 0 := by
  refine ⟨?_, ?_, .inr hbit⟩
  · intro base hfree
    have hlt := h.rejected base hfree
    have hpos := h.short
    by_contra hge
    obtain rfl : base = pos := by omega
    have hclear := hfree.clear base le_rfl (by omega)
    rw [hbit] at hclear
    cases hclear
  · have := h.short
    omega

theorem Scanned.free (h : Scanned bm n (pos + 1) run) (hcount : run + 1 ≠ n) :
    Scanned bm n pos (run + 1) := by
  have hshort := h.short
  have hpage : pos + (run + 1) = pos + 1 + run := by omega
  refine ⟨?_, by omega, hpage ▸ h.ends⟩
  intro base hfree
  have hlt := h.rejected base hfree
  by_contra hge
  obtain rfl : base = pos := by omega
  have hbound := hfree.bound
  rcases h.ends with htop | hset
  · omega
  · have hclear := hfree.clear (base + 1 + run) (by omega) (by omega)
    rw [hset] at hclear
    cases hclear

theorem scanWord_complete (hb : b ≤ 64) (h : Scanned bm n (w * 64 + b) run) :
    match scanWord (bm.word w) w n b run with
    | .inl base => ∀ other, FreeRun bm n other → other ≤ base
    | .inr run => Scanned bm n (w * 64) run := by
  induction b generalizing run with
  | zero => simpa [scanWord] using h
  | succ b ih =>
    have hpos : w * 64 + (b + 1) = w * 64 + b + 1 := by omega
    rw [hpos] at h
    by_cases hbit : (bm.word w).getLsbD b = true
    · simp only [scanWord, if_pos hbit]
      rw [← test_word (by omega)] at hbit
      exact ih (by omega) (h.occupied hbit)
    · by_cases hcount : run + 1 = n
      · simp only [scanWord, if_neg hbit, if_pos hcount]
        intro other hfree
        have := h.rejected other hfree
        omega
      · simp only [scanWord, if_neg hbit, if_neg hcount]
        exact ih (by omega) (h.free hcount)

theorem scanWords_complete (h : Scanned bm n (w * 64) run) :
    match scanWords bm n w run with
    | some base => ∀ other, FreeRun bm n other → other ≤ base
    | none => ∀ other, ¬FreeRun bm n other := by
  induction w generalizing run with
  | zero =>
    simp only [scanWords]
    intro other hfree
    have := h.rejected other hfree
    omega
  | succ w ih =>
    have hw : Scanned bm n (w * 64 + 64) run := by
      rwa [show (w + 1) * 64 = w * 64 + 64 by omega] at h
    have hcomplete := scanWord_complete le_rfl hw
    simp only [scanWords]
    cases hscan : scanWord (bm.word w) w n 64 run with
    | inl base =>
      rw [hscan] at hcomplete
      exact hcomplete
    | inr run' =>
      rw [hscan] at hcomplete
      exact ih hcomplete

theorem scanned_top (hn : 0 < n) : Scanned bm n (iovaPages / 64 * 64) 0 := by
  have htop : iovaPages / 64 * 64 = iovaPages := by decide
  rw [htop]
  refine ⟨?_, hn, .inl rfl⟩
  intro base hfree
  have := hfree.bound
  omega

/-- The scan finds the highest free run, if there is one. -/
theorem highest_of_scan (hn : 0 < n)
    (hscan : scanWords d.iovaBitmap n (iovaPages / 64) 0 = some base) :
    Highest d.iovaBitmap n base := by
  obtain ⟨hbound, hclear⟩ := scanWords_clear hscan
  have hcomplete := scanWords_complete (@scanned_top d.iovaBitmap n hn)
  rw [hscan] at hcomplete
  exact ⟨⟨hbound, hclear⟩, hcomplete⟩

theorem none_of_scan (hn : 0 < n) (hscan : scanWords d.iovaBitmap n (iovaPages / 64) 0 = none) :
    ∀ base, ¬FreeRun d.iovaBitmap n base := by
  have hcomplete := scanWords_complete (@scanned_top d.iovaBitmap n hn)
  rw [hscan] at hcomplete
  exact hcomplete

/-- What becomes of the domain when the pages from `base` on are handed out. -/
structure HandedOut (d : Domain) (n base : Nat) (d' : Domain) : Prop where
  highest : Highest d.iovaBitmap n base
  pages : ∀ p, d'.iovaBitmap.test p = true ↔ d.iovaBitmap.test p = true ∨ (base ≤ p ∧ p < base + n)
  start : ∀ p, d'.iovaStartBitmap.test p = true ↔ d.iovaStartBitmap.test p = true ∨ p = base
  stop : ∀ p, d'.iovaEndBitmap.test p = true ↔ d.iovaEndBitmap.test p = true ∨ p = base + n
  tables : d'.isAv1d = d.isAv1d ∧ d'.pd = d.pd ∧ d'.pts = d.pts ∧ d'.ptPhys = d.ptPhys

/-- Freeing what was handed out takes the pages and the marks away again. The marks are only those
that were not there before. -/
theorem freeIova_handedOut (hn : 0 < n) (h : Highest d.iovaBitmap n base)
    (hd : d' = { d with
      iovaBitmap := d.iovaBitmap.setRange base n
      iovaStartBitmap := d.iovaStartBitmap.set base
      iovaEndBitmap := d.iovaEndBitmap.set (base + n) }) :
    d'.freeIova (base * pageSize) n = d ↔
      d.iovaStartBitmap.test base = false ∧ d.iovaEndBitmap.test (base + n) = false := by
  have hset : d'.iovaStartBitmap.test base = true := by simp [hd]
  rw [freeIova_eq h.1.bound hn hset, hd]
  constructor
  · intro heq
    have hstart := congrArg (fun d => d.iovaStartBitmap.test base) heq
    have hstop := congrArg (fun d => d.iovaEndBitmap.test (base + n)) heq
    simp only [Bitmap.test_clear, decide_true, Bool.not_true, Bool.false_and] at hstart hstop
    exact ⟨hstart.symm, hstop.symm⟩
  · rintro ⟨hstart, hstop⟩
    simp only [Bitmap.clearRange_setRange h.1.clear, Bitmap.clear_set hstart,
      Bitmap.clear_set hstop]

/-- The states of a domain from its creation on, with the regions that are handed out or reserved,
when every range is freed as it was handed out. -/
inductive Orderly : Domain → List Region → Prop
  | vdec : Orderly domainCreateVdec [⟨rcbPage, rcbCount⟩, ⟨0, 1⟩]
  | av1d : Orderly domainCreateAv1d [⟨0, 1⟩]
  | allocated {d d' : Domain} {rs : List Region} {n base : Nat} (h : Orderly d rs) (hn : 0 < n)
      (ha : d.allocIova n = (.success, base * pageSize, d')) : Orderly d' (⟨base, n⟩ :: rs)
  | freed {d : Domain} {rs : List Region} {r : Region} (h : Orderly d rs) (hr : r ∈ rs) :
      Orderly (d.freeIova (r.base * pageSize) r.len) (rs.filter (· ≠ r))

theorem Orderly.booked (h : Orderly d rs) : Booked d rs := by
  induction h with
  | vdec => exact booked_domainCreateVdec
  | av1d => exact booked_domainCreateAv1d
  | allocated h hn ha ih =>
    rcases ih.allocIova hn ha with ⟨-, base', hbase, hbooked, -⟩ | ⟨hfail, -⟩
    · obtain rfl := Nat.eq_of_mul_eq_mul_right (by decide) hbase
      exact hbooked
    · cases hfail
  | freed h hr ih => exact ih.freeIova hr

/-- No mark is where a free run begins, nor behind its end. -/
theorem Booked.unmarked (h : Booked d rs) (hfree : FreeRun d.iovaBitmap n base) :
    (∀ p, base ≤ p → p < base + n → d.iovaStartBitmap.test p = false) ∧
      ∀ p, base < p → p ≤ base + n → d.iovaEndBitmap.test p = false := by
  refine ⟨?_, ?_⟩
  · intro p hlo hhi
    by_contra hset
    obtain ⟨s, hs, rfl⟩ := (h.start p).mp (by simpa using hset)
    have hused := (h.alloc s.base).mpr ⟨s, hs, h.separated.covers_base hs⟩
    rw [hfree.clear s.base hlo hhi] at hused
    cases hused
  · intro p hlo hhi
    by_contra hset
    obtain ⟨s, hs, rfl⟩ := (h.stop p).mp (by simpa using hset)
    have hlen := h.separated.nonempty s hs
    have hlast : s.Covers (s.stop - 1) := by
      unfold Region.Covers Region.stop
      omega
    have hused := (h.alloc (s.stop - 1)).mpr ⟨s, hs, hlast⟩
    rw [hfree.clear (s.stop - 1) (by omega) (by omega)] at hused
    cases hused

/-- Allocation in any state. It succeeds if and only if there is a free run, and then hands out the
highest one: its pages, a start mark at the first of them and an end mark one page past the last. A
failure changes nothing. Freeing the run brings the state back if and only if its two marks were not
there before; when ranges are freed as they were handed out they never are, and no other mark lies
in the run. -/
theorem alloc_iova_exact (d : Domain) (n : Nat) (hn : 0 < n) :
    ((d.allocIova n).1 = .success ↔ ∃ base, FreeRun d.iovaBitmap n base) ∧
    ((d.allocIova n).1 ≠ .success →
      (d.allocIova n).1 = .insufficientResources ∧ (d.allocIova n).2.2 = d) ∧
    ((d.allocIova n).1 = .success → ∃ base, (d.allocIova n).2.1 = base * pageSize ∧
      HandedOut d n base (d.allocIova n).2.2 ∧
      ((d.allocIova n).2.2.freeIova (d.allocIova n).2.1 n = d ↔
        d.iovaStartBitmap.test base = false ∧ d.iovaEndBitmap.test (base + n) = false) ∧
      ∀ rs, Orderly d rs → (d.allocIova n).2.2.freeIova (d.allocIova n).2.1 n = d ∧
        (∀ p, base ≤ p → p < base + n →
          ((d.allocIova n).2.2.iovaStartBitmap.test p = true ↔ p = base)) ∧
        ∀ p, base < p → p ≤ base + n →
          ((d.allocIova n).2.2.iovaEndBitmap.test p = true ↔ p = base + n)) := by
  cases hscan : scanWords d.iovaBitmap n (iovaPages / 64) 0 with
  | none =>
    have halloc : d.allocIova n = (.insufficientResources, 0, d) := by
      unfold allocIova
      rw [hscan]
    rw [halloc]
    refine ⟨⟨?_, ?_⟩, fun _ => ⟨rfl, rfl⟩, ?_⟩
    · intro hsuccess
      cases hsuccess
    · rintro ⟨base, hfree⟩
      exact absurd hfree (none_of_scan hn hscan base)
    · intro hsuccess
      cases hsuccess
  | some base =>
    have hhighest := highest_of_scan hn hscan
    obtain ⟨d', hd⟩ : ∃ d' : Domain, d' = { d with
        iovaBitmap := d.iovaBitmap.setRange base n
        iovaStartBitmap := d.iovaStartBitmap.set base
        iovaEndBitmap := d.iovaEndBitmap.set (base + n) } := ⟨_, rfl⟩
    have halloc : d.allocIova n = (.success, base * pageSize, d') := by
      unfold allocIova
      rw [hscan, hd]
    have hout : HandedOut d n base d' := by
      refine ⟨hhighest, ?_, ?_, ?_, ?_⟩
      · intro p
        simp [hd, Bitmap.test_setRange, or_comm]
      · intro p
        simp [hd, or_comm]
      · intro p
        simp [hd, or_comm]
      · simp [hd]
    have hrestored := freeIova_handedOut hn hhighest hd
    rw [halloc]
    refine ⟨⟨fun _ => ⟨base, hhighest.1⟩, fun _ => rfl⟩, fun hfail => absurd rfl hfail, fun _ => ?_⟩
    refine ⟨base, rfl, hout, hrestored, ?_⟩
    intro rs horderly
    obtain ⟨hstart, hstop⟩ := horderly.booked.unmarked hhighest.1
    refine ⟨hrestored.mpr ⟨hstart base le_rfl (by omega), hstop (base + n) (by omega) le_rfl⟩, ?_,
      ?_⟩
    · intro p hlo hhi
      rw [hout.start p, hstart p hlo hhi]
      simp
    · intro p hlo hhi
      rw [hout.stop p, hstop p hlo hhi]
      simp

theorem Orderly.alloc (h : Orderly d rs) (hn : 0 < n) (hok : (d.allocIova n).1 = .success)
    (hbase : (d.allocIova n).2.1 = base * pageSize) :
    Orderly (d.allocIova n).2.2 (⟨base, n⟩ :: rs) :=
  h.allocated hn (by rw [← hok, ← hbase])

/-- Three pages and then two are handed out below the reserved ones, and the three are given
back. -/
def partlyFreed : Domain :=
  ((domainCreateVdec.allocIova 3).2.2.allocIova 2).2.2.freeIova (0xffefd * pageSize) 3

theorem orderly_partlyFreed : ∃ rs, Orderly partlyFreed rs := by
  have hthree : Orderly (domainCreateVdec.allocIova 3).2.2
      [⟨0xffefd, 3⟩, ⟨rcbPage, rcbCount⟩, ⟨0, 1⟩] :=
    .alloc .vdec (by decide) (by decide +kernel) (by decide +kernel)
  have htwo : Orderly ((domainCreateVdec.allocIova 3).2.2.allocIova 2).2.2
      [⟨0xffefb, 2⟩, ⟨0xffefd, 3⟩, ⟨rcbPage, rcbCount⟩, ⟨0, 1⟩] :=
    .alloc hthree (by decide) (by decide +kernel) (by decide +kernel)
  exact ⟨_, htwo.freed (r := ⟨0xffefd, 3⟩) (by simp)⟩

/-- The next two pages are the upper two of the three. Given back they leave the domain as it
was. -/
theorem two_pages_exact : (partlyFreed.allocIova 2).1 = .success ∧
    HandedOut partlyFreed 2 0xffefe (partlyFreed.allocIova 2).2.2 ∧
    (partlyFreed.allocIova 2).2.2.freeIova (0xffefe * pageSize) 2 = partlyFreed ∧
    ∀ p, 0xffefe < p → p ≤ 0xffefe + 2 →
      ((partlyFreed.allocIova 2).2.2.iovaEndBitmap.test p = true ↔ p = 0xffefe + 2) := by
  have hok : (partlyFreed.allocIova 2).1 = .success := by decide +kernel
  have hat : (partlyFreed.allocIova 2).2.1 = 0xffefe * pageSize := by decide +kernel
  obtain ⟨base, hbase, hout, -, horderly⟩ :=
    (alloc_iova_exact partlyFreed 2 (by decide)).2.2 hok
  obtain rfl : base = 0xffefe := Nat.eq_of_mul_eq_mul_right (by decide) (hbase.symm.trans hat)
  obtain ⟨rs, hrs⟩ := orderly_partlyFreed
  obtain ⟨hrestored, -, hstop⟩ := horderly rs hrs
  exact ⟨hok, hout, hat ▸ hrestored, hstop⟩

/-- The states of a domain under any calls. -/
inductive Reachable : Domain → Prop
  | vdec : Reachable domainCreateVdec
  | av1d : Reachable domainCreateAv1d
  | alloc {d : Domain} (h : Reachable d) (n : Nat) : Reachable (d.allocIova n).2.2
  | free {d : Domain} (h : Reachable d) (iova n : Nat) : Reachable (d.freeIova iova n)

/-- The highest page. -/
def topPage : Nat := iovaPages - 1

/-- Two pages handed out one by one and freed in one call, from the lower one on. -/
def freedTogether : Domain :=
  ((domainCreateAv1d.allocIova 1).2.2.allocIova 1).2.2.freeIova ((topPage - 1) * pageSize) 2

/-- The end mark of a page is not at the page, but behind it. And once pages are freed other than
they were handed out, a start mark stays where a page is free: the next allocation of that page and
its return take it away. -/
theorem end_mark_behind :
    (domainCreateAv1d.allocIova 1).1 = .success ∧
      (domainCreateAv1d.allocIova 1).2.1 = topPage * pageSize ∧
      (domainCreateAv1d.allocIova 1).2.2.iovaEndBitmap.test topPage = false ∧
      (domainCreateAv1d.allocIova 1).2.2.iovaEndBitmap.test (topPage + 1) = true ∧
      Reachable freedTogether ∧
      (freedTogether.allocIova 1).1 = .success ∧
      (freedTogether.allocIova 1).2.2.freeIova (freedTogether.allocIova 1).2.1 1 ≠
      freedTogether := by
  have hmark : freedTogether.iovaStartBitmap.test topPage = true := by decide +kernel
  have hgone : ((freedTogether.allocIova 1).2.2.freeIova
      (freedTogether.allocIova 1).2.1 1).iovaStartBitmap.test topPage = false := by decide +kernel
  refine ⟨by decide +kernel, by decide +kernel, by decide +kernel, by decide +kernel,
    .free (.alloc (.alloc .av1d 1) 1) _ 2, by decide +kernel, ?_⟩
  intro heq
  rw [heq, hmark] at hgone
  cases hgone

end Domain

end Rkvdec.Iommu
