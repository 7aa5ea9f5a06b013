import Rkvdec.Iommu.Alloc

/-! The domain over whole runs of `MapMdl` and `UnmapMdl`: its page table is the set of live
mappings, and nothing else. -/
namespace Rkvdec.Iommu

namespace Domain

variable {d d' d₁ : Domain} {rs : List Region} {done rest pfns : List Pfn} {flags : BitVec 32}
  {alloc : Nat → Option (BitVec 32)} {base n q iova role : Nat} {status : NtStatus}

/-- The entries once the frames `done` are mapped from page `base` on, over the entries `old`. -/
def installed (isAv1d : Bool) (flags : BitVec 32) (base : Nat) (done : List Pfn)
    (old : Nat → BitVec 32) (q : Nat) : BitVec 32 :=
  if q < base then old q
  else
    match done[q - base]? with
    | some pfn => encodePte isAv1d pfn.phys flags
    | none => old q

theorem installed_outside {isAv1d : Bool} {old : Nat → BitVec 32}
    (h : ¬ (base ≤ q ∧ q < base + done.length)) :
    installed isAv1d flags base done old q = old q := by
  unfold installed
  split
  · rfl
  · rw [List.getElem?_eq_none (by omega)]

theorem installed_snoc {isAv1d : Bool} {old : Nat → BitVec 32} {pfn : Pfn} :
    installed isAv1d flags base (done ++ [pfn]) old q =
      if q = base + done.length then encodePte isAv1d pfn.phys flags
      else installed isAv1d flags base done old q := by
  unfold installed
  by_cases hlt : q < base
  · simp [hlt, show q ≠ base + done.length by omega]
  · by_cases hq : q = base + done.length
    · simp [hq]
    · have hidx : q - base ≠ done.length := by omega
      have hget : (done ++ [pfn])[q - base]? = done[q - base]? := by
        rw [List.getElem?_append]
        split
        · rfl
        · rw [List.getElem?_eq_none (by simp; omega), List.getElem?_eq_none (by omega)]
      simp [hlt, hq, hget]

/-- Rolling back after the frames `done` restores the entries that were zero before. -/
theorem pte_rollback (hn : base + n ≤ iovaPages) (hdone : done.length < n)
    (hzero : ∀ q, base ≤ q → q < base + n → d₁.pte q = 0)
    (hpte : ∀ q, d.pte q = installed d₁.isAv1d flags base done d₁.pte q) :
    (d.rollback (base * pageSize) done.length n).pte = d₁.pte := by
  funext q
  unfold rollback
  rw [freeIova_tables.1]
  have hclear : (if 0 < done.length then d.unmapAt (base * pageSize) done.length else d).pte q =
      if base ≤ q ∧ q < base + done.length then 0 else d.pte q := by
    split
    · exact pte_unmapAt (by omega) (by omega)
    · rw [if_neg (by omega)]
  rw [hclear]
  split
  · rename_i hin
    rw [hzero q hin.1 (by omega)]
  · rename_i hout
    rw [hpte, installed_outside hout]

theorem books_rollback (hbooks : d.books = d₁.books) :
    (d.rollback (base * pageSize) done.length n).books =
      (d₁.freeIova (base * pageSize) n).books := by
  unfold rollback
  apply books_freeIova_congr
  split
  · rw [books_unmapAt, hbooks]
  · exact hbooks

/-- The page loop of `MapMdl` from any point on: it maps the remaining frames too, or puts every
entry and bitmap back to where the loop found them. -/
theorem mapPages_spec (done : List Pfn) (hn : base + n ≤ iovaPages)
    (hlen : done.length + rest.length = n) (hzero : ∀ q, base ≤ q → q < base + n → d₁.pte q = 0)
    (hbooks : d.books = d₁.books)
    (hpte : ∀ q, d.pte q = installed d₁.isAv1d flags base done d₁.pte q)
    (hlow : ∀ pfn ∈ done, pfn.phys >>> 32 = 0)
    (h : mapPages (base * pageSize) n flags alloc done.length rest d = (status, d')) :
    (status = .success ∧ d'.books = d₁.books ∧
        (∀ q, d'.pte q = installed d₁.isAv1d flags base (done ++ rest) d₁.pte q) ∧
        ∀ pfn ∈ done ++ rest, pfn.phys >>> 32 = 0) ∨
      (status ≠ .success ∧ d'.books = (d₁.freeIova (base * pageSize) n).books ∧
        d'.pte = d₁.pte) := by
  induction rest generalizing done d with
  | nil =>
    obtain ⟨rfl, rfl⟩ := Prod.mk.inj h
    exact .inl ⟨rfl, hbooks, by simpa using hpte, by simpa using hlow⟩
  | cons pfn rest ih =>
    rw [List.length_cons] at hlen
    rw [mapPages] at h
    by_cases hhigh : pfn.phys >>> 32 ≠ 0
    · rw [if_pos hhigh] at h
      obtain ⟨rfl, rfl⟩ := Prod.mk.inj h
      exact .inr ⟨by simp, books_rollback hbooks, pte_rollback hn (by omega) hzero hpte⟩
    · rw [if_neg hhigh, ← Nat.add_mul] at h
      rcases hmap : d.mapAt ((base + done.length) * pageSize) pfn.phys 1 flags
        (fun _ => alloc done.length) with ⟨st, d₂⟩
      rw [hmap] at h
      obtain ⟨hb₂, ⟨rfl, hp₂⟩ | ⟨rfl, hp₂⟩⟩ := mapAt_one (by omega) hmap
      · have hlen' : (done ++ [pfn]).length = done.length + 1 := by simp
        have hrec := ih (done ++ [pfn]) (by omega) (hb₂.trans hbooks)
          (fun q => by rw [hp₂, installed_snoc, hpte, (books_eq hbooks).1])
          (fun pfn' hmem => by
            rcases List.mem_append.mp hmem with hmem | hmem
            · exact hlow pfn' hmem
            · rw [List.mem_singleton.mp hmem]
              simpa using hhigh)
          (by rw [hlen']; exact h)
        simpa using hrec
      · obtain ⟨rfl, rfl⟩ := Prod.mk.inj h
        refine .inr ⟨by simp, books_rollback (hb₂.trans hbooks), ?_⟩
        exact pte_rollback hn (by omega) hzero fun q => by rw [hp₂, hpte]

/-- `MapMdl` either books a fresh range and installs one entry per frame, or leaves the bitmaps
and every entry as they were. -/
theorem mapMdl_spec (h : Booked d rs)
    (hzero : ∀ q, (∀ r ∈ rs, ¬ r.Covers q) → d.pte q = 0)
    (hm : d.mapMdl pfns role alloc = (status, iova, d')) :
    (status = .success ∧ ∃ base, iova = base * pageSize ∧
        Booked d' (⟨base, pfns.length⟩ :: rs) ∧ d'.isAv1d = d.isAv1d ∧
        (∀ q, d'.pte q = installed d.isAv1d (pteFlags d.isAv1d role) base pfns d.pte q) ∧
        ∀ pfn ∈ pfns, pfn.phys >>> 32 = 0) ∨
      (status ≠ .success ∧ d'.books = d.books ∧ d'.pte = d.pte) := by
  unfold mapMdl at hm
  split at hm
  · obtain ⟨rfl, -, rfl⟩ : _ ∧ _ ∧ _ := by simpa using hm.symm
    exact .inr ⟨by simp, rfl, rfl⟩
  · rename_i hpos
    rcases halloc : d.allocIova pfns.length with ⟨st, iova₁, d₁⟩
    rw [halloc] at hm
    obtain ⟨rfl, base, rfl, hb₁, hav, hp₁, hundo⟩ | ⟨rfl, rfl⟩ := h.allocIova (by omega) halloc
    · rcases hpages : mapPages (base * pageSize) pfns.length (pteFlags d₁.isAv1d role) alloc 0 pfns
        d₁ with ⟨st, d₂⟩
      dsimp only at hm
      rw [hpages] at hm
      have hfree : ∀ q, base ≤ q → q < base + pfns.length → d₁.pte q = 0 := by
        intro q h1 h2
        rw [hp₁]
        apply hzero
        intro r hr
        exact (List.rel_of_pairwise_cons hb₁.separated.apart hr).not_covers ⟨h1, h2⟩
      have hfit := hb₁.separated.bounded _ List.mem_cons_self
      have hspec := mapPages_spec [] hfit (by simp) hfree rfl
        (fun q => (installed_outside (by simp)).symm) (by simp) hpages
      obtain ⟨rfl, hbooks, hpte, hlow⟩ | ⟨hst, hbooks, hpte⟩ := hspec
      · obtain ⟨rfl, rfl, rfl⟩ : _ ∧ _ ∧ _ := by simpa using hm.symm
        refine .inl ⟨rfl, base, rfl, hb₁.congr hbooks, (books_eq hbooks).1.trans hav, ?_, hlow⟩
        rw [hav, hp₁] at hpte
        exact hpte
      · have hm' : (st, 0, d₂) = (status, iova, d') := by
          cases st <;> first | exact hm | exact absurd rfl hst
        obtain ⟨rfl, -, rfl⟩ : _ ∧ _ ∧ _ := by simpa using hm'.symm
        exact .inr ⟨hst, hbooks.trans hundo, hpte.trans hp₁⟩
    · obtain ⟨rfl, -, rfl⟩ : _ ∧ _ ∧ _ := by simpa using hm.symm
      exact .inr ⟨by simp, rfl, rfl⟩

end Domain

/-- A mapping a caller holds: consecutive pages from `base` on, one frame each. -/
structure Mapping where
  base : Nat
  pfns : List Pfn
  writable : Bool

def Mapping.region (m : Mapping) : Region := ⟨m.base, m.pfns.length⟩

/-- The frame the mapping gives page `p`. -/
def Mapping.frame (m : Mapping) (p : Nat) : Option Pfn :=
  if p < m.base then none else m.pfns[p - m.base]?

theorem Mapping.frame_isSome {m : Mapping} {p : Nat} :
    (m.frame p).isSome ↔ m.region.Covers p := by
  unfold frame
  split
  · simp [Region.Covers, region]
    omega
  · simp [Region.Covers, Region.stop, region]
    omega

inductive Call where
  | mapMdl (pfns : List Pfn) (role : Nat) (alloc : Nat → Option (BitVec 32))
  | unmapMdl (iova : BitVec 64)

/-- A domain with the mappings its callers hold: those returned by a successful `MapMdl` and not
passed to a successful `UnmapMdl` since. -/
structure Tracked where
  domain : Domain
  live : List Mapping

def Tracked.call (s : Tracked) : Call → Tracked
  | .mapMdl pfns role alloc =>
    match s.domain.mapMdl pfns role alloc with
    | (.success, iova, d) =>
      ⟨d, ⟨iova / pageSize, pfns, grantsWrite s.domain.isAv1d role⟩ :: s.live⟩
    | (_, _, d) => ⟨d, s.live⟩
  | .unmapMdl iova =>
    match s.domain.unmapMdl iova.toNat with
    | (.success, d) => ⟨d, s.live.filter fun m => m.base * pageSize ≠ iova.toNat⟩
    | (_, d) => ⟨d, s.live⟩

/-- A freshly created domain, of either kind, that nobody has mapped anything in. -/
def Tracked.create (isAv1d : Bool) : Tracked :=
  ⟨if isAv1d then domainCreateAv1d else domainCreateVdec, []⟩

def Tracked.run (isAv1d : Bool) (calls : List Call) : Tracked :=
  calls.foldl Tracked.call (Tracked.create isAv1d)

/-- The page table says of every page what the live mappings say. -/
def TableAgrees (d : Domain) (live : List Mapping) : Prop :=
  ∀ p, (∃ m ∈ live, ∃ pfn, m.frame p = some pfn ∧ PteMaps d.isAv1d (d.pte p) pfn m.writable) ∨
    ((∀ m ∈ live, m.frame p = none) ∧ d.pte p = 0)

/-- The run invariant. Besides the live mappings the books hold the ranges reserved at creation,
less those a caller has unmapped. -/
structure Tracked.Inv (isAv1d : Bool) (s : Tracked) : Prop where
  kind : s.domain.isAv1d = isAv1d
  booked : ∃ reserved, s.domain.Booked (s.live.map Mapping.region ++ reserved)
  table : TableAgrees s.domain s.live

variable {s : Tracked} {isAv1d : Bool}

theorem mem_regions {live : List Mapping} {reserved : List Region} {m : Mapping} (hm : m ∈ live) :
    m.region ∈ live.map Mapping.region ++ reserved :=
  List.mem_append_left _ (List.mem_map_of_mem hm)

/-- A page of no booked region is unmapped. -/
theorem TableAgrees.pte_zero {d : Domain} {live : List Mapping} {reserved : List Region} {q : Nat}
    (h : TableAgrees d live)
    (hq : ∀ r ∈ live.map Mapping.region ++ reserved, ¬ r.Covers q) : d.pte q = 0 := by
  obtain ⟨m, hm, pfn, hframe, -⟩ | ⟨-, hzero⟩ := h q
  · exact absurd (Mapping.frame_isSome.mp (by simp [hframe])) (hq _ (mem_regions hm))
  · exact hzero

theorem booked_domainCreateAv1d : domainCreateAv1d.Booked [⟨0, 1⟩] := by
  refine ⟨?_, ?_, ?_, ?_⟩
  · exact Region.Separated.nil.cons (by decide) (by decide) (by simp)
  · intro p
    simp [domainCreateAv1d, Region.Covers, Region.stop]
  · intro p
    simp [domainCreateAv1d, eq_comm]
  · intro p
    simp [domainCreateAv1d, Region.stop, eq_comm]

theorem booked_domainCreateVdec :
    domainCreateVdec.Booked [⟨rcbPage, rcbCount⟩, ⟨0, 1⟩] := by
  refine ⟨?_, ?_, ?_, ?_⟩
  · refine (booked_domainCreateAv1d.separated).cons (by decide) (by decide) ?_
    intro p hp r hr
    have hr : r = ⟨0, 1⟩ := by simpa using hr
    subst hr
    simp [Region.Covers, Region.stop, rcbPage, pageSize] at *
    omega
  · intro p
    rw [domainCreateVdec, Bitmap.test_setRange]
    simp [Region.Covers, Region.stop]
  · intro p
    simp [domainCreateVdec, eq_comm (a := p)]
  · intro p
    simp [domainCreateVdec, Region.stop, eq_comm (a := p)]

theorem pte_domainCreate {p : Nat} : (Tracked.create isAv1d).domain.pte p = 0 := by
  cases isAv1d <;> rfl

theorem inv_create : (Tracked.create isAv1d).Inv isAv1d := by
  refine ⟨by cases isAv1d <;> rfl, ?_, fun p => .inr ⟨by simp [Tracked.create], pte_domainCreate⟩⟩
  cases isAv1d with
  | true => exact ⟨_, booked_domainCreateAv1d⟩
  | false => exact ⟨_, booked_domainCreateVdec⟩

/-- Installing a mapping on pages that were free keeps the table in step. -/
theorem TableAgrees.install {d d' : Domain} {live : List Mapping} {pfns : List Pfn}
    {base role : Nat} (h : TableAgrees d live) (hav : d'.isAv1d = d.isAv1d)
    (hpte : ∀ q, d'.pte q =
      Domain.installed d.isAv1d (pteFlags d.isAv1d role) base pfns d.pte q)
    (hlow : ∀ pfn ∈ pfns, pfn.phys >>> 32 = 0) :
    TableAgrees d' (⟨base, pfns, grantsWrite d.isAv1d role⟩ :: live) := by
  intro q
  rw [hpte, hav]
  by_cases hin : Region.Covers ⟨base, pfns.length⟩ q
  · have hge : ¬ q < base := by
      have := hin.1
      dsimp only at this
      omega
    have hlt : q - base < pfns.length := by
      have := hin.2
      unfold Region.stop at this
      dsimp only at this
      omega
    have hget := List.getElem?_eq_getElem hlt
    refine .inl ⟨_, List.mem_cons_self, pfns[q - base], ?_, ?_⟩
    · simp [Mapping.frame, hge, hget]
    · simp only [Domain.installed, if_neg hge, hget]
      exact pteMaps_encodePte (hlow _ (List.getElem_mem hlt))
  · have hnone : Mapping.frame ⟨base, pfns, grantsWrite d.isAv1d role⟩ q = none := by
      by_contra hsome
      exact hin (Mapping.frame_isSome.mp (Option.isSome_iff_ne_none.mpr hsome))
    rw [Domain.installed_outside hin]
    obtain ⟨m, hm, pfn, hframe, hmaps⟩ | ⟨hnot, hz⟩ := h q
    · exact .inl ⟨m, List.mem_cons_of_mem _ hm, pfn, hframe, hmaps⟩
    · refine .inr ⟨?_, hz⟩
      intro m hm
      rcases List.mem_cons.mp hm with rfl | hm
      · exact hnone
      · exact hnot m hm

/-- Zeroing the entries of one booked region takes away the mapping that owns it, if any. -/
theorem TableAgrees.remove {d d' : Domain} {live : List Mapping} {reserved : List Region}
    {r : Region} (h : TableAgrees d live)
    (hsep : Region.Separated iovaPages (live.map Mapping.region ++ reserved))
    (hr : r ∈ live.map Mapping.region ++ reserved) (hav : d'.isAv1d = d.isAv1d)
    (hpte : ∀ q, d'.pte q = if r.Covers q then 0 else d.pte q) :
    TableAgrees d' (live.filter fun m => m.base * pageSize ≠ r.base * pageSize) := by
  have hkeep : ∀ m ∈ live, m.base * pageSize ≠ r.base * pageSize → ∀ q, m.region.Covers q →
      ¬ r.Covers q := by
    intro m hm hne q hmq hrq
    have heq := hsep.eq_of_covers (mem_regions hm) hr hmq hrq
    exact hne (by rw [← heq]; rfl)
  intro q
  rw [hpte, hav]
  by_cases hin : r.Covers q
  · refine .inr ⟨?_, if_pos hin⟩
    intro m hm
    obtain ⟨hm, hne⟩ : m ∈ live ∧ m.base * pageSize ≠ r.base * pageSize := by
      simpa using hm
    by_contra hsome
    have hcov := Mapping.frame_isSome.mp (Option.isSome_iff_ne_none.mpr hsome)
    exact hkeep m hm hne q hcov hin
  · rw [if_neg hin]
    obtain ⟨m, hm, pfn, hframe, hmaps⟩ | ⟨hnot, hz⟩ := h q
    · have hcov : m.region.Covers q := Mapping.frame_isSome.mp (by simp [hframe])
      have hne : m.base * pageSize ≠ r.base * pageSize := by
        intro hb
        have hbase : m.region.base = r.base := by
          unfold pageSize at hb
          exact Nat.eq_of_mul_eq_mul_right (by decide) hb
        exact hin (hsep.eq_of_base_eq (mem_regions hm) hr hbase ▸ hcov)
      exact .inl ⟨m, by simpa using ⟨hm, by simpa using hne⟩, pfn, hframe, hmaps⟩
    · exact .inr ⟨fun m hm => hnot m (List.mem_filter.mp hm).1, hz⟩

/-- Taking a region off the books takes the mapping that owns it out of the live list. -/
theorem filter_regions {live : List Mapping} {reserved : List Region} {r : Region}
    (hsep : Region.Separated iovaPages (live.map Mapping.region ++ reserved))
    (hr : r ∈ live.map Mapping.region ++ reserved) :
    (live.map Mapping.region ++ reserved).filter (· ≠ r) =
      (live.filter fun m => m.base * pageSize ≠ r.base * pageSize).map Mapping.region ++
        reserved.filter (· ≠ r) := by
  rw [List.filter_append, List.filter_map]
  congr 2
  apply List.filter_congr
  intro m hm
  have hiff : m.region = r ↔ m.base * pageSize = r.base * pageSize := by
    constructor
    · rintro rfl
      rfl
    · intro hb
      have hbase : m.region.base = r.base := by
        unfold pageSize at hb
        exact Nat.eq_of_mul_eq_mul_right (by decide) hb
      exact hsep.eq_of_base_eq (mem_regions hm) hr hbase
  simp [hiff]

theorem inv_call (h : s.Inv isAv1d) (c : Call) : (s.call c).Inv isAv1d := by
  obtain ⟨hkind, ⟨reserved, hbooked⟩, htable⟩ := h
  cases c with
  | mapMdl pfns role alloc =>
    rcases hm : s.domain.mapMdl pfns role alloc with ⟨status, iova, d⟩
    obtain ⟨rfl, base, rfl, hb, hav, hpte, hlow⟩ | ⟨hst, hbooks, hpte⟩ :=
      Domain.mapMdl_spec hbooked (fun q hq => htable.pte_zero hq) hm
    · have hdiv : base * pageSize / pageSize = base := Nat.mul_div_cancel _ (by decide)
      simp only [Tracked.call, hm, hdiv]
      exact ⟨hav.trans hkind, ⟨reserved, by simpa [Mapping.region] using hb⟩,
        htable.install hav hpte hlow⟩
    · have hcall : s.call (.mapMdl pfns role alloc) = ⟨d, s.live⟩ := by
        cases status <;> simp_all [Tracked.call]
      rw [hcall]
      refine ⟨(Domain.books_eq hbooks).1.trans hkind, ⟨reserved, hbooked.congr hbooks⟩, ?_⟩
      simpa [TableAgrees, hpte, (Domain.books_eq hbooks).1] using htable
  | unmapMdl iova =>
    rcases hu : s.domain.unmapMdl iova.toNat with ⟨status, d⟩
    obtain ⟨rfl, r, hr, hiova, hb, hav, hpte⟩ | ⟨rfl, rfl⟩ := hbooked.unmapMdl hu
    · have hcall : s.call (.unmapMdl iova) =
          ⟨d, s.live.filter fun m => m.base * pageSize ≠ r.base * pageSize⟩ := by
        simp only [Tracked.call, hu, ← hiova]
      rw [hcall]
      refine ⟨hav.trans hkind, ⟨reserved.filter (· ≠ r), ?_⟩,
        htable.remove hbooked.separated hr hav hpte⟩
      rw [← filter_regions hbooked.separated hr]
      exact hb
    · simp only [Tracked.call, hu]
      exact ⟨hkind, ⟨reserved, hbooked⟩, htable⟩

theorem inv_run (calls : List Call) : (Tracked.run isAv1d calls).Inv isAv1d :=
  List.foldlRecOn calls Tracked.call inv_create fun _ h c _ => inv_call h c

/-- At most one live mapping covers a page. -/
theorem live_unique (h : s.Inv isAv1d) {m m' : Mapping} {p : Nat} (hm : m ∈ s.live)
    (hm' : m' ∈ s.live) (hp : (m.frame p).isSome) (hp' : (m'.frame p).isSome) : m = m' := by
  obtain ⟨-, ⟨reserved, hbooked⟩, -⟩ := h
  have hapart : s.live.Pairwise fun m m' => m.region.Apart m'.region :=
    List.pairwise_map.mp (List.pairwise_append.mp hbooked.separated.apart).1
  by_contra hne
  have hsymm : Std.Symm fun m m' : Mapping => m.region.Apart m'.region :=
    ⟨fun _ _ h => Or.symm h⟩
  exact (hapart.forall hm hm' hne).not_covers (Mapping.frame_isSome.mp hp)
    (Mapping.frame_isSome.mp hp')

theorem pteMaps_of_live (h : s.Inv isAv1d) {m : Mapping} {p : Nat} {pfn : Pfn} (hm : m ∈ s.live)
    (hp : m.frame p = some pfn) : PteMaps isAv1d (s.domain.pte p) pfn m.writable := by
  obtain ⟨m', hm', pfn', hframe, hmaps⟩ | ⟨hnot, -⟩ := h.table p
  · obtain rfl := live_unique h hm' hm (Option.isSome_of_eq_some hframe)
      (Option.isSome_of_eq_some hp)
    rw [hp] at hframe
    obtain rfl := Option.some.inj hframe
    exact h.kind ▸ hmaps
  · rw [hnot m hm] at hp
    simp at hp

theorem valid_iff_live (h : s.Inv isAv1d) {p : Nat} :
    (s.domain.pte p).getLsbD 0 = true ↔ ∃ m ∈ s.live, m.region.Covers p := by
  constructor
  · intro hvalid
    obtain ⟨m, hm, pfn, hframe, -⟩ | ⟨-, hz⟩ := h.table p
    · exact ⟨m, hm, Mapping.frame_isSome.mp (by simp [hframe])⟩
    · simp [hz] at hvalid
  · rintro ⟨m, hm, hcov⟩
    obtain ⟨pfn, hpfn⟩ := Option.isSome_iff_exists.mp (Mapping.frame_isSome.mpr hcov)
    exact (pteMaps_of_live h hm hpfn).valid

theorem mapMdl_failure (h : s.Inv isAv1d) {pfns : List Pfn} {role : Nat}
    {alloc : Nat → Option (BitVec 32)} {d : Domain} {status : NtStatus} {iova : Nat}
    (hm : s.domain.mapMdl pfns role alloc = (status, iova, d)) (hst : status ≠ .success) :
    d.books = s.domain.books ∧ d.pte = s.domain.pte := by
  obtain ⟨-, ⟨reserved, hbooked⟩, htable⟩ := h
  obtain ⟨rfl, -⟩ | ⟨-, hbooks, hpte⟩ :=
    Domain.mapMdl_spec hbooked (fun q hq => htable.pte_zero hq) hm
  · exact absurd rfl hst
  · exact ⟨hbooks, hpte⟩

theorem unmapMdl_neighbour (h : s.Inv isAv1d) {iova : Nat} {m : Mapping} {p : Nat} (hm : m ∈ s.live)
    (hne : m.base * pageSize ≠ iova) (hp : m.region.Covers p) :
    (s.domain.unmapMdl iova).2.pte p = s.domain.pte p := by
  obtain ⟨-, ⟨reserved, hbooked⟩, -⟩ := h
  rcases hu : s.domain.unmapMdl iova with ⟨status, d⟩
  obtain ⟨-, r, hr, rfl, -, -, hpte⟩ | ⟨-, rfl⟩ := hbooked.unmapMdl hu
  · have hout : ¬ r.Covers p := by
      intro hrp
      have heq := hbooked.separated.eq_of_covers (mem_regions hm) hr hp hrp
      exact hne (by rw [← heq]; rfl)
    rw [hpte, if_neg hout]
  · rfl

/-- After any run of `MapMdl` and `UnmapMdl` on a domain of either kind, the page table is the
set of live mappings: an entry is valid exactly on the pages of a live mapping and then points at
that mapping's frame. Moreover a `MapMdl` that fails now leaves the bitmaps and every entry as
they are, and an `UnmapMdl` changes no entry of a mapping other than the one it names. -/
theorem run_refines_live (isAv1d : Bool) (calls : List Call) :
    let s := Tracked.run isAv1d calls
    (∀ p, (s.domain.pte p).getLsbD 0 = true ↔ ∃ m ∈ s.live, m.region.Covers p) ∧
    (∀ m ∈ s.live, ∀ p pfn, m.frame p = some pfn →
      PteMaps isAv1d (s.domain.pte p) pfn m.writable) ∧
    (∀ pfns role alloc, (s.domain.mapMdl pfns role alloc).1 ≠ .success →
      (s.domain.mapMdl pfns role alloc).2.2.books = s.domain.books ∧
      (s.domain.mapMdl pfns role alloc).2.2.pte = s.domain.pte) ∧
    (∀ iova : BitVec 64, ∀ m ∈ s.live, m.base * pageSize ≠ iova.toNat →
      ∀ p, m.region.Covers p →
        (s.domain.unmapMdl iova.toNat).2.pte p = s.domain.pte p) := by
  intro s
  have h : s.Inv isAv1d := inv_run calls
  refine ⟨fun p => valid_iff_live h, ?_, ?_, ?_⟩
  · intro m hm p pfn hp
    exact pteMaps_of_live h hm hp
  · intro pfns role alloc hst
    exact mapMdl_failure h rfl hst
  · intro iova m hm hne p hp
    exact unmapMdl_neighbour h hm hne hp

end Rkvdec.Iommu
