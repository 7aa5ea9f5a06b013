import Rkvdec.Iommu.Refinement

/-! The ranges a domain keeps back at creation, and when they stay back. -/
namespace Rkvdec.Iommu

/-- The ranges `RkIommuDomainCreateVdec` and `RkIommuDomainCreateAv1d` mark as taken. -/
def reservations (isAv1d : Bool) : List Region :=
  if isAv1d then [⟨0, 1⟩] else [⟨rcbPage, rcbCount⟩, ⟨0, 1⟩]

/-- Page 0 and, on a vdec domain, every page of `0xFFF00000..0xFFFFFFFF`. -/
def Reserved (isAv1d : Bool) (p : Nat) : Prop :=
  p = 0 ∨ (isAv1d = false ∧ 0xFFF00000 ≤ p * pageSize ∧ p * pageSize ≤ 0xFFFFFFFF)

instance (isAv1d : Bool) (p : Nat) : Decidable (Reserved isAv1d p) :=
  inferInstanceAs (Decidable (_ ∨ _))

/-- The call unmaps the address where a reservation begins. -/
def Call.unreserves (isAv1d : Bool) : Call → Prop
  | .mapMdl _ _ _ => False
  | .unmapMdl iova => iova.toNat = 0 ∨ (isAv1d = false ∧ iova.toNat = 0xFFF00000)

variable {s : Tracked} {isAv1d : Bool} {p : Nat} {r : Region} {c : Call}

theorem reserved_iff : Reserved isAv1d p ↔ ∃ r ∈ reservations isAv1d, r.Covers p := by
  cases isAv1d with
  | true =>
    simp [Reserved, reservations, Region.Covers, Region.stop]
  | false =>
    simp only [Reserved, reservations, Region.Covers, Region.stop, rcbPage, rcbCount, pageSize,
      Bool.false_eq_true, if_false, List.mem_cons, List.not_mem_nil, or_false,
      exists_eq_or_imp, exists_eq_left, true_and]
    omega

/-- A call that unmaps the base of a reservation is one of the two kinds named above. -/
theorem unreserves_of_base {iova : BitVec 64} (hr : r ∈ reservations isAv1d)
    (hiova : iova.toNat = r.base * pageSize) : (Call.unmapMdl iova).unreserves isAv1d := by
  cases isAv1d with
  | true =>
    obtain rfl : r = ⟨0, 1⟩ := by simpa [reservations] using hr
    exact .inl (by simpa using hiova)
  | false =>
    obtain rfl | rfl : r = ⟨rcbPage, rcbCount⟩ ∨ r = ⟨0, 1⟩ := by simpa [reservations] using hr
    · exact .inr ⟨rfl, by simpa [rcbPage, pageSize] using hiova⟩
    · exact .inl (by simpa using hiova)

/-- The reservations are still on the books, beside the live mappings. -/
def KeepsReservations (isAv1d : Bool) (s : Tracked) : Prop :=
  TableAgrees s.domain s.live ∧
    ∃ rest, s.domain.Booked (s.live.map Mapping.region ++ rest) ∧ reservations isAv1d ⊆ rest

theorem keepsReservations_create : KeepsReservations isAv1d (Tracked.create isAv1d) := by
  refine ⟨inv_create.table, reservations isAv1d, ?_, List.Subset.refl _⟩
  cases isAv1d with
  | true => exact booked_domainCreateAv1d
  | false => exact booked_domainCreateVdec

theorem keepsReservations_call (h : KeepsReservations isAv1d s) (hinv : s.Inv isAv1d)
    (hc : ¬ c.unreserves isAv1d) : KeepsReservations isAv1d (s.call c) := by
  obtain ⟨htable, rest, hbooked, hsub⟩ := h
  refine ⟨(inv_call hinv c).table, ?_⟩
  cases c with
  | mapMdl pfns role alloc =>
    rcases hm : s.domain.mapMdl pfns role alloc with ⟨status, iova, d⟩
    obtain ⟨rfl, base, rfl, hb, -, -, -⟩ | ⟨hst, hbooks, -⟩ :=
      Domain.mapMdl_spec hbooked (fun q hq => htable.pte_zero hq) hm
    · have hdiv : base * pageSize / pageSize = base := Nat.mul_div_cancel _ (by decide)
      simp only [Tracked.call, hm, hdiv]
      exact ⟨rest, by simpa [Mapping.region] using hb, hsub⟩
    · have hcall : s.call (.mapMdl pfns role alloc) = ⟨d, s.live⟩ := by
        cases status <;> simp_all [Tracked.call]
      rw [hcall]
      exact ⟨rest, hbooked.congr hbooks, hsub⟩
  | unmapMdl iova =>
    rcases hu : s.domain.unmapMdl iova.toNat with ⟨status, d⟩
    obtain ⟨rfl, r, hr, hiova, hb, -, -⟩ | ⟨rfl, rfl⟩ := hbooked.unmapMdl hu
    · have hcall : s.call (.unmapMdl iova) =
          ⟨d, s.live.filter fun m => m.base * pageSize ≠ r.base * pageSize⟩ := by
        simp only [Tracked.call, hu, ← hiova]
      rw [hcall]
      rw [filter_regions hbooked.separated hr] at hb
      refine ⟨_, hb, ?_⟩
      -- The region taken off the books is not a reservation: its base was not unmapped.
      intro r' hr'
      have hne : r' ≠ r := by
        rintro rfl
        exact hc (unreserves_of_base hr' hiova)
      simpa using ⟨hsub hr', hne⟩
    · simp only [Tracked.call, hu]
      exact ⟨rest, hbooked, hsub⟩

theorem keepsReservations_run (calls : List Call) (hcalls : ∀ c ∈ calls, ¬ c.unreserves isAv1d) :
    KeepsReservations isAv1d (Tracked.run isAv1d calls) := by
  have hboth : (Tracked.run isAv1d calls).Inv isAv1d ∧
      KeepsReservations isAv1d (Tracked.run isAv1d calls) := by
    refine List.foldlRecOn (motive := fun s => s.Inv isAv1d ∧ KeepsReservations isAv1d s) calls
      Tracked.call ⟨inv_create, keepsReservations_create⟩ ?_
    rintro s ⟨hinv, hkeep⟩ c hc
    exact ⟨inv_call hinv c, keepsReservations_call hkeep hinv (hcalls c hc)⟩
  exact hboth.2

/-- As long as nobody unmaps the first address of a reservation, no `MapMdl` hands out one of
its pages. -/
theorem mapMdl_avoids_reserved (isAv1d : Bool) (calls : List Call)
    (hcalls : ∀ c ∈ calls, ¬ c.unreserves isAv1d) (pfns : List Pfn) (role : Nat)
    (alloc : Nat → Option (BitVec 32)) :
    let out := (Tracked.run isAv1d calls).domain.mapMdl pfns role alloc
    out.1 = .success →
      ∀ p, Reserved isAv1d p → ¬ Region.Covers ⟨out.2.1 / pageSize, pfns.length⟩ p := by
  intro out hok p hp hcov
  obtain ⟨htable, rest, hbooked, hsub⟩ := keepsReservations_run calls hcalls
  obtain ⟨r, hr, hrp⟩ := reserved_iff.mp hp
  rcases hm : (Tracked.run isAv1d calls).domain.mapMdl pfns role alloc with ⟨status, iova, d⟩
  simp only [out, hm] at hok hcov
  obtain ⟨-, base, rfl, hb, -⟩ | ⟨hst, -⟩ :=
    Domain.mapMdl_spec hbooked (fun q hq => htable.pte_zero hq) hm
  · have hdiv : base * pageSize / pageSize = base := Nat.mul_div_cancel _ (by decide)
    rw [hdiv] at hcov
    have hmem := List.mem_append_right ((Tracked.run isAv1d calls).live.map Mapping.region)
      (hsub hr)
    exact (List.rel_of_pairwise_cons hb.separated.apart hmem).not_covers hcov hrp
  · exact hst hok

/-- One page, mapped by itself. -/
def onePage : List Pfn := [⟨1, by decide⟩]

/-- After a mapping and its unmapping the next one-page mapping still stays off the RCB range. -/
theorem mapMdl_avoids_reserved_again :
    let calls := [Call.mapMdl onePage 3 fun _ => some 0x1000, Call.unmapMdl 0xFFEFF000]
    let out := (Tracked.run false calls).domain.mapMdl onePage 3 fun _ => some 0x1000
    out.1 = .success ∧ out.2.1 = 0xFFEFF000 ∧
      ∀ p, Reserved false p → ¬ Region.Covers ⟨out.2.1 / pageSize, 1⟩ p := by
  have hok : ((Tracked.run false [Call.mapMdl onePage 3 fun _ => some 0x1000,
      Call.unmapMdl 0xFFEFF000]).domain.mapMdl onePage 3 fun _ => some 0x1000).1 = .success := by
    decide +kernel
  refine ⟨hok, by decide +kernel, ?_⟩
  refine mapMdl_avoids_reserved false _ ?_ onePage 3 _ hok
  simp [Call.unreserves]

/-- `UnmapMdl` of `0xFFF00000` gives the RCB range away: the next mapping gets its last page. -/
theorem rcb_range_handed_out :
    let out := (Tracked.run false [.unmapMdl 0xFFF00000]).domain.mapMdl onePage 3
      fun _ => some 0x1000
    out.1 = .success ∧ Reserved false (out.2.1 / pageSize) ∧
      Region.Covers ⟨out.2.1 / pageSize, onePage.length⟩ (out.2.1 / pageSize) := by
  decide +kernel

end Rkvdec.Iommu
