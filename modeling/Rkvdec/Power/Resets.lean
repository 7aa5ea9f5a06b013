import Rkvdec.Power.Refcounts

/-! The rest of `rkmpp_ccu/ccu.c`: the leaf clocks and the resets of the cores. A bus answers a
handshake of its domain while the clocks of the domain's bundle run, its resets are released and the
parents are on. -/
namespace Rkvdec.Power

section Interface

inductive Core where
  | rvd0
  | rvd1
deriving DecidableEq

namespace Core

def domain : Core → Domain
  | rvd0 => .rkvdec0
  | rvd1 => .rkvdec1

def con : Core → Con
  | rvd0 => .con40
  | rvd1 => .con41

/-- `RDCC_CON40_LEAF_GATE_MASK` and `RDCC_CON41_LEAF_GATE_MASK`. -/
def leafGateMask : Core → BitVec 16
  | rvd0 => 0x380
  | rvd1 => 0x1C0

/-- `RDCC_CON40_CORE_RESET_BIT` and `RDCC_CON41_CORE_RESET_BIT`. -/
def coreResetBit : Core → BitVec 16
  | rvd0 => 0x3C0
  | rvd1 => 0x1C0

end Core

namespace Ccu

variable (s : Ccu) (core : Core) (a : Answers)

def gateAv1LeafClocks : NtStatus × Ccu :=
  if s.cruMapped = false then (.deviceNotReady, s) else (.success, s.gateClocks .con68)

def ungateAv1LeafClocks : NtStatus × Ccu :=
  if s.cruMapped = false then (.deviceNotReady, s) else (.success, s.ungateClocks .con68)

/-- `RkMppCcuGateRvdec0LeafClocks` and the three functions like it. -/
def gateLeafClocks : NtStatus × Ccu :=
  if s.cruMapped = false then (.deviceNotReady, s)
  else (.success, s.writeClkGate core.con core.leafGateMask core.leafGateMask)

def ungateLeafClocks : NtStatus × Ccu :=
  if s.cruMapped = false then (.deviceNotReady, s)
  else (.success, s.writeClkGate core.con core.leafGateMask 0)

def assertCoreReset : NtStatus × Ccu :=
  if s.cruMapped = false then (.deviceNotReady, s)
  else (.success, s.writeSoftRst core.con core.coreResetBit core.coreResetBit)

def deassertCoreReset : NtStatus × Ccu :=
  if s.cruMapped = false then (.deviceNotReady, s)
  else (.success, s.writeSoftRst core.con core.coreResetBit 0)

/-- `RkMppCcuFullCoreReset0` and `1`, of which only the first selects its clocks again. -/
def fullCoreReset : NtStatus × Ccu :=
  if s.cruMapped = false then (.deviceNotReady, s)
  else
    let s := (s.powerOff core.domain (a.idled core.domain)).2
    let s := s.assertReset core.con
    let s := match core with
      | .rvd0 => s.selectRkvdec0Clocks
      | .rvd1 => s
    let s := s.ungateClocks core.con
    let s := s.deassertReset core.con
    s.powerOn core.domain (a.on core.domain)

/-- `RkMppCcuFullAv1Reset`. -/
def fullAv1Reset : NtStatus × Ccu :=
  if s.cruMapped = false then (.deviceNotReady, s)
  else
    let s := (s.idleRequest .av1 true).2
    let s := s.assertReset .con68
    let s := s.deassertReset .con68
    let s := (s.idleRequest .av1 false).2
    (.success, s)

end Ccu

end Interface

section Bundles

/-- The clocks and resets that a domain's bus needs. -/
def Domain.bundle : Domain → Option Con
  | .vcodec => none
  | .vdpu => none
  | .rkvdec0 => some .con40
  | .rkvdec1 => some .con41
  | .av1 => some .con68

/-- What the hardware asks for in a handshake with a domain. -/
def Live (d : Domain) (r : Regs) : Prop :=
  match d.bundle with
  | none => True
  | some con => r.clkGate con &&& clkGateMask con = 0 ∧ r.softRst con &&& softRstMask con = 0 ∧
      r.requested .vcodec = true ∧ r.requested .vdpu = true

instance Live.decidable (d : Domain) (r : Regs) : Decidable (Live d r) :=
  match h : d.bundle with
  | none => isTrue (by rw [Live, h]; trivial)
  | some con => decidable_of_iff
      (r.clkGate con &&& clkGateMask con = 0 ∧ r.softRst con &&& softRstMask con = 0 ∧
        r.requested .vcodec = true ∧ r.requested .vdpu = true) (by rw [Live, h])

namespace Ccu

variable {s : Ccu} {con con' : Con} {d : Domain} {answer : OnAnswer} {idled idle : Bool} {n : Int}
  {mask value : BitVec 16}

/-- The gate bits of a bundle that are set, and its reset bits. -/
def gated (s : Ccu) (con : Con) : BitVec 16 := s.regs.clkGate con &&& clkGateMask con
def held (s : Ccu) (con : Con) : BitVec 16 := s.regs.softRst con &&& softRstMask con

/-- Every handshake so far was with live clocks. -/
def Handshaken (s : Ccu) : Prop := ∀ h ∈ s.handshakes, Live h.1 h.2

instance (s : Ccu) : Decidable s.Handshaken :=
  inferInstanceAs (Decidable (∀ h ∈ s.handshakes, Live h.1 h.2))

@[simp] theorem gated_ungateClocks :
    (s.ungateClocks con').gated con = if con = con' then 0 else s.gated con := by
  simp only [gated, ungateClocks, writeClkGate, Function.update_apply]
  split
  · rename_i heq
    simp [heq, hiwordWrite_and]
  · rfl

@[simp] theorem gated_gateClocks :
    (s.gateClocks con').gated con = if con = con' then clkGateMask con else s.gated con := by
  simp only [gated, gateClocks, writeClkGate, Function.update_apply]
  split
  · rename_i heq
    rw [heq, hiwordWrite_and, BitVec.and_self]
  · rfl

@[simp] theorem held_deassertReset :
    (s.deassertReset con').held con = if con = con' then 0 else s.held con := by
  simp only [held, deassertReset, writeSoftRst, Function.update_apply]
  split
  · rename_i heq
    simp [heq, hiwordWrite_and]
  · rfl

@[simp] theorem held_assertReset :
    (s.assertReset con').held con = if con = con' then softRstMask con else s.held con := by
  simp only [held, assertReset, writeSoftRst, Function.update_apply]
  split
  · rename_i heq
    rw [heq, hiwordWrite_and, BitVec.and_self]
  · rfl

@[simp] theorem gated_deassertReset : (s.deassertReset con').gated con = s.gated con := rfl
@[simp] theorem gated_assertReset : (s.assertReset con').gated con = s.gated con := rfl
@[simp] theorem gated_selectRkvdec0Clocks : s.selectRkvdec0Clocks.gated con = s.gated con := rfl
@[simp] theorem gated_selectAv1Clocks : s.selectAv1Clocks.gated con = s.gated con := rfl
@[simp] theorem gated_setRaise : (s.setRaise n).gated con = s.gated con := rfl
@[simp] theorem gated_setAv1 : (s.setAv1 n).gated con = s.gated con := rfl
@[simp] theorem gated_setParents : (s.setParents n).gated con = s.gated con := rfl
@[simp] theorem gated_powerOn : (s.powerOn d answer).2.gated con = s.gated con := by simp [gated]
@[simp] theorem gated_powerOff : (s.powerOff d idled).2.gated con = s.gated con := by simp [gated]
@[simp] theorem gated_idleRequest : (s.idleRequest d idle).2.gated con = s.gated con := by
  simp [gated]

@[simp] theorem held_ungateClocks : (s.ungateClocks con').held con = s.held con := rfl
@[simp] theorem held_gateClocks : (s.gateClocks con').held con = s.held con := rfl
@[simp] theorem held_selectRkvdec0Clocks : s.selectRkvdec0Clocks.held con = s.held con := rfl
@[simp] theorem held_selectAv1Clocks : s.selectAv1Clocks.held con = s.held con := rfl
@[simp] theorem held_setRaise : (s.setRaise n).held con = s.held con := rfl
@[simp] theorem held_setAv1 : (s.setAv1 n).held con = s.held con := rfl
@[simp] theorem held_setParents : (s.setParents n).held con = s.held con := rfl
@[simp] theorem held_powerOn : (s.powerOn d answer).2.held con = s.held con := by simp [held]
@[simp] theorem held_powerOff : (s.powerOff d idled).2.held con = s.held con := by simp [held]
@[simp] theorem held_idleRequest : (s.idleRequest d idle).2.held con = s.held con := by simp [held]

@[simp] theorem handshaken_writeSoftRst : (s.writeSoftRst con' mask value).Handshaken ↔
    s.Handshaken := Iff.rfl
@[simp] theorem handshaken_ungateClocks : (s.ungateClocks con').Handshaken ↔ s.Handshaken := Iff.rfl
@[simp] theorem handshaken_gateClocks : (s.gateClocks con').Handshaken ↔ s.Handshaken := Iff.rfl
@[simp] theorem handshaken_deassertReset : (s.deassertReset con').Handshaken ↔
    s.Handshaken := Iff.rfl
@[simp] theorem handshaken_assertReset : (s.assertReset con').Handshaken ↔ s.Handshaken := Iff.rfl
@[simp] theorem handshaken_selectRkvdec0Clocks : s.selectRkvdec0Clocks.Handshaken ↔
    s.Handshaken := Iff.rfl
@[simp] theorem handshaken_selectAv1Clocks : s.selectAv1Clocks.Handshaken ↔ s.Handshaken := Iff.rfl
@[simp] theorem handshaken_setRaise : (s.setRaise n).Handshaken ↔ s.Handshaken := Iff.rfl
@[simp] theorem handshaken_setAv1 : (s.setAv1 n).Handshaken ↔ s.Handshaken := Iff.rfl
@[simp] theorem handshaken_setParents : (s.setParents n).Handshaken ↔ s.Handshaken := Iff.rfl

theorem handshaken_record : (s.record d).Handshaken ↔ s.Handshaken ∧ Live d s.regs := by
  simp [Handshaken, record, or_imp, forall_and]

@[simp] theorem handshaken_powerOn : (s.powerOn d answer).2.Handshaken ↔ s.Handshaken ∧
    Live d s.regs := by
  rw [← handshaken_record]
  unfold powerOn
  dsimp only
  repeat' split
  all_goals rfl

@[simp] theorem handshaken_powerOff : (s.powerOff d idled).2.Handshaken ↔ s.Handshaken ∧
    Live d s.regs := by
  rw [← handshaken_record]
  unfold powerOff
  dsimp only
  repeat' split
  all_goals rfl

@[simp] theorem handshaken_idleRequest :
    (s.idleRequest d idle).2.Handshaken ↔ s.Handshaken ∧ Live d s.regs := by
  rw [← handshaken_record]
  unfold idleRequest
  dsimp only
  repeat' split
  all_goals rfl

end Ccu

end Bundles

section Parents

variable {s : Ccu} {a : Answers} {con : Con} {r : Regs}

@[simp] theorem live_vcodec : Live .vcodec r := trivial
@[simp] theorem live_vdpu : Live .vdpu r := trivial

@[simp] theorem live_rkvdec0 : Live .rkvdec0 s.regs ↔
    s.gated .con40 = 0 ∧ s.held .con40 = 0 ∧ s.requested .vcodec = true ∧
    s.requested .vdpu = true := Iff.rfl

@[simp] theorem live_rkvdec1 : Live .rkvdec1 s.regs ↔
    s.gated .con41 = 0 ∧ s.held .con41 = 0 ∧ s.requested .vcodec = true ∧
    s.requested .vdpu = true := Iff.rfl

@[simp] theorem live_av1 : Live .av1 s.regs ↔
    s.gated .con68 = 0 ∧ s.held .con68 = 0 ∧ s.requested .vcodec = true ∧
    s.requested .vdpu = true := Iff.rfl

namespace Ccu

@[simp] theorem handshaken_raiseParents : (s.raiseParents a).2.Handshaken ↔ s.Handshaken := by
  unfold raiseParents
  dsimp only
  repeat' split
  all_goals simp

theorem gated_raiseParents (hcon : con ≠ .con44) :
    (s.raiseParents a).2.gated con = s.gated con := by
  unfold raiseParents
  dsimp only
  repeat' split
  all_goals simp [hcon]

theorem held_raiseParents (hcon : con ≠ .con44) : (s.raiseParents a).2.held con = s.held con := by
  unfold raiseParents
  dsimp only
  repeat' split
  all_goals simp [hcon]

@[simp] theorem handshaken_dropParents : (s.dropParents a).Handshaken ↔ s.Handshaken := by
  unfold dropParents
  dsimp only
  split <;> simp

theorem gated_dropParents (hcon : con ≠ .con44) : (s.dropParents a).gated con = s.gated con := by
  unfold dropParents
  dsimp only
  split <;> simp [hcon]

theorem held_dropParents (hcon : con ≠ .con44) : (s.dropParents a).held con = s.held con := by
  unfold dropParents
  dsimp only
  split <;> simp [hcon]

/-- With whatever answers, a raise of the parents that succeeds has both of them on. -/
theorem raiseParents_on (hcount : s.parentsRefcount = 0 ∨ s.parentsRefcount = 1)
    (hon : 0 < s.parentsRefcount → s.requested .vcodec = true ∧ s.requested .vdpu = true)
    (hsuccess : (s.raiseParents a).1 = .success) :
    (s.raiseParents a).2.toGlobals = { s.toGlobals with parentsRefcount := s.parentsRefcount + 1 } ∧
    (s.raiseParents a).2.requested .vcodec = true ∧
    (s.raiseParents a).2.requested .vdpu = true := by
  rcases hcount with hnone | hone
  · cases hpmu : s.pmuMapped with
    | false => exact absurd hsuccess (raiseParents_unmapped hnone hpmu).1
    | true =>
      have hgood : (a.on .vcodec).Good .vcodec ∧ (a.on .vdpu).Good .vdpu := by
        by_contra hbad
        exact (raiseParents_fails hnone hpmu hbad).1 hsuccess
      obtain ⟨-, hglobals, hrequested⟩ := raiseParents_first hnone hpmu hgood.1 hgood.2
      rw [hglobals, hnone, hrequested, hrequested]
      exact ⟨rfl, rfl, rfl⟩
  · rw [raiseParents_shared hone, hone]
    exact ⟨rfl, hon (by omega)⟩

theorem raiseParents_off (hfail : (s.raiseParents a).1 ≠ .success)
    (hcount : s.parentsRefcount = 0 ∨ s.parentsRefcount = 1) :
    s.parentsRefcount = 0 ∧ (s.raiseParents a).2.toGlobals = s.toGlobals := by
  rcases hcount with hnone | hone
  · refine ⟨hnone, ?_⟩
    cases hpmu : s.pmuMapped with
    | false => exact (raiseParents_unmapped hnone hpmu).2.globals
    | true =>
      apply (raiseParents_fails hnone hpmu _).2.1
      intro hgood
      exact hfail (raiseParents_first hnone hpmu hgood.1 hgood.2).1
  · rw [raiseParents_shared hone] at hfail
    exact absurd rfl hfail

end Ccu

end Parents

section Calls

/-- The parents are counted once for each cluster that is up, and on while they are counted. -/
structure Counted (s : Ccu) : Prop where
  parents : s.parentsRefcount =
    (if 0 < s.raiseRefcount then 1 else 0) + (if 0 < s.av1Refcount then 1 else 0)
  on : 0 < s.parentsRefcount → s.requested .vcodec = true ∧ s.requested .vdpu = true

/-- A call touches no bundle but its own. -/
structure Apart (s s' : Ccu) (own : Con → Prop) : Prop where
  gated : ∀ con, con ≠ .con44 → ¬own con → s'.gated con = s.gated con
  held : ∀ con, con ≠ .con44 → ¬own con → s'.held con = s.held con

variable {s : Ccu} {a : Answers} {core : Core}

namespace Ccu

theorem requested_dropParents_shared {d : Domain} (hshared : s.parentsRefcount = 2) :
    (s.dropParents a).requested d = s.requested d := by
  simp [requested_dropParents, hshared]

theorem raiseAv1Cluster_apart : Apart s (s.raiseAv1Cluster a).2 (· = .con68) := by
  constructor
  all_goals
    intro con hparent hown
    unfold raiseAv1Cluster
    dsimp only
    repeat' split
    all_goals simp [gated_dropParents, gated_raiseParents, held_dropParents, held_raiseParents,
      hparent, hown]

theorem raiseCluster_apart :
    Apart s (s.raiseCluster a).2 (fun con => con = .con40 ∨ con = .con41) := by
  constructor
  all_goals
    intro con hparent hown
    obtain ⟨h40, h41⟩ := not_or.mp hown
    unfold raiseCluster
    dsimp only
    repeat' split
    all_goals simp [gated_dropParents, gated_raiseParents, held_dropParents, held_raiseParents,
      hparent, h40, h41]

theorem dropAv1Cluster_apart : Apart s (s.dropAv1Cluster a).2 (· = .con68) := by
  constructor
  all_goals
    intro con hparent hown
    unfold dropAv1Cluster
    dsimp only
    repeat' split
    all_goals simp [gated_dropParents, held_dropParents, hparent, hown]

theorem dropCluster_apart :
    Apart s (s.dropCluster a).2 (fun con => con = .con40 ∨ con = .con41) := by
  constructor
  all_goals
    intro con hparent hown
    obtain ⟨h40, h41⟩ := not_or.mp hown
    unfold dropCluster
    dsimp only
    repeat' split
    all_goals simp [gated_dropParents, held_dropParents, hparent, h40, h41]

end Ccu

theorem Counted.parents_of (h : Counted s) (c : Cluster) : s.parentsRefcount =
    (if 0 < c.refcount s.toGlobals then 1 else 0) +
    (if 0 < c.other.refcount s.toGlobals then 1 else 0) := by
  cases c with
  | rkvdec => exact h.parents
  | av1 => rw [h.parents, Int.add_comm]; rfl

theorem Counted.of (c : Cluster) (hparents : s.parentsRefcount =
      (if 0 < c.refcount s.toGlobals then 1 else 0) +
      (if 0 < c.other.refcount s.toGlobals then 1 else 0))
    (hon : 0 < s.parentsRefcount → s.requested .vcodec = true ∧ s.requested .vdpu = true) :
    Counted s where
  parents := by
    cases c with
    | rkvdec => exact hparents
    | av1 => rw [hparents, Int.add_comm]; rfl
  on := hon

theorem Counted.none_or_one {c : Cluster} (h : Counted s) (hdown : c.refcount s.toGlobals = 0) :
    s.parentsRefcount = 0 ∨ s.parentsRefcount = 1 := by
  have hparents := h.parents_of c
  rw [hdown] at hparents
  split at hparents <;> split at hparents <;> omega

theorem Counted.one_or_two {c : Cluster} (h : Counted s) (hup : 0 < c.refcount s.toGlobals) :
    s.parentsRefcount = 1 ∨ s.parentsRefcount = 2 := by
  have hparents := h.parents_of c
  rw [if_pos hup] at hparents
  split at hparents <;> omega

variable {s' u : Ccu} {c : Cluster}

theorem Counted.raised (h : Counted s) (hdown : c.refcount s.toGlobals = 0)
    (hglobals : s'.toGlobals = ((s.setRefcount 1 c).setParents (s.parentsRefcount + 1)).toGlobals)
    (hon : s'.requested .vcodec = true ∧ s'.requested .vdpu = true) : Counted s' := by
  have hnew : s'.parentsRefcount = s.parentsRefcount + 1 := by rw [hglobals, Ccu.globals_setParents]
  have hparents := h.parents_of c
  rw [hdown] at hparents
  refine Counted.of c ?_ fun _ => hon
  rw [hnew, hglobals, refcount_setParents, refcount_setParents, refcount_setRefcount,
    refcount_other_setRefcount]
  omega

/-- The rollback gives the parents back. -/
theorem Counted.restored (h : Counted s) (hdown : c.refcount s.toGlobals = 0)
    (hglobals : u.toGlobals = { s.toGlobals with parentsRefcount := s.parentsRefcount + 1 })
    (hon : u.requested .vcodec = true ∧ u.requested .vdpu = true) :
    Counted (u.dropParents a) ∧ (u.dropParents a).toGlobals = s.toGlobals := by
  have hcount := h.none_or_one hdown
  have hback : long (u.parentsRefcount - 1) = s.parentsRefcount := by
    rw [hglobals]
    exact (long_eq (by simp only; omega) (by simp only; omega)).trans (by simp)
  have hsame : (u.dropParents a).toGlobals = s.toGlobals := by
    rw [Ccu.globals_dropParents, hback, hglobals]
  refine ⟨⟨?_, ?_⟩, hsame⟩
  · rw [hsame]
    exact h.parents
  · rw [hsame]
    intro hpos
    have hshared : u.parentsRefcount = 2 := by
      rw [hglobals]
      simp only
      omega
    rwa [Ccu.requested_dropParents_shared hshared, Ccu.requested_dropParents_shared hshared]

def Cluster.bundles : Cluster → List Con
  | rkvdec => [.con40, .con41]
  | av1 => [.con68]

/-- What a raise of a cluster that is down leaves behind, with whatever answers. -/
structure RaiseOutcome (c : Cluster) (s s' : Ccu) (status : NtStatus) : Prop where
  counted : Counted s'
  up : status = .success → s.cruMapped = true ∧
    s'.toGlobals = ((s.setRefcount 1 c).setParents (s.parentsRefcount + 1)).toGlobals
  fresh : status = .success → ∀ con ∈ c.bundles, s'.gated con = 0 ∧ s'.held con = 0
  down : status ≠ .success → s'.toGlobals = s.toGlobals
  handshaken : s'.Handshaken ↔ s.Handshaken

theorem RaiseOutcome.parentsFail (h : Counted s) (hdown : c.refcount s.toGlobals = 0)
    (hfail : (s.raiseParents a).1 ≠ .success) :
    RaiseOutcome c s (s.raiseParents a).2 (s.raiseParents a).1 := by
  obtain ⟨hnone, hglobals⟩ := Ccu.raiseParents_off hfail (h.none_or_one hdown)
  refine ⟨⟨?_, ?_⟩, fun hstatus => absurd hstatus hfail,
    fun hstatus => absurd hstatus hfail, fun _ => hglobals, Ccu.handshaken_raiseParents⟩
  · rw [hglobals]
    exact h.parents
  · rw [hglobals, hnone]
    omega

theorem RaiseOutcome.unmapped (h : Counted s) : RaiseOutcome c s s .deviceNotReady where
  counted := h
  up := by simp
  fresh := by simp
  down := fun _ => rfl
  handshaken := Iff.rfl

/-- The raise goes through. -/
theorem RaiseOutcome.raised (h : Counted s) (hdown : c.refcount s.toGlobals = 0)
    (hcru : s.cruMapped = true)
    (hraised : u.toGlobals = { s.toGlobals with parentsRefcount := s.parentsRefcount + 1 })
    (hon : u.requested .vcodec = true ∧ u.requested .vdpu = true)
    (hfresh : ∀ con ∈ c.bundles, u.gated con = 0 ∧ u.held con = 0)
    (hshaken : u.Handshaken ↔ s.Handshaken) :
    RaiseOutcome c s (u.setRefcount 1 c) .success := by
  have hnew : (u.setRefcount 1 c).toGlobals =
      ((s.setRefcount 1 c).setParents (s.parentsRefcount + 1)).toGlobals := by
    cases c <;> simp [Ccu.setRefcount, hraised]
  refine ⟨h.raised hdown hnew ?_, fun _ => ⟨hcru, hnew⟩, fun _ con hcon => ?_,
    fun hfail => absurd rfl hfail, ?_⟩
  · cases c <;> exact hon
  · cases c <;> exact hfresh con hcon
  · cases c <;> exact hshaken

/-- A core does not come up, and the raise is rolled back. -/
theorem RaiseOutcome.rolledBack {status : NtStatus} (h : Counted s)
    (hdown : c.refcount s.toGlobals = 0) (hfail : status ≠ .success)
    (hraised : u.toGlobals = { s.toGlobals with parentsRefcount := s.parentsRefcount + 1 })
    (hon : u.requested .vcodec = true ∧ u.requested .vdpu = true)
    (hshaken : u.Handshaken ↔ s.Handshaken) : RaiseOutcome c s (u.dropParents a) status := by
  obtain ⟨hcounted, hsame⟩ := h.restored hdown hraised hon
  exact ⟨hcounted, fun hsuccess => absurd hsuccess hfail, fun hsuccess => absurd hsuccess hfail,
    fun _ => hsame, Ccu.handshaken_dropParents.trans hshaken⟩

theorem raiseAv1Cluster_outcome (h : Counted s) (hdown : s.av1Refcount = 0) :
    RaiseOutcome .av1 s (s.call a (.raise .av1)).2 (s.call a (.raise .av1)).1 := by
  have hcluster : Cluster.refcount s.toGlobals .av1 = 0 := hdown
  cases hcru : s.cruMapped with
  | false =>
    have hcall : s.call a (.raise .av1) = (.deviceNotReady, s) := by
      simp [Ccu.call, Ccu.raiseAv1Cluster, hcru]
    rw [hcall]
    exact RaiseOutcome.unmapped h
  | true =>
    by_cases hstatus : (s.raiseParents a).1 = .success
    · obtain ⟨hglobals, hon⟩ := Ccu.raiseParents_on (h.none_or_one hcluster) h.on hstatus
      set up :=
        ((s.raiseParents a).2.selectAv1Clocks.ungateClocks .con68).deassertReset .con68 with hup
      by_cases hpower : (up.powerOn .av1 (a.on .av1)).1 = .success
      · have hcall : s.call a (.raise .av1) =
            (.success, (up.powerOn .av1 (a.on .av1)).2.setAv1 1) := by
          simp only [Ccu.call, Ccu.raiseAv1Cluster, hcru, hdown, hstatus, ← hup, hpower, ne_eq,
            not_true_eq_false, reduceIte, Bool.true_eq_false, Int.lt_irrefl]
        rw [hcall]
        refine RaiseOutcome.raised h hcluster hcru ?_ ?_ ?_ ?_
        · simp [hup, hglobals]
        · simpa [hup] using hon
        · simp [Cluster.bundles, hup]
        · simp [hup, hon]
      · have hcall : s.call a (.raise .av1) = ((up.powerOn .av1 (a.on .av1)).1,
            ((up.powerOn .av1 (a.on .av1)).2.gateClocks .con68).dropParents a) := by
          simp only [Ccu.call, Ccu.raiseAv1Cluster, hcru, hdown, hstatus, ← hup, hpower, ne_eq,
            not_true_eq_false, not_false_eq_true, reduceIte, Bool.true_eq_false, Int.lt_irrefl]
        rw [hcall]
        refine RaiseOutcome.rolledBack h hcluster hpower ?_ ?_ ?_
        · simp [hup, hglobals]
        · simpa [hup] using hon
        · simp [hup, hon]
    · rw [Ccu.raise_parentsFail hcru hcluster hstatus]
      exact RaiseOutcome.parentsFail h hcluster hstatus

theorem raiseCluster_outcome (h : Counted s) (hdown : s.raiseRefcount = 0) :
    RaiseOutcome .rkvdec s (s.call a (.raise .rkvdec)).2 (s.call a (.raise .rkvdec)).1 := by
  have hcluster : Cluster.refcount s.toGlobals .rkvdec = 0 := hdown
  cases hcru : s.cruMapped with
  | false =>
    have hcall : s.call a (.raise .rkvdec) = (.deviceNotReady, s) := by
      simp [Ccu.call, Ccu.raiseCluster, hcru]
    rw [hcall]
    exact RaiseOutcome.unmapped h
  | true =>
    by_cases hstatus : (s.raiseParents a).1 = .success
    · obtain ⟨hglobals, hon⟩ := Ccu.raiseParents_on (h.none_or_one hcluster) h.on hstatus
      set up :=
        ((s.raiseParents a).2.selectRkvdec0Clocks.ungateClocks .con40).deassertReset .con40 with hup
      by_cases hfirst : (up.powerOn .rkvdec0 (a.on .rkvdec0)).1 = .success
      · set up' := ((up.powerOn .rkvdec0 (a.on .rkvdec0)).2.ungateClocks .con41).deassertReset
          .con41 with hup'
        by_cases hsecond : (up'.powerOn .rkvdec1 (a.on .rkvdec1)).1 = .success
        · have hcall : s.call a (.raise .rkvdec) =
              (.success, (up'.powerOn .rkvdec1 (a.on .rkvdec1)).2.setRaise 1) := by
            simp only [Ccu.call, Ccu.raiseCluster, hcru, hdown, hstatus, ← hup, hfirst, ← hup',
              hsecond, ne_eq, not_true_eq_false, reduceIte, Bool.true_eq_false, Int.lt_irrefl]
          rw [hcall]
          refine RaiseOutcome.raised h hcluster hcru ?_ ?_ ?_ ?_
          · simp [hup', hup, hglobals]
          · simpa [hup', hup] using hon
          · simp [Cluster.bundles, hup', hup]
          · simp [hup', hup, hon]
        · have hcall : s.call a (.raise .rkvdec) = ((up'.powerOn .rkvdec1 (a.on .rkvdec1)).1,
              ((((((up'.powerOn .rkvdec1 (a.on .rkvdec1)).2.assertReset .con41).gateClocks
                .con41).powerOff .rkvdec0 (a.idled .rkvdec0)).2.assertReset .con40).gateClocks
                .con40).dropParents a) := by
            simp only [Ccu.call, Ccu.raiseCluster, hcru, hdown, hstatus, ← hup, hfirst, ← hup',
              hsecond, ne_eq, not_true_eq_false, not_false_eq_true, reduceIte, Bool.true_eq_false,
              Int.lt_irrefl]
          rw [hcall]
          refine RaiseOutcome.rolledBack h hcluster hsecond ?_ ?_ ?_
          · simp [hup', hup, hglobals]
          · simpa [hup', hup] using hon
          · simp [hup', hup, hon]
      · have hcall : s.call a (.raise .rkvdec) = ((up.powerOn .rkvdec0 (a.on .rkvdec0)).1,
            (((up.powerOn .rkvdec0 (a.on .rkvdec0)).2.assertReset .con40).gateClocks
              .con40).dropParents a) := by
          simp only [Ccu.call, Ccu.raiseCluster, hcru, hdown, hstatus, ← hup, hfirst, ne_eq,
            not_true_eq_false, not_false_eq_true, reduceIte, Bool.true_eq_false, Int.lt_irrefl]
        rw [hcall]
        refine RaiseOutcome.rolledBack h hcluster hfirst ?_ ?_ ?_
        · simp [hup, hglobals]
        · simpa [hup] using hon
        · simp [hup, hon]
    · rw [Ccu.raise_parentsFail hcru hcluster hstatus]
      exact RaiseOutcome.parentsFail h hcluster hstatus

theorem Counted.counting {n : Int} (h : Counted s) (hup : 0 < c.refcount s.toGlobals) (hn : 0 < n) :
    Counted (s.setRefcount n c) := by
  have hparents := h.parents_of c
  rw [if_pos hup] at hparents
  apply Counted.of c
  · simp [hn, hparents]
  · simpa using h.on

/-- What the last drop of a cluster leaves behind. -/
theorem Counted.dropped (h : Counted s) (hcru : s.cruMapped = true)
    (hlast : c.refcount s.toGlobals = 1) :
    Counted (s.call a (.drop c)).2 ∧ c.refcount (s.call a (.drop c)).2.toGlobals = 0 ∧
    c.other.refcount (s.call a (.drop c)).2.toGlobals = c.other.refcount s.toGlobals := by
  have hcount := h.one_or_two (by omega : 0 < c.refcount s.toGlobals)
  have hparents := h.parents_of c
  rw [hlast] at hparents
  have hglobals := Ccu.globals_drop_last (a := a) hcru hlast
  rw [long_eq (by omega) (by omega)] at hglobals
  have hself : c.refcount (s.call a (.drop c)).2.toGlobals = 0 := by
    rw [hglobals, refcount_setParents, refcount_setRefcount]
  have hother : c.other.refcount (s.call a (.drop c)).2.toGlobals =
      c.other.refcount s.toGlobals := by
    rw [hglobals, refcount_setParents, refcount_other_setRefcount]
  have hnew : (s.call a (.drop c)).2.parentsRefcount = s.parentsRefcount - 1 := by
    rw [hglobals, Ccu.globals_setParents]
  refine ⟨Counted.of c ?_ ?_, hself, hother⟩
  · rw [hnew, hself, hother]
    omega
  · rw [hnew]
    intro hpos
    have hshared : long (s.parentsRefcount - 1) ≠ 0 := by
      rw [long_eq (by omega) (by omega)]
      omega
    have hvcodec : Domain.vcodec ∉ c.domains := fun hmem => Cluster.domains_parent hmem (by simp)
    have hvdpu : Domain.vdpu ∉ c.domains := fun hmem => Cluster.domains_parent hmem (by simp)
    have hon := h.on (by omega)
    simpa [Ccu.requested_drop_last hcru hlast, hshared, hvcodec, hvdpu] using hon

theorem dropAv1Cluster_handshaken (hcru : s.cruMapped = true) (hlast : s.av1Refcount = 1)
    (hheld : s.held .con68 = 0) (hon : s.requested .vcodec = true ∧ s.requested .vdpu = true) :
    (s.dropAv1Cluster a).2.Handshaken ↔ s.Handshaken ∧ s.gated .con68 = 0 := by
  simp [Ccu.dropAv1Cluster, hcru, hlast, hheld, hon]

theorem dropCluster_handshaken (hcru : s.cruMapped = true) (hlast : s.raiseRefcount = 1)
    (hheld : s.held .con40 = 0 ∧ s.held .con41 = 0)
    (hon : s.requested .vcodec = true ∧ s.requested .vdpu = true) :
    (s.dropCluster a).2.Handshaken ↔ s.Handshaken ∧ s.gated .con40 = 0 ∧ s.gated .con41 = 0 := by
  simp [Ccu.dropCluster, hcru, hlast, hheld, hon, Domain.idleReqBit]
  tauto

end Calls

section Resets

variable {s : Ccu} {a : Answers} {core : Core}

/-- A reset of a core needs its clocks, and leaves them running. -/
theorem fullCoreReset_handshaken (hcru : s.cruMapped = true) (hheld : s.held core.con = 0)
    (hon : s.requested .vcodec = true ∧ s.requested .vdpu = true) :
    (s.fullCoreReset core a).2.Handshaken ↔ s.Handshaken ∧ s.gated core.con = 0 := by
  cases core with
  | rvd0 =>
    have hreset : s.held .con40 = 0 := hheld
    simp [Ccu.fullCoreReset, Core.domain, Core.con, hcru, hreset, hon]
  | rvd1 =>
    have hreset : s.held .con41 = 0 := hheld
    simp [Ccu.fullCoreReset, Core.domain, Core.con, hcru, hreset, hon]

theorem fullCoreReset_gated (hcru : s.cruMapped = true) {con : Con} :
    (s.fullCoreReset core a).2.gated con = if con = core.con then 0 else s.gated con := by
  cases core <;> simp [Ccu.fullCoreReset, hcru]

theorem fullCoreReset_held (hcru : s.cruMapped = true) {con : Con} :
    (s.fullCoreReset core a).2.held con = if con = core.con then 0 else s.held con := by
  cases core <;> simp [Ccu.fullCoreReset, hcru] <;> split <;> simp_all

theorem fullCoreReset_globals : (s.fullCoreReset core a).2.toGlobals = s.toGlobals := by
  unfold Ccu.fullCoreReset
  split
  · rfl
  · cases core <;> simp

theorem fullCoreReset_requested {d : Domain} (hparent : d = .vcodec ∨ d = .vdpu) :
    (s.fullCoreReset core a).2.requested d = s.requested d := by
  unfold Ccu.fullCoreReset
  split
  · rfl
  · rcases hparent with rfl | rfl <;> cases core <;> simp [Core.domain]

theorem fullAv1Reset_handshaken (hcru : s.cruMapped = true) (hheld : s.held .con68 = 0)
    (hon : s.requested .vcodec = true ∧ s.requested .vdpu = true) :
    (s.fullAv1Reset).2.Handshaken ↔ s.Handshaken ∧ s.gated .con68 = 0 := by
  simp [Ccu.fullAv1Reset, hcru, hheld, hon]

theorem fullAv1Reset_gated {con : Con} : (s.fullAv1Reset).2.gated con = s.gated con := by
  unfold Ccu.fullAv1Reset
  split
  · rfl
  · simp

theorem fullAv1Reset_held {con : Con} (hheld : s.held .con68 = 0) :
    (s.fullAv1Reset).2.held con = s.held con := by
  unfold Ccu.fullAv1Reset
  split
  · rfl
  · by_cases hcon : con = .con68
    · simp [hcon, hheld]
    · simp [hcon]

theorem fullAv1Reset_globals : (s.fullAv1Reset).2.toGlobals = s.toGlobals := by
  unfold Ccu.fullAv1Reset
  split
  · rfl
  · simp

theorem fullAv1Reset_requested {d : Domain} : (s.fullAv1Reset).2.requested d = s.requested d := by
  unfold Ccu.fullAv1Reset
  split
  · rfl
  · simp

theorem hiwordWrite_within (reg mask value m : BitVec 16) :
    hiwordWrite reg mask value &&& m = hiwordWrite (reg &&& m) (mask &&& m) (value &&& m) := by
  apply BitVec.eq_of_getLsbD_eq
  intro i _
  simp only [BitVec.getLsbD_and, Ccu.getLsbD_hiwordWrite]
  cases mask.getLsbD i <;> cases m.getLsbD i <;> simp

theorem gated_writeClkGate {con con' : Con} {mask value : BitVec 16} :
    (s.writeClkGate con' mask value).gated con =
      if con = con' then hiwordWrite (s.gated con) (mask &&& clkGateMask con)
        (value &&& clkGateMask con)
      else s.gated con := by
  simp only [Ccu.gated, Ccu.writeClkGate, Function.update_apply]
  split
  · rename_i heq
    rw [hiwordWrite_within, heq]
  · rfl

theorem held_writeSoftRst {con con' : Con} {mask value : BitVec 16} :
    (s.writeSoftRst con' mask value).held con =
      if con = con' then hiwordWrite (s.held con) (mask &&& softRstMask con)
        (value &&& softRstMask con)
      else s.held con := by
  simp only [Ccu.held, Ccu.writeSoftRst, Function.update_apply]
  split
  · rename_i heq
    rw [hiwordWrite_within, heq]
  · rfl

/-- The gate bits of a core whose leaf clocks are parked, and of one whose are not. -/
def Core.parkedBits (core : Core) (parked : Bool) : BitVec 16 :=
  if parked then core.leafGateMask else 0

theorem Core.parkedBits_eq_zero {parked : Bool} : core.parkedBits parked = 0 ↔ parked = false := by
  cases core <;> cases parked <;> decide

theorem gateLeafClocks_gated (hcru : s.cruMapped = true) {con : Con} {parked : Bool}
    (hgated : s.gated core.con = core.parkedBits parked) :
    (s.gateLeafClocks core).2.gated con =
    if con = core.con then core.parkedBits true else s.gated con := by
  simp only [Ccu.gateLeafClocks, hcru, Bool.true_eq_false, if_false, gated_writeClkGate]
  split
  · rename_i heq
    rw [heq, hgated]
    cases core <;> cases parked <;> decide
  · rfl

theorem ungateLeafClocks_gated (hcru : s.cruMapped = true) {con : Con} {parked : Bool}
    (hgated : s.gated core.con = core.parkedBits parked) :
    (s.ungateLeafClocks core).2.gated con = if con = core.con then 0 else s.gated con := by
  simp only [Ccu.ungateLeafClocks, hcru, Bool.true_eq_false, if_false, gated_writeClkGate]
  split
  · rename_i heq
    rw [heq, hgated]
    cases core <;> cases parked <;> decide
  · rfl

/-- A pulse on the core resets leaves them released. -/
theorem pulse_held (hheld : s.held core.con = 0) {con : Con} :
    ((s.assertCoreReset core).2.deassertCoreReset core).2.held con = s.held con := by
  unfold Ccu.deassertCoreReset Ccu.assertCoreReset
  by_cases hcru : s.cruMapped = true
  · simp only [hcru, Bool.true_eq_false, if_false, Ccu.globals_writeSoftRst, held_writeSoftRst]
    split
    · rename_i heq
      rw [heq, hheld]
      cases core <;> decide
    · rfl
  · simp [hcru]

end Resets

end Rkvdec.Power
