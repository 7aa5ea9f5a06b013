import Rkvdec.Power.Resets

/-! The callbacks of the two drivers that use the interface, in the order the framework makes
them. -/
namespace Rkvdec.Power

section Callbacks

/-- Where the AV1 device is: not prepared, prepared but not in D0, in D0, or out of it again. -/
inductive Phase where
  | absent
  | prepared
  | working
  | exited
deriving DecidableEq

/-- `parked` remembers which core's leaf clocks the last job left stopped. -/
structure Drivers where
  ccu : Ccu
  av1 : Phase := .absent
  present : Core → Bool := fun _ => false
  parked : Core → Bool := fun _ => false

/-- The callbacks with what they find: whether the IOMMU can be enabled or attached again, whether
the device has a profile, which reset a job asks for, and the hardware's answers. -/
inductive Event where
  | av1Prepare (profiled : Bool) (a : Answers)
  | av1D0Entry (enabled : Bool)
  | av1D0Exit
  | av1DrainTimeout
  | av1Release (a : Answers)
  | rvdecPrepare (core : Core) (enabled profiled : Bool) (raise drop reset : Answers)
  | rvd0Connected (enabled reattached : Bool) (a : Answers)
  | jobStart (core : Core) (wide narrow : Bool) (a : Answers)
  | jobComplete (core : Core)
  | sessionEnd (core : Core) (a : Answers)
  | rvdecRelease (core : Core) (a : Answers)

def Core.other : Core → Core
  | rvd0 => rvd1
  | rvd1 => rvd0

namespace Ccu

variable (s : Ccu) (core : Core)

def pulseCoreReset : Ccu := ((s.assertCoreReset core).2.deassertCoreReset core).2

end Ccu

namespace Drivers

variable (s : Drivers) (core : Core) (a : Answers)

/-- What `RkMppEvtPrepareHardware` of the AV1 driver asks of the interface. -/
def av1Prepare (profiled : Bool) : Drivers :=
  let (status, ccu) := s.ccu.raiseAv1Cluster a
  if status ≠ .success then { s with ccu := ccu }
  else { s with ccu := if profiled then ccu.fullAv1Reset.2 else ccu, av1 := .prepared }

def av1D0Entry (enabled : Bool) : Drivers :=
  { s with ccu := s.ccu.ungateAv1LeafClocks.2, av1 := if enabled then .working else .prepared }

def av1D0Exit : Drivers := { s with ccu := s.ccu.gateAv1LeafClocks.2, av1 := .exited }

/-- `RkMppEvtFileCleanup` after a drain that timed out. -/
def av1DrainTimeout : Drivers := { s with ccu := s.ccu.fullAv1Reset.2 }

def av1Release : Drivers := { s with ccu := (s.ccu.dropAv1Cluster a).2, av1 := .absent }

/-- `RkMppEvtPrepareHardware` of the decoder cores; only the first core fails without its IOMMU. -/
def rvdecPrepare (enabled profiled : Bool) (raise drop reset : Answers) : Drivers :=
  let (status, ccu) := s.ccu.raiseCluster raise
  if status ≠ .success then { s with ccu := ccu }
  else if core = .rvd0 ∧ enabled = false then { s with ccu := (ccu.dropCluster drop).2 }
  else if profiled then
    { s with
      ccu := (ccu.fullCoreReset core reset).2.pulseCoreReset core
      present := Function.update s.present core true
      parked := Function.update s.parked core false }
  else { s with ccu := ccu, present := Function.update s.present core true }

/-- `RkMppPeerOnRvd0Connected`. -/
def rvd0Connected (enabled reattached : Bool) : Drivers :=
  if enabled then
    let ccu := (s.ccu.fullCoreReset .rvd1 a).2
    { s with
      ccu := if reattached then ccu.pulseCoreReset .rvd1 else ccu
      parked := Function.update s.parked .rvd1 false }
  else s

/-- The resets and the clocks at the start of `RkMppJobStart`. -/
def jobStart (wide narrow : Bool) : Drivers :=
  let ccu := if wide then (s.ccu.fullCoreReset core a).2 else if narrow then
      s.ccu.pulseCoreReset core else s.ccu
  { s with ccu := (ccu.ungateLeafClocks core).2, parked := Function.update s.parked core false }

/-- `RkMppJobComplete` with no core busy and nothing pending. -/
def jobComplete : Drivers :=
  { s with ccu := (s.ccu.gateLeafClocks core).2, parked := Function.update s.parked core true }

/-- `RkMppEvtFileCleanup` with no other file active. -/
def sessionEnd : Drivers :=
  { s with ccu := (s.ccu.fullCoreReset core a).2, parked := Function.update s.parked core false }

/-- The last release gates the clocks with the cluster. -/
def rvdecRelease : Drivers :=
  { s with
    ccu := (s.ccu.dropCluster a).2
    present := Function.update s.present core false
    parked := if s.present core.other then s.parked else fun _ => false }

def step : Event → Drivers
  | .av1Prepare profiled a => s.av1Prepare a profiled
  | .av1D0Entry enabled => s.av1D0Entry enabled
  | .av1D0Exit => s.av1D0Exit
  | .av1DrainTimeout => s.av1DrainTimeout
  | .av1Release a => s.av1Release a
  | .rvdecPrepare core enabled profiled raise drop reset =>
    s.rvdecPrepare core enabled profiled raise drop reset
  | .rvd0Connected enabled reattached a => s.rvd0Connected a enabled reattached
  | .jobStart core wide narrow a => s.jobStart core a wide narrow
  | .jobComplete core => s.jobComplete core
  | .sessionEnd core a => s.sessionEnd core a
  | .rvdecRelease core a => s.rvdecRelease core a

/-- The protocol of the framework: what may happen when. -/
def Follows : Event → Prop
  | .av1Prepare .. => s.av1 = .absent
  | .av1D0Entry _ => s.av1 = .prepared ∨ s.av1 = .exited
  | .av1D0Exit => s.av1 = .working
  | .av1DrainTimeout => s.av1 ≠ .absent
  | .av1Release _ => s.av1 = .prepared ∨ s.av1 = .exited
  | .rvdecPrepare core .. => s.present core = false
  | .rvd0Connected .. => s.present .rvd0 = true ∨ s.present .rvd1 = true
  | .jobStart core .. => s.present core = true
  | .jobComplete core => s.present core = true
  | .sessionEnd core _ => s.present core = true
  | .rvdecRelease core _ => s.present core = true

/-- Nothing that needs the clocks happens with them stopped: the AV1 device is reset and released
only without a D0 exit behind it, and a core is reset, and the last one released, only while no job
has left it parked. -/
def Clocked : Event → Prop
  | .av1DrainTimeout => s.av1 ≠ .exited
  | .av1Release _ => s.av1 ≠ .exited
  | .rvdecPrepare core enabled profiled _ _ _ =>
    ¬(core = .rvd0 ∧ enabled = false) → profiled = true → s.parked core = false
  | .rvd0Connected enabled _ _ => enabled = true → s.parked .rvd1 = false
  | .jobStart core wide _ _ => wide = true → s.parked core = false
  | .sessionEnd core _ => s.parked core = false
  | .rvdecRelease core _ =>
    s.present core.other = false → s.parked .rvd0 = false ∧ s.parked .rvd1 = false
  | .av1Prepare .. => True
  | .av1D0Entry _ => True
  | .av1D0Exit => True
  | .jobComplete _ => True

instance Follows.decidable : ∀ e, Decidable (s.Follows e)
  | .av1Prepare .. => inferInstanceAs (Decidable (s.av1 = .absent))
  | .av1D0Entry _ | .av1Release _ =>
    inferInstanceAs (Decidable (s.av1 = .prepared ∨ s.av1 = .exited))
  | .av1D0Exit => inferInstanceAs (Decidable (s.av1 = .working))
  | .av1DrainTimeout => inferInstanceAs (Decidable (s.av1 ≠ .absent))
  | .rvdecPrepare core .. => inferInstanceAs (Decidable (s.present core = false))
  | .rvd0Connected .. =>
    inferInstanceAs (Decidable (s.present .rvd0 = true ∨ s.present .rvd1 = true))
  | .jobStart core .. | .jobComplete core | .sessionEnd core _ | .rvdecRelease core _ =>
    inferInstanceAs (Decidable (s.present core = true))

instance Clocked.decidable : ∀ e, Decidable (s.Clocked e)
  | .av1DrainTimeout | .av1Release _ => inferInstanceAs (Decidable (s.av1 ≠ .exited))
  | .rvdecPrepare core enabled profiled _ _ _ => inferInstanceAs (Decidable
      (¬(core = .rvd0 ∧ enabled = false) → profiled = true → s.parked core = false))
  | .rvd0Connected enabled _ _ =>
    inferInstanceAs (Decidable (enabled = true → s.parked .rvd1 = false))
  | .jobStart core wide _ _ => inferInstanceAs (Decidable (wide = true → s.parked core = false))
  | .sessionEnd core _ => inferInstanceAs (Decidable (s.parked core = false))
  | .rvdecRelease core _ => inferInstanceAs (Decidable
      (s.present core.other = false → s.parked .rvd0 = false ∧ s.parked .rvd1 = false))
  | .av1Prepare .. | .av1D0Entry _ | .av1D0Exit | .jobComplete _ =>
    inferInstanceAs (Decidable True)

end Drivers

end Callbacks

section Kept

/-- What the decoder cores keep: their clocks and resets while the cluster is up. -/
structure CoresKept (ccu : Ccu) (present parked : Core → Bool) : Prop where
  count : ccu.raiseRefcount = (if present .rvd0 then 1 else 0) + (if present .rvd1 then 1 else 0)
  mapped : 0 < ccu.raiseRefcount → ccu.cruMapped = true
  gated : 0 < ccu.raiseRefcount → ∀ core : Core, ccu.gated core.con = core.parkedBits (parked core)
  held : 0 < ccu.raiseRefcount → ∀ core : Core, ccu.held core.con = 0
  down : ccu.raiseRefcount = 0 → ∀ core, parked core = false

/-- What the AV1 device keeps. -/
structure Av1Kept (ccu : Ccu) (phase : Phase) : Prop where
  count : ccu.av1Refcount = if phase = .absent then 0 else 1
  mapped : phase ≠ .absent → ccu.cruMapped = true
  gated : phase ≠ .absent → (ccu.gated .con68 = 0 ↔ phase ≠ .exited)
  held : phase ≠ .absent → ccu.held .con68 = 0

structure Kept (s : Drivers) : Prop where
  counted : Counted s.ccu
  cores : CoresKept s.ccu s.present s.parked
  av1 : Av1Kept s.ccu s.av1
  handshaken : s.ccu.Handshaken

variable {s : Drivers} {ccu ccu' : Ccu} {core : Core} {a : Answers} {present parked : Core → Bool}
  {phase : Phase}

theorem Core.con_ne (core : Core) : core.con ≠ .con44 ∧ core.con ≠ .con68 := by
  cases core <;> decide

theorem CoresKept.frame (h : CoresKept ccu present parked) (hcru : ccu'.cruMapped = ccu.cruMapped)
    (hcount : ccu'.raiseRefcount = ccu.raiseRefcount)
    (hgated : ∀ core : Core, ccu'.gated core.con = ccu.gated core.con)
    (hheld : ∀ core : Core, ccu'.held core.con = ccu.held core.con) :
    CoresKept ccu' present parked := by
  constructor
  · rw [hcount]
    exact h.count
  · rw [hcount, hcru]
    exact h.mapped
  · intro hup core
    rw [hgated]
    exact h.gated (hcount ▸ hup) core
  · intro hup core
    rw [hheld]
    exact h.held (hcount ▸ hup) core
  · rw [hcount]
    exact h.down

theorem Av1Kept.frame (h : Av1Kept ccu phase) (hcru : ccu'.cruMapped = ccu.cruMapped)
    (hcount : ccu'.av1Refcount = ccu.av1Refcount) (hgated : ccu'.gated .con68 = ccu.gated .con68)
    (hheld : ccu'.held .con68 = ccu.held .con68) : Av1Kept ccu' phase := by
  constructor
  · rw [hcount]
    exact h.count
  · rw [hcru]
    exact h.mapped
  · rw [hgated]
    exact h.gated
  · rw [hheld]
    exact h.held

theorem Counted.frame (h : Counted ccu) (hglobals : ccu'.toGlobals = ccu.toGlobals)
    (hvcodec : ccu'.requested .vcodec = ccu.requested .vcodec)
    (hvdpu : ccu'.requested .vdpu = ccu.requested .vdpu) : Counted ccu' := by
  constructor
  · rw [hglobals]
    exact h.parents
  · rw [hglobals, hvcodec, hvdpu]
    exact h.on

theorem Kept.on_cores (h : Kept s) (hup : 0 < s.ccu.raiseRefcount) :
    s.ccu.requested .vcodec = true ∧ s.ccu.requested .vdpu = true := by
  apply h.counted.on
  rcases h.counted.one_or_two (c := .rkvdec) hup with hone | htwo
  · omega
  · omega

theorem Kept.on_av1 (h : Kept s) (hpresent : s.av1 ≠ .absent) :
    s.ccu.requested .vcodec = true ∧ s.ccu.requested .vdpu = true := by
  have hone : s.ccu.av1Refcount = 1 := by rw [h.av1.count, if_neg hpresent]
  apply h.counted.on
  rcases h.counted.one_or_two (c := .av1) (by rw [Cluster.refcount, hone]; omega) with hone | htwo
  · omega
  · omega

/-- A callback of the protocol handshakes live just if it is clocked, and then keeps what has to be
kept. -/
structure Steady (s s' : Drivers) (clocked : Prop) : Prop where
  live : s'.ccu.Handshaken ↔ clocked
  kept : s'.ccu.Handshaken → Kept s'

end Kept

section Av1

variable {s : Drivers} {a : Answers} {profiled enabled : Bool}

theorem av1Reset_steady (h : Kept s) (hpresent : s.av1 ≠ .absent) :
    Steady s s.av1DrainTimeout (s.av1 ≠ .exited) := by
  have hcru := h.av1.mapped hpresent
  have hheld := h.av1.held hpresent
  have hlive := fullAv1Reset_handshaken hcru hheld (h.on_av1 hpresent)
  rw [and_iff_right h.handshaken, h.av1.gated hpresent] at hlive
  refine ⟨hlive, fun hhandshaken => ⟨?_, ?_, ?_, hhandshaken⟩⟩
  · exact h.counted.frame fullAv1Reset_globals fullAv1Reset_requested fullAv1Reset_requested
  · exact h.cores.frame (congrArg Globals.cruMapped fullAv1Reset_globals)
      (congrArg Globals.raiseRefcount fullAv1Reset_globals) (fun _ => fullAv1Reset_gated)
      (fun _ => fullAv1Reset_held hheld)
  · exact h.av1.frame (congrArg Globals.cruMapped fullAv1Reset_globals)
      (congrArg Globals.av1Refcount fullAv1Reset_globals) fullAv1Reset_gated
        (fullAv1Reset_held hheld)

theorem av1Raised_kept (h : Kept s) (habsent : s.av1 = .absent)
    (hsuccess : (s.ccu.raiseAv1Cluster a).1 = .success) :
    Kept { s with ccu := (s.ccu.raiseAv1Cluster a).2, av1 := .prepared } := by
  have hdown : s.ccu.av1Refcount = 0 := by rw [h.av1.count, if_pos habsent]
  have houtcome := raiseAv1Cluster_outcome (a := a) h.counted hdown
  obtain ⟨hcru, hglobals⟩ := houtcome.up hsuccess
  have hfresh := houtcome.fresh hsuccess .con68 (by simp [Cluster.bundles])
  have hapart := Ccu.raiseAv1Cluster_apart (s := s.ccu) (a := a)
  have hmapped := congrArg Globals.cruMapped hglobals
  have hcount := congrArg Globals.raiseRefcount hglobals
  refine ⟨houtcome.counted, h.cores.frame hmapped hcount ?_ ?_, ⟨?_, ?_, ?_, ?_⟩,
    houtcome.handshaken.mpr h.handshaken⟩
  · exact fun core => hapart.gated _ core.con_ne.1 core.con_ne.2
  · exact fun core => hapart.held _ core.con_ne.1 core.con_ne.2
  · exact congrArg Globals.av1Refcount hglobals
  · exact fun _ => hmapped.trans hcru
  · exact fun _ => iff_of_true hfresh.1 (by simp)
  · exact fun _ => hfresh.2

theorem av1Prepare_steady (h : Kept s) (habsent : s.av1 = .absent) :
    Steady s (s.av1Prepare a profiled) True := by
  have hdown : s.ccu.av1Refcount = 0 := by rw [h.av1.count, if_pos habsent]
  have houtcome := raiseAv1Cluster_outcome (a := a) h.counted hdown
  by_cases hsuccess : (s.ccu.raiseAv1Cluster a).1 = .success
  · have hraised := av1Raised_kept h habsent hsuccess
    cases profiled with
    | false =>
      have hstep : s.av1Prepare a false =
          { s with ccu := (s.ccu.raiseAv1Cluster a).2, av1 := .prepared } := by
        simp [Drivers.av1Prepare, hsuccess]
      rw [hstep]
      exact ⟨iff_of_true hraised.handshaken trivial, fun _ => hraised⟩
    | true =>
      have hstep : s.av1Prepare a true =
          { s with ccu := (s.ccu.raiseAv1Cluster a).2,
                   av1 := Phase.prepared : Drivers }.av1DrainTimeout := by
        simp [Drivers.av1Prepare, Drivers.av1DrainTimeout, hsuccess]
      have hreset := av1Reset_steady hraised (by simp)
      rw [hstep]
      exact ⟨iff_of_true (hreset.live.mpr (by simp)) trivial, hreset.kept⟩
  · have hglobals := houtcome.down hsuccess
    have hstep : s.av1Prepare a profiled = { s with ccu := (s.ccu.raiseAv1Cluster a).2 } := by
      simp [Drivers.av1Prepare, hsuccess]
    have hapart := Ccu.raiseAv1Cluster_apart (s := s.ccu) (a := a)
    have hhandshaken := houtcome.handshaken.mpr h.handshaken
    rw [hstep]
    refine ⟨iff_of_true hhandshaken trivial,
      fun _ => ⟨houtcome.counted, ?_, ⟨?_, ?_, ?_, ?_⟩, hhandshaken⟩⟩
    · exact h.cores.frame (congrArg Globals.cruMapped hglobals)
        (congrArg Globals.raiseRefcount hglobals)
        (fun core => hapart.gated _ core.con_ne.1 core.con_ne.2)
          (fun core => hapart.held _ core.con_ne.1 core.con_ne.2)
    · exact (congrArg Globals.av1Refcount hglobals).trans h.av1.count
    · exact fun hpresent => absurd habsent hpresent
    · exact fun hpresent => absurd habsent hpresent
    · exact fun hpresent => absurd habsent hpresent

theorem gateAv1_frame {ccu' : Ccu} (h : Kept s) (hhandshaken : ccu'.Handshaken ↔ s.ccu.Handshaken)
    (hglobals : ccu'.toGlobals = s.ccu.toGlobals)
    (hrequested : ∀ d, ccu'.requested d = s.ccu.requested d)
    (hgated : ∀ con, con ≠ .con68 → ccu'.gated con = s.ccu.gated con)
    (hheld : ∀ con, ccu'.held con = s.ccu.held con) {phase : Phase} (hpresent : s.av1 ≠ .absent)
    (hphase : phase ≠ .absent) (hav1 : ccu'.gated .con68 = 0 ↔ phase ≠ .exited) :
    Steady s { s with ccu := ccu', av1 := phase } True := by
  have hnew := hhandshaken.mpr h.handshaken
  refine ⟨iff_of_true hnew trivial, fun _ => ⟨?_, ?_, ⟨?_, ?_, ?_, ?_⟩, hnew⟩⟩
  · exact h.counted.frame hglobals (hrequested _) (hrequested _)
  · exact h.cores.frame (congrArg Globals.cruMapped hglobals)
      (congrArg Globals.raiseRefcount hglobals)
      (fun core => hgated _ core.con_ne.2) (fun core => hheld _)
  · rw [hglobals, h.av1.count, if_neg hpresent, if_neg hphase]
  · rw [hglobals]
    exact fun _ => h.av1.mapped hpresent
  · exact fun _ => hav1
  · rw [hheld]
    exact fun _ => h.av1.held hpresent

theorem av1D0Entry_steady (h : Kept s) (hpresent : s.av1 ≠ .absent) :
    Steady s (s.av1D0Entry enabled) True := by
  have hcru := h.av1.mapped hpresent
  have hcall : s.ccu.ungateAv1LeafClocks.2 = s.ccu.ungateClocks .con68 := by
    simp [Ccu.ungateAv1LeafClocks, hcru]
  unfold Drivers.av1D0Entry
  rw [hcall]
  apply gateAv1_frame h Ccu.handshaken_ungateClocks Ccu.globals_ungateClocks
    (fun _ => Ccu.requested_ungateClocks) _
    (fun _ => Ccu.held_ungateClocks) hpresent
  · cases enabled <;> simp
  · cases enabled <;> simp
  · intro con hcon
    simp [hcon]

theorem av1D0Exit_steady (h : Kept s) (hpresent : s.av1 ≠ .absent) : Steady s s.av1D0Exit True := by
  have hcru := h.av1.mapped hpresent
  have hcall : s.ccu.gateAv1LeafClocks.2 = s.ccu.gateClocks .con68 := by
    simp [Ccu.gateAv1LeafClocks, hcru]
  unfold Drivers.av1D0Exit
  rw [hcall]
  apply gateAv1_frame h Ccu.handshaken_gateClocks Ccu.globals_gateClocks
    (fun _ => Ccu.requested_gateClocks) _
    (fun _ => Ccu.held_gateClocks) hpresent
  · simp
  · simp [clkGateMask]
  · intro con hcon
    simp [hcon]

theorem av1Release_steady (h : Kept s) (hpresent : s.av1 ≠ .absent) :
    Steady s (s.av1Release a) (s.av1 ≠ .exited) := by
  have hcru := h.av1.mapped hpresent
  have hlast : s.ccu.av1Refcount = 1 := by rw [h.av1.count, if_neg hpresent]
  have hlive :=
    dropAv1Cluster_handshaken (a := a) hcru hlast (h.av1.held hpresent) (h.on_av1 hpresent)
  rw [and_iff_right h.handshaken, h.av1.gated hpresent] at hlive
  obtain ⟨hcounted, hzero, hother⟩ := h.counted.dropped (a := a) (c := .av1) hcru hlast
  have hapart := Ccu.dropAv1Cluster_apart (s := s.ccu) (a := a)
  have hmapped := congrArg Globals.cruMapped (Ccu.globals_drop_last (a := a) (c := .av1) hcru hlast)
  refine ⟨hlive, fun hhandshaken => ⟨hcounted, ?_, ⟨hzero, ?_, ?_, ?_⟩, hhandshaken⟩⟩
  · exact h.cores.frame hmapped hother
      (fun core => hapart.gated _ core.con_ne.1 core.con_ne.2)
        (fun core => hapart.held _ core.con_ne.1 core.con_ne.2)
  · exact fun hnone => absurd rfl hnone
  · exact fun hnone => absurd rfl hnone
  · exact fun hnone => absurd rfl hnone

end Av1

section Cores

variable {s : Drivers} {core : Core} {a : Answers}

theorem CoresKept.up {ccu : Ccu} {present parked : Core → Bool} (h : CoresKept ccu present parked)
    (hpresent : present core = true) : 0 < ccu.raiseRefcount := by
  have hcount := h.count
  cases core <;> simp only [hpresent, if_true] at hcount <;> split at hcount <;> omega

theorem Core.other_ne (core : Core) : core.other ≠ core := by
  cases core <;> decide

theorem CoresKept.nonneg {ccu : Ccu} {present parked : Core → Bool}
    (h : CoresKept ccu present parked) :
    0 ≤ ccu.raiseRefcount := by
  rw [h.count]
  split <;> split <;> omega

theorem Core.con_injective {core' : Core} : core'.con = core.con ↔ core' = core := by
  cases core <;> cases core' <;> decide

/-- A reset with the cluster up. -/
theorem coreReset_steady (core : Core) (h : Kept s) (hup : 0 < s.ccu.raiseRefcount) :
    Steady s (s.sessionEnd core a) (s.parked core = false) := by
  have hcru := h.cores.mapped hup
  have hlive := fullCoreReset_handshaken (a := a) hcru (h.cores.held hup core) (h.on_cores hup)
  rw [and_iff_right h.handshaken, h.cores.gated hup core, Core.parkedBits_eq_zero] at hlive
  have hglobals : (s.ccu.fullCoreReset core a).2.toGlobals = s.ccu.toGlobals :=
    fullCoreReset_globals
  have hcount := congrArg Globals.raiseRefcount hglobals
  refine ⟨hlive, fun hhandshaken => ⟨?_, ⟨?_, ?_, ?_, ?_, ?_⟩, ?_, hhandshaken⟩⟩
  · exact h.counted.frame hglobals (fullCoreReset_requested (Or.inl rfl))
      (fullCoreReset_requested (Or.inr rfl))
  · exact hcount.trans h.cores.count
  · exact fun _ => (congrArg Globals.cruMapped hglobals).trans hcru
  · intro _ core'
    simp only [Drivers.sessionEnd, fullCoreReset_gated hcru, Core.con_injective,
      Function.update_apply]
    split
    · rfl
    · exact h.cores.gated hup core'
  · intro _ core'
    simp only [Drivers.sessionEnd, fullCoreReset_held hcru, h.cores.held hup core', ite_self]
  · intro hnone
    have hsame : s.ccu.raiseRefcount = 0 := hcount.symm.trans hnone
    omega
  · exact h.av1.frame (congrArg Globals.cruMapped hglobals) (congrArg Globals.av1Refcount hglobals)
      ((fullCoreReset_gated hcru).trans (if_neg core.con_ne.2.symm))
      ((fullCoreReset_held hcru).trans (if_neg core.con_ne.2.symm))

theorem pulse_handshaken {ccu : Ccu} : (ccu.pulseCoreReset core).Handshaken ↔ ccu.Handshaken := by
  unfold Ccu.pulseCoreReset Ccu.deassertCoreReset Ccu.assertCoreReset
  cases hcru : ccu.cruMapped <;> simp [hcru]

theorem pulse_globals {ccu : Ccu} : (ccu.pulseCoreReset core).toGlobals = ccu.toGlobals := by
  unfold Ccu.pulseCoreReset Ccu.deassertCoreReset Ccu.assertCoreReset
  cases hcru : ccu.cruMapped <;> simp [hcru]

theorem pulse_kept (core : Core) (h : Kept s) (hup : 0 < s.ccu.raiseRefcount) :
    Kept { s with ccu := s.ccu.pulseCoreReset core } := by
  have hcru := h.cores.mapped hup
  have hcall : s.ccu.pulseCoreReset core =
      (s.ccu.writeSoftRst core.con core.coreResetBit core.coreResetBit).writeSoftRst core.con
        core.coreResetBit 0 := by
    simp [Ccu.pulseCoreReset, Ccu.assertCoreReset, Ccu.deassertCoreReset, hcru]
  have hheld : ∀ con, (s.ccu.pulseCoreReset core).held con = s.ccu.held con := fun con =>
    pulse_held (h.cores.held hup core)
  have hglobals : (s.ccu.pulseCoreReset core).toGlobals = s.ccu.toGlobals := pulse_globals
  have hgated : ∀ con, (s.ccu.pulseCoreReset core).gated con = s.ccu.gated con := by
    intro con
    rw [hcall]
    rfl
  refine ⟨?_, ?_, ?_, ?_⟩
  · apply h.counted.frame hglobals
    · rw [hcall]; rfl
    · rw [hcall]; rfl
  · exact h.cores.frame (congrArg Globals.cruMapped hglobals)
      (congrArg Globals.raiseRefcount hglobals)
      (fun _ => hgated _) (fun _ => hheld _)
  · exact h.av1.frame (congrArg Globals.cruMapped hglobals) (congrArg Globals.av1Refcount hglobals)
      (hgated _) (hheld _)
  · rw [hcall]
    exact h.handshaken

/-- The leaf clocks of a core change and nothing else. -/
theorem leaf_kept {ccu' : Ccu} (h : Kept s) (hup : 0 < s.ccu.raiseRefcount) {parked : Bool}
    (hhandshaken : ccu'.Handshaken ↔ s.ccu.Handshaken) (hglobals : ccu'.toGlobals = s.ccu.toGlobals)
    (hrequested : ∀ d, ccu'.requested d = s.ccu.requested d)
    (hheld : ∀ con, ccu'.held con = s.ccu.held con)
    (hgated : ∀ con, ccu'.gated con = if con = core.con then core.parkedBits parked
    else s.ccu.gated con) :
    Kept { s with ccu := ccu', parked := Function.update s.parked core parked } := by
  have hcount := congrArg Globals.raiseRefcount hglobals
  refine ⟨h.counted.frame hglobals (hrequested _) (hrequested _), ⟨?_, ?_, ?_, ?_, ?_⟩, ?_,
    hhandshaken.mpr h.handshaken⟩
  · exact hcount.trans h.cores.count
  · exact fun _ => (congrArg Globals.cruMapped hglobals).trans (h.cores.mapped hup)
  · intro _ core'
    simp only [hgated, Core.con_injective, Function.update_apply]
    split
    · rename_i heq
      rw [heq]
    · exact h.cores.gated hup core'
  · intro _ core'
    rw [hheld]
    exact h.cores.held hup core'
  · intro hnone
    have hsame : s.ccu.raiseRefcount = 0 := hcount.symm.trans hnone
    omega
  · exact h.av1.frame (congrArg Globals.cruMapped hglobals) (congrArg Globals.av1Refcount hglobals)
      ((hgated _).trans (if_neg core.con_ne.2.symm)) (hheld _)

theorem ungateLeaf_kept (core : Core) (h : Kept s) (hup : 0 < s.ccu.raiseRefcount) :
    Kept { s with ccu := (s.ccu.ungateLeafClocks core).2,
                  parked := Function.update s.parked core false } := by
  have hcru := h.cores.mapped hup
  have hcall : (s.ccu.ungateLeafClocks core).2 =
      s.ccu.writeClkGate core.con core.leafGateMask 0 := by
    simp [Ccu.ungateLeafClocks, hcru]
  apply leaf_kept h hup
  · rw [hcall]; rfl
  · rw [hcall]; rfl
  · rw [hcall]; exact fun _ => rfl
  · rw [hcall]; exact fun _ => rfl
  · exact fun con => ungateLeafClocks_gated hcru (h.cores.gated hup core)

theorem gateLeaf_kept (h : Kept s) (hup : 0 < s.ccu.raiseRefcount) : Kept (s.jobComplete core) := by
  have hcru := h.cores.mapped hup
  have hcall : (s.ccu.gateLeafClocks core).2 =
      s.ccu.writeClkGate core.con core.leafGateMask core.leafGateMask := by
    simp [Ccu.gateLeafClocks, hcru]
  apply leaf_kept h hup
  · rw [hcall]; rfl
  · rw [hcall]; rfl
  · rw [hcall]; exact fun _ => rfl
  · rw [hcall]; exact fun _ => rfl
  · exact fun con => gateLeafClocks_gated hcru (h.cores.gated hup core)

theorem jobStart_steady (h : Kept s) (hup : 0 < s.ccu.raiseRefcount) {wide narrow : Bool} :
    Steady s (s.jobStart core a wide narrow) (wide = true → s.parked core = false) := by
  cases wide with
  | true =>
    have hreset := coreReset_steady (a := a) core h hup
    have hstep : s.jobStart core a true narrow =
        { s.sessionEnd core a with
          ccu := ((s.sessionEnd core a).ccu.ungateLeafClocks core).2
          parked := Function.update (s.sessionEnd core a).parked core false } := by
      simp [Drivers.jobStart, Drivers.sessionEnd]
    have hsame : (s.jobStart core a true narrow).ccu.Handshaken ↔
        (s.sessionEnd core a).ccu.Handshaken := by
      rw [hstep]
      unfold Ccu.ungateLeafClocks
      split <;> rfl
    refine ⟨?_, fun hhandshaken => ?_⟩
    · rw [hsame, hreset.live]
      simp
    · have hkept := hreset.kept (hsame.mp hhandshaken)
      rw [hstep]
      apply ungateLeaf_kept core hkept
      rw [Drivers.sessionEnd, fullCoreReset_globals]
      exact hup
  | false =>
    cases narrow with
    | true =>
      have hkept := ungateLeaf_kept core (pulse_kept core h hup)
        (by rw [pulse_globals]; exact hup)
      exact ⟨iff_of_true hkept.handshaken (by simp), fun _ => hkept⟩
    | false =>
      have hkept := ungateLeaf_kept core h hup
      exact ⟨iff_of_true hkept.handshaken (by simp), fun _ => hkept⟩

theorem rvd0Connected_steady (h : Kept s) (hup : 0 < s.ccu.raiseRefcount)
    {enabled reattached : Bool} :
    Steady s (s.rvd0Connected a enabled reattached) (enabled = true → s.parked .rvd1 = false) := by
  cases enabled with
  | false => exact ⟨iff_of_true h.handshaken (by simp), fun _ => h⟩
  | true =>
    have hreset := coreReset_steady (a := a) .rvd1 h hup
    cases reattached with
    | false =>
      have hstep : s.rvd0Connected a true false = s.sessionEnd .rvd1 a := by
        simp [Drivers.rvd0Connected, Drivers.sessionEnd]
      rw [hstep]
      exact ⟨by simpa using hreset.live, hreset.kept⟩
    | true =>
      have hstep : s.rvd0Connected a true true =
          { s.sessionEnd .rvd1 a with ccu := (s.sessionEnd .rvd1 a).ccu.pulseCoreReset .rvd1 } := by
        simp [Drivers.rvd0Connected, Drivers.sessionEnd]
      rw [hstep]
      have hsame : ((s.sessionEnd .rvd1 a).ccu.pulseCoreReset .rvd1).Handshaken ↔
          (s.sessionEnd .rvd1 a).ccu.Handshaken := pulse_handshaken
      refine ⟨by simpa [hsame] using hreset.live, fun hhandshaken => ?_⟩
      apply pulse_kept .rvd1 (hreset.kept (hsame.mp hhandshaken))
      rw [Drivers.sessionEnd, fullCoreReset_globals]
      exact hup

theorem prepared_kept {ccu' : Ccu} (h : Kept s) (hcounted : Counted ccu')
    (hhandshaken : ccu'.Handshaken) (habsent : s.present core = false)
    (hcount : ccu'.raiseRefcount = s.ccu.raiseRefcount + 1) (hmapped : ccu'.cruMapped = true)
    (hgated : ∀ core : Core, ccu'.gated core.con = core.parkedBits (s.parked core))
    (hheld : ∀ core : Core, ccu'.held core.con = 0) (hav1 : Av1Kept ccu' s.av1) :
    Kept { s with ccu := ccu', present := Function.update s.present core true } := by
  refine ⟨hcounted, ⟨?_, fun _ => hmapped, fun _ => hgated, fun _ => hheld, ?_⟩, hav1, hhandshaken⟩
  · rw [hcount, h.cores.count]
    cases core <;> simp [habsent, Int.add_comm]
  · intro hnone
    have hzero : ccu'.raiseRefcount = 0 := hnone
    have hcores := h.cores.nonneg
    omega

theorem Core.bundle (core : Core) : core.con = .con40 ∨ core.con = .con41 := by
  cases core <;> decide

theorem CoresKept.absent {ccu : Ccu} {present parked : Core → Bool}
    (h : CoresKept ccu present parked) (habsent : present core = false) :
    ccu.raiseRefcount = if present core.other then 1 else 0 := by
  rw [h.count]
  cases core with
  | rvd0 =>
    rw [habsent]
    exact Int.zero_add _
  | rvd1 =>
    rw [habsent]
    exact Int.add_zero _

/-- A raise for a core that comes up, with the cluster up or down. -/
theorem rvdecRaised_kept (h : Kept s) (habsent : s.present core = false)
    (hsuccess : (s.ccu.raiseCluster a).1 = .success) :
    Kept { s with
    ccu := (s.ccu.raiseCluster a).2, present := Function.update s.present core true } := by
  by_cases hup : 0 < s.ccu.raiseRefcount
  · have hcru := h.cores.mapped hup
    have hcall := Ccu.raise_up (a := a) (c := .rkvdec) hcru hup
    have hone : s.ccu.raiseRefcount = 1 := by
      have hcount := h.cores.absent habsent
      split at hcount <;> omega
    have hccu : (s.ccu.raiseCluster a).2 = s.ccu.setRaise 2 := by
      have hsnd := congrArg Prod.snd hcall
      simp only [Cluster.refcount, hone] at hsnd
      exact hsnd
    rw [hccu]
    apply prepared_kept h
    · exact h.counted.counting (c := .rkvdec) hup (by decide)
    · exact h.handshaken
    · exact habsent
    · rw [hone]
      rfl
    · exact hcru
    · exact h.cores.gated hup
    · exact h.cores.held hup
    · exact h.av1.frame rfl rfl rfl rfl
  · have hdown : s.ccu.raiseRefcount = 0 := by
      have hlow := h.cores.nonneg
      omega
    have houtcome := raiseCluster_outcome (a := a) h.counted hdown
    obtain ⟨hcru, hglobals⟩ := houtcome.up hsuccess
    have hfresh := houtcome.fresh hsuccess
    have hapart := Ccu.raiseCluster_apart (s := s.ccu) (a := a)
    have hmapped := congrArg Globals.cruMapped hglobals
    have hbundle : ∀ core : Core, core.con ∈ Cluster.rkvdec.bundles := fun core => by
      simp [Cluster.bundles, core.bundle]
    apply prepared_kept h houtcome.counted (houtcome.handshaken.mpr h.handshaken) habsent
    · rw [hdown]
      exact congrArg Globals.raiseRefcount hglobals
    · exact hmapped.trans hcru
    · intro core'
      rw [h.cores.down hdown core']
      exact (hfresh core'.con (hbundle core')).1
    · exact fun core' => (hfresh core'.con (hbundle core')).2
    · have hcount := congrArg Globals.av1Refcount hglobals
      exact h.av1.frame hmapped hcount (hapart.gated _ (by decide) (by decide))
        (hapart.held _ (by decide) (by decide))

theorem CoresKept.count_of {ccu : Ccu} {present parked : Core → Bool}
    (h : CoresKept ccu present parked) (hpresent : present core = true) :
    ccu.raiseRefcount = 1 + if present core.other then 1 else 0 := by
  rw [h.count]
  cases core with
  | rvd0 =>
    rw [hpresent]
    rfl
  | rvd1 =>
    rw [hpresent]
    exact Int.add_comm _ _

theorem CoresKept.count_without (present : Core → Bool) (core : Core) :
    ((if Function.update present core false .rvd0 then 1 else 0) +
      (if Function.update present core false .rvd1 then 1 else 0) : Int) =
    if present core.other then 1 else 0 := by
  cases core with
  | rvd0 => exact Int.zero_add _
  | rvd1 => exact Int.add_zero _

theorem rvdecRelease_steady (h : Kept s) (hpresent : s.present core = true) :
    Steady s (s.rvdecRelease core a)
    (s.present core.other = false → s.parked .rvd0 = false ∧ s.parked .rvd1 = false) := by
  have hup := h.cores.up hpresent
  have hcru := h.cores.mapped hup
  have hcount := h.cores.count_of hpresent
  have hleft := CoresKept.count_without s.present core
  cases hother : s.present core.other with
  | true =>
    rw [hother] at hcount
    have htwo : s.ccu.raiseRefcount = 2 := hcount
    have hcall : (s.ccu.dropCluster a).2 = s.ccu.setRaise 1 := by
      have hdrop :=
        Ccu.drop_counted (a := a) (c := .rkvdec) hcru (by rw [Cluster.refcount, htwo]; decide)
      simp only [Cluster.refcount, htwo] at hdrop
      exact hdrop
    have hstep : s.rvdecRelease core a =
        { s with ccu := s.ccu.setRaise 1, present := Function.update s.present core false } := by
      simp [Drivers.rvdecRelease, hcall, hother]
    rw [hstep]
    refine ⟨iff_of_true h.handshaken (by simp),
      fun _ => ⟨?_, ⟨?_, ?_, ?_, ?_, ?_⟩, ?_, h.handshaken⟩⟩
    · exact h.counted.counting (c := .rkvdec) hup (by decide)
    · rw [hleft, hother]
      rfl
    · exact fun _ => hcru
    · exact fun _ => h.cores.gated hup
    · exact fun _ => h.cores.held hup
    · intro hnone
      exact absurd hnone (by decide : ¬(1 : Int) = 0)
    · exact h.av1.frame rfl rfl rfl rfl
  | false =>
    rw [hother] at hcount
    have hone : s.ccu.raiseRefcount = 1 := hcount
    have hlive :=
      dropCluster_handshaken (a := a) hcru hone ⟨h.cores.held hup .rvd0, h.cores.held hup .rvd1⟩
      (h.on_cores hup)
    have hgated0 : s.ccu.gated .con40 = Core.rvd0.parkedBits (s.parked .rvd0) :=
      h.cores.gated hup .rvd0
    have hgated1 : s.ccu.gated .con41 = Core.rvd1.parkedBits (s.parked .rvd1) :=
      h.cores.gated hup .rvd1
    rw [and_iff_right h.handshaken, hgated0, hgated1, Core.parkedBits_eq_zero,
      Core.parkedBits_eq_zero] at hlive
    obtain ⟨hcounted, hzero, hav1⟩ := h.counted.dropped (a := a) (c := .rkvdec) hcru hone
    have hmapped :=
      congrArg Globals.cruMapped (Ccu.globals_drop_last (a := a) (c := .rkvdec) hcru hone)
    have hapart := Ccu.dropCluster_apart (s := s.ccu) (a := a)
    have hoff : (s.ccu.dropCluster a).2.raiseRefcount = 0 := hzero
    have hstep : s.rvdecRelease core a =
        ⟨(s.ccu.dropCluster a).2, s.av1, Function.update s.present core false, fun _ => false⟩ := by
      simp [Drivers.rvdecRelease, hother]
    rw [hstep]
    refine ⟨by simpa using hlive, fun hhandshaken =>
      ⟨hcounted, ⟨?_, ?_, ?_, ?_, ?_⟩, ?_, hhandshaken⟩⟩
    · rw [hleft, hother]
      exact hoff
    · exact fun hpos => absurd hpos (by rw [hoff]; decide)
    · exact fun hpos => absurd hpos (by rw [hoff]; decide)
    · exact fun hpos => absurd hpos (by rw [hoff]; decide)
    · exact fun _ _ => rfl
    · exact h.av1.frame hmapped hav1 (hapart.gated _ (by decide) (by decide))
        (hapart.held _ (by decide) (by decide))

/-- Only the raise that brings the cluster up can fail. -/
theorem rvdecFailed_down (h : Kept s) (hfail : (s.ccu.raiseCluster a).1 ≠ .success) :
    s.ccu.raiseRefcount = 0 := by
  by_contra hup
  have hlow := h.cores.nonneg
  have hpos : 0 < s.ccu.raiseRefcount := by omega
  have hcall := Ccu.raise_up (a := a) (c := .rkvdec) (h.cores.mapped hpos) hpos
  exact hfail (congrArg Prod.fst hcall)

theorem rvdecFailed_kept (h : Kept s) (hfail : (s.ccu.raiseCluster a).1 ≠ .success) :
    Kept { s with ccu := (s.ccu.raiseCluster a).2 } := by
  have hdown := rvdecFailed_down h hfail
  have houtcome := raiseCluster_outcome (a := a) h.counted hdown
  have hglobals := houtcome.down hfail
  have hoff : (s.ccu.raiseCluster a).2.raiseRefcount = 0 :=
    (congrArg Globals.raiseRefcount hglobals).trans hdown
  have hapart := Ccu.raiseCluster_apart (s := s.ccu) (a := a)
  refine ⟨houtcome.counted, ⟨?_, ?_, ?_, ?_, ?_⟩, ?_, houtcome.handshaken.mpr h.handshaken⟩
  · exact (hoff.trans hdown.symm).trans h.cores.count
  · exact fun hpos => absurd hpos (by rw [hoff]; decide)
  · exact fun hpos => absurd hpos (by rw [hoff]; decide)
  · exact fun hpos => absurd hpos (by rw [hoff]; decide)
  · exact fun _ => h.cores.down hdown
  · exact h.av1.frame (congrArg Globals.cruMapped hglobals) (congrArg Globals.av1Refcount hglobals)
      (hapart.gated _ (by decide) (by decide)) (hapart.held _ (by decide) (by decide))

theorem rvdecPrepare_steady (h : Kept s) (habsent : s.present core = false)
    {enabled profiled : Bool} {raise drop reset : Answers} :
    Steady s (s.rvdecPrepare core enabled profiled raise drop reset)
      (¬(core = .rvd0 ∧ enabled = false) → profiled = true → s.parked core = false) := by
  by_cases hsuccess : (s.ccu.raiseCluster raise).1 = .success
  · have hraised := rvdecRaised_kept h habsent hsuccess
    set raised : Drivers :=
      { s with ccu := (s.ccu.raiseCluster raise).2, present := Function.update s.present core true }
        with hdef
    have hpresent : raised.present core = true := Function.update_self core true s.present
    have hup := hraised.cores.up hpresent
    by_cases hgive : core = .rvd0 ∧ enabled = false
    · have hparked : s.present core.other = false → s.parked = fun _ => false := by
        intro hother
        have hcount := h.cores.absent habsent
        rw [hother] at hcount
        exact funext (h.cores.down hcount)
      have hback : Function.update raised.present core false = s.present := by
        rw [hdef, Function.update_idem, ← habsent, Function.update_eq_self]
      have hother : raised.present core.other = s.present core.other :=
        Function.update_of_ne core.other_ne _ _
      have hstep : s.rvdecPrepare core enabled profiled raise drop reset =
          raised.rvdecRelease core drop := by
        have hcall : s.rvdecPrepare core enabled profiled raise drop reset =
            { s with ccu := ((s.ccu.raiseCluster raise).2.dropCluster drop).2 } := by
          simp [Drivers.rvdecPrepare, hsuccess, hgive]
        rw [hcall, Drivers.rvdecRelease, hback, hother]
        cases hpeer : s.present core.other with
        | true => rfl
        | false => rw [hparked hpeer]; rfl
      have hreleased := rvdecRelease_steady (a := drop) hraised hpresent
      rw [hstep]
      refine ⟨iff_of_true (hreleased.live.mpr ?_) (fun hno => absurd hgive hno), hreleased.kept⟩
      intro hpeer
      rw [hother] at hpeer
      simp [hdef, hparked hpeer]
    · cases profiled with
      | false =>
        have hstep : s.rvdecPrepare core enabled false raise drop reset = raised := by
          simp [Drivers.rvdecPrepare, hsuccess, hgive, hdef]
        rw [hstep]
        exact ⟨iff_of_true hraised.handshaken (by simp), fun _ => hraised⟩
      | true =>
        have hreset := coreReset_steady (a := reset) core hraised hup
        have hstep : s.rvdecPrepare core enabled true raise drop reset =
            { raised.sessionEnd core reset with
            ccu := (raised.sessionEnd core reset).ccu.pulseCoreReset core } := by
          simp [Drivers.rvdecPrepare, hsuccess, hgive, hdef, Drivers.sessionEnd]
        rw [hstep]
        refine ⟨?_, fun hhandshaken => ?_⟩
        · exact (pulse_handshaken.trans hreset.live).trans (by simp [hgive, hdef])
        · apply pulse_kept core (hreset.kept (pulse_handshaken.mp hhandshaken))
          rw [Drivers.sessionEnd, fullCoreReset_globals]
          exact hup
  · have hfailed := rvdecFailed_kept h hsuccess
    have hstep : s.rvdecPrepare core enabled profiled raise drop reset =
        { s with ccu := (s.ccu.raiseCluster raise).2 } := by simp [Drivers.rvdecPrepare, hsuccess]
    rw [hstep]
    exact ⟨iff_of_true hfailed.handshaken fun _ _ => h.cores.down (rvdecFailed_down h hsuccess)
      core, fun _ => hfailed⟩

end Cores

section Runs

variable {s : Drivers}

/-- No device prepared, and the machine cold. -/
structure Fresh (s : Drivers) : Prop where
  cold : Cold s.ccu
  quiet : s.ccu.handshakes = []
  av1 : s.av1 = .absent
  cores : ∀ core, s.present core = false ∧ s.parked core = false

theorem Fresh.kept (h : Fresh s) : Kept s where
  counted :=
    { parents := by rw [h.cold.parents, h.cold.raise, h.cold.av1]; rfl
      on := by rw [h.cold.parents]; exact fun hpos => absurd hpos (by decide) }
  cores :=
    { count := by rw [h.cold.raise, (h.cores .rvd0).1, (h.cores .rvd1).1]; rfl
      mapped := by rw [h.cold.raise]; exact fun hpos => absurd hpos (by decide)
      gated := by rw [h.cold.raise]; exact fun hpos => absurd hpos (by decide)
      held := by rw [h.cold.raise]; exact fun hpos => absurd hpos (by decide)
      down := fun _ core => (h.cores core).2 }
  av1 :=
    { count := by rw [h.cold.av1, h.av1]; rfl
      mapped := fun hpresent => absurd h.av1 hpresent
      gated := fun hpresent => absurd h.av1 hpresent
      held := fun hpresent => absurd h.av1 hpresent }
  handshaken := by simp [Ccu.Handshaken, h.quiet]

theorem step_steady (h : Kept s) (e : Event) (hfollows : s.Follows e) :
    Steady s (s.step e) (s.Clocked e) := by
  have hin : s.av1 = .prepared ∨ s.av1 = .exited → s.av1 ≠ .absent := by
    rintro (hphase | hphase) <;> simp [hphase]
  cases e with
  | av1Prepare profiled a => exact av1Prepare_steady h hfollows
  | av1D0Entry enabled => exact av1D0Entry_steady h (hin hfollows)
  | av1D0Exit => exact av1D0Exit_steady h (by rw [show s.av1 = .working from hfollows]; decide)
  | av1DrainTimeout => exact av1Reset_steady h hfollows
  | av1Release a => exact av1Release_steady h (hin hfollows)
  | rvdecPrepare core enabled profiled raise drop reset => exact rvdecPrepare_steady h hfollows
  | rvd0Connected enabled reattached a =>
    apply rvd0Connected_steady h
    rcases hfollows with hpresent | hpresent
    · exact h.cores.up hpresent
    · exact h.cores.up hpresent
  | jobStart core wide narrow a => exact jobStart_steady h (h.cores.up hfollows)
  | jobComplete core =>
    have hkept : Kept (s.jobComplete core) := gateLeaf_kept h (h.cores.up hfollows)
    exact ⟨iff_of_true hkept.handshaken trivial, fun _ => hkept⟩
  | sessionEnd core a => exact coreReset_steady core h (h.cores.up hfollows)
  | rvdecRelease core a => exact rvdecRelease_steady h hfollows

/-- In a run of the protocol every handshake is made with live clocks just if every callback is
clocked. -/
theorem handshakes_live_iff (hfresh : Fresh s) (events : List Event)
    (hfollows : Lib.Along Drivers.step Drivers.Follows s events) :
    Lib.Along Drivers.step (fun s e => (s.step e).ccu.Handshaken) s events ↔
      Lib.Along Drivers.step Drivers.Clocked s events :=
  Lib.along_congr_within (fun _ e h hallowed => (step_steady h e hallowed).live)
    (fun _ e h hallowed => (step_steady h e hallowed).kept) hfresh.kept hfollows

theorem fresh_coldStart : Fresh { ccu := coldStart } where
  cold := coldStart_cold
  quiet := rfl
  av1 := rfl
  cores := fun _ => ⟨rfl, rfl⟩

theorem handshakes_live_cores :
    Lib.Along Drivers.step (fun s e => (s.step e).ccu.Handshaken) { ccu := coldStart }
      [.rvdecPrepare .rvd0 true true obedient obedient obedient, .av1Prepare true obedient,
        .av1D0Entry true, .jobStart .rvd0 false false obedient,
        .rvdecPrepare .rvd1 true true obedient obedient obedient, .rvd0Connected true true obedient,
        .av1D0Exit, .rvdecRelease .rvd1 obedient, .sessionEnd .rvd0 obedient,
        .rvdecRelease .rvd0 obedient] :=
  (handshakes_live_iff fresh_coldStart _ (by decide +kernel)).mpr (by decide +kernel)

/-- The device leaves D0 before it is released, so that its power-off finds the clocks gated. -/
theorem av1_released_gated :
    Lib.Along Drivers.step Drivers.Follows { ccu := coldStart }
      [.av1Prepare true obedient, .av1D0Entry true, .av1D0Exit, .av1Release obedient] ∧
    ¬Lib.Along Drivers.step (fun s e => (s.step e).ccu.Handshaken) { ccu := coldStart }
      [.av1Prepare true obedient, .av1D0Entry true, .av1D0Exit, .av1Release obedient] := by
  decide +kernel

end Runs

end Rkvdec.Power
