import Rkvdec.Power.Cluster
import Rkvdec.Lib.Trace

/-! The reference counts of the clusters and the power that is requested for them, over every
sequence of raises and drops. -/
namespace Rkvdec.Power

section Calls

/-- The two decoder cores are one cluster, the AV1 decoder is the other. -/
inductive Cluster where
  | rkvdec
  | av1
deriving DecidableEq

namespace Cluster

def other : Cluster → Cluster
  | rkvdec => av1
  | av1 => rkvdec

def domains : Cluster → List Domain
  | rkvdec => [.rkvdec0, .rkvdec1]
  | av1 => [.av1]

def refcount (g : Globals) : Cluster → Int
  | rkvdec => g.raiseRefcount
  | av1 => g.av1Refcount

end Cluster

inductive Call where
  | raise (c : Cluster)
  | drop (c : Cluster)
deriving DecidableEq

namespace Ccu

variable (s : Ccu)

def setRefcount (n : Int) : Cluster → Ccu
  | .rkvdec => s.setRaise n
  | .av1 => s.setAv1 n

def call (a : Answers) : Call → NtStatus × Ccu
  | .raise .rkvdec => s.raiseCluster a
  | .raise .av1 => s.raiseAv1Cluster a
  | .drop .rkvdec => s.dropCluster a
  | .drop .av1 => s.dropAv1Cluster a

/-- A call with the answers that the hardware gives in it. -/
def step (e : Call × Answers) : Ccu := (s.call e.2 e.1).2

end Ccu

/-- The parents are counted once for each cluster that is up, and what is up is requested on. -/
structure Accounts (s : Ccu) : Prop where
  parents : s.parentsRefcount =
    (if 0 < s.raiseRefcount then 1 else 0) + (if 0 < s.av1Refcount then 1 else 0)
  parentsOn : ∀ d ∈ [Domain.vcodec, .vdpu], s.requested d = true ↔ 0 < s.parentsRefcount
  coresOn : ∀ c : Cluster, ∀ d ∈ c.domains, s.requested d = true ↔ 0 < c.refcount s.toGlobals

/-- Nothing of what a raise changes differs. -/
structure Unchanged (s s' : Ccu) : Prop where
  globals : s'.toGlobals = s.toGlobals
  requested : ∀ d, s'.requested d = s.requested d
  clkGate : s'.regs.clkGate = s.regs.clkGate
  softRst : s'.regs.softRst = s.regs.softRst

/-- A step leaves the accounts right, and a raise that fails leaves everything as it was. -/
structure Exact (s : Ccu) (e : Call × Answers) : Prop where
  accounts : Accounts (s.step e)
  undone : ∀ c, e.1 = .raise c → (s.call e.2 e.1).1 ≠ .success → Unchanged s (s.step e)

/-- Everything off, clocks stopped and resets held. -/
structure Cold (s : Ccu) : Prop where
  raise : s.raiseRefcount = 0
  av1 : s.av1Refcount = 0
  parents : s.parentsRefcount = 0
  off : ∀ d, s.requested d = false
  stopped : ∀ con, s.regs.clkGate con &&& clkGateMask con = clkGateMask con
  held : ∀ con, s.regs.softRst con &&& softRstMask con = softRstMask con

end Calls

section Condition

/-- The answers with which a power-on succeeds. -/
def OnAnswer.Good (answer : OnAnswer) (d : Domain) : Prop :=
  answer ≠ .statusTimeout ∧ (answer = .ackTimeout → d.idleReqBit = none)

/-- The parents that a raise switches on. -/
def Ccu.raisedParents (s : Ccu) : List Domain :=
  if s.parentsRefcount = 0 then [.vcodec, .vdpu] else []

/-- The parents with a bus that a drop switches off. -/
def Ccu.droppedParents (s : Ccu) : List Domain := if s.parentsRefcount = 1 then [.vdpu] else []

/-- The hardware heeds the call: every power-on that it needs succeeds, every bus that it switches
off acknowledges, and no count is at its maximum. -/
def Heeded (s : Ccu) (e : Call × Answers) : Prop :=
  s.cruMapped = true → s.pmuMapped = true →
    match e.1 with
    | .raise c =>
      if 0 < c.refcount s.toGlobals then c.refcount s.toGlobals < 2 ^ 31 - 1
      else ∀ d ∈ s.raisedParents ++ c.domains, (e.2.on d).Good d
    | .drop c =>
      c.refcount s.toGlobals = 1 → ∀ d ∈ c.domains ++ s.droppedParents, e.2.idled d = true

instance (answer : OnAnswer) (d : Domain) : Decidable (answer.Good d) :=
  inferInstanceAs
    (Decidable (answer ≠ .statusTimeout ∧ (answer = .ackTimeout → d.idleReqBit = none)))

instance Heeded.decidable (s : Ccu) : ∀ e, Decidable (Heeded s e)
  | (.raise c, a) => inferInstanceAs (Decidable (s.cruMapped = true → s.pmuMapped = true →
      if 0 < c.refcount s.toGlobals then c.refcount s.toGlobals < 2 ^ 31 - 1
      else ∀ d ∈ s.raisedParents ++ c.domains, (a.on d).Good d))
  | (.drop c, a) => inferInstanceAs (Decidable (s.cruMapped = true → s.pmuMapped = true →
      c.refcount s.toGlobals = 1 → ∀ d ∈ c.domains ++ s.droppedParents, a.idled d = true))

end Condition

section Parents

variable {s : Ccu} {a : Answers}

theorem long_eq {n : Int} (hlow : -2 ^ 31 ≤ n) (hhigh : n < 2 ^ 31) : long n = n := by
  apply Int.bmod_eq_of_le <;> omega

@[simp] theorem long_zero : long 0 = 0 := rfl
@[simp] theorem long_one : long 1 = 1 := rfl
@[simp] theorem long_two : long 2 = 2 := rfl

@[simp] theorem Ccu.powerOn_good {d : Domain} {answer : OnAnswer} :
    (s.powerOn d answer).1 = .success ↔ s.pmuMapped = true ∧ answer.Good d := Ccu.powerOn_success

theorem Ccu.globals_dropParents : (s.dropParents a).toGlobals =
    { s.toGlobals with parentsRefcount := long (s.parentsRefcount - 1) } := by
  unfold Ccu.dropParents
  dsimp only
  split
  · rfl
  · simp [Ccu.assertReset, Ccu.gateClocks]

theorem Ccu.requested_dropParents {d : Domain} : (s.dropParents a).requested d =
    (s.requested d && !(s.pmuMapped && decide (long (s.parentsRefcount - 1) = 0) &&
      (decide (d = .vcodec) || a.idled .vdpu && decide (d = .vdpu)))) := by
  unfold Ccu.dropParents
  dsimp only
  by_cases hlast : long (s.parentsRefcount - 1) = 0
  · cases d <;> simp [hlast, Domain.idleReqBit]
  · simp [hlast]

theorem Ccu.raiseParents_shared (hone : s.parentsRefcount = 1) :
    s.raiseParents a = (.success, s.setParents 2) := by
  simp [Ccu.raiseParents, hone]

/-- The raise that switches the parents on. -/
theorem Ccu.raiseParents_first (hnone : s.parentsRefcount = 0) (hmapped : s.pmuMapped = true)
    (hvcodec : (a.on .vcodec).Good .vcodec) (hvdpu : (a.on .vdpu).Good .vdpu) :
    (s.raiseParents a).1 = .success ∧
    (s.raiseParents a).2.toGlobals = { s.toGlobals with parentsRefcount := 1 } ∧
    ∀ d, (s.raiseParents a).2.requested d =
    (decide (d = .vcodec) || decide (d = .vdpu) || s.requested d) := by
  refine ⟨?_, ?_, ?_⟩
  · simp [Ccu.raiseParents, hnone, hmapped, hvcodec, hvdpu]
  · simp [Ccu.raiseParents, hnone, hmapped, hvcodec, hvdpu]
  · intro d
    cases d <;> simp [Ccu.raiseParents, hnone, hmapped, hvcodec, hvdpu]

/-- The raise that fails leaves the parent whose power-on failed requested. -/
theorem Ccu.raiseParents_fails (hnone : s.parentsRefcount = 0) (hmapped : s.pmuMapped = true)
    (hbad : ¬((a.on .vcodec).Good .vcodec ∧ (a.on .vdpu).Good .vdpu)) :
    (s.raiseParents a).1 ≠ .success ∧
    (s.raiseParents a).2.toGlobals = s.toGlobals ∧
    ∃ d ∈ [Domain.vcodec, .vdpu], (s.raiseParents a).2.requested d = true := by
  by_cases hvcodec : (a.on .vcodec).Good .vcodec
  · have hvdpu : ¬(a.on .vdpu).Good .vdpu := fun h => hbad ⟨hvcodec, h⟩
    refine ⟨?_, ?_, .vdpu, by simp, ?_⟩
    · simp [Ccu.raiseParents, hnone, hmapped, hvcodec, hvdpu]
    · ext <;> simp [Ccu.raiseParents, hnone, hmapped, hvcodec, hvdpu]
    · simp [Ccu.raiseParents, hnone, hmapped, hvcodec, hvdpu]
  · refine ⟨?_, ?_, .vcodec, by simp, ?_⟩
    · simp [Ccu.raiseParents, hnone, hmapped, hvcodec]
    · ext <;> simp [Ccu.raiseParents, hnone, hmapped, hvcodec]
    · simp [Ccu.raiseParents, hnone, hmapped, hvcodec]

theorem Ccu.raiseParents_unmapped (hnone : s.parentsRefcount = 0) (hmapped : s.pmuMapped = false) :
    (s.raiseParents a).1 ≠ .success ∧ Unchanged s (s.raiseParents a).2 := by
  refine ⟨?_, ?_, ?_, ?_, ?_⟩
  · simp [Ccu.raiseParents, hnone, hmapped]
  · ext <;> simp [Ccu.raiseParents, hnone, hmapped]
  · simp [Ccu.raiseParents, hnone, hmapped]
  · simp [Ccu.raiseParents, hnone, hmapped]
  · simp [Ccu.raiseParents, hnone, hmapped]

theorem Ccu.raisedParents_sub {d : Domain} (hd : d ∈ s.raisedParents) :
    d ∈ [Domain.vcodec, .vdpu] := by
  unfold Ccu.raisedParents at hd
  split at hd
  · exact hd
  · simp at hd

theorem Ccu.raisedParents_congr {s' : Ccu} (h : s'.toGlobals = s.toGlobals) :
    s'.raisedParents = s.raisedParents := by
  unfold Ccu.raisedParents
  rw [h]

/-- The parents are up at most for the other cluster. -/
theorem Ccu.raiseParents_good (hcount : s.parentsRefcount = 0 ∨ s.parentsRefcount = 1)
    (hmapped : s.pmuMapped = true) (hgood : ∀ d ∈ s.raisedParents, (a.on d).Good d) :
    (s.raiseParents a).1 = .success ∧
    (s.raiseParents a).2.toGlobals = { s.toGlobals with parentsRefcount := s.parentsRefcount + 1 } ∧
    ∀ d, (s.raiseParents a).2.requested d = (decide (d ∈ s.raisedParents) || s.requested d) := by
  rcases hcount with hnone | hone
  · have hparents : s.raisedParents = [.vcodec, .vdpu] := if_pos hnone
    rw [hparents] at hgood ⊢
    obtain ⟨hstatus, hglobals, hrequested⟩ :=
      Ccu.raiseParents_first hnone hmapped (hgood .vcodec (by simp)) (hgood .vdpu (by simp))
    refine ⟨hstatus, ?_, ?_⟩
    · rw [hglobals, hnone]
      rfl
    · intro d
      rw [hrequested d]
      simp
  · have hparents : s.raisedParents = [] := if_neg (by omega)
    rw [hparents, Ccu.raiseParents_shared hone, hone]
    exact ⟨rfl, rfl, fun d => by simp⟩

theorem Ccu.raiseParents_bad (hmapped : s.pmuMapped = true)
    (hbad : ¬∀ d ∈ s.raisedParents, (a.on d).Good d) :
    (s.raiseParents a).1 ≠ .success ∧
    (s.raiseParents a).2.toGlobals = s.toGlobals ∧
    ∃ d ∈ s.raisedParents, (s.raiseParents a).2.requested d = true := by
  by_cases hnone : s.parentsRefcount = 0
  · have hparents : s.raisedParents = [.vcodec, .vdpu] := if_pos hnone
    rw [hparents] at hbad ⊢
    apply Ccu.raiseParents_fails hnone hmapped
    rintro ⟨hvcodec, hvdpu⟩
    exact hbad (by simp [hvcodec, hvdpu])
  · have hparents : s.raisedParents = [] := if_neg hnone
    simp [hparents] at hbad

end Parents

section Raises

variable {s : Ccu} {a : Answers}

theorem Ccu.raiseCluster_good (hcru : s.cruMapped = true) (hpmu : s.pmuMapped = true)
    (hdown : s.raiseRefcount = 0) (hcount : s.parentsRefcount = 0 ∨ s.parentsRefcount = 1)
    (hgood : ∀ d ∈ s.raisedParents ++ [.rkvdec0, .rkvdec1], (a.on d).Good d) :
    (s.raiseCluster a).1 = .success ∧
    (s.raiseCluster a).2.toGlobals =
      { s.toGlobals with raiseRefcount := 1, parentsRefcount := s.parentsRefcount + 1 } ∧
    ∀ d, (s.raiseCluster a).2.requested d =
      (decide (d ∈ s.raisedParents ++ [.rkvdec0, .rkvdec1]) || s.requested d) := by
  obtain ⟨hstatus, hglobals, hrequested⟩ :=
    Ccu.raiseParents_good hcount hpmu fun d hd => hgood d (List.mem_append_left _ hd)
  have hfirst := hgood .rkvdec0 (by simp)
  have hsecond := hgood .rkvdec1 (by simp)
  refine ⟨?_, ?_, ?_⟩
  · simp [Ccu.raiseCluster, hcru, hdown, hstatus, hglobals, hpmu, hfirst, hsecond]
  · simp [Ccu.raiseCluster, hcru, hdown, hstatus, hglobals, hpmu, hfirst, hsecond]
  · intro d
    cases d <;> simp [Ccu.raiseCluster, hcru, hdown, hstatus, hglobals, hpmu, hfirst, hsecond,
      hrequested]

theorem Ccu.raiseCluster_bad (hcru : s.cruMapped = true) (hpmu : s.pmuMapped = true)
    (hdown : s.raiseRefcount = 0) (hcount : s.parentsRefcount = 0 ∨ s.parentsRefcount = 1)
    (hparents : ∀ d ∈ s.raisedParents, (a.on d).Good d)
    (hbad : ¬∀ d ∈ [Domain.rkvdec0, .rkvdec1], (a.on d).Good d) :
    (s.raiseCluster a).2.toGlobals = s.toGlobals ∧
    ∃ d ∈ [Domain.rkvdec0, .rkvdec1], (s.raiseCluster a).2.requested d = true := by
  obtain ⟨hstatus, hglobals, hrequested⟩ := Ccu.raiseParents_good hcount hpmu hparents
  have hrestored : long s.parentsRefcount = s.parentsRefcount := long_eq (by omega) (by omega)
  by_cases hfirst : (a.on .rkvdec0).Good .rkvdec0
  · have hsecond : ¬(a.on .rkvdec1).Good .rkvdec1 := by
      intro hsecond
      exact hbad (by simp [hfirst, hsecond])
    refine ⟨?_, .rkvdec1, by simp, ?_⟩
    · ext <;> simp [Ccu.raiseCluster, hcru, hdown, hstatus, hglobals, hpmu, hfirst, hsecond,
        Ccu.globals_dropParents, hrestored]
    · simp [Ccu.raiseCluster, hcru, hdown, hstatus, hglobals, hpmu, hfirst, hsecond,
        Ccu.requested_dropParents]
  · refine ⟨?_, .rkvdec0, by simp, ?_⟩
    · ext <;> simp [Ccu.raiseCluster, hcru, hdown, hstatus, hglobals, hpmu, hfirst,
        Ccu.globals_dropParents, hrestored]
    · simp [Ccu.raiseCluster, hcru, hdown, hstatus, hglobals, hpmu, hfirst,
        Ccu.requested_dropParents]

theorem Ccu.raiseAv1Cluster_good (hcru : s.cruMapped = true) (hpmu : s.pmuMapped = true)
    (hdown : s.av1Refcount = 0) (hcount : s.parentsRefcount = 0 ∨ s.parentsRefcount = 1)
    (hgood : ∀ d ∈ s.raisedParents ++ [.av1], (a.on d).Good d) :
    (s.raiseAv1Cluster a).1 = .success ∧
    (s.raiseAv1Cluster a).2.toGlobals =
      { s.toGlobals with av1Refcount := 1, parentsRefcount := s.parentsRefcount + 1 } ∧
    ∀ d, (s.raiseAv1Cluster a).2.requested d =
      (decide (d ∈ s.raisedParents ++ [.av1]) || s.requested d) := by
  obtain ⟨hstatus, hglobals, hrequested⟩ :=
    Ccu.raiseParents_good hcount hpmu fun d hd => hgood d (List.mem_append_left _ hd)
  have hav1 := hgood .av1 (by simp)
  refine ⟨?_, ?_, ?_⟩
  · simp [Ccu.raiseAv1Cluster, hcru, hdown, hstatus, hglobals, hpmu, hav1]
  · simp [Ccu.raiseAv1Cluster, hcru, hdown, hstatus, hglobals, hpmu, hav1]
  · intro d
    cases d <;> simp [Ccu.raiseAv1Cluster, hcru, hdown, hstatus, hglobals, hpmu, hav1, hrequested]

theorem Ccu.raiseAv1Cluster_bad (hcru : s.cruMapped = true) (hpmu : s.pmuMapped = true)
    (hdown : s.av1Refcount = 0) (hcount : s.parentsRefcount = 0 ∨ s.parentsRefcount = 1)
    (hparents : ∀ d ∈ s.raisedParents, (a.on d).Good d)
    (hbad : ¬∀ d ∈ [Domain.av1], (a.on d).Good d) :
    (s.raiseAv1Cluster a).2.toGlobals = s.toGlobals ∧
    ∃ d ∈ [Domain.av1], (s.raiseAv1Cluster a).2.requested d = true := by
  obtain ⟨hstatus, hglobals, hrequested⟩ := Ccu.raiseParents_good hcount hpmu hparents
  have hrestored : long s.parentsRefcount = s.parentsRefcount := long_eq (by omega) (by omega)
  have hav1 : ¬(a.on .av1).Good .av1 := by
    intro hav1
    exact hbad (by simp [hav1])
  refine ⟨?_, .av1, by simp, ?_⟩
  · ext <;> simp [Ccu.raiseAv1Cluster, hcru, hdown, hstatus, hglobals, hpmu, hav1,
      Ccu.globals_dropParents, hrestored]
  · simp [Ccu.raiseAv1Cluster, hcru, hdown, hstatus, hglobals, hpmu, hav1,
      Ccu.requested_dropParents]

end Raises

section Clusters

variable {s : Ccu} {a : Answers} {c : Cluster}

theorem Ccu.call_unmapped (hcru : s.cruMapped = false) (call : Call) : (s.call a call).2 = s := by
  rcases call with (_ | _) | (_ | _) <;>
    simp [Ccu.call, Ccu.raiseCluster, Ccu.raiseAv1Cluster, Ccu.dropCluster, Ccu.dropAv1Cluster,
      hcru]

theorem Ccu.raise_up (hcru : s.cruMapped = true) (hup : 0 < c.refcount s.toGlobals) :
    s.call a (.raise c) = (.success, s.setRefcount (long (c.refcount s.toGlobals + 1)) c) := by
  cases c with
  | rkvdec =>
    have hcount : 0 < s.raiseRefcount := hup
    simp [Ccu.call, Ccu.raiseCluster, Ccu.setRefcount, Cluster.refcount, hcru, hcount]
  | av1 =>
    have hcount : 0 < s.av1Refcount := hup
    simp [Ccu.call, Ccu.raiseAv1Cluster, Ccu.setRefcount, Cluster.refcount, hcru, hcount]

theorem Ccu.raise_parentsFail (hcru : s.cruMapped = true) (hdown : c.refcount s.toGlobals = 0)
    (hfail : (s.raiseParents a).1 ≠ .success) : s.call a (.raise c) = s.raiseParents a := by
  cases c with
  | rkvdec =>
    have hcount : s.raiseRefcount = 0 := hdown
    simp [Ccu.call, Ccu.raiseCluster, hcru, hcount, hfail]
  | av1 =>
    have hcount : s.av1Refcount = 0 := hdown
    simp [Ccu.call, Ccu.raiseAv1Cluster, hcru, hcount, hfail]

theorem Ccu.raise_good (hcru : s.cruMapped = true) (hpmu : s.pmuMapped = true)
    (hdown : c.refcount s.toGlobals = 0) (hcount : s.parentsRefcount = 0 ∨ s.parentsRefcount = 1)
    (hgood : ∀ d ∈ s.raisedParents ++ c.domains, (a.on d).Good d) :
    (s.call a (.raise c)).1 = .success ∧
    (s.call a (.raise c)).2.toGlobals =
      ((s.setRefcount 1 c).setParents (s.parentsRefcount + 1)).toGlobals ∧
    ∀ d, (s.call a (.raise c)).2.requested d =
    (decide (d ∈ s.raisedParents ++ c.domains) || s.requested d) := by
  cases c with
  | rkvdec => exact Ccu.raiseCluster_good hcru hpmu hdown hcount hgood
  | av1 => exact Ccu.raiseAv1Cluster_good hcru hpmu hdown hcount hgood

/-- The domain whose power-on failed stays requested. -/
theorem Ccu.raise_bad (hcru : s.cruMapped = true) (hpmu : s.pmuMapped = true)
    (hdown : c.refcount s.toGlobals = 0) (hcount : s.parentsRefcount = 0 ∨ s.parentsRefcount = 1)
    (hbad : ¬∀ d ∈ s.raisedParents ++ c.domains, (a.on d).Good d) :
    (s.call a (.raise c)).2.toGlobals = s.toGlobals ∧
    ∃ d ∈ s.raisedParents ++ c.domains, (s.call a (.raise c)).2.requested d = true := by
  by_cases hparents : ∀ d ∈ s.raisedParents, (a.on d).Good d
  · have hcores : ¬∀ d ∈ c.domains, (a.on d).Good d := by
      intro hcores
      apply hbad
      intro d hd
      rcases List.mem_append.mp hd with hd | hd
      · exact hparents d hd
      · exact hcores d hd
    cases c with
    | rkvdec =>
      obtain ⟨hglobals, d, hd, hrequested⟩ :=
        Ccu.raiseCluster_bad hcru hpmu hdown hcount hparents hcores
      exact ⟨hglobals, d, List.mem_append_right _ hd, hrequested⟩
    | av1 =>
      obtain ⟨hglobals, d, hd, hrequested⟩ :=
        Ccu.raiseAv1Cluster_bad hcru hpmu hdown hcount hparents hcores
      exact ⟨hglobals, d, List.mem_append_right _ hd, hrequested⟩
  · obtain ⟨hstatus, hglobals, d, hd, hrequested⟩ := Ccu.raiseParents_bad hpmu hparents
    rw [Ccu.raise_parentsFail hcru hdown hstatus]
    exact ⟨hglobals, d, List.mem_append_left _ hd, hrequested⟩

theorem Ccu.drop_none (hdown : c.refcount s.toGlobals = 0) : (s.call a (.drop c)).2 = s := by
  cases c with
  | rkvdec =>
    have hcount : s.raiseRefcount = 0 := hdown
    simp [Ccu.call, Ccu.dropCluster, hcount]
  | av1 =>
    have hcount : s.av1Refcount = 0 := hdown
    simp [Ccu.call, Ccu.dropAv1Cluster, hcount]

theorem Ccu.drop_counted (hcru : s.cruMapped = true) (hup : 1 < c.refcount s.toGlobals) :
    (s.call a (.drop c)).2 = s.setRefcount (long (c.refcount s.toGlobals - 1)) c := by
  cases c with
  | rkvdec =>
    have hcount : 1 < s.raiseRefcount := hup
    simp [Ccu.call, Ccu.dropCluster, Ccu.setRefcount, Cluster.refcount, hcru, hcount]
  | av1 =>
    have hcount : 1 < s.av1Refcount := hup
    simp [Ccu.call, Ccu.dropAv1Cluster, Ccu.setRefcount, Cluster.refcount, hcru, hcount]

theorem Ccu.globals_drop_last (hcru : s.cruMapped = true) (hlast : c.refcount s.toGlobals = 1) :
    (s.call a (.drop c)).2.toGlobals =
      ((s.setRefcount 0 c).setParents (long (s.parentsRefcount - 1))).toGlobals := by
  cases c with
  | rkvdec =>
    have hcount : s.raiseRefcount = 1 := hlast
    simp [Ccu.call, Ccu.dropCluster, Ccu.setRefcount, hcru, hcount, Ccu.globals_dropParents]
  | av1 =>
    have hcount : s.av1Refcount = 1 := hlast
    simp [Ccu.call, Ccu.dropAv1Cluster, Ccu.setRefcount, hcru, hcount, Ccu.globals_dropParents]

theorem Ccu.requested_drop_last {d : Domain} (hcru : s.cruMapped = true)
    (hlast : c.refcount s.toGlobals = 1) :
    (s.call a (.drop c)).2.requested d = (s.requested d && !(s.pmuMapped &&
      (a.idled d && decide (d ∈ c.domains) || decide (long (s.parentsRefcount - 1) = 0) &&
        (decide (d = .vcodec) || a.idled d && decide (d = .vdpu))))) := by
  cases c with
  | rkvdec =>
    have hcount : s.raiseRefcount = 1 := hlast
    cases d <;> simp [Ccu.call, Ccu.dropCluster, hcru, hcount, Ccu.requested_dropParents,
      Cluster.domains, Domain.idleReqBit, Bool.or_assoc]
  | av1 =>
    have hcount : s.av1Refcount = 1 := hlast
    cases d <;> simp [Ccu.call, Ccu.dropAv1Cluster, hcru, hcount, Ccu.requested_dropParents,
      Cluster.domains, Domain.idleReqBit, Bool.or_assoc]

end Clusters

section Runs

variable {s : Ccu} {a : Answers} {c : Cluster} {n : Int}

@[simp] theorem refcount_setRefcount : c.refcount (s.setRefcount n c).toGlobals = n := by
  cases c <;> rfl

@[simp] theorem refcount_other_setRefcount :
    c.other.refcount (s.setRefcount n c).toGlobals = c.other.refcount s.toGlobals := by
      cases c <;> rfl

@[simp] theorem refcount_setParents :
    c.refcount (s.setParents n).toGlobals = c.refcount s.toGlobals := by
  cases c <;> rfl

@[simp] theorem parentsRefcount_setRefcount :
    (s.setRefcount n c).parentsRefcount = s.parentsRefcount := by
  cases c <;> rfl

@[simp] theorem pmuMapped_setRefcount : (s.setRefcount n c).pmuMapped = s.pmuMapped := by
  cases c <;> rfl

@[simp] theorem requested_setRefcount {d : Domain} :
    (s.setRefcount n c).requested d = s.requested d := by
  cases c <;> rfl

/-- One cluster and the other are both of them. -/
theorem Cluster.forall_of {P : Cluster → Prop} (c : Cluster) (hself : P c) (hother : P c.other) :
    ∀ c, P c := by
  intro c'
  cases c <;> cases c' <;> assumption

theorem Accounts.parents_of (h : Accounts s) (c : Cluster) : s.parentsRefcount =
    (if 0 < c.refcount s.toGlobals then 1 else 0) +
    (if 0 < c.other.refcount s.toGlobals then 1 else 0) := by
  cases c with
  | rkvdec => exact h.parents
  | av1 => rw [h.parents, Int.add_comm]; rfl

theorem Accounts.of (c : Cluster) (hparents : s.parentsRefcount =
      (if 0 < c.refcount s.toGlobals then 1 else 0) +
      (if 0 < c.other.refcount s.toGlobals then 1 else 0))
    (hparentsOn : ∀ d ∈ [Domain.vcodec, .vdpu], s.requested d = true ↔ 0 < s.parentsRefcount)
    (hself : ∀ d ∈ c.domains, s.requested d = true ↔ 0 < c.refcount s.toGlobals)
    (hother : ∀ d ∈ c.other.domains, s.requested d = true ↔ 0 < c.other.refcount s.toGlobals) :
    Accounts s where
  parents := by
    cases c with
    | rkvdec => exact hparents
    | av1 => rw [hparents, Int.add_comm]; rfl
  parentsOn := hparentsOn
  coresOn := Cluster.forall_of c hself hother

/-- The accounts are right and the counts in range; with the PMU unmapped nothing is up. -/
structure InRange (s : Ccu) : Prop extends Accounts s where
  range : ∀ c : Cluster, 0 ≤ c.refcount s.toGlobals ∧ c.refcount s.toGlobals < 2 ^ 31
  unmapped : s.pmuMapped = false → ∀ c : Cluster, c.refcount s.toGlobals = 0

theorem Cold.inRange (h : Cold s) : InRange s where
  parents := by simp [h.parents, h.raise, h.av1]
  parentsOn := by simp [h.off, h.parents]
  coresOn := by
    intro c d _
    cases c <;> simp [h.off, Cluster.refcount, h.raise, h.av1]
  range := by
    intro c
    cases c <;> simp [Cluster.refcount, h.raise, h.av1]
  unmapped := by
    intro _ c
    cases c <;> simp [Cluster.refcount, h.raise, h.av1]

theorem Accounts.none_or_one (h : Accounts s) (hdown : c.refcount s.toGlobals = 0) :
    s.parentsRefcount = 0 ∨ s.parentsRefcount = 1 := by
  have hparents := h.parents_of c
  rw [hdown] at hparents
  split at hparents <;> split at hparents <;> omega

/-- The parents are on already or the raise switches them on. -/
theorem Accounts.parents_on (h : Accounts s)
    (hcount : s.parentsRefcount = 0 ∨ s.parentsRefcount = 1) :
    ∀ d ∈ [Domain.vcodec, .vdpu], d ∈ s.raisedParents ∨ s.requested d = true := by
  intro d hd
  rcases hcount with hnone | hone
  · left
    rwa [Ccu.raisedParents, if_pos hnone]
  · right
    exact (h.parentsOn d hd).mpr (by omega)

theorem Accounts.off (h : Accounts s) (hdown : c.refcount s.toGlobals = 0) {d : Domain}
    (hd : d ∈ s.raisedParents ++ c.domains) : s.requested d = false := by
  apply Bool.eq_false_iff.mpr
  intro hon
  rcases List.mem_append.mp hd with hd | hd
  · have hup := (h.parentsOn d (Ccu.raisedParents_sub hd)).mp hon
    have hnone : s.raisedParents = [] := if_neg (by omega)
    simp [hnone] at hd
  · have hup := (h.coresOn c d hd).mp hon
    omega

theorem Unchanged.refl (s : Ccu) : Unchanged s s := ⟨rfl, fun _ => rfl, rfl, rfl⟩

theorem Unchanged.inRange {s' : Ccu} (h : Unchanged s s') (hs : InRange s) : InRange s' := by
  obtain ⟨hglobals, hrequested, -, -⟩ := h
  refine ⟨⟨?_, ?_, ?_⟩, ?_, ?_⟩
  · simpa [hglobals] using hs.parents
  · simpa [hglobals, hrequested] using hs.parentsOn
  · simpa [hglobals, hrequested] using hs.coresOn
  · simpa [hglobals] using hs.range
  · simpa [hglobals] using hs.unmapped

/-- Past the largest `LONG` a count turns negative. -/
theorem long_pos (hpos : 0 < n) (hmax : n ≤ 2 ^ 31) : 0 < long n ↔ n < 2 ^ 31 := by
  constructor
  · intro hlong
    by_contra hover
    obtain rfl : n = 2 ^ 31 := by omega
    exact absurd hlong (by decide)
  · intro hn
    rwa [long_eq (by omega) hn]

theorem Cluster.domains_ne_nil (c : Cluster) : ∃ d, d ∈ c.domains := by
  cases c with
  | rkvdec => exact ⟨.rkvdec0, by simp [Cluster.domains]⟩
  | av1 => exact ⟨.av1, by simp [Cluster.domains]⟩

theorem Cluster.domains_parent {d : Domain} (hd : d ∈ c.domains) : d ∉ [Domain.vcodec, .vdpu] := by
  cases c <;> cases d <;> simp_all [Cluster.domains]

theorem Cluster.domains_apart {d : Domain} (hd : d ∈ c.domains) : d ∉ c.other.domains := by
  cases c <;> cases d <;> simp_all [Cluster.domains, Cluster.other]

/-- Counting on in a cluster that is up keeps the accounts just if the count stays positive. -/
theorem accounts_setRefcount (h : Accounts s) (hup : 0 < c.refcount s.toGlobals) :
    Accounts (s.setRefcount n c) ↔ 0 < n := by
  constructor
  · intro hacc
    obtain ⟨d, hd⟩ := c.domains_ne_nil
    have hon := (h.coresOn c d hd).mpr hup
    simpa using (hacc.coresOn c d hd).mp (by simpa using hon)
  · intro hn
    have hparents := h.parents_of c
    rw [if_pos hup] at hparents
    apply Accounts.of c
    · simp [hn, hparents]
    · simpa using h.parentsOn
    · intro d hd
      simp [hn, (h.coresOn c d hd).mpr hup]
    · simpa using h.coresOn c.other

theorem inRange_setRefcount (h : InRange s) (hup : 0 < c.refcount s.toGlobals) (hn : 0 < n)
    (hmax : n < 2 ^ 31) : InRange (s.setRefcount n c) where
  toAccounts := (accounts_setRefcount h.toAccounts hup).mpr hn
  range := by
    refine Cluster.forall_of c ?_ ?_
    · simp only [refcount_setRefcount]
      omega
    · simpa using h.range c.other
  unmapped := by
    intro hpmu
    have hnone := h.unmapped (by simpa using hpmu) c
    omega

/-- A call has to be exact just if it is heeded, and an exact call has to stay in range. -/
def Settled (s : Ccu) (e : Call × Answers) : Prop :=
  (Exact s e ↔ Heeded s e) ∧ (Exact s e → InRange (s.step e))

theorem Settled.of_inRange {e : Call × Answers} (h : InRange (s.step e))
    (hundone : ∀ c, e.1 = .raise c → (s.call e.2 e.1).1 ≠ .success → Unchanged s (s.step e))
    (hheeded : Heeded s e) : Settled s e :=
  ⟨iff_of_true ⟨h.toAccounts, hundone⟩ hheeded, fun _ => h⟩

theorem Settled.of_unchanged {e : Call × Answers} (hs : InRange s) (h : Unchanged s (s.step e))
    (hheeded : Heeded s e) : Settled s e :=
  Settled.of_inRange (h.inRange hs) (fun _ _ _ => h) hheeded

theorem Settled.of_wrong {e : Call × Answers} (hwrong : ¬Accounts (s.step e))
    (hignored : ¬Heeded s e) :
    Settled s e :=
  ⟨iff_of_false (fun h => hwrong h.accounts) hignored, fun h => absurd h.accounts hwrong⟩

theorem InRange.pmuMapped (h : InRange s) (hup : 0 < c.refcount s.toGlobals) :
    s.pmuMapped = true := by
  by_contra hpmu
  have hnone := h.unmapped (Bool.eq_false_iff.mpr hpmu) c
  omega

theorem raise_settled_up (h : InRange s) (hcru : s.cruMapped = true)
    (hup : 0 < c.refcount s.toGlobals) :
    Settled s (.raise c, a) := by
  have hcall := Ccu.raise_up (a := a) hcru hup
  have hstep : s.step (.raise c, a) = s.setRefcount (long (c.refcount s.toGlobals + 1)) c :=
    congrArg Prod.snd hcall
  have hmax := (h.range c).2
  have hpos := long_pos (n := c.refcount s.toGlobals + 1) (by omega) (by omega)
  by_cases hbelow : c.refcount s.toGlobals + 1 < 2 ^ 31
  · apply Settled.of_inRange
    · rw [hstep, long_eq (by omega) hbelow]
      exact inRange_setRefcount h hup (by omega) hbelow
    · intro _ _ hfail
      simp [hcall] at hfail
    · intro _ _
      simp only [hup, if_true]
      omega
  · apply Settled.of_wrong
    · rw [hstep, accounts_setRefcount h.toAccounts hup, hpos]
      exact hbelow
    · intro hheeded
      have hlow := hheeded hcru (h.pmuMapped hup)
      simp only [hup, if_true] at hlow
      omega

theorem raise_inRange (h : InRange s) (hcru : s.cruMapped = true) (hpmu : s.pmuMapped = true)
    (hdown : c.refcount s.toGlobals = 0)
    (hgood : ∀ d ∈ s.raisedParents ++ c.domains, (a.on d).Good d) :
    InRange (s.step (.raise c, a)) := by
  have hcount := h.toAccounts.none_or_one hdown
  obtain ⟨-, hglobals, hrequested⟩ := Ccu.raise_good hcru hpmu hdown hcount hgood
  rw [← Ccu.step.eq_1 s (.raise c, a)] at hglobals hrequested
  have hself : c.refcount (s.step (.raise c, a)).toGlobals = 1 := by
    rw [hglobals, refcount_setParents, refcount_setRefcount]
  have hother : c.other.refcount (s.step (.raise c, a)).toGlobals =
      c.other.refcount s.toGlobals := by
    rw [hglobals, refcount_setParents, refcount_other_setRefcount]
  have hnew : (s.step (.raise c, a)).parentsRefcount = s.parentsRefcount + 1 := by simp [hglobals]
  refine ⟨Accounts.of c ?_ ?_ ?_ ?_, Cluster.forall_of c ?_ ?_, ?_⟩
  · rw [hself, hother, hnew, h.parents_of c, hdown]
    omega
  · intro d hd
    rw [hrequested d, hnew]
    apply iff_of_true
    · rcases h.parents_on hcount d hd with hraised | hon
      · simp [hraised]
      · simp [hon]
    · omega
  · intro d hd
    simp [hrequested d, hself, hd]
  · intro d hd
    have hapart : d ∉ s.raisedParents ++ c.domains := by
      intro hmem
      rcases List.mem_append.mp hmem with hmem | hmem
      · exact Cluster.domains_parent hd (Ccu.raisedParents_sub hmem)
      · exact Cluster.domains_apart hmem hd
    simp only [hrequested d, hother, hapart, decide_false, Bool.false_or]
    exact h.coresOn c.other d hd
  · rw [hself]
    omega
  · rw [hother]
    exact h.range c.other
  · intro hunmapped
    simp [hglobals, hpmu] at hunmapped

theorem raise_settled_down (h : InRange s) (hcru : s.cruMapped = true)
    (hdown : c.refcount s.toGlobals = 0) :
    Settled s (.raise c, a) := by
  have hcount := h.toAccounts.none_or_one hdown
  cases hpmu : s.pmuMapped with
  | false =>
    have hnone : s.parentsRefcount = 0 := by
      have hparents := h.parents_of c
      rw [hdown, h.unmapped hpmu c.other] at hparents
      simpa using hparents
    obtain ⟨hstatus, hsame⟩ := Ccu.raiseParents_unmapped (a := a) hnone hpmu
    apply Settled.of_unchanged h
    · rw [Ccu.step, Ccu.raise_parentsFail hcru hdown hstatus]
      exact hsame
    · intro _ hmapped
      simp [hpmu] at hmapped
  | true =>
    by_cases hgood : ∀ d ∈ s.raisedParents ++ c.domains, (a.on d).Good d
    · obtain ⟨hstatus, -, -⟩ := Ccu.raise_good hcru hpmu hdown hcount hgood
      apply Settled.of_inRange (raise_inRange h hcru hpmu hdown hgood)
      · exact fun _ _ hfail => absurd hstatus hfail
      · intro _ _
        simpa [hdown] using hgood
    · obtain ⟨hglobals, d, hd, hrequested⟩ := Ccu.raise_bad hcru hpmu hdown hcount hgood
      apply Settled.of_wrong
      · intro hacc
        have hstill : c.refcount (s.step (.raise c, a)).toGlobals = 0 := by
          rw [Ccu.step, hglobals, hdown]
        rw [← Ccu.raisedParents_congr hglobals] at hd
        have hoff := hacc.off hstill hd
        exact absurd hrequested (Bool.eq_false_iff.mp hoff)
      · intro hheeded
        have hall := hheeded hcru hpmu
        simp only [hdown] at hall
        exact hgood hall

theorem drop_settled_counted (h : InRange s) (hcru : s.cruMapped = true)
    (hup : 1 < c.refcount s.toGlobals) :
    Settled s (.drop c, a) := by
  have hstep : s.step (.drop c, a) = s.setRefcount (long (c.refcount s.toGlobals - 1)) c :=
    Ccu.drop_counted hcru hup
  have hmax := (h.range c).2
  apply Settled.of_inRange
  · rw [hstep, long_eq (by omega) (by omega)]
    exact inRange_setRefcount h (by omega) (by omega) (by omega)
  · intro _ hcall
    cases hcall
  · intro _ _ hone
    omega

theorem InRange.one_or_two (h : InRange s) (hlast : c.refcount s.toGlobals = 1) :
    s.parentsRefcount = 1 ∨ s.parentsRefcount = 2 := by
  have hparents := h.parents_of c
  rw [hlast] at hparents
  split at hparents <;> split at hparents <;> omega

theorem drop_last_counts (h : InRange s) (hcru : s.cruMapped = true)
    (hlast : c.refcount s.toGlobals = 1) :
    c.refcount (s.step (.drop c, a)).toGlobals = 0 ∧
    c.other.refcount (s.step (.drop c, a)).toGlobals = c.other.refcount s.toGlobals ∧
    (s.step (.drop c, a)).parentsRefcount = s.parentsRefcount - 1 ∧
    (s.step (.drop c, a)).pmuMapped = s.pmuMapped := by
  have hcount := h.one_or_two hlast
  have hglobals := Ccu.globals_drop_last (a := a) hcru hlast
  rw [← Ccu.step.eq_1 s (.drop c, a), long_eq (by omega) (by omega)] at hglobals
  refine ⟨?_, ?_, ?_, ?_⟩
  · rw [hglobals, refcount_setParents, refcount_setRefcount]
  · rw [hglobals, refcount_setParents, refcount_other_setRefcount]
  · rw [hglobals, Ccu.globals_setParents]
  · rw [hglobals, Ccu.globals_setParents, pmuMapped_setRefcount]

/-- What the last drop of a cluster leaves requested. -/
theorem drop_last_requested {d : Domain} (h : InRange s) (hcru : s.cruMapped = true)
    (hlast : c.refcount s.toGlobals = 1) : (s.step (.drop c, a)).requested d = (s.requested d &&
      !(a.idled d && decide (d ∈ c.domains) || decide (s.parentsRefcount = 1) &&
        (decide (d = .vcodec) || a.idled d && decide (d = .vdpu)))) := by
  have hcount := h.one_or_two hlast
  have hpmu := h.pmuMapped (by omega : 0 < c.refcount s.toGlobals)
  have hnone : long (s.parentsRefcount - 1) = 0 ↔ s.parentsRefcount = 1 := by
    rw [long_eq (by omega) (by omega)]
    omega
  have hrequested := Ccu.requested_drop_last (a := a) (d := d) hcru hlast
  rw [← Ccu.step.eq_1 s (.drop c, a)] at hrequested
  simpa only [hpmu, hnone, Bool.true_and] using hrequested

theorem drop_inRange (h : InRange s) (hcru : s.cruMapped = true)
    (hlast : c.refcount s.toGlobals = 1)
    (hidled : ∀ d ∈ c.domains ++ s.droppedParents, a.idled d = true) :
    InRange (s.step (.drop c, a)) := by
  obtain ⟨hself, hother, hnew, hmapped⟩ := drop_last_counts (a := a) h hcru hlast
  have hcount := h.one_or_two hlast
  refine ⟨Accounts.of c ?_ ?_ ?_ ?_, Cluster.forall_of c ?_ ?_, ?_⟩
  · rw [hself, hother, hnew, h.parents_of c, hlast]
    omega
  · intro d hd
    have hon := (h.parentsOn d hd).mpr (by omega)
    rw [drop_last_requested h hcru hlast, hon, hnew]
    have hapart : d ∉ c.domains := fun hmem => Cluster.domains_parent hmem hd
    rcases hcount with hone | htwo
    · have hdropped : s.droppedParents = [.vdpu] := if_pos hone
      have hvdpu := hidled .vdpu (by simp [hdropped])
      simp only [List.mem_cons, List.not_mem_nil, or_false] at hd
      rcases hd with rfl | rfl <;> simp [hone, hvdpu]
    · simp [htwo, hapart]
  · intro d hd
    have hoff := hidled d (List.mem_append_left _ hd)
    simp [drop_last_requested h hcru hlast, hself, hoff, hd]
  · intro d hd
    have hapart : d ∉ c.domains := fun hmem => Cluster.domains_apart hmem hd
    have hcore : d ∉ [Domain.vcodec, .vdpu] := Cluster.domains_parent hd
    simp only [List.mem_cons, List.not_mem_nil, or_false, not_or] at hcore
    simp only [drop_last_requested h hcru hlast, hother, hapart, hcore, decide_false,
      Bool.and_false, Bool.or_false, Bool.not_false, Bool.and_true]
    exact h.coresOn c.other d hd
  · rw [hself]
    omega
  · rw [hother]
    exact h.range c.other
  · intro hunmapped
    have hpmu := h.pmuMapped (by omega : 0 < c.refcount s.toGlobals)
    simp [hmapped, hpmu] at hunmapped

theorem drop_wrong (h : InRange s) (hcru : s.cruMapped = true) (hlast : c.refcount s.toGlobals = 1)
    (hstuck : ¬∀ d ∈ c.domains ++ s.droppedParents, a.idled d = true) :
    ¬Accounts (s.step (.drop c, a)) := by
  intro hacc
  obtain ⟨hself, -, hnew, -⟩ := drop_last_counts (a := a) h hcru hlast
  apply hstuck
  intro d hd
  by_contra hbusy
  have hoff := Bool.eq_false_iff.mpr hbusy
  rcases List.mem_append.mp hd with hd | hd
  · have hon := (h.coresOn c d hd).mpr (by omega)
    have hcore := Cluster.domains_parent hd
    simp only [List.mem_cons, List.not_mem_nil, or_false, not_or] at hcore
    have hstill : (s.step (.drop c, a)).requested d = true := by
      simp [drop_last_requested h hcru hlast, hon, hoff, hcore]
    have hup := (hacc.coresOn c d hd).mp hstill
    omega
  · unfold Ccu.droppedParents at hd
    split at hd
    · rename_i hone
      obtain rfl := List.mem_singleton.mp hd
      have hon := (h.parentsOn .vdpu (by simp)).mpr (by omega)
      have hstill : (s.step (.drop c, a)).requested .vdpu = true := by
        simp [drop_last_requested h hcru hlast, hon, hoff]
      have hup := (hacc.parentsOn .vdpu (by simp)).mp hstill
      omega
    · simp at hd

theorem drop_settled_last (h : InRange s) (hcru : s.cruMapped = true)
    (hlast : c.refcount s.toGlobals = 1) :
    Settled s (.drop c, a) := by
  by_cases hidled : ∀ d ∈ c.domains ++ s.droppedParents, a.idled d = true
  · apply Settled.of_inRange (drop_inRange h hcru hlast hidled)
    · intro _ hcall
      cases hcall
    · exact fun _ _ _ => hidled
  · apply Settled.of_wrong (drop_wrong h hcru hlast hidled)
    have hpmu := h.pmuMapped (by omega : 0 < c.refcount s.toGlobals)
    exact fun hheeded => hidled (hheeded hcru hpmu hlast)

theorem call_settled (h : InRange s) (e : Call × Answers) : Settled s e := by
  obtain ⟨call, a⟩ := e
  cases hcru : s.cruMapped with
  | false =>
    apply Settled.of_unchanged h
    · rw [Ccu.step, Ccu.call_unmapped hcru]
      exact Unchanged.refl s
    · intro hmapped
      simp [hcru] at hmapped
  | true =>
    cases call with
    | raise c =>
      by_cases hup : 0 < c.refcount s.toGlobals
      · exact raise_settled_up h hcru hup
      · have hlow := (h.range c).1
        exact raise_settled_down h hcru (by omega)
    | drop c =>
      by_cases hup : 1 < c.refcount s.toGlobals
      · exact drop_settled_counted h hcru hup
      · by_cases hlast : c.refcount s.toGlobals = 1
        · exact drop_settled_last h hcru hlast
        · have hlow := (h.range c).1
          apply Settled.of_unchanged h
          · rw [Ccu.step, Ccu.drop_none (by omega)]
            exact Unchanged.refl s
          · intro _ _ hone
            exact absurd hone hlast

/-- From a cold start every call of a run leaves the accounts right, and every raise that fails
leaves no trace, just if the hardware heeds every call. -/
theorem refcounts_exact_iff (hcold : Cold s) (calls : List (Call × Answers)) :
    Lib.Along Ccu.step Exact s calls ↔ Lib.Along Ccu.step Heeded s calls :=
  Lib.along_congr (fun _ e h => (call_settled h e).1) (fun _ e h => (call_settled h e).2)
    hcold.inRange

end Runs

section ColdStart

/-- The machine as it comes up. -/
def coldStart : Ccu where
  cruMapped := true
  pmuMapped := true
  regs :=
    { clkGate := clkGateMask
      softRst := softRstMask
      clkSel89 := 0
      clkSel90 := 0
      clkSel91 := 0
      clkSel163 := 0
      pwrGateCon := 0xFFFF
      busIdleReq := 0xFFFF }

theorem coldStart_cold : Cold coldStart where
  raise := rfl
  av1 := rfl
  parents := rfl
  off := by
    intro d
    cases d <;> rfl
  stopped := by
    intro con
    cases con <;> rfl
  held := by
    intro con
    cases con <;> rfl

/-- Hardware that does what it is asked, but for the AV1 decoder's power-on in the second case. -/
def obedient : Answers := ⟨fun _ => .acked, fun _ => true⟩
def av1Dead : Answers := ⟨fun d => if d = .av1 then .statusTimeout else .acked, fun _ => true⟩

theorem refcounts_exact_obedient : Cold coldStart ∧ Lib.Along Ccu.step Exact coldStart
    [(.raise .rkvdec, obedient), (.raise .av1, obedient), (.raise .rkvdec, obedient),
    (.drop .rkvdec, obedient),
      (.drop .rkvdec, obedient), (.drop .av1, obedient)] :=
  ⟨coldStart_cold, (refcounts_exact_iff coldStart_cold _).mpr (by decide +kernel)⟩

/-- A raise of the AV1 cluster that fails leaves its reset deasserted and its domain requested. -/
theorem av1_raise_leaves_traces : Cold coldStart ∧
    (coldStart.call av1Dead (.raise .av1)).1 = .deviceHardwareError ∧
    (coldStart.step (.raise .av1, av1Dead)).regs.softRst .con68 ≠ coldStart.regs.softRst .con68 ∧
    (coldStart.step (.raise .av1, av1Dead)).requested .av1 = true ∧
    (coldStart.step (.raise .av1, av1Dead)).av1Refcount = 0 ∧
    ¬Lib.Along Ccu.step Exact coldStart [(.raise .av1, av1Dead)] := by
  refine ⟨coldStart_cold, by decide, by decide, by decide, by decide, ?_⟩
  intro h
  have hsame := h.1.undone .av1 rfl (by decide)
  have hreset := congrFun hsame.softRst .con68
  exact absurd hreset (by decide)

end ColdStart

end Rkvdec.Power
