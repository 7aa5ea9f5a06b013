import Mathlib.Tactic
import Rkvdec.Basic

/-! The power domains of the codecs: the registers that `rkmpp_ccu/pmu.c` and `rkmpp_ccu/ccu.c`
write, and the interface with its reference counts. -/
namespace Rkvdec.Power

section Registers

/-- `RkCcuHiwordWrite` and `PmuHiwordWrite`: the bits of the mask take the value. -/
def hiwordWrite (reg mask value : BitVec 16) : BitVec 16 := (reg &&& ~~~mask) ||| (value &&& mask)

def bit (n : Nat) : BitVec 16 := 1#16 <<< n

/-- The numbers of the `CLKGATE_CON` and `SOFTRST_CON` registers. -/
inductive Con where
  | con40
  | con41
  | con44
  | con68
deriving DecidableEq

def clkGateMask : Con → BitVec 16
  | .con40 => 0x3FF
  | .con41 => 0x1CF
  | .con44 => 0x77
  | .con68 => 0x09

def softRstMask : Con → BitVec 16
  | .con40 => 0x3FC
  | .con41 => 0x1FC
  | .con44 => 0x70
  | .con68 => 0x36

/-- The registers of the CRU and the two of the PMU that are written. -/
structure Regs where
  clkGate : Con → BitVec 16
  softRst : Con → BitVec 16
  clkSel89 : BitVec 16
  clkSel90 : BitVec 16
  clkSel91 : BitVec 16
  clkSel163 : BitVec 16
  pwrGateCon : BitVec 16
  busIdleReq : BitVec 16

/-- `RKMPP_PMU_DOMAIN`. -/
inductive Domain where
  | vcodec
  | vdpu
  | rkvdec0
  | rkvdec1
  | av1
deriving DecidableEq

namespace Domain

def pwrBit : Domain → Nat
  | vcodec => 2
  | vdpu => 10
  | rkvdec0 => 8
  | rkvdec1 => 9
  | av1 => 12

/-- `PD_VCODEC` has no bus to idle. -/
def idleReqBit : Domain → Option Nat
  | vcodec => none
  | vdpu => some 8
  | rkvdec0 => some 6
  | rkvdec1 => some 7
  | av1 => some 9

end Domain

/-- A domain is requested on while its power-off bit is clear. -/
def Regs.requested (r : Regs) (d : Domain) : Bool := !r.pwrGateCon.getLsbD d.pwrBit

end Registers

section State

/-- How the hardware answers a power-on: the status does not come, the bus is active already, the
bus acknowledges, or it does not. -/
inductive OnAnswer where
  | statusTimeout
  | busActive
  | acked
  | ackTimeout
deriving DecidableEq

/-- The answers to the power-ons of a call, and whether the buses acknowledge its power-offs. -/
structure Answers where
  on : Domain → OnAnswer
  idled : Domain → Bool

/-- The driver's globals. -/
@[ext]
structure Globals where
  cruMapped : Bool
  pmuMapped : Bool
  raiseRefcount : Int := 0
  av1Refcount : Int := 0
  parentsRefcount : Int := 0

/-- `handshakes` keeps the registers as they are at each call of the PMU. -/
structure Ccu extends Globals where
  regs : Regs
  handshakes : List (Domain × Regs) := []

/-- A `LONG` wraps around. -/
def long (n : Int) : Int := n.bmod (2 ^ 32)

end State

namespace Ccu

variable (s : Ccu)

section Writes

def writeClkGate (con : Con) (mask value : BitVec 16) : Ccu :=
  { s with regs := { s.regs with
    clkGate := Function.update s.regs.clkGate con (hiwordWrite (s.regs.clkGate con) mask value) } }

def writeSoftRst (con : Con) (mask value : BitVec 16) : Ccu :=
  { s with regs := { s.regs with
    softRst := Function.update s.regs.softRst con (hiwordWrite (s.regs.softRst con) mask value) } }

def ungateClocks (con : Con) : Ccu := s.writeClkGate con (clkGateMask con) 0
def gateClocks (con : Con) : Ccu := s.writeClkGate con (clkGateMask con) (clkGateMask con)
def deassertReset (con : Con) : Ccu := s.writeSoftRst con (softRstMask con) 0
def assertReset (con : Con) : Ccu := s.writeSoftRst con (softRstMask con) (softRstMask con)

/-- `RDCC_CRU_CLKSEL_CON89` to `91`. -/
def selectRkvdec0Clocks : Ccu :=
  { s with regs := { s.regs with
    clkSel89 := hiwordWrite s.regs.clkSel89 0xFFFF 0x0300
    clkSel90 := hiwordWrite s.regs.clkSel90 0x1FFF 0x1801
    clkSel91 := hiwordWrite s.regs.clkSel91 0x3F 0x0001 } }

/-- `RDCC_CRU_CLKSEL_CON163`. -/
def selectAv1Clocks : Ccu :=
  { s with regs := { s.regs with clkSel163 := hiwordWrite s.regs.clkSel163 0x01FF 0x0002 } }

def writePwrGate (d : Domain) (value : BitVec 16) : Ccu :=
  { s with
    regs := { s.regs with pwrGateCon := hiwordWrite s.regs.pwrGateCon (bit d.pwrBit) value } }

def writeIdleReq (reqBit : Nat) (value : BitVec 16) : Ccu :=
  { s with regs := { s.regs with busIdleReq := hiwordWrite s.regs.busIdleReq (bit reqBit) value } }

def setRaise (n : Int) : Ccu := { s with raiseRefcount := n }
def setAv1 (n : Int) : Ccu := { s with av1Refcount := n }
def setParents (n : Int) : Ccu := { s with parentsRefcount := n }

def record (d : Domain) : Ccu := { s with handshakes := s.handshakes ++ [(d, s.regs)] }

end Writes

section Pmu

/-- `RkMppPmuPowerOn`. -/
def powerOn (d : Domain) (answer : OnAnswer) : NtStatus × Ccu :=
  let s := s.record d
  if s.pmuMapped = false then (.deviceNotReady, s)
  else
    let s := s.writePwrGate d 0
    if answer = .statusTimeout then (.deviceHardwareError, s)
    else
      match d.idleReqBit with
      | none => (.success, s)
      | some reqBit =>
        if answer = .busActive then (.success, s)
        else
          let s := s.writeIdleReq reqBit 0
          if answer = .acked then (.success, s) else (.deviceHardwareError, s)

/-- `RkMppPmuPowerOff`. -/
def powerOff (d : Domain) (idled : Bool) : NtStatus × Ccu :=
  let s := s.record d
  if s.pmuMapped = false then (.deviceNotReady, s)
  else
    match d.idleReqBit with
    | none => (.success, s.writePwrGate d (bit d.pwrBit))
    | some reqBit =>
      let s := s.writeIdleReq reqBit (bit reqBit)
      if idled then (.success, s.writePwrGate d (bit d.pwrBit)) else (.deviceHardwareError, s)

/-- `RkMppPmuIdleRequest`, which does not report a timeout. -/
def idleRequest (d : Domain) (idle : Bool) : NtStatus × Ccu :=
  let s := s.record d
  if s.pmuMapped = false then (.deviceNotReady, s)
  else
    match d.idleReqBit with
    | none => (.success, s)
    | some reqBit => (.success, s.writeIdleReq reqBit (if idle then bit reqBit else 0))

end Pmu

section Interface

variable (a : Answers)

/-- `RaiseParents`. -/
def raiseParents : NtStatus × Ccu :=
  let s := s.setParents (long (s.parentsRefcount + 1))
  if s.parentsRefcount ≠ 1 then (.success, s)
  else
    let (status, s) := s.powerOn .vcodec (a.on .vcodec)
    if status ≠ .success then (status, s.setParents (long (s.parentsRefcount - 1)))
    else
      let s := s.ungateClocks .con44
      let s := s.deassertReset .con44
      let (status, s) := s.powerOn .vdpu (a.on .vdpu)
      if status ≠ .success then
        let s := s.gateClocks .con44
        let s := s.assertReset .con44
        let s := (s.powerOff .vcodec (a.idled .vcodec)).2
        (status, s.setParents (long (s.parentsRefcount - 1)))
      else (.success, s)

/-- `DropParents`. -/
def dropParents : Ccu :=
  let s := s.setParents (long (s.parentsRefcount - 1))
  if s.parentsRefcount ≠ 0 then s
  else
    let s := (s.powerOff .vdpu (a.idled .vdpu)).2
    let s := s.assertReset .con44
    let s := s.gateClocks .con44
    (s.powerOff .vcodec (a.idled .vcodec)).2

/-- `RkMppCcuRaiseCluster`. -/
def raiseCluster : NtStatus × Ccu :=
  if s.cruMapped = false then (.deviceNotReady, s)
  else if 0 < s.raiseRefcount then
    (.success, s.setRaise (long (s.raiseRefcount + 1)))
  else
    let (status, s) := s.raiseParents a
    if status ≠ .success then (status, s)
    else
      let s := s.selectRkvdec0Clocks
      let s := s.ungateClocks .con40
      let s := s.deassertReset .con40
      let (status, s) := s.powerOn .rkvdec0 (a.on .rkvdec0)
      if status ≠ .success then
        let s := s.assertReset .con40
        let s := s.gateClocks .con40
        (status, s.dropParents a)
      else
        let s := s.ungateClocks .con41
        let s := s.deassertReset .con41
        let (status, s) := s.powerOn .rkvdec1 (a.on .rkvdec1)
        if status ≠ .success then
          let s := s.assertReset .con41
          let s := s.gateClocks .con41
          let s := (s.powerOff .rkvdec0 (a.idled .rkvdec0)).2
          let s := s.assertReset .con40
          let s := s.gateClocks .con40
          (status, s.dropParents a)
        else (.success, s.setRaise 1)

/-- `RkMppCcuDropCluster`. -/
def dropCluster : NtStatus × Ccu :=
  if s.cruMapped = false then (.success, s)
  else if 1 < s.raiseRefcount then
    (.success, s.setRaise (long (s.raiseRefcount - 1)))
  else if s.raiseRefcount = 0 then (.success, s)
  else
    let s := (s.powerOff .rkvdec1 (a.idled .rkvdec1)).2
    let s := (s.powerOff .rkvdec0 (a.idled .rkvdec0)).2
    let s := s.assertReset .con40
    let s := s.assertReset .con41
    let s := s.gateClocks .con41
    let s := s.gateClocks .con40
    let s := s.dropParents a
    (.success, s.setRaise 0)

/-- `RkMppCcuRaiseAv1Cluster`. -/
def raiseAv1Cluster : NtStatus × Ccu :=
  if s.cruMapped = false then (.deviceNotReady, s)
  else if 0 < s.av1Refcount then
    (.success, s.setAv1 (long (s.av1Refcount + 1)))
  else
    let (status, s) := s.raiseParents a
    if status ≠ .success then (status, s)
    else
      let s := s.selectAv1Clocks
      let s := s.ungateClocks .con68
      let s := s.deassertReset .con68
      let (status, s) := s.powerOn .av1 (a.on .av1)
      if status ≠ .success then
        let s := s.gateClocks .con68
        (status, s.dropParents a)
      else (.success, s.setAv1 1)

/-- `RkMppCcuDropAv1Cluster`. -/
def dropAv1Cluster : NtStatus × Ccu :=
  if s.cruMapped = false then (.success, s)
  else if 1 < s.av1Refcount then
    (.success, s.setAv1 (long (s.av1Refcount - 1)))
  else if s.av1Refcount = 0 then (.success, s)
  else
    let s := (s.powerOff .av1 (a.idled .av1)).2
    let s := s.assertReset .con68
    let s := s.gateClocks .con68
    let s := s.dropParents a
    (.success, s.setAv1 0)

end Interface

section Effects

variable {s}

def requested (s : Ccu) (d : Domain) : Bool := s.regs.requested d

theorem getLsbD_hiwordWrite (reg mask value : BitVec 16) (i : Nat) :
    (hiwordWrite reg mask value).getLsbD i =
    if mask.getLsbD i then value.getLsbD i else reg.getLsbD i := by
  unfold hiwordWrite
  simp only [BitVec.getLsbD_or, BitVec.getLsbD_and, BitVec.getLsbD_not]
  by_cases hi : i < 16
  · cases mask.getLsbD i <;> simp [hi]
  · have hlong : ∀ r : BitVec 16, r.getLsbD i = false :=
      fun r => BitVec.getLsbD_of_ge r i (by omega)
    simp [hlong]

theorem hiwordWrite_and (reg mask value : BitVec 16) :
    hiwordWrite reg mask value &&& mask = value &&& mask := by
  apply BitVec.eq_of_getLsbD_eq
  intro i _
  rw [BitVec.getLsbD_and, getLsbD_hiwordWrite, BitVec.getLsbD_and]
  cases mask.getLsbD i <;> simp

theorem getLsbD_bit (d d' : Domain) : (bit d.pwrBit).getLsbD d'.pwrBit = decide (d = d') := by
  cases d <;> cases d' <;> rfl

@[simp] theorem requested_writePwrGate_zero (d d' : Domain) :
    (s.writePwrGate d 0#16).requested d' = (decide (d = d') || s.requested d') := by
  simp only [requested, Regs.requested, writePwrGate, getLsbD_hiwordWrite, getLsbD_bit]
  by_cases hd : d = d' <;> simp [hd]

@[simp] theorem requested_writePwrGate_set (d d' : Domain) :
    (s.writePwrGate d (bit d.pwrBit)).requested d' = (!decide (d = d') && s.requested d') := by
  simp only [requested, Regs.requested, writePwrGate, getLsbD_hiwordWrite, getLsbD_bit]
  by_cases hd : d = d' <;> simp [hd]

variable {d d' : Domain} {answer : OnAnswer} {idled idle : Bool} {con : Con}
  {mask value : BitVec 16}

@[simp] theorem globals_record : (s.record d).toGlobals = s.toGlobals := rfl
@[simp] theorem requested_record : (s.record d).requested d' = s.requested d' := rfl

@[simp] theorem globals_writeClkGate : (s.writeClkGate con mask value).toGlobals =
    s.toGlobals := rfl
@[simp] theorem globals_writeSoftRst : (s.writeSoftRst con mask value).toGlobals =
    s.toGlobals := rfl
@[simp] theorem globals_selectRkvdec0Clocks : s.selectRkvdec0Clocks.toGlobals = s.toGlobals := rfl
@[simp] theorem globals_selectAv1Clocks : s.selectAv1Clocks.toGlobals = s.toGlobals := rfl

@[simp] theorem requested_writeIdleReq {n : Nat} :
    (s.writeIdleReq n value).requested d = s.requested d := rfl
@[simp] theorem requested_selectRkvdec0Clocks : s.selectRkvdec0Clocks.requested d =
    s.requested d := rfl
@[simp] theorem requested_selectAv1Clocks : s.selectAv1Clocks.requested d = s.requested d := rfl

@[simp] theorem globals_ungateClocks : (s.ungateClocks con).toGlobals = s.toGlobals := rfl
@[simp] theorem globals_gateClocks : (s.gateClocks con).toGlobals = s.toGlobals := rfl
@[simp] theorem globals_deassertReset : (s.deassertReset con).toGlobals = s.toGlobals := rfl
@[simp] theorem globals_assertReset : (s.assertReset con).toGlobals = s.toGlobals := rfl

@[simp] theorem requested_ungateClocks : (s.ungateClocks con).requested d = s.requested d := rfl
@[simp] theorem requested_gateClocks : (s.gateClocks con).requested d = s.requested d := rfl
@[simp] theorem requested_deassertReset : (s.deassertReset con).requested d = s.requested d := rfl
@[simp] theorem requested_assertReset : (s.assertReset con).requested d = s.requested d := rfl

@[simp] theorem globals_setRaise {n : Int} :
    (s.setRaise n).toGlobals = { s.toGlobals with raiseRefcount := n } := rfl
@[simp] theorem globals_setAv1 {n : Int} :
    (s.setAv1 n).toGlobals = { s.toGlobals with av1Refcount := n } := rfl
@[simp] theorem globals_setParents {n : Int} :
    (s.setParents n).toGlobals = { s.toGlobals with parentsRefcount := n } := rfl

@[simp] theorem regs_setParents {n : Int} : (s.setParents n).regs = s.regs := rfl

@[simp] theorem requested_setRaise {n : Int} : (s.setRaise n).requested d = s.requested d := rfl
@[simp] theorem requested_setAv1 {n : Int} : (s.setAv1 n).requested d = s.requested d := rfl
@[simp] theorem requested_setParents {n : Int} : (s.setParents n).requested d = s.requested d := rfl

@[simp] theorem globals_powerOn : (s.powerOn d answer).2.toGlobals = s.toGlobals := by
  unfold powerOn
  dsimp only
  repeat' split
  all_goals rfl

@[simp] theorem globals_powerOff : (s.powerOff d idled).2.toGlobals = s.toGlobals := by
  unfold powerOff
  dsimp only
  repeat' split
  all_goals rfl

@[simp] theorem globals_idleRequest : (s.idleRequest d idle).2.toGlobals = s.toGlobals := by
  unfold idleRequest
  dsimp only
  repeat' split
  all_goals rfl

@[simp] theorem requested_idleRequest : (s.idleRequest d idle).2.requested d' = s.requested d' := by
  unfold idleRequest
  dsimp only
  repeat' split
  all_goals rfl

@[simp] theorem requested_powerOn :
    (s.powerOn d answer).2.requested d' = (s.pmuMapped && decide (d = d') || s.requested d') := by
  unfold powerOn
  dsimp only
  cases hmapped : s.pmuMapped with
  | false => simp [hmapped]
  | true =>
    simp only [globals_record, hmapped, Bool.true_eq_false, if_false]
    repeat' split
    all_goals simp

@[simp] theorem clkGate_powerOff : (s.powerOff d idled).2.regs.clkGate = s.regs.clkGate := by
  unfold powerOff
  dsimp only
  repeat' split
  all_goals rfl

@[simp] theorem softRst_powerOff : (s.powerOff d idled).2.regs.softRst = s.regs.softRst := by
  unfold powerOff
  dsimp only
  repeat' split
  all_goals rfl

@[simp] theorem clkGate_idleRequest : (s.idleRequest d idle).2.regs.clkGate = s.regs.clkGate := by
  unfold idleRequest
  dsimp only
  repeat' split
  all_goals rfl

@[simp] theorem softRst_idleRequest : (s.idleRequest d idle).2.regs.softRst = s.regs.softRst := by
  unfold idleRequest
  dsimp only
  repeat' split
  all_goals rfl

@[simp] theorem clkGate_powerOn : (s.powerOn d answer).2.regs.clkGate = s.regs.clkGate := by
  unfold powerOn
  dsimp only
  repeat' split
  all_goals rfl

@[simp] theorem softRst_powerOn : (s.powerOn d answer).2.regs.softRst = s.regs.softRst := by
  unfold powerOn
  dsimp only
  repeat' split
  all_goals rfl

/-- The status of a power-on. -/
theorem powerOn_success : (s.powerOn d answer).1 = .success ↔
    s.pmuMapped = true ∧ answer ≠ .statusTimeout ∧
    (answer = .ackTimeout → d.idleReqBit = none) := by
  unfold powerOn
  cases hmapped : s.pmuMapped with
  | false => simp [hmapped]
  | true => cases answer <;> cases d.idleReqBit <;> simp [hmapped]

@[simp] theorem requested_powerOff : (s.powerOff d idled).2.requested d' =
    (s.requested d' && !(s.pmuMapped && (d.idleReqBit.isNone || idled) && decide (d = d'))) := by
  unfold powerOff
  cases hmapped : s.pmuMapped with
  | false => simp [hmapped]
  | true => cases d.idleReqBit <;> cases idled <;> simp [hmapped, Bool.and_comm]

end Effects

end Ccu

end Rkvdec.Power
