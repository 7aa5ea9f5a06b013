import Rkvdec.Av1d.Submit
import Rkvdec.Lib.Trace

/-! Programming the AV1 core: a kick writes only the registers its job lists and those the job
before it left nonzero, by a bitmap that a requested reset clears. -/
namespace Rkvdec.Av1d

/-- A job as `RkMppJobSubmit` makes it: every entry is an aligned register of the window, and one
has the kick bit. -/
structure Job where
  writes : List RegWrite
  aligned : ∀ w ∈ writes, w.offset % 4 = 0 ∧ w.offset < 512 * 4
  kick : writes.any RegWrite.kicks = true

/-- The list of an accepted submission is such a job. -/
theorem job_of_submit {bufs : List Dense.Buffer} {allocOk admitted : Bool} {input : SubmitIn}
    {writes : List RegWrite} (h : submitJob bufs allocOk admitted input = .ok writes) :
    ∃ job : Job, job.writes = writes := by
  obtain ⟨hres, hkick⟩ := submitJob_ok h
  refine ⟨⟨writes, ?_, ?_⟩, rfl⟩
  · intro w hw
    obtain ⟨src, -, hsrc⟩ := mem_resolved hres hw
    rw [hsrc.offset]
    exact ⟨hsrc.aligned, hsrc.inRange⟩
  · clear h
    generalize input.writes = srcs at hres hkick
    induction hres with
    | nil => cases hkick
    | @cons src w srcs ws hhead _ ih =>
      rw [List.any_cons, Bool.or_eq_true] at hkick ⊢
      rcases hkick with hkick | hkick
      · left
        simp only [RegWrite.kicks, Bool.and_eq_true, beq_iff_eq] at hkick ⊢
        have hplain : isAddressLsbReg src.idx = false := by
          rw [RegWrite.idx, hkick.1]
          decide
        rw [hhead.plain hplain, hhead.offset]
        exact hkick
      · exact .inr (ih hkick)

/-- The device as far as programming reads it: the mapped window, the bitmap `PrevNonzeroMask`, the
flag `NeedsCoreReset`, and the registers by index. -/
structure Core where
  mmioLen : Nat
  prevNonzero : Nat → Bool := fun _ => false
  needsCoreReset : Bool := true
  regs : Nat → BitVec 32 := fun _ => 0

def kickIdx : Nat := kickRegOffset / 4

/-- The loop over the registers: a write that would leave a zero register zero is skipped unless the
register is listed. -/
def program (prev : Nat → Bool) (cur : Shadow) (regs : Nat → BitVec 32) : Nat →
    BitVec 32 := fun idx =>
  if idx = 0 ∨ 512 ≤ idx ∨ idx = kickIdx then regs idx
  else if cur.seen idx = false ∧ prev idx = false ∧ cur.nonzero idx = false then regs idx
  else cur.vals idx

/-- `RkMppJobComplete` with a failure or an error status requests a reset. -/
def completeError (c : Core) : Core := { c with needsCoreReset := true }

/-- An offset of the list lies outside the window. -/
def outOfRange (mmioLen : Nat) (writes : List RegWrite) : Bool :=
  writes.any fun w => decide (mmioLen ≤ w.offset ∨ mmioLen - w.offset < 4)

/-- The start of `RkMppJobStart`: a requested reset drops the bitmap. -/
def dropMask (c : Core) : Core :=
  if c.needsCoreReset then { c with needsCoreReset := false, prevNonzero := fun _ => false } else c

/-- Latched status bits are cleared; `sta` is what the status register reads, which has the address
of the kick register. -/
def clearStatus (c : Core) (sta : BitVec 32) : Core :=
  if sta ≠ 0 then { c with regs := Function.update c.regs kickIdx (sta &&& ~~~1) } else c

/-- `RkMppJobStart`: the core afterwards, and the registers when the kick register is written, if it
is. -/
def jobStart (c : Core) (sta : BitVec 32) (job : Job) : Core × Option (Nat → BitVec 32) :=
  if c.mmioLen = 0 then (completeError c, none)
  else
    let c := clearStatus (dropMask c) sta
    if outOfRange c.mmioLen job.writes then (completeError c, none)
    else
      let cur := shadow job.writes
      let regs := program c.prevNonzero cur c.regs
      let c := { c with regs := regs, prevNonzero := cur.nonzero }
      if cur.seen kickIdx then
        ({ c with regs := Function.update regs kickIdx (cur.vals kickIdx) }, some regs)
      else (c, none)

/-- What happens to the core: a kick, or something that requests a reset (a completion with an
error, the cleanup of a file, a power transition). -/
inductive Event where
  | kick (sta : BitVec 32) (job : Job)
  | requestReset

def step (c : Core) : Event → Core × Option (Nat → BitVec 32)
  | .kick sta job => jobStart c sta job
  | .requestReset => (completeError c, none)

/-- The registers 1 to 511 but the kick register. -/
def Programmable (idx : Nat) : Prop := 1 ≤ idx ∧ idx < 512 ∧ idx ≠ kickIdx

section Step

variable {c : Core} {job : Job} {regs : Nat → BitVec 32} {idx : Nat}

theorem Job.seen_kick (job : Job) : (shadow job.writes).seen kickIdx = true := by
  obtain ⟨w, hw, hkick⟩ := List.any_eq_true.mp job.kick
  rw [(shadow_eq job.writes kickIdx).2]
  cases h : lastFor job.writes kickIdx with
  | some _ => rfl
  | none =>
    simp only [RegWrite.kicks, Bool.and_eq_true, beq_iff_eq] at hkick
    refine absurd ⟨?_, by decide⟩ (lastFor_none h w hw)
    rw [RegWrite.idx, hkick.1]
    rfl

/-- The value the job gives the register at last, and 0 if it lists none. -/
def Job.value (job : Job) (idx : Nat) : BitVec 32 :=
  ((lastFor job.writes idx).map RegWrite.value).getD 0

/-- The job lists the register. -/
def Job.lists (job : Job) (idx : Nat) : Bool := (lastFor job.writes idx).isSome

/-- The registers hold what the job lists, and zero where it lists nothing. -/
def Full (job : Job) (regs : Nat → BitVec 32) : Prop :=
  ∀ idx, Programmable idx → regs idx = job.value idx

/-- The job gets past the checks of the window. -/
def Reaches (c : Core) (job : Job) : Prop := c.mmioLen ≠ 0 ∧ outOfRange c.mmioLen job.writes = false

instance : Decidable (Reaches c job) := inferInstanceAs (Decidable (_ ∧ _))

/-- The bitmap the loop compares with. -/
def Core.mask (c : Core) (idx : Nat) : Bool := !c.needsCoreReset && c.prevNonzero idx

theorem dropMask_fields (c : Core) : (dropMask c).mmioLen = c.mmioLen ∧ (dropMask c).regs = c.regs ∧
    (dropMask c).needsCoreReset = false ∧ (dropMask c).prevNonzero = c.mask := by
  unfold dropMask Core.mask
  cases hreset : c.needsCoreReset <;> simp [hreset]

theorem clearStatus_fields (c : Core) (sta : BitVec 32) : (clearStatus c sta).mmioLen = c.mmioLen ∧
    (clearStatus c sta).needsCoreReset = c.needsCoreReset ∧
    (clearStatus c sta).prevNonzero = c.prevNonzero ∧
    ∀ idx, Programmable idx → (clearStatus c sta).regs idx = c.regs idx := by
  unfold clearStatus
  split
  · exact ⟨rfl, rfl, rfl, fun idx hidx => Function.update_of_ne hidx.2.2 _ _⟩
  · exact ⟨rfl, rfl, rfl, fun _ _ => rfl⟩

/-- The core when the list is checked. -/
theorem checked_fields (c : Core) (sta : BitVec 32) :
    (clearStatus (dropMask c) sta).mmioLen = c.mmioLen ∧
    (clearStatus (dropMask c) sta).needsCoreReset = false ∧
    (clearStatus (dropMask c) sta).prevNonzero = c.mask ∧
    ∀ idx, Programmable idx → (clearStatus (dropMask c) sta).regs idx = c.regs idx := by
  obtain ⟨hlen, hregs, hneeds, hprev⟩ := dropMask_fields c
  obtain ⟨hlen', hneeds', hprev', hregs'⟩ := clearStatus_fields (dropMask c) sta
  rw [hlen', hneeds', hprev', hlen, hneeds, hprev]
  exact ⟨rfl, rfl, rfl, fun idx hidx => (hregs' idx hidx).trans (congrFun hregs idx)⟩

/-- A job that is refused requests a reset and leaves the registers. -/
theorem jobStart_refused (sta : BitVec 32) (h : ¬ Reaches c job) :
    (jobStart c sta job).2 = none ∧ (jobStart c sta job).1.needsCoreReset = true ∧
      (jobStart c sta job).1.mmioLen = c.mmioLen ∧
      ∀ idx, Programmable idx → (jobStart c sta job).1.regs idx = c.regs idx := by
  obtain ⟨hlen, -, -, hregs⟩ := checked_fields c sta
  unfold jobStart
  by_cases hzero : c.mmioLen = 0
  · rw [if_pos hzero]
    exact ⟨rfl, rfl, rfl, fun _ _ => rfl⟩
  · have hrange : outOfRange c.mmioLen job.writes = true := by
      cases hout : outOfRange c.mmioLen job.writes with
      | true => rfl
      | false => exact absurd ⟨hzero, hout⟩ h
    simp only [if_neg hzero, hlen, hrange, if_true]
    exact ⟨trivial, rfl, hlen, hregs⟩

/-- The loop leaves a register that is neither listed nor in the bitmap. -/
theorem program_eq {prev : Nat → Bool} (hidx : Programmable idx) :
    program prev (shadow job.writes) regs idx =
      if job.lists idx = false ∧ prev idx = false then regs idx else job.value idx := by
  obtain ⟨hval, hseen⟩ := shadow_eq job.writes idx
  have hskip : ¬ (idx = 0 ∨ 512 ≤ idx ∨ idx = kickIdx) := by
    obtain ⟨hpos, hlt, hne⟩ := hidx
    omega
  unfold program
  rw [if_neg hskip, hseen, hval]
  by_cases hlisted : job.lists idx = false
  · -- nothing is listed, so the bitmap of this job has no bit either
    have hnone : lastFor job.writes idx = none := by simpa [Job.lists] using hlisted
    have hnonzero : (shadow job.writes).nonzero idx = false := by
      by_contra hno
      have hlist := seen_of_nonzero (Bool.not_eq_false _ ▸ hno)
      rw [hseen, hnone] at hlist
      cases hlist
    simp [hnone, Job.value, Job.lists, hnonzero]
  · simp only [Job.lists] at hlisted
    simp [hlisted, Job.lists, Job.value]

/-- A job that reaches the hardware: what it leaves in a register, and the bitmap afterwards. -/
theorem jobStart_reaches (sta : BitVec 32) (h : Reaches c job) :
    ∃ regs, (jobStart c sta job).2 = some regs ∧
    (∀ idx, Programmable idx → regs idx =
      if job.lists idx = false ∧ c.mask idx = false then c.regs idx else job.value idx) ∧
    (∀ idx, Programmable idx → (jobStart c sta job).1.regs idx = regs idx) ∧
    (jobStart c sta job).1.prevNonzero = (shadow job.writes).nonzero ∧
    (jobStart c sta job).1.needsCoreReset = false ∧ (jobStart c sta job).1.mmioLen = c.mmioLen := by
  obtain ⟨hlen, hneeds, hprev, hregs⟩ := checked_fields c sta
  unfold jobStart
  simp only [if_neg h.1, hlen, h.2, Bool.false_eq_true, if_false, job.seen_kick, if_true]
  refine ⟨_, rfl, ?_, ?_, trivial, hneeds, trivial⟩
  · intro idx hidx
    rw [program_eq hidx, hprev, hregs idx hidx]
  · intro idx hidx
    exact Function.update_of_ne hidx.2.2 _ _

/-- The registers are those the last job listed, and outside a requested reset the bitmap covers
what is not zero. -/
structure Tracked (c : Core) (last : Option Job) : Prop where
  regs : ∀ idx, Programmable idx → c.regs idx = (last.map (Job.value · idx)).getD 0
  mask : c.needsCoreReset = false → ∀ idx, Programmable idx → c.regs idx ≠ 0 →
    c.prevNonzero idx = true

/-- The job lists every register that the last job left nonzero. -/
def Covers (job : Job) (last : Option Job) : Prop :=
  ∀ prev, last = some prev → ∀ idx, Programmable idx → prev.value idx ≠ 0 → job.lists idx = true

theorem Job.value_of_unlisted (h : job.lists idx = false) : job.value idx = 0 := by
  have hnone : lastFor job.writes idx = none := by simpa [Job.lists] using h
  simp [Job.value, hnone]

/-- A kick programs the whole job iff no reset was requested or the job covers the last one. -/
theorem full_iff {last : Option Job} (h : Tracked c last)
    (hregs : ∀ idx, Programmable idx → regs idx =
    if job.lists idx = false ∧ c.mask idx = false then c.regs idx else job.value idx) :
    Full job regs ↔ (c.needsCoreReset = true → Covers job last) := by
  constructor
  · rintro hfull hreset prev rfl idx hidx hne
    by_contra hunlisted
    have hno : job.lists idx = false := by simpa using hunlisted
    have hmask : c.mask idx = false := by simp [Core.mask, hreset]
    have hval := hfull idx hidx
    rw [hregs idx hidx, if_pos ⟨hno, hmask⟩, h.regs idx hidx, job.value_of_unlisted hno] at hval
    exact hne hval
  · intro hcovers idx hidx
    rw [hregs idx hidx]
    split
    · rename_i hskip
      obtain ⟨hno, hmask⟩ := hskip
      rw [job.value_of_unlisted hno]
      by_contra hne
      cases hreset : c.needsCoreReset with
      | true =>
        cases hlast : last with
        | none => exact hne (by rw [h.regs idx hidx, hlast]; rfl)
        | some prev =>
          have hval : c.regs idx = prev.value idx := by rw [h.regs idx hidx, hlast]; rfl
          have hlists := hcovers hreset prev hlast idx hidx (hval ▸ hne)
          rw [hno] at hlists
          cases hlists
      | false =>
        have hbit := h.mask hreset idx hidx hne
        simp [Core.mask, hreset, hbit] at hmask
    · rfl

end Step

section Run

variable {events : List Event}

/-- The core and the last job that reached the hardware. -/
abbrev History := Core × Option Job

/-- One event, with the job remembered that reached the hardware last. -/
def advance (s : History) (e : Event) : History :=
  ((step s.1 e).1, match e with
    | .kick _ job => if Reaches s.1 job then some job else s.2
    | .requestReset => s.2)

/-- When the kick register is written, the registers hold the whole job. -/
def Programs (s : History) : Event → Prop
  | .kick sta job => ∀ regs, (jobStart s.1 sta job).2 = some regs → Full job regs
  | .requestReset => True

/-- A job that reaches the hardware while a reset is requested lists every register that the last
one left nonzero. -/
def Clears (s : History) : Event → Prop
  | .kick _ job => Reaches s.1 job → s.1.needsCoreReset = true → Covers job s.2
  | .requestReset => True

/-- The registers are tracked from the last job on. -/
def History.Good (s : History) : Prop := Tracked s.1 s.2

theorem programs_iff {s : History} (h : s.Good) (e : Event) : Programs s e ↔ Clears s e := by
  cases e with
  | requestReset => exact Iff.rfl
  | kick sta job =>
    by_cases hreaches : Reaches s.1 job
    · obtain ⟨regs, hsome, hregs, -⟩ := jobStart_reaches sta hreaches
      have hfull := full_iff h hregs
      constructor
      · intro hprograms _
        exact hfull.mp (hprograms regs hsome)
      · intro hclears regs' hregs'
        rw [hsome] at hregs'
        obtain rfl := Option.some.inj hregs'
        exact hfull.mpr (hclears hreaches)
    · have hnone := (jobStart_refused sta hreaches).1
      constructor
      · intro _ hno
        exact absurd hno hreaches
      · intro _ regs hsome
        rw [hnone] at hsome
        cases hsome

theorem good_advance {s : History} (h : s.Good) (e : Event) (hprograms : Programs s e) :
    (advance s e).Good := by
  cases e with
  | requestReset => exact ⟨h.regs, fun hreset => by cases hreset⟩
  | kick sta job =>
    by_cases hreaches : Reaches s.1 job
    · obtain ⟨regs, hsome, -, hafter, hprev, -⟩ := jobStart_reaches sta hreaches
      have hfull := hprograms regs hsome
      have hval (idx : Nat) (hidx : Programmable idx) :
          (jobStart s.1 sta job).1.regs idx = job.value idx :=
        (hafter idx hidx).trans (hfull idx hidx)
      simp only [History.Good, advance, step, if_pos hreaches]
      refine ⟨fun idx hidx => hval idx hidx, fun _ idx hidx hne => ?_⟩
      rw [hprev]
      refine nonzero_of_val ?_
      rw [(shadow_eq job.writes idx).1]
      exact fun hzero => hne ((hval idx hidx).trans hzero)
    · obtain ⟨-, hneeds, -, hregs⟩ := jobStart_refused sta hreaches
      simp only [History.Good, advance, step, if_neg hreaches]
      refine ⟨fun idx hidx => (hregs idx hidx).trans (h.regs idx hidx), fun hreset => ?_⟩
      rw [hneeds] at hreset
      cases hreset

/-- The device when the registers are zero and nothing was kicked yet. -/
def start (mmioLen : Nat) : History := ({ mmioLen := mmioLen }, none)

theorem good_start (mmioLen : Nat) : (start mmioLen).Good :=
  ⟨fun _ _ => rfl, fun hreset => by cases hreset⟩

/-- Every kick of a run programs its whole job, iff every job that reaches the hardware while a
reset is requested lists the registers that the job before it left nonzero. -/
theorem sparse_programming_full_iff (mmioLen : Nat) (events : List Event) :
    Lib.Along advance Programs (start mmioLen) events ↔
      Lib.Along advance Clears (start mmioLen) events :=
  Lib.along_congr (fun _ e h => programs_iff h e) (fun _ e h => good_advance h e)
    (good_start mmioLen)

/-- A job that programs the address register 65, and one that does not list it. -/
abbrev addressJob : Job := ⟨[⟨65 * 4, 0x1000, 7, 0⟩, ⟨4, 1, 0, 0⟩], by decide, by decide⟩
abbrev emptyJob : Job := ⟨[⟨4, 1, 0, 0⟩], by decide, by decide⟩

/-- After an error the address of the job before is still in its register at the next kick. -/
theorem register_survives_reset :
    ((jobStart (advance (advance (start 2048) (.kick 0 addressJob)) .requestReset).1 0
      emptyJob).2.map
      fun regs => (regs 65, emptyJob.value 65)) = some (0x1000, 0) ∧
    ¬ Lib.Along advance Programs (start 2048) [.kick 0 addressJob, .requestReset,
    .kick 0 emptyJob] := by
  refine ⟨by decide, ?_⟩
  rintro ⟨-, -, hprograms, -⟩
  have hzero := hprograms _ rfl 65 ⟨by decide, by decide, by decide⟩
  revert hzero
  decide

end Run

end Rkvdec.Av1d
