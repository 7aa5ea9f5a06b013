import Mathlib.Tactic
import Rkvdec.Vp9.Engine

/-! The registers of the references of an inter frame: whether they all speak of the same
pictures. -/
namespace Rkvdec.Vp9

/-- The registers of a reference as its entry alone gives them. -/
def DpbSlot.refRegs (d : DpbSlot) (pp : PicParams) : RefRegs :=
  let pitch := alignedPitch d.width d.depth
  { horStride := pitch / 16 % 2 ^ 16
    yVirStride := d.height * pitch / 16 % 2 ^ 28
    horScale := scaleFactor d.width pp.width
    verScale := scaleFactor d.height pp.height
    width := d.width % 2 ^ 16
    height := d.height % 2 ^ 16
    poc := d.poc }

/-- The engine, and the POC of the frame that was decoded last to each buffer of motion vectors. -/
structure Traced where
  engine : Engine
  colmvPoc : Buf → Option Nat := fun _ => none

namespace Traced

/-- A frame that came back has written its motion vectors. -/
def decode (s : Traced) (out : Outcome) : Traced where
  engine := out.engine
  colmvPoc := match out.submitted, out.status with
    | some regs, .ok => Function.update s.colmvPoc regs.colmvCurBase (some regs.curPoc)
    | _, _ => s.colmvPoc

def step (s : Traced) : Event → Traced
  | .decode bits kickOk => s.decode (s.engine.decodeOne bits kickOk)
  | .release slot => { s with engine := s.engine.step (.release slot) }
  | .flush => { s with engine := s.engine.step .flush }

/-- The entries of the references of a frame, all of them valid. -/
def Entries (s : Traced) (pp : PicParams) (entries : List DpbSlot) : Prop :=
  pp.frameRefs.map (fun ref => s.engine.dpb.slots ref.index) = entries.map some

/-- The registers of each reference come from its entry, and the collocated POC is that of the frame
whose motion vectors are given. -/
structure Coherent (s : Traced) (pp : PicParams) (entries : List DpbSlot) (regs : Regs) : Prop where
  refs : regs.refs = entries.map fun d => d.refRegs pp
  bases : regs.refBases = entries.map DpbSlot.frameHandle
  colmv : regs.refColmvSlots = entries.map DpbSlot.colmvHandle
  col : regs.colRefPoc ≠ 0 → s.colmvPoc regs.refColmvBase = some regs.colRefPoc

/-- The first three slots hold the pictures of the three references, and the last frame that was
shown is the first of them. -/
structure Aligned (s : Traced) (entries : List DpbSlot) : Prop where
  slots : ([0, 1, 2] : List RefSlot).map (fun i => (s.engine.dpb.slots i).map DpbSlot.colmvHandle) =
    entries.map fun d => some d.colmvHandle
  shown : entries.head?.map DpbSlot.poc = some s.engine.colRefPoc

/-- Every inter frame with valid references that is submitted has coherent registers. -/
def CoherentCall (s : Traced) (bits : List Bool) (kickOk : Bool) : Prop :=
  ∀ pp entries regs, parse s.engine.parserState bits = some pp → pp.isIntra = false →
    s.Entries pp entries → (s.engine.decodeOne bits kickOk).submitted = some regs →
    s.Coherent pp entries regs

def AlignedCall (s : Traced) (bits : List Bool) : Prop :=
  ∀ pp target entries, s.engine.Submits bits pp target → pp.isIntra = false → s.Entries pp entries →
    s.Aligned entries

/-- An entry has both buffers of one slot of the pool, and the motion vectors there are its own. -/
structure Sound (s : Traced) (d : DpbSlot) : Prop where
  handles : ∃ k, d.frameHandle = .poolOutput k ∧ d.colmvHandle = .poolColmv k
  poc : 0 < d.poc ∧ d.poc ≤ s.engine.dpb.nextPoc
  written : s.colmvPoc d.colmvHandle = some d.poc

def Inv (s : Traced) : Prop := ∀ r d, s.engine.dpb.slots r = some d → s.Sound d

end Traced

section Lists

variable {α β γ : Type}

/-- What a function says of the elements that were found. -/
theorem map_of_map_some {l : List α} {es : List β} {f : α → Option β} {g : α → γ} {h : β → γ}
    (hl : l.map f = es.map some) (hfg : ∀ x d, f x = some d → g x = h d) : l.map g = es.map h := by
  induction l generalizing es with
  | nil =>
    obtain rfl : es = [] := by simpa using hl.symm
    rfl
  | cons x l ih =>
    cases es with
    | nil => cases hl
    | cons d es =>
      obtain ⟨hx, htail⟩ := List.cons.inj hl
      rw [List.map_cons, List.map_cons, hfg x d hx, ih htail]

/-- A default that is none of the values is not taken. -/
theorem map_getD_iff {l : List α} {cs : List β} {f : α → Option β} {t : β} (ht : ∀ c ∈ cs, c ≠ t) :
    l.map (fun x => (f x).getD t) = cs ↔ l.map f = cs.map some := by
  induction l generalizing cs with
  | nil => cases cs <;> simp
  | cons x l ih =>
    cases cs with
    | nil => simp
    | cons c cs =>
      have hne : c ≠ t := ht c List.mem_cons_self
      have hhead : (f x).getD t = c ↔ f x = some c := by
        cases f x with
        | none => simp [hne.symm]
        | some b => simp
      have htail := ih fun c' hc' => ht c' (List.mem_cons_of_mem _ hc')
      simp only [List.map_cons, List.cons.injEq, hhead, htail]

end Lists

namespace Traced

variable {s : Traced} {bits : List Bool} {pp : PicParams} {entries : List DpbSlot}
  {target : PoolSlot}
  {regs : Regs}

theorem refRegs_entry {e : Engine} {ref : RefFrameDesc} {d : DpbSlot}
    (h : e.dpb.slots ref.index = some d) : e.refRegs pp ref = d.refRegs pp := by
  simp only [Engine.refRegs, DpbSlot.refRegs, h, Option.map_some, Option.getD_some]

theorem refBase_entry {e : Engine} {ref : RefFrameDesc} {d : DpbSlot} (hinter : pp.isIntra = false)
    (h : e.dpb.slots ref.index = some d) : e.refBase pp target ref = d.frameHandle := by
  simp only [Engine.refBase, hinter, h, Bool.false_eq_true, if_false, Option.map_some,
    Option.getD_some]

/-- The target is not the slot of an entry. -/
theorem colmv_ne_target {d : DpbSlot} {r : RefSlot} (hinv : s.Inv)
    (hfree : s.engine.freePoolSlot = some target) (hd : s.engine.dpb.slots r = some d) :
    d.colmvHandle ≠ .poolColmv target := by
  obtain ⟨k, hframe, hcolmv⟩ := (hinv r d hd).handles
  have hfound := List.find?_some hfree
  simp only [Bool.and_eq_true, decide_eq_true_eq] at hfound
  intro h
  rw [hcolmv] at h
  obtain rfl := Buf.poolColmv.inj h
  exact hfound.2 r (by rw [hd, Option.map_some, hframe])

theorem entries_mem {d : DpbSlot} (hentries : s.Entries pp entries) (hd : d ∈ entries) :
    ∃ r, s.engine.dpb.slots r = some d := by
  have hmem : some d ∈ entries.map some := List.mem_map_of_mem hd
  rw [← hentries] at hmem
  obtain ⟨ref, -, href⟩ := List.mem_map.mp hmem
  exact ⟨ref.index, href⟩

theorem fill_refs {e : Engine} (h : e.fill pp target = some regs) (hinter : pp.isIntra = false) :
    regs.refs = pp.frameRefs.map (e.refRegs pp) ∧
      regs.refBases = pp.frameRefs.map (e.refBase pp target) ∧
      regs.refColmvSlots = ([0, 1, 2] : List RefSlot).map (fun i =>
        ((e.dpb.slots i).map DpbSlot.colmvHandle).getD (.poolColmv target)) ∧
      regs.colRefPoc = (if e.colRefPoc = 0 then e.dpb.nextPoc + 1 else e.colRefPoc) ∧
      regs.refColmvBase = e.refColmv pp target := by
  unfold Engine.fill at h
  split at h
  · cases h
    refine ⟨?_, rfl, rfl, rfl, rfl⟩
    simp only [hinter, Bool.false_eq_true, if_false]
  · cases h

/-- The vectors of the last reference, where it is valid. -/
theorem refColmv_entry {e : Engine} {d : DpbSlot} (hinter : pp.isIntra = false)
    (h : pp.frameRefs.map (fun ref => e.dpb.slots ref.index) = (d :: entries).map some) :
    e.refColmv pp target = d.colmvHandle := by
  cases hrefs : pp.frameRefs with
  | nil =>
    rw [hrefs] at h
    cases h
  | cons last rest =>
    rw [hrefs] at h
    have hlast := (List.cons.inj h).1
    simp only [Engine.refColmv, hinter, hrefs, hlast, Bool.false_eq_true, if_false, Option.map_some,
      Option.getD_some]

/-- The collocated POC is that of the entry exactly when the engine tracks it: a frame has no POC of
a later one. -/
theorem col_iff {d : DpbSlot} (hpoc : 0 < d.poc ∧ d.poc ≤ s.engine.dpb.nextPoc) :
    (if s.engine.colRefPoc = 0 then s.engine.dpb.nextPoc + 1 else s.engine.colRefPoc) = d.poc ↔
      d.poc = s.engine.colRefPoc := by
  split <;> omega

/-- The slots that are named for the motion vectors are the first three, whatever the references
are. -/
theorem colmv_iff (hinv : s.Inv) (hfree : s.engine.freePoolSlot = some target)
    (hentries : s.Entries pp entries) :
    ([0, 1, 2] : List RefSlot).map (fun i =>
        ((s.engine.dpb.slots i).map DpbSlot.colmvHandle).getD (.poolColmv target)) =
      entries.map DpbSlot.colmvHandle ↔
    ([0, 1, 2] : List RefSlot).map (fun i => (s.engine.dpb.slots i).map DpbSlot.colmvHandle) =
      entries.map fun d => some d.colmvHandle := by
  have hother : ∀ c ∈ entries.map DpbSlot.colmvHandle, c ≠ .poolColmv target := by
    intro c hc
    obtain ⟨d, hd, rfl⟩ := List.mem_map.mp hc
    obtain ⟨r, hr⟩ := entries_mem hentries hd
    exact colmv_ne_target hinv hfree hr
  rw [map_getD_iff hother, List.map_map]
  rfl

theorem coherent_iff (hinv : s.Inv) (hfree : s.engine.freePoolSlot = some target)
    (hfill : s.engine.fill pp target = some regs) (hinter : pp.isIntra = false)
    (hentries : s.Entries pp entries) : s.Coherent pp entries regs ↔ s.Aligned entries := by
  obtain ⟨hrefs, hbases, hslots, hcol, hbase⟩ := fill_refs hfill hinter
  have hcolmv := colmv_iff hinv hfree hentries
  -- the three slots leave no room for fewer references
  cases entries with
  | nil =>
    constructor
    · intro h
      have hempty := hcolmv.mp (hslots.symm.trans h.colmv)
      cases hempty
    · intro h
      cases h.slots
  | cons d rest =>
    obtain ⟨r, hr⟩ := entries_mem hentries List.mem_cons_self
    have hsound := hinv r d hr
    have hgiven : s.colmvPoc regs.refColmvBase = some d.poc := by
      rw [hbase, refColmv_entry hinter hentries]
      exact hsound.written
    have hpoc := col_iff hsound.poc
    constructor
    · intro h
      refine ⟨hcolmv.mp (hslots.symm.trans h.colmv), ?_⟩
      have hnonzero : regs.colRefPoc ≠ 0 := by
        rw [hcol]
        split <;> omega
      have hsame := hgiven.symm.trans (h.col hnonzero)
      rw [hcol] at hsame
      exact congrArg some (hpoc.mp (Option.some.inj hsame).symm)
    · intro h
      refine ⟨?_, ?_, hslots.trans (hcolmv.mpr h.slots), ?_⟩
      · exact hrefs.trans (map_of_map_some hentries fun ref d hd => refRegs_entry hd)
      · exact hbases.trans (map_of_map_some hentries fun ref d hd => refBase_entry hinter hd)
      · intro _
        rw [hgiven, hcol, hpoc.mpr (Option.some.inj h.shown)]

/-- The buffers and the POC of a frame that is submitted. -/
theorem fill_current {e : Engine} (h : e.fill pp target = some regs) :
    regs.colmvCurBase = .poolColmv target ∧ regs.curPoc = e.dpb.nextPoc + 1 := by
  unfold Engine.fill at h
  split at h
  · cases h
    exact ⟨rfl, rfl⟩
  · cases h

theorem inv_kickDone (hinv : s.Inv) (hfree : s.engine.freePoolSlot = some target) :
    ({ engine := s.engine.kickDone pp target
       colmvPoc := Function.update s.colmvPoc (.poolColmv target)
         (some (s.engine.dpb.nextPoc + 1)) } :
      Traced).Inv := by
  intro r d hd
  change (if _ then some _ else s.engine.dpb.slots r) = some d at hd
  split at hd
  · obtain rfl := Option.some.inj hd
    exact ⟨⟨target, rfl, rfl⟩, ⟨Nat.succ_pos _, le_rfl⟩, Function.update_self ..⟩
  · obtain ⟨hhandles, ⟨hpos, hle⟩, hwritten⟩ := hinv r d hd
    refine ⟨hhandles, ⟨hpos, Nat.le_succ_of_le hle⟩, ?_⟩
    exact (Function.update_of_ne (colmv_ne_target hinv hfree hd) ..).trans hwritten

/-- An engine with the same references keeps the invariant. -/
theorem Inv.congr {e : Engine} (hinv : s.Inv) (h : e.dpb = s.engine.dpb) :
    ({ s with engine := e } : Traced).Inv := by
  intro r d hd
  change e.dpb.slots r = some d at hd
  rw [h] at hd
  obtain ⟨hhandles, hpoc, hwritten⟩ := hinv r d hd
  refine ⟨hhandles, ?_, hwritten⟩
  change 0 < d.poc ∧ d.poc ≤ e.dpb.nextPoc
  rw [h]
  exact hpoc

theorem inv_step (hinv : s.Inv) (ev : Event) : (s.step ev).Inv := by
  cases ev with
  | release slot => exact hinv.congr rfl
  | flush => exact hinv.congr rfl
  | decode bits kickOk =>
    change (s.decode (s.engine.decodeOne bits kickOk)).Inv
    rcases s.engine.decodeOne_cases bits kickOk with ⟨pp, target, hsub⟩ |
      ⟨pp, d, slot, hshow⟩ | hidle
    · obtain ⟨regs, hfill, hout⟩ := hsub.outcome kickOk
      rw [hout]
      cases kickOk with
      | false => exact hinv.congr rfl
      | true =>
        obtain ⟨hcolmv, hpoc⟩ := fill_current hfill
        change Traced.Inv ⟨s.engine.kickDone pp target,
          Function.update s.colmvPoc regs.colmvCurBase (some regs.curPoc)⟩
        rw [hcolmv, hpoc]
        exact inv_kickDone hinv hsub.free
    · rw [hshow.outcome]
      exact hinv.congr rfl
    · have hdecode : s.decode (s.engine.decodeOne bits kickOk) =
          { s with engine := (s.engine.decodeOne bits kickOk).engine } := by
        unfold decode
        rw [hidle.submitted]
      rw [hdecode]
      refine hinv.congr ?_
      rcases hidle.engine with he | he <;> rw [he]

end Traced

/-- After every run, an inter frame with valid references is submitted with coherent registers
exactly when the first three slots hold its references and the last frame that was shown is the
first of them. -/
theorem reference_registers_iff (width height : Nat) (events : List Event) (bits : List Bool)
    (kickOk : Bool) :
    (events.foldl Traced.step { engine := .init width height }).CoherentCall bits kickOk ↔
      (events.foldl Traced.step { engine := .init width height }).AlignedCall bits := by
  have hinit : Traced.Inv { engine := .init width height } := by
    intro r d hd
    cases hd
  have hinv : (events.foldl Traced.step { engine := .init width height }).Inv :=
    List.foldlRecOn events _ hinit fun s hs ev _ => Traced.inv_step hs ev
  constructor
  · intro h pp target entries hsub hinter hentries
    obtain ⟨regs, hfill, -⟩ := hsub.outcome kickOk
    have hcoherent := h pp entries regs hsub.parsed hinter hentries
      (Engine.submitted_iff.mpr ⟨pp, target, hsub, hfill⟩)
    exact (Traced.coherent_iff hinv hsub.free hfill hinter hentries).mp hcoherent
  · intro h pp entries regs hparse hinter hentries hsubmitted
    obtain ⟨pp', target, hsub, hfill⟩ := Engine.submitted_iff.mp hsubmitted
    obtain rfl : pp' = pp := Option.some.inj (hsub.parsed.symm.trans hparse)
    exact (Traced.coherent_iff hinv hsub.free hfill hinter hentries).mpr
      (h pp' target entries hsub hinter hentries)

/-- A key frame, and an inter frame that takes slot 0. -/
def splitSlots : Traced :=
  ([.decode keyFrameBits true, .decode (interFrameBits 1 0 true 0) true] : List Event).foldl
    Traced.step
    { engine := .init 64 64 }

/-- A frame that refers to slot 1 alone is given the motion vectors of slot 0 for its first
reference. -/
theorem colmv_of_other_slot : ¬ splitSlots.CoherentCall (interFrameBits 1 1 true 0) true := by
  intro h
  have hcoherent := h
    ((parse splitSlots.engine.parserState (interFrameBits 1 1 true 0)).get (by decide +kernel))
    (List.replicate 3 ((splitSlots.engine.dpb.slots 1).get (by decide +kernel)))
    ((splitSlots.engine.decodeOne (interFrameBits 1 1 true 0) true).submitted.get
      (by decide +kernel))
    (Option.some_get _).symm (by decide +kernel) (by unfold Traced.Entries; decide +kernel)
    (Option.some_get _).symm
  exact absurd hcoherent.colmv (by decide +kernel)

end Rkvdec.Vp9
