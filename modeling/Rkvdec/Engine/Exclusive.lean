import Rkvdec.Engine.Mirror
import Rkvdec.Engine.Session

/-! Slot exclusivity of the H.264 engine over whole runs: no check fires, the flags mirror the
queues, and the slot picked for a new picture is one nobody refers to. -/
namespace Rkvdec.Engine.H264

variable {d d' : DpbCtx} {i : SlotIdx} {parsed : Parsed}

/-- A reference picture is in use. -/
def RefsInUse (d : DpbCtx) : Prop :=
  ∀ i, (d.slots i).ref.isRef = true → (d.slots i).ref.inUse = true

/-- Reference marking: reference states change, lifecycle flags and epochs do not. -/
structure Marks (d d' : DpbCtx) : Prop where
  holds : d'.holds = d.holds
  currentIdx : d'.currentIdx = d.currentIdx
  currentEpoch : d'.currentEpoch = d.currentEpoch
  refs : RefsInUse d → RefsInUse d'

theorem Marks.refl : Marks d d := ⟨rfl, rfl, rfl, id⟩

theorem Marks.trans {d'' : DpbCtx} (h : Marks d d') (h' : Marks d' d'') : Marks d d'' :=
  ⟨h'.holds.trans h.holds, h'.currentIdx.trans h.currentIdx,
    h'.currentEpoch.trans h.currentEpoch, fun hd => h'.refs (h.refs hd)⟩

theorem Marks.codec (c : Marking) : Marks d { d with codec := c } :=
  ⟨rfl, rfl, rfl, id⟩

theorem Marks.modifyRef {f : RefState → RefState}
    (hf : ∀ s, (s.isRef = true → s.inUse = true) → (f s).isRef = true → (f s).inUse = true) :
    Marks d (d.modifyRef i f) := by
  refine ⟨Dpb.holds_modifyRef, rfl, rfl, fun h j => ?_⟩
  by_cases hj : j = i
  · subst hj
    simpa [Dpb.modifyRef] using hf _ (h j)
  · simpa [Dpb.modifyRef, Function.update_of_ne hj] using h j

theorem Marks.foldl {α : Type} {f : DpbCtx → α → DpbCtx} (l : List α)
    (hf : ∀ d a, Marks d (f d a)) : Marks d (l.foldl f d) :=
  List.foldlRecOn l f .refl fun d' h a _ => h.trans (hf d' a)

theorem marks_slotClear : Marks d (slotClear d i) :=
  .modifyRef fun _ _ h => by simp [RefState.cleared] at h

theorem marks_clearUnlessCur {cur : SlotIdx} (o : Option SlotIdx) :
    Marks d (clearUnlessCur cur d o) := by
  cases o with
  | none => exact .refl
  | some i =>
    by_cases h : i = cur
    · simpa [clearUnlessCur, h] using Marks.refl
    · simpa [clearUnlessCur, h] using marks_slotClear

theorem marks_setLongTerm {idx : BitVec 32} : Marks d (setLongTerm d i idx) :=
  .modifyRef fun _ hs => hs

theorem marks_applyMmco {pn : BitVec 16} {cur : SlotIdx} {m : Mmco} :
    Marks d (applyMmco pn cur d m) := by
  unfold applyMmco
  split
  · exact marks_clearUnlessCur _
  · exact marks_clearUnlessCur _
  · split
    · exact .refl
    · dsimp only
      split
      · exact marks_clearUnlessCur _
      · exact (marks_clearUnlessCur _).trans marks_setLongTerm
  · dsimp only
    refine (Marks.codec _).trans (.foldl _ fun d i => ?_)
    split
    · exact marks_clearUnlessCur _
    · exact .refl
  · have hclear : Marks d (allSlots.foldl (fun d i => clearUnlessCur cur d (some i)) d) :=
      .foldl _ fun d i => marks_clearUnlessCur _
    exact hclear.trans ((Marks.codec _).trans (.modifyRef fun _ hs => hs))
  · split
    · exact .refl
    · exact (marks_clearUnlessCur _).trans marks_setLongTerm
  · exact .refl

theorem marks_evictOldestShortTerm : Marks d (evictOldestShortTerm d) := by
  unfold evictOldestShortTerm
  split
  · exact .refl
  · exact (Marks.codec _).trans marks_slotClear

theorem marks_slideWindow {maxRefs fuel : Nat} : Marks d (slideWindow maxRefs fuel d) := by
  induction fuel generalizing d with
  | zero => exact .refl
  | succ fuel ih =>
    unfold slideWindow
    split
    · exact .refl
    · exact marks_evictOldestShortTerm.trans ih

/-- Ending the current picture, whichever way its marking goes. -/
theorem marks_onDecodeComplete :
    Marks { d with currentIdx := none } (onDecodeComplete d) := by
  have hdrop : ∀ d : DpbCtx, Marks d (dropPending d) := fun d => Marks.codec _
  unfold onDecodeComplete
  dsimp only
  split
  · rename_i hcur
    exact ⟨rfl, hcur, rfl, id⟩
  · have hstart : Marks { d with currentIdx := none }
        { d with currentIdx := none, codec := { d.codec with lastBumpedPoc := int32Min } } :=
      Marks.codec (d := { d with currentIdx := none }) _
    split
    · exact hstart.trans (marks_slotClear.trans (hdrop _))
    · split
      · exact hstart.trans ((Marks.foldl _ fun d m => marks_applyMmco).trans (hdrop _))
      · exact hstart.trans (marks_slideWindow.trans (hdrop _))

theorem marks_onDecodeFailed : Marks { d with currentIdx := none } (onDecodeFailed d) := by
  have hdrop : ∀ d : DpbCtx, Marks d (dropPending d) := fun d => Marks.codec _
  unfold onDecodeFailed
  dsimp only
  split
  · rename_i hcur
    exact ⟨rfl, hcur, rfl, id⟩
  · have hstart : Marks { d with currentIdx := none }
        { d with currentIdx := none, codec := { d.codec with lastBumpedPoc := int32Min } } :=
      Marks.codec (d := { d with currentIdx := none }) _
    exact hstart.trans (marks_slotClear.trans (hdrop _))

theorem findFree_some (h : findFree d = some i) :
    (d.slots i).ref.inUse = false ∧ (d.slots i).held = false := by
  simpa [findFree] using List.find?_some h

theorem pickSlot_spec : Marks d (pickSlot d).2 ∧
    ∀ i, (pickSlot d).1 = some i →
      ((pickSlot d).2.slots i).ref.inUse = false ∧ ((pickSlot d).2.slots i).held = false := by
  unfold pickSlot
  split
  · rename_i i hfree
    refine ⟨.refl, fun j hj => ?_⟩
    obtain rfl := Option.some.inj hj
    exact findFree_some hfree
  · exact ⟨marks_evictOldestShortTerm, fun i hi => findFree_some hi⟩

/-- The IDR prologue of `select`. -/
theorem marks_idrFlush {c : Marking} :
    Marks d (if parsed.isIdr then { allSlots.foldl slotClear d with codec := c } else d) := by
  split
  · have hclear : Marks d (allSlots.foldl slotClear d) := .foldl _ fun d i => marks_slotClear
    exact hclear.trans (Marks.codec _)
  · exact .refl

/-- `Dpb_Select` picks a slot that nobody holds and stamps it with the current epoch, or leaves
the lifecycle flags alone. Its assertions hold. -/
theorem select_spec (parsed : Parsed) (hrefs : RefsInUse d) (hcur : d.currentIdx = none) :
    ∃ status slot d', select d parsed = some (status, slot, d') ∧
      ((status = .ok ∧ ∃ i, slot = some i ∧ (d.slots i).held = false ∧
          (∀ j, j ≠ i → d'.holds j = d.holds j) ∧ (∀ r, d'.flag r i = d.flag r i) ∧
          (d'.slots i).epoch = d.currentEpoch ∧ d'.currentEpoch = d.currentEpoch ∧
          RefsInUse d') ∨
        (status ≠ .ok ∧ Marks d d')) := by
  unfold select
  split
  · exact ⟨_, _, _, rfl, .inr ⟨by simp, .refl⟩⟩
  · dsimp only
    generalize hd₁ : (if parsed.isIdr then
      ({ allSlots.foldl slotClear d with codec := { (allSlots.foldl slotClear d).codec with
        maxLongTermFrameIdx := if parsed.idrLongTermReferenceFlag then 0 else -1 } } : DpbCtx)
      else d) = d₁
    have hm₁ : Marks d d₁ := hd₁ ▸ marks_idrFlush
    obtain ⟨hm₂, hpick⟩ := pickSlot_spec (d := d₁)
    have hm := hm₁.trans hm₂
    rcases hres : pickSlot d₁ with ⟨slot, d₂⟩
    rw [hres] at hm hpick
    dsimp only at hm hpick
    cases slot with
    | none => exact ⟨_, _, _, rfl, .inr ⟨by simp, hm⟩⟩
    | some i =>
      obtain ⟨huse, hheld⟩ := hpick i rfl
      have hcur₂ : d₂.currentIdx = none := hm.currentIdx.trans hcur
      have hnoref : (d₂.slots i).ref.isRef = false := by
        by_contra href
        have := hm.refs hrefs i (by simpa using href)
        simp [huse] at this
      have hfree : (d.slots i).held = false := by
        rw [Dpb.held_eq_false_iff] at hheld ⊢
        intro r
        rw [← Dpb.flag_of_holds (congrFun hm.holds i), hheld]
      dsimp only
      rw [if_neg (by simp [huse, hheld, hnoref, hcur₂])]
      refine ⟨_, _, _, rfl, .inl ⟨rfl, i, rfl, hfree, ?_, ?_, ?_, hm.currentEpoch, ?_⟩⟩
      · intro j hj
        rw [← congrFun hm.holds j]
        simp [Dpb.holds, Function.update_of_ne hj]
      · intro r
        rw [← Dpb.flag_of_holds (congrFun hm.holds i)]
        cases r <;> simp [Dpb.flag, Slot.flag]
      · simp [hm.currentEpoch]
      · intro j hj
        by_cases hji : j = i
        · subst hji
          simp
        · simp only [Function.update_of_ne hji] at hj ⊢
          exact hm.refs hrefs j hj

/-- Selecting a free slot disturbs no queued entry. -/
theorem mirror_of_select {q : Hold → List Entry} (h : Mirror d q)
    (hfree : (d.slots i).held = false) (hother : ∀ j, j ≠ i → d'.holds j = d.holds j)
    (hflag : ∀ r, d'.flag r i = d.flag r i) : Mirror d' q := by
  refine ⟨h.nodup, h.apart, ?_, ?_⟩
  · intro r j
    rw [← h.flags]
    by_cases hj : j = i
    · rw [hj, hflag]
    · rw [Dpb.flag_of_holds (hother j hj)]
  · intro r hr e he j hj
    have hji : j ≠ i := by
      rintro rfl
      exact h.not_mem hfree r (List.mem_filterMap.mpr ⟨e, he, hj⟩)
    rw [Dpb.epoch_of_holds (hother j hji)]
    exact h.epochs r hr e he j hj

/-- The DPB between two calls: `q` says who holds what, `epoch` is the stream epoch. -/
structure Settled (q : Hold → List Entry) (epoch : BitVec 32) (d : DpbCtx) : Prop where
  mirror : Mirror d q
  epoch : d.currentEpoch = epoch
  current : d.currentIdx = none
  refs : RefsInUse d

variable {q q' : Hold → List Entry} {epoch : BitVec 32} {e e' : H264Engine} {au : AccessUnit}

theorem Settled.onlyFlags (h : Settled q epoch d) (ho : OnlyFlags d d') (hm : Mirror d' q') :
    Settled q' epoch d' := by
  refine ⟨hm, ho.currentEpoch.trans h.epoch, ho.currentIdx.trans h.current, fun i hi => ?_⟩
  rw [ho.ref] at hi ⊢
  exact h.refs i hi

/-- Whatever comes of a decode, the flags stay in step; a decoded picture's slot is free and of
the current epoch. -/
theorem decodeOne_settled (au : AccessUnit) (h : Settled q epoch e.dpb) :
    ∃ ok e', decodeOne e au = some (ok, e') ∧ e'.reorderQ = e.reorderQ ∧ e'.readyQ = e.readyQ ∧
      Settled q epoch e'.dpb ∧
      (ok = true → ∃ i, e'.lastDecodedSlot = some i ∧ (e'.dpb.slots i).held = false ∧
        (e'.dpb.slots i).epoch = epoch) := by
  unfold decodeOne
  cases au.parsed with
  | none => exact ⟨_, _, rfl, rfl, rfl, h, by simp⟩
  | some parsed =>
    obtain ⟨status, slot, d', hsel, hcase⟩ := select_spec parsed h.refs h.current
    rcases hcase with ⟨rfl, i, rfl, hfree, hother, hflag, hepoch, hcurE, hrefs⟩ | ⟨hst, hm⟩
    · have hmirror := mirror_of_select h.mirror hfree hother hflag
      -- Ending the picture only marks references, so flags and epochs are those of `d'`.
      have hend : ∀ d'', Marks { d' with currentIdx := none } d'' → Settled q epoch d'' :=
        fun d'' hm => ⟨hmirror.congr hm.holds,
          hm.currentEpoch.trans (hcurE.trans h.epoch), hm.currentIdx, hm.refs hrefs⟩
      have hfree' : (d'.slots i).held = false := by
        rw [Dpb.held_eq_false_iff] at hfree ⊢
        exact fun r => (hflag r).trans (hfree r)
      by_cases hreg : au.regbuildOk = false
      · exact ⟨false, { e with dpb := onDecodeFailed d' }, by simp [hsel, hreg], rfl, rfl,
          hend _ marks_onDecodeFailed, by simp⟩
      · by_cases hdec : au.decodeOk = false
        · exact ⟨false, { e with dpb := onDecodeFailed d' }, by simp [hsel, hreg, hdec], rfl, rfl,
            hend _ marks_onDecodeFailed, by simp⟩
        · have hm := marks_onDecodeComplete (d := d')
          refine ⟨true, { e with lastDecodedSlot := some i, dpb := onDecodeComplete d' },
            by simp [hsel, hreg, hdec], rfl, rfl, hend _ hm, fun _ => ⟨i, rfl, ?_, ?_⟩⟩
          · rw [Dpb.held_eq_false_iff] at hfree' ⊢
            exact fun r => (Dpb.flag_of_holds (congrFun hm.holds i)).trans (hfree' r)
          · exact (Dpb.epoch_of_holds (congrFun hm.holds i)).trans (hepoch.trans h.epoch)
    · refine ⟨false, { e with dpb := d' }, ?_, rfl, rfl,
        ⟨h.mirror.congr hm.holds, hm.currentEpoch.trans h.epoch, hm.currentIdx.trans h.current,
          hm.refs h.refs⟩, by simp⟩
      dsimp only
      rw [hsel]
      cases status with
      | ok => exact absurd rfl hst
      | invalidInput => rfl
      | full => rfl

theorem enqueue_settled {out : List Entry} {parsed : Parsed} {ptsHns : Int} {i : SlotIdx}
    (h : Settled (queues e.reorderQ e.readyQ out) epoch e.dpb)
    (hlast : e.lastDecodedSlot = some i) (hfree : (e.dpb.slots i).held = false)
    (hepoch : (e.dpb.slots i).epoch = epoch) :
    ∃ e', enqueue e parsed ptsHns epoch = some e' ∧
      Settled (queues e'.reorderQ e'.readyQ out) epoch e'.dpb := by
  unfold enqueue
  rw [hlast]
  dsimp only
  -- The hold is taken before the entry joins the queue; `Keeps` carries it in between.
  have hadd : ∀ entry : Entry, entry.slotIdx = some i → entry.epoch = epoch →
      ∃ d', e.dpb.addHold i .reorder epoch = some d' ∧ OnlyFlags e.dpb d' ∧
        Mirror d' (queues (e.reorderQ ++ [entry]) e.readyQ out) := by
    intro entry hslot hep
    obtain ⟨d', hd', ho, hm⟩ :=
      h.mirror.addHold (r := .reorder) hfree hslot (hepoch.trans hep.symm)
    refine ⟨d', hep ▸ hd', ho, hm.perm fun r => ?_⟩
    cases r with
    | reorder => simp [queues]
    | ready => simp [queues]
    | consumer => simp [queues]
  obtain ⟨d', hd', ho, -⟩ := hadd ⟨0, 0, 0, some i, false, epoch⟩ rfl rfl
  rw [hd']
  simp only [Option.bind_eq_bind, Option.bind_some]
  generalize hentry : (Entry.mk _ _ _ (some i) _ epoch) = entry
  obtain ⟨d'', hd'', -, hm⟩ := hadd entry (by rw [← hentry]) (by rw [← hentry])
  obtain rfl : d' = d'' := Option.some.inj (hd'.symm.trans hd'')
  obtain ⟨e', he', hk, -⟩ := DecodeEngine.onDecodeComplete_keeps
    (resolveMaxReorder (some parsed)) parsed.isIdr
    (show Mirror { e with
      dpb := d', submitCount := e.submitCount + 1, lastDecodedSlot := some i }.dpb _ from hm)
  refine ⟨e', he', (h.onlyFlags ho hm).onlyFlags hk.onlyFlags ?_⟩
  simpa using hk.mirror

theorem submit_settled {out : List Entry} (au : AccessUnit) (ptsHns : Int)
    (h : Settled (queues e.reorderQ e.readyQ out) epoch e.dpb) :
    ∃ e', submit e au ptsHns epoch = some e' ∧
      Settled (queues e'.reorderQ e'.readyQ out) epoch e'.dpb := by
  unfold submit
  split
  · exact ⟨e, rfl, h⟩
  · obtain ⟨ok, e₁, h₁, hre, hrd, hs₁, hok⟩ :=
      decodeOne_settled (e := { e with waitForIdr := false }) au h
    have hs₁' : Settled (queues e₁.reorderQ e₁.readyQ out) epoch e₁.dpb := by
      rw [hre, hrd]
      exact hs₁
    simp only [h₁, Option.bind_eq_bind, Option.bind_some]
    split
    · obtain ⟨i, hlast, hfree, hepoch⟩ := hok rfl
      exact enqueue_settled hs₁' hlast hfree hepoch
    · exact ⟨_, rfl, hs₁'⟩

/-- The flush loop over the slots: no slot keeps a reference, and flags and epochs stay. -/
theorem marks_flushSlots (hpend : ∀ i, (d.slots i).pendingReorder = false ∧
    (d.slots i).pendingReady = false) :
    ∃ d', flush d = some d' ∧ d'.holds = d.holds ∧ d'.currentIdx = none ∧
      d'.currentEpoch = d.currentEpoch + 1 ∧ (RefsInUse d → RefsInUse d') := by
  unfold flush
  rw [if_neg (by simp [hpend])]
  have hm : Marks d (allSlots.foldl (fun d i =>
      if (d.slots i).heldByConsumer = false then slotClear d i
      else d.modifyRef i fun s => { s with inUse := false, isRef := false, longTerm := false })
      d) := by
    refine .foldl _ fun d i => ?_
    split
    · exact marks_slotClear
    · exact .modifyRef fun _ _ hr => by simp at hr
  exact ⟨_, rfl, hm.holds, rfl, congrArg (· + 1) hm.currentEpoch, hm.refs⟩

theorem flush_settled {out : List Entry}
    (h : Settled (queues e.reorderQ e.readyQ out) epoch e.dpb) :
    ∃ e', e.flush H264.flush = some e' ∧
      Settled (queues e'.reorderQ e'.readyQ out) (epoch + 1) e'.dpb := by
  obtain ⟨d₁, d₂, h₁, h₂, ho, hm, hpend⟩ := DecodeEngine.releaseQueues_keeps h.mirror
  have hs₂ : Settled (queues [] [] out) epoch d₂ := h.onlyFlags ho hm
  obtain ⟨d₃, h₃, hholds, hcur, hepoch, hrefs⟩ := marks_flushSlots hpend
  refine ⟨{ e with
    dpb := d₃, reorderQ := [], readyQ := [], submitCount := 0, maxNumReorderPics := 0,
    waitForIdr := true }, by simp [DecodeEngine.flush, h₁, h₂, h₃], ?_⟩
  exact ⟨hs₂.mirror.congr hholds, by rw [hepoch, hs₂.epoch], hcur, hrefs hs₂.refs⟩

namespace Session

variable {s s' : Session}

def Inv (s : Session) : Prop :=
  Settled (queues s.engine.reorderQ s.engine.readyQ s.outstanding) (BitVec.ofNat 32 s.flushes)
    s.engine.dpb

theorem inv_init : init.Inv := by
  refine ⟨⟨?_, ?_, ?_, ?_⟩, rfl, rfl, ?_⟩
  · intro r
    cases r <;> simp [queues, init, slotsOf]
  · intro r r' i hi
    cases r <;> simp [queues, init, slotsOf] at hi
  · intro r i
    cases r <;> simp [queues, init, slotsOf, Dpb.flag, Slot.flag, H264.init]
  · intro r hr e he
    cases r <;> simp [queues, init] at he
  · intro i hi
    simp [init, H264.init, RefState.cleared] at hi

/-- No call of the engine's interface fails a check, and every call keeps the invariant. -/
theorem inv_step (h : s.Inv) (op : Op) : ∃ s', s.step op = some s' ∧ s'.Inv := by
  cases op with
  | submit au ptsHns =>
    obtain ⟨e', he', hs'⟩ := submit_settled au ptsHns h
    exact ⟨{ s with engine := e' }, by simp [step, he'], hs'⟩
  | pollFrame =>
    obtain ⟨frame, e', he', ho, hm⟩ := DecodeEngine.pollFrame_keeps h.mirror
    exact ⟨{ s with engine := e', outstanding := s.outstanding ++ frame.toList },
      by simp [step, he'], h.onlyFlags ho hm⟩
  | releaseFrame k =>
    cases hk : s.outstanding[k]? with
    | none => exact ⟨s, by simp [step, hk], h⟩
    | some frame =>
      obtain ⟨e', he', ho, hm⟩ := DecodeEngine.releaseFrame_keeps h.mirror hk
      exact ⟨{ s with engine := e', outstanding := s.outstanding.eraseIdx k },
        by simp [step, hk, he'], h.onlyFlags ho hm⟩
  | drain =>
    have hmirror : Mirror s.engine.dpb
        (queues (s.engine.reorderQ ++ []) s.engine.readyQ s.outstanding) := by
      simpa using h.mirror
    obtain ⟨e', he', hk, -⟩ := DecodeEngine.drain_keeps hmirror
    exact ⟨{ s with engine := e' }, by simp [step, he'],
      h.onlyFlags hk.onlyFlags (by simpa using hk.mirror)⟩
  | flush =>
    obtain ⟨e', he', hs'⟩ := flush_settled h
    refine ⟨{ s with engine := e', flushes := s.flushes + 1 }, by simp [step, he'], ?_⟩
    have hsucc : BitVec.ofNat 32 (s.flushes + 1) = BitVec.ofNat 32 s.flushes + 1 :=
      BitVec.ofNat_add _ _
    unfold Inv
    rw [hsucc]
    exact hs'

theorem inv_run (ops : List Op) : ∃ s, run ops = some s ∧ s.Inv := by
  unfold run
  induction ops using List.reverseRecOn with
  | nil => exact ⟨init, rfl, inv_init⟩
  | append_singleton ops op ih =>
    obtain ⟨s, hs, hinv⟩ := ih
    obtain ⟨s', hs', hinv'⟩ := inv_step hinv op
    exact ⟨s', by simp [List.foldlM_append, hs, hs'], hinv'⟩

end Session

/-- Exactly one entry refers to slot `i`. -/
def ExactlyOne (i : SlotIdx) (l : List Entry) : Prop :=
  l.countP (fun e => e.slotIdx == some i) = 1

theorem exactlyOne_iff {l : List Entry} (h : (slotsOf l).Nodup) :
    ExactlyOne i l ↔ i ∈ slotsOf l := by
  have hcount : l.countP (fun e => e.slotIdx == some i) = (slotsOf l).count i := by
    unfold slotsOf
    rw [List.count, List.countP_filterMap]
    congr 1
    funext e
    cases e.slotIdx <;> simp
  unfold ExactlyOne
  rw [hcount, List.Nodup.count h]
  split <;> simp_all

/-- In every run of the H.264 engine whose caller passes its flush count as the epoch, no check
fires, each lifecycle flag of a slot is set exactly when one entry of its queue refers to the
slot, and the slot the next `Dpb_Select` picks is one no queued or outstanding frame refers to. -/
theorem slot_exclusive (ops : List Op) :
    ∃ s, Session.run ops = some s ∧
      (∀ i, (s.engine.dpb.slots i).pendingReorder = true ↔ ExactlyOne i s.engine.reorderQ) ∧
      (∀ i, (s.engine.dpb.slots i).pendingReady = true ↔ ExactlyOne i s.engine.readyQ) ∧
      (∀ i, (s.engine.dpb.slots i).heldByConsumer = true ↔ ExactlyOne i s.outstanding) ∧
      ∀ parsed slot d', select s.engine.dpb parsed = some (.ok, some slot, d') →
        ∀ f, f ∈ s.engine.reorderQ ∨ f ∈ s.engine.readyQ ∨ f ∈ s.outstanding →
          f.slotIdx ≠ some slot := by
  obtain ⟨s, hrun, hinv⟩ := Session.inv_run ops
  have hm := hinv.mirror
  refine ⟨s, hrun, ?_, ?_, ?_, ?_⟩
  · exact fun i => (hm.flags .reorder i).trans (exactlyOne_iff (hm.nodup .reorder)).symm
  · exact fun i => (hm.flags .ready i).trans (exactlyOne_iff (hm.nodup .ready)).symm
  · exact fun i => (hm.flags .consumer i).trans (exactlyOne_iff (hm.nodup .consumer)).symm
  · intro parsed slot d' hsel f hf hslot
    obtain ⟨status, slot', d'', hsel', hcase⟩ := select_spec parsed hinv.refs hinv.current
    rw [hsel] at hsel'
    obtain ⟨rfl, rfl, rfl⟩ : _ ∧ _ ∧ _ := by simpa using hsel'
    rcases hcase with ⟨-, i, hi, hfree, -⟩ | ⟨hst, -⟩
    · obtain rfl := Option.some.inj hi
      have hnot := hm.not_mem hfree
      rcases hf with hf | hf | hf
      · exact hnot .reorder (List.mem_filterMap.mpr ⟨f, hf, hslot⟩)
      · exact hnot .ready (List.mem_filterMap.mpr ⟨f, hf, hslot⟩)
      · exact hnot .consumer (List.mem_filterMap.mpr ⟨f, hf, hslot⟩)
    · exact hst rfl

end Rkvdec.Engine.H264
