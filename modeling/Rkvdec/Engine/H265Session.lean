import Rkvdec.Engine.H265
import Rkvdec.Engine.Mirror
import Rkvdec.Engine.Session

/-! The H.265 engine with its caller, and when its hold protocol stands. `H265Dpb_Select` does not
stamp the slot it picks, so every slot keeps the epoch of `H265Dpb_Init`. -/
namespace Rkvdec.Engine.H265

open H264 (DpbStatus)

abbrev H265Engine := DecodeEngine RefState Pool

/-- An access unit as the engine sees it: whether an IRAP slice is in it, the parse result if
everything before `H265Dpb_Select` succeeds, and whether table packing, register building and the
codec succeed. -/
structure AccessUnit where
  hasIrap : Bool
  parsed : Option Parsed
  packOk : Bool
  regbuildOk : Bool
  decodeOk : Bool

/-- `DecodeOne_H265`: whether a picture was decoded. -/
def decodeOne (e : H265Engine) (au : AccessUnit) : Bool × H265Engine :=
  match au.parsed with
  | none => (false, e)
  | some parsed =>
    match select e.dpb parsed with
    | (.ok, some sel, d) =>
      if au.packOk = false then (false, { e with dpb := onDecodeFailed d })
      else if au.regbuildOk = false then (false, { e with dpb := onDecodeFailed d })
      else if au.decodeOk = false then (false, { e with dpb := onDecodeFailed d })
      else (true, { e with lastDecodedSlot := some sel.currentSlot, dpb := onDecodeComplete d })
    | (_, _, d) => (false, { e with dpb := d })

/-- `H265_MAX_SUB_LAYERS`. -/
def maxSubLayers : Nat := 7

/-- `resolve_max_reorder`. -/
def resolveMaxReorder (parsed : Parsed) : Nat :=
  match parsed.activeSps with
  | some sps => sps.maxNumReorderPics (min sps.maxSubLayersMinus1 (maxSubLayers - 1))
  | none => 4

/-- The entry `DecodeEngine_Submit` makes of the picture just decoded. -/
def makeEntry (e : H265Engine) (parsed : Parsed) (ptsHns : Int) (epoch : BitVec 32) : Entry where
  poc := parsed.poc
  ptsHns := if ptsHns < 0 then (e.submitCount * 10000000 / 30 : Nat) else ptsHns
  durHns := H264.frameDurHns
  slotIdx := e.lastDecodedSlot
  isRef := match e.lastDecodedSlot with
    | none => false
    | some i => (e.dpb.slots i).ref.isRef
  epoch := epoch

/-- The queue half of `DecodeEngine_Submit`. The boundary flag is never set for this codec. -/
def enqueue (e : H265Engine) (parsed : Parsed) (ptsHns : Int) (epoch : BitVec 32) :
    Option H265Engine := do
  let d ← match e.lastDecodedSlot with
    | none => some e.dpb
    | some i => e.dpb.addHold i .reorder epoch
  let e := { e with dpb := d }
  DecodeEngine.onDecodeComplete { e with submitCount := e.submitCount + 1 }
    (makeEntry e parsed ptsHns epoch) (resolveMaxReorder parsed) false

/-- `DecodeEngine_Submit`. -/
def submit (e : H265Engine) (au : AccessUnit) (ptsHns : Int) (epoch : BitVec 32) :
    Option H265Engine :=
  if e.waitForIdr && !au.hasIrap then some e
  else
    match decodeOne { e with waitForIdr := false } au, au.parsed with
    | (true, e), some parsed => enqueue e parsed ptsHns epoch
    | (_, e), _ => some { e with waitForIdr := true }

/-- The engine together with the frames its caller has polled and not released, and the number of
flushes the caller has made. -/
structure Session where
  engine : H265Engine
  outstanding : List Entry
  flushes : Nat

inductive Op where
  | submit (au : AccessUnit) (ptsHns : Int)
  | pollFrame
  | releaseFrame (k : Nat)
  | drain
  | flush

namespace Session

/-- One call by the caller, which passes its flush count as the epoch of a submission. -/
def step (s : Session) : Op → Option Session
  | .submit au ptsHns => do
    let e ← H265.submit s.engine au ptsHns (BitVec.ofNat 32 s.flushes)
    pure { s with engine := e }
  | .pollFrame => do
    let (frame, e) ← s.engine.pollFrame
    pure { s with engine := e, outstanding := s.outstanding ++ frame.toList }
  | .releaseFrame k =>
    match s.outstanding[k]? with
    | none => some s
    | some frame => do
      let e ← s.engine.releaseFrame frame
      pure { s with engine := e, outstanding := s.outstanding.eraseIdx k }
  | .drain => do
    let e ← s.engine.drain
    pure { s with engine := e }
  | .flush => do
    let e ← s.engine.flush H265.flush
    pure { s with engine := e, flushes := s.flushes + 1 }

def init (buffers : SlotIdx → PoolEntry) : Session where
  engine :=
    { dpb := H265.init ⟨buffers, poolSize⟩
      reorderQ := []
      readyQ := []
      maxNumReorderPics := 0
      submitCount := 0
      waitForIdr := false
      lastDecodedSlot := none }
  outstanding := []
  flushes := 0

/-- A whole run; `none` when some `RKMPP_VERIFY` fired on the way. -/
def run (s : Session) (ops : List Op) : Option Session :=
  ops.foldlM step s

end Session

/-- The access unit gets past the IRAP gate and the parser, finds a free slot and is decoded. -/
def delivers (e : H265Engine) (au : AccessUnit) : Bool :=
  !(e.waitForIdr && !au.hasIrap) &&
    match au.parsed with
    | none => false
    | some parsed => parsed.hasSlice && (findFree (markForPicture e.dpb parsed)).isSome &&
        au.packOk && au.regbuildOk && au.decodeOk

/-- The call does not bring a decoded picture into an epoch other than the first. -/
def Op.firstEpoch (s : Session) : Op → Prop
  | .submit au _ => BitVec.ofNat 32 s.flushes = 0 ∨ delivers s.engine au = false
  | _ => True

/-- Every call of the run meets `firstEpoch` in the state it is made in. -/
def Session.FirstEpoch : Session → List Op → Prop
  | _, [] => True
  | s, op :: ops => op.firstEpoch s ∧ ∀ s', s.step op = some s' → FirstEpoch s' ops

variable {d d' : DpbCtx} {i slot : SlotIdx} {parsed : Parsed} {q q' : Hold → List Entry}
  {e e' : H265Engine} {au : AccessUnit} {out : List Entry} {epoch : BitVec 32}

/-- The DPB between two calls: the flags mirror the queues, and no slot was ever stamped. -/
structure Settled (q : Hold → List Entry) (d : DpbCtx) : Prop where
  mirror : Mirror d q
  unstamped : ∀ i, (d.slots i).epoch = 0

theorem Settled.onlyFlags (h : Settled q d) (ho : OnlyFlags d d') (hm : Mirror d' q') :
    Settled q' d' :=
  ⟨hm, fun i => (ho.epoch i).trans (h.unstamped i)⟩

theorem Settled.congr (h : Settled q d) (hd : d'.holds = d.holds) : Settled q d' :=
  ⟨h.mirror.congr hd, fun i => (Dpb.epoch_of_holds (congrFun hd i)).trans (h.unstamped i)⟩

theorem holds_onDecodeComplete : (onDecodeComplete d).holds = d.holds := by
  unfold onDecodeComplete
  split
  · rfl
  · dsimp only
    split
    · exact marks_slotClear.holds
    · rfl

theorem holds_onDecodeFailed : (onDecodeFailed d).holds = d.holds := by
  unfold onDecodeFailed
  split
  · rfl
  · exact marks_slotClear.holds

/-- What decoding does: queues and lifecycle flags stay; a decoded picture sits in a slot nobody
holds, and there is one exactly when the access unit delivers. -/
theorem decodeOne_spec (e : H265Engine) (au : AccessUnit) :
    (decodeOne e au).2.reorderQ = e.reorderQ ∧ (decodeOne e au).2.readyQ = e.readyQ ∧
      (decodeOne e au).2.dpb.holds = e.dpb.holds ∧
      (decodeOne e au).2.waitForIdr = e.waitForIdr ∧
      (e.waitForIdr = false → (decodeOne e au).1 = delivers e au) ∧
      ((decodeOne e au).1 = true → ∃ parsed slot, au.parsed = some parsed ∧
        (decodeOne e au).2.lastDecodedSlot = some slot ∧ (e.dpb.slots slot).held = false) := by
  unfold decodeOne delivers
  cases hp : au.parsed with
  | none => simp
  | some parsed =>
    cases hslice : parsed.hasSlice with
    | false => simp [select, hslice]
    | true =>
      obtain ⟨hfree, hsel⟩ | ⟨slot, d', hfree, hsel, -, hholds, -⟩ :=
        select_cases (d := e.dpb) hslice
      · have hm : Marks e.dpb (markForPicture e.dpb parsed) := marks_markForPicture
        simp [hsel, hfree, hm.holds]
      · have hheld : (e.dpb.slots slot).held = false :=
          marks_markForPicture.held ▸ (findFree_some hfree).2.1
        by_cases hpack : au.packOk = false
        · simp [hsel, hpack, holds_onDecodeFailed, hholds]
        · by_cases hreg : au.regbuildOk = false
          · simp [hsel, hpack, hreg, holds_onDecodeFailed, hholds]
          · by_cases hdec : au.decodeOk = false
            · simp [hsel, hpack, hreg, hdec, holds_onDecodeFailed, hholds]
            · simp +contextual [hsel, hpack, hreg, hdec, holds_onDecodeComplete, hholds, hfree,
                hheld, hslice, packSelection]

/-- Queueing a decoded picture passes the checks exactly in the first epoch. -/
theorem enqueue_settled (parsed : Parsed) (ptsHns : Int) (epoch : BitVec 32)
    (h : Settled (queues e.reorderQ e.readyQ out) e.dpb)
    (hlast : e.lastDecodedSlot = some i) (hfree : (e.dpb.slots i).held = false) :
    (epoch = 0 → ∃ e', enqueue e parsed ptsHns epoch = some e' ∧
        Settled (queues e'.reorderQ e'.readyQ out) e'.dpb) ∧
      (epoch ≠ 0 → enqueue e parsed ptsHns epoch = none) := by
  have hstamp := h.unstamped i
  have hclear := Dpb.held_eq_false_iff.mp hfree .reorder
  constructor
  · rintro rfl
    have hadd : e.dpb.addHold i .reorder 0 = some (e.dpb.setFlag .reorder i true) := by
      simp [Dpb.addHold, hclear, hstamp]
    simp only [enqueue, hlast, hadd, Option.bind_eq_bind, Option.bind_some]
    generalize hentry : makeEntry _ parsed ptsHns 0 = entry
    have hslot : entry.slotIdx = some i := by rw [← hentry]; rfl
    have hzero : entry.epoch = 0 := by rw [← hentry]; rfl
    have hm : Mirror (e.dpb.setFlag .reorder i true)
        (queues (e.reorderQ ++ [entry]) e.readyQ out) := by
      refine (h.mirror.insert hfree hslot fun _ => hstamp.trans hzero.symm).perm fun r => ?_
      cases r with
      | reorder => simp [queues]
      | ready => simp [queues]
      | consumer => simp [queues]
    obtain ⟨e', he', hk, -⟩ := DecodeEngine.onDecodeComplete_keeps (resolveMaxReorder parsed) false
      (show Mirror { e with
        dpb := e.dpb.setFlag .reorder i true
        submitCount := e.submitCount + 1, lastDecodedSlot := some i }.dpb _ from hm)
    exact ⟨e', he', (h.onlyFlags .setFlag hm).onlyFlags hk.onlyFlags (by simpa using hk.mirror)⟩
  · intro hne
    have hadd : e.dpb.addHold i .reorder epoch = none := by
      simpa [Dpb.addHold, hclear, hstamp] using hne.symm
    simp [enqueue, hlast, hadd]

/-- A submission passes the checks exactly when it meets `firstEpoch`. -/
theorem submit_settled (au : AccessUnit) (ptsHns : Int) (epoch : BitVec 32)
    (h : Settled (queues e.reorderQ e.readyQ out) e.dpb) :
    (epoch = 0 ∨ delivers e au = false → ∃ e', submit e au ptsHns epoch = some e' ∧
        Settled (queues e'.reorderQ e'.readyQ out) e'.dpb) ∧
      (¬ (epoch = 0 ∨ delivers e au = false) → submit e au ptsHns epoch = none) := by
  by_cases hgate : (e.waitForIdr && !au.hasIrap) = true
  · have hno : delivers e au = false := by simp [delivers, hgate]
    refine ⟨fun _ => ⟨e, by simp [submit, hgate], h⟩, fun hc => absurd (.inr hno) hc⟩
  · obtain ⟨hre, hrd, hholds, -, hdel, hslot⟩ := decodeOne_spec { e with waitForIdr := false } au
    have hsame : delivers { e with waitForIdr := false } au = delivers e au := by
      simp only [delivers, Bool.not_eq_true] at hgate ⊢
      simp [hgate]
    rw [hsame] at hdel
    rcases hres : decodeOne { e with waitForIdr := false } au with ⟨ok, e₁⟩
    rw [hres] at hre hrd hholds hdel hslot
    dsimp only at hre hrd hholds hdel hslot
    have hs₁ : Settled (queues e₁.reorderQ e₁.readyQ out) e₁.dpb := by
      rw [hre, hrd]
      exact h.congr hholds
    have hsub : submit e au ptsHns epoch = match (ok, e₁), au.parsed with
        | (true, e), some parsed => enqueue e parsed ptsHns epoch
        | (_, e), _ => some { e with waitForIdr := true } := by
      simp only [submit, if_neg hgate, hres]
    cases ok with
    | false =>
      have hno : delivers e au = false := (hdel rfl).symm
      exact ⟨fun _ => ⟨_, hsub, hs₁⟩, fun hc => absurd (.inr hno) hc⟩
    | true =>
      obtain ⟨parsed, slot, hp, hlast, hfree⟩ := hslot rfl
      have hyes : delivers e au = true := (hdel rfl).symm
      have hfree' : (e₁.dpb.slots slot).held = false := by
        rw [Dpb.held_eq_false_iff] at hfree ⊢
        exact fun r => (Dpb.flag_of_holds (congrFun hholds slot)).trans (hfree r)
      obtain ⟨hok, hbad⟩ := enqueue_settled parsed ptsHns epoch hs₁ hlast hfree'
      rw [hp] at hsub
      refine ⟨fun hc => ?_, fun hc => ?_⟩
      · rw [hsub]
        exact hok (hc.resolve_right (by simp [hyes]))
      · rw [hsub]
        exact hbad fun h0 => hc (.inl h0)

/-- `H265Dpb_Flush` passes its checks once both queues are empty, and stamps nothing. -/
theorem flush_holds (hpend : ∀ i, (d.slots i).pendingReorder = false ∧
    (d.slots i).pendingReady = false) : ∃ d', flush d = some d' ∧ d'.holds = d.holds := by
  unfold flush
  rw [if_neg (by simp [hpend])]
  have hm : Marks d ((poolSlots d).foldl (fun d i =>
      if (d.slots i).heldByConsumer = false then slotClear d i
      else d.modifyRef i fun s => { s with inUse := false, isRef := false }) d) := by
    refine .foldl _ fun d i => ?_
    split
    · exact marks_slotClear
    · exact .modifyRef
  exact ⟨_, rfl, hm.holds⟩

theorem flush_settled (h : Settled (queues e.reorderQ e.readyQ out) e.dpb) :
    ∃ e', e.flush H265.flush = some e' ∧
      Settled (queues e'.reorderQ e'.readyQ out) e'.dpb := by
  obtain ⟨d₁, d₂, h₁, h₂, ho, hm, hpend⟩ := DecodeEngine.releaseQueues_keeps h.mirror
  obtain ⟨d₃, h₃, hholds⟩ := flush_holds hpend
  refine ⟨{ e with
    dpb := d₃, reorderQ := [], readyQ := [], submitCount := 0, maxNumReorderPics := 0,
    waitForIdr := true }, by simp [DecodeEngine.flush, h₁, h₂, h₃], ?_⟩
  exact (h.onlyFlags ho hm).congr hholds

namespace Session

variable {s s' : Session} {op : Op} {ops : List Op}

def Inv (s : Session) : Prop :=
  Settled (queues s.engine.reorderQ s.engine.readyQ s.outstanding) s.engine.dpb

theorem inv_init (buffers : SlotIdx → PoolEntry) : (init buffers).Inv := by
  refine ⟨⟨?_, ?_, ?_, ?_⟩, fun _ => rfl⟩
  · intro r
    cases r <;> simp [queues, init, slotsOf]
  · intro r r' i hi
    cases r <;> simp [queues, init, slotsOf] at hi
  · intro r i
    cases r <;> simp [queues, init, slotsOf, Dpb.flag, Slot.flag, H265.init]
  · intro r hr e he
    cases r <;> simp [queues, init] at he

/-- A call fails a check exactly when it does not meet `firstEpoch`; else it keeps the
invariant. -/
theorem inv_step (h : s.Inv) (op : Op) :
    (op.firstEpoch s → ∃ s', s.step op = some s' ∧ s'.Inv) ∧
      (¬ op.firstEpoch s → s.step op = none) := by
  cases op with
  | submit au ptsHns =>
    obtain ⟨hok, hbad⟩ := submit_settled au ptsHns (BitVec.ofNat 32 s.flushes) h
    refine ⟨fun hc => ?_, fun hc => ?_⟩
    · obtain ⟨e', he', hs'⟩ := hok hc
      exact ⟨{ s with engine := e' }, by simp [step, he'], hs'⟩
    · simp [step, hbad hc]
  | pollFrame =>
    obtain ⟨frame, e', he', ho, hm⟩ := DecodeEngine.pollFrame_keeps h.mirror
    exact ⟨fun _ => ⟨{ s with engine := e', outstanding := s.outstanding ++ frame.toList },
      by simp [step, he'], h.onlyFlags ho hm⟩, fun hc => absurd trivial hc⟩
  | releaseFrame k =>
    refine ⟨fun _ => ?_, fun hc => absurd trivial hc⟩
    cases hk : s.outstanding[k]? with
    | none => exact ⟨s, by simp [step, hk], h⟩
    | some frame =>
      obtain ⟨e', he', ho, hm⟩ := DecodeEngine.releaseFrame_keeps h.mirror hk
      exact ⟨{ s with engine := e', outstanding := s.outstanding.eraseIdx k },
        by simp [step, hk, he'], h.onlyFlags ho hm⟩
  | drain =>
    have hmirror : Mirror s.engine.dpb
        (queues (s.engine.reorderQ ++ []) s.engine.readyQ s.outstanding) := by
      simpa using h.mirror
    obtain ⟨e', he', hk, -⟩ := DecodeEngine.drain_keeps hmirror
    exact ⟨fun _ => ⟨{ s with engine := e' }, by simp [step, he'],
      h.onlyFlags hk.onlyFlags (by simpa using hk.mirror)⟩, fun hc => absurd trivial hc⟩
  | flush =>
    obtain ⟨e', he', hs'⟩ := flush_settled h
    exact ⟨fun _ => ⟨{ s with engine := e', flushes := s.flushes + 1 }, by simp [step, he'], hs'⟩,
      fun hc => absurd trivial hc⟩

/-- From any settled state, a run goes through exactly when all its calls meet `firstEpoch`. -/
theorem run_iff (h : s.Inv) : (∃ s', s.run ops = some s' ∧ s'.Inv) ↔ FirstEpoch s ops := by
  induction ops generalizing s with
  | nil => exact ⟨fun _ => trivial, fun _ => ⟨s, rfl, h⟩⟩
  | cons op ops ih =>
    obtain ⟨hok, hbad⟩ := inv_step h op
    by_cases hc : op.firstEpoch s
    · obtain ⟨s₁, hstep, hs₁⟩ := hok hc
      have hrun : s.run (op :: ops) = s₁.run ops := by simp [run, hstep]
      rw [hrun, ih hs₁]
      constructor
      · intro hrest
        refine ⟨hc, fun s' hs' => ?_⟩
        obtain rfl := Option.some.inj (hstep.symm.trans hs')
        exact hrest
      · exact fun hall => hall.2 s₁ hstep
    · have hrun : s.run (op :: ops) = none := by simp [run, hbad hc]
      rw [hrun]
      exact ⟨fun ⟨s', hs', _⟩ => absurd hs' (by simp), fun hall => absurd hall.1 hc⟩

theorem inv_of_run (h : s.Inv) (hrun : s.run ops = some s') : s'.Inv := by
  induction ops generalizing s with
  | nil =>
    obtain rfl := Option.some.inj hrun
    exact h
  | cons op ops ih =>
    obtain ⟨hok, hbad⟩ := inv_step h op
    by_cases hc : op.firstEpoch s
    · obtain ⟨s₁, hstep, hs₁⟩ := hok hc
      refine ih hs₁ ?_
      simpa [run, hstep] using hrun
    · simp [run, hbad hc] at hrun

/-- The slot `H265Dpb_Select` picks is one no queued or outstanding frame refers to. -/
theorem Inv.select_exclusive (h : s.Inv) {sel : Selection} {d' : DpbCtx}
    (hsel : select s.engine.dpb parsed = (.ok, some sel, d')) {f : Entry}
    (hf : f ∈ s.engine.reorderQ ∨ f ∈ s.engine.readyQ ∨ f ∈ s.outstanding) :
    f.slotIdx ≠ some sel.currentSlot := by
  intro hslot
  have hslice : parsed.hasSlice = true := by
    by_contra hno
    have hno : parsed.hasSlice = false := by simpa using hno
    simp [select, hno] at hsel
  obtain ⟨-, hfull⟩ | ⟨slot, d₁, hfree, hok, -⟩ := select_cases (d := s.engine.dpb) hslice
  · simp [hfull] at hsel
  · rw [hok] at hsel
    obtain ⟨rfl, rfl⟩ : packSelection d₁ slot parsed = sel ∧ d₁ = d' := by simpa using hsel
    have hheld : (s.engine.dpb.slots slot).held = false :=
      marks_markForPicture.held ▸ (findFree_some hfree).2.1
    have hnot := h.mirror.not_mem hheld
    rcases hf with hf | hf | hf
    · exact hnot .reorder (List.mem_filterMap.mpr ⟨f, hf, hslot⟩)
    · exact hnot .ready (List.mem_filterMap.mpr ⟨f, hf, hslot⟩)
    · exact hnot .consumer (List.mem_filterMap.mpr ⟨f, hf, hslot⟩)

end Session

/-- A run of the H.265 engine whose caller passes its flush count as the epoch goes through
without a failed check, and `H265Dpb_Select` then picks a slot no queued or outstanding frame
refers to, exactly when every picture it decodes is decoded in the first epoch. -/
theorem hold_protocol_iff (buffers : SlotIdx → PoolEntry) (ops : List Op) :
    (∃ s, (Session.init buffers).run ops = some s ∧
      ∀ parsed sel d', select s.engine.dpb parsed = (.ok, some sel, d') →
        ∀ f, f ∈ s.engine.reorderQ ∨ f ∈ s.engine.readyQ ∨ f ∈ s.outstanding →
          f.slotIdx ≠ some sel.currentSlot) ↔
      (Session.init buffers).FirstEpoch ops := by
  rw [← Session.run_iff (Session.inv_init buffers)]
  constructor
  · rintro ⟨s, hrun, -⟩
    exact ⟨s, hrun, Session.inv_of_run (Session.inv_init buffers) hrun⟩
  · rintro ⟨s, hrun, hinv⟩
    exact ⟨s, hrun, fun parsed sel d' hsel f hf => hinv.select_exclusive hsel hf⟩

/-- An access unit with one IDR picture, decoded without trouble. -/
def idrUnit : AccessUnit where
  hasIrap := true
  parsed := some
    { hasSlice := true, isIdr := true, nalRefFlag := true, poc := 0, activeSps := none
      shortTermRefPicSetSpsFlag := false, shortTermRefPicSetIdx := 0
      stRpsSlice := ⟨0, 0, fun _ => 0⟩ }
  packOk := true
  regbuildOk := true
  decodeOk := true

/-- The first picture decoded after a flush fails the epoch check of `H265Dpb_AddHold`. -/
theorem hold_check_fires_after_flush :
    ((Session.init fun _ => ⟨1, 1⟩).run [.flush, .submit idrUnit 0]).isNone = true := by
  decide +kernel

end Rkvdec.Engine.H265
