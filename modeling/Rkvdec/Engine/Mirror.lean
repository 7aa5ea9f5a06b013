import Rkvdec.Engine.Reorder

/-! The lifecycle flags mirror the queues: a slot carries the flag of the one queue its picture
is in. Nothing here depends on the codec. -/
namespace Rkvdec.Engine

variable {R C : Type} {d d' : Dpb R C} {i : SlotIdx} {e : Entry} {r src dst : Hold}
  {q q' : Hold → List Entry} {rest : List Entry}

/-- The slots a list of entries refers to. -/
def slotsOf (l : List Entry) : List SlotIdx := l.filterMap Entry.slotIdx

theorem slotsOf_cons_some {l : List Entry} (h : e.slotIdx = some i) :
    slotsOf (e :: l) = i :: slotsOf l := by
  simp [slotsOf, h]

theorem slotsOf_cons_none {l : List Entry} (h : e.slotIdx = none) :
    slotsOf (e :: l) = slotsOf l := by
  simp [slotsOf, h]

theorem slotsOf_perm {l l' : List Entry} (h : l.Perm l') : (slotsOf l).Perm (slotsOf l') :=
  h.filterMap _

/-- With `q r` the entries whose slot should carry the hold `r`: flags and queues agree, no slot
is referred to twice, and a queued entry has the epoch its slot was selected in. -/
structure Mirror (d : Dpb R C) (q : Hold → List Entry) : Prop where
  nodup : ∀ r, (slotsOf (q r)).Nodup
  apart : ∀ r r' i, i ∈ slotsOf (q r) → i ∈ slotsOf (q r') → r = r'
  flags : ∀ r i, d.flag r i = true ↔ i ∈ slotsOf (q r)
  epochs : ∀ r, r ≠ .consumer → ∀ e ∈ q r, ∀ i, e.slotIdx = some i →
    (d.slots i).epoch = e.epoch

theorem Mirror.perm (h : Mirror d q) (hq : ∀ r, (q' r).Perm (q r)) : Mirror d q' := by
  have hs : ∀ r, (slotsOf (q' r)).Perm (slotsOf (q r)) := fun r => slotsOf_perm (hq r)
  refine ⟨fun r => (hs r).nodup_iff.mpr (h.nodup r), ?_, ?_, ?_⟩
  · intro r r' i hi hi'
    exact h.apart r r' i ((hs r).mem_iff.mp hi) ((hs r').mem_iff.mp hi')
  · exact fun r i => (h.flags r i).trans (hs r).mem_iff.symm
  · exact fun r hr e he => h.epochs r hr e ((hq r).mem_iff.mp he)

theorem Mirror.congr (h : Mirror d q) (hd : d'.holds = d.holds) : Mirror d' q := by
  refine ⟨h.nodup, h.apart, ?_, ?_⟩
  · intro r i
    rw [Dpb.flag_of_holds (congrFun hd i), h.flags]
  · intro r hr e he i hi
    rw [Dpb.epoch_of_holds (congrFun hd i)]
    exact h.epochs r hr e he i hi

/-- A slot without flags is referred to by no queued and no outstanding entry. -/
theorem Mirror.not_mem (h : Mirror d q) (hfree : (d.slots i).held = false) (r : Hold) :
    i ∉ slotsOf (q r) := by
  intro hi
  have := Dpb.held_eq_false_iff.mp hfree r
  simp [(h.flags r i).mpr hi] at this

/-- The two DPBs differ in lifecycle flags only. -/
structure OnlyFlags (d d' : Dpb R C) : Prop where
  currentIdx : d'.currentIdx = d.currentIdx
  currentEpoch : d'.currentEpoch = d.currentEpoch
  ref : ∀ i, (d'.slots i).ref = (d.slots i).ref
  epoch : ∀ i, (d'.slots i).epoch = (d.slots i).epoch

theorem OnlyFlags.refl : OnlyFlags d d := ⟨rfl, rfl, fun _ => rfl, fun _ => rfl⟩

theorem OnlyFlags.trans {d'' : Dpb R C} (h : OnlyFlags d d') (h' : OnlyFlags d' d'') :
    OnlyFlags d d'' :=
  ⟨h'.currentIdx.trans h.currentIdx, h'.currentEpoch.trans h.currentEpoch,
    fun i => (h'.ref i).trans (h.ref i), fun i => (h'.epoch i).trans (h.epoch i)⟩

theorem OnlyFlags.setFlag {v : Bool} : OnlyFlags d (d.setFlag r i v) :=
  ⟨rfl, rfl, fun _ => Dpb.ref_setFlag, fun _ => Dpb.epoch_setFlag⟩

/-- Taking an entry out of a queue and clearing its hold. -/
theorem Mirror.remove (h : Mirror d q) (hr : (q r).Perm (e :: rest)) (hslot : e.slotIdx = some i) :
    d.flag r i = true ∧ Mirror (d.setFlag r i false) (Function.update q r rest) := by
  have hs : (slotsOf (q r)).Perm (i :: slotsOf rest) :=
    slotsOf_cons_some hslot ▸ slotsOf_perm hr
  obtain ⟨hi, hrest⟩ : i ∉ slotsOf rest ∧ (slotsOf rest).Nodup :=
    List.nodup_cons.mp (hs.nodup_iff.mp (h.nodup r))
  have hmem : ∀ r' j, j ∈ slotsOf (Function.update q r rest r') ↔
      j ∈ slotsOf (q r') ∧ ¬ (r' = r ∧ j = i) := by
    intro r' j
    by_cases hr' : r' = r
    · subst hr'
      rw [Function.update_self, hs.mem_iff, List.mem_cons]
      constructor
      · intro hj
        exact ⟨.inr hj, fun heq => hi (heq.2 ▸ hj)⟩
      · rintro ⟨hj | hj, hne⟩
        · exact absurd ⟨rfl, hj⟩ hne
        · exact hj
    · simp [hr']
  refine ⟨(h.flags r i).mpr (hs.mem_iff.mpr List.mem_cons_self), ?_, ?_, ?_, ?_⟩
  · intro r'
    by_cases hr' : r' = r
    · subst hr'
      rwa [Function.update_self]
    · rw [Function.update_of_ne hr']
      exact h.nodup r'
  · intro r₁ r₂ j h₁ h₂
    exact h.apart r₁ r₂ j ((hmem r₁ j).mp h₁).1 ((hmem r₂ j).mp h₂).1
  · intro r' j
    rw [Dpb.flag_setFlag, hmem, ← h.flags]
    by_cases hc : r' = r ∧ j = i
    · simp [hc]
    · simp [hc]
  · intro r' hc e' he' j hj
    rw [Dpb.epoch_setFlag]
    apply h.epochs r' hc e' _ j hj
    by_cases hr' : r' = r
    · subst hr'
      rw [Function.update_self] at he'
      exact hr.mem_iff.mpr (List.mem_cons_of_mem _ he')
    · rwa [Function.update_of_ne hr'] at he'

/-- Putting an entry whose slot is free into a queue and setting its hold. -/
theorem Mirror.insert (h : Mirror d q) (hfree : (d.slots i).held = false)
    (hslot : e.slotIdx = some i) (hepoch : r ≠ .consumer → (d.slots i).epoch = e.epoch) :
    Mirror (d.setFlag r i true) (Function.update q r (e :: q r)) := by
  have hnot := h.not_mem hfree
  have hmem : ∀ r' j, j ∈ slotsOf (Function.update q r (e :: q r) r') ↔
      j ∈ slotsOf (q r') ∨ (r' = r ∧ j = i) := by
    intro r' j
    by_cases hr' : r' = r
    · subst hr'
      rw [Function.update_self, slotsOf_cons_some hslot, List.mem_cons]
      simp [or_comm]
    · simp [hr']
  refine ⟨?_, ?_, ?_, ?_⟩
  · intro r'
    by_cases hr' : r' = r
    · subst hr'
      rw [Function.update_self, slotsOf_cons_some hslot]
      exact List.nodup_cons.mpr ⟨hnot r', h.nodup r'⟩
    · rw [Function.update_of_ne hr']
      exact h.nodup r'
  · intro r₁ r₂ j h₁ h₂
    rcases (hmem r₁ j).mp h₁ with h₁ | ⟨hr₁, hj₁⟩
    · rcases (hmem r₂ j).mp h₂ with h₂ | ⟨-, rfl⟩
      · exact h.apart r₁ r₂ j h₁ h₂
      · exact absurd h₁ (hnot r₁)
    · rcases (hmem r₂ j).mp h₂ with h₂ | ⟨hr₂, -⟩
      · exact absurd h₂ (hj₁ ▸ hnot r₂)
      · rw [hr₁, hr₂]
  · intro r' j
    rw [Dpb.flag_setFlag, hmem, ← h.flags]
    by_cases hc : r' = r ∧ j = i
    · simp [hc]
    · simp [hc]
  · intro r' hc e' he' j hj
    rw [Dpb.epoch_setFlag]
    by_cases hr' : r' = r
    · subst hr'
      rw [Function.update_self] at he'
      rcases List.mem_cons.mp he' with rfl | he'
      · rw [hslot] at hj
        obtain rfl := Option.some.inj hj
        exact hepoch hc
      · exact h.epochs r' hc e' he' j hj
    · rw [Function.update_of_ne hr'] at he'
      exact h.epochs r' hc e' he' j hj

/-- Dropping or adding an entry that refers to no slot changes nothing the flags mirror. -/
theorem Mirror.update_slots {l : List Entry} (h : Mirror d q) (hl : slotsOf l = slotsOf (q r))
    (hepoch : ∀ e ∈ l, ∀ i, e.slotIdx = some i → ∃ e' ∈ q r, e'.slotIdx = some i ∧
      e'.epoch = e.epoch) : Mirror d (Function.update q r l) := by
  have hs : ∀ r', slotsOf (Function.update q r l r') = slotsOf (q r') := by
    intro r'
    by_cases hr' : r' = r
    · subst hr'
      rw [Function.update_self, hl]
    · rw [Function.update_of_ne hr']
  refine ⟨fun r' => hs r' ▸ h.nodup r', ?_, ?_, ?_⟩
  · intro r₁ r₂ i
    rw [hs, hs]
    exact h.apart r₁ r₂ i
  · intro r' i
    rw [hs, h.flags]
  · intro r' hc e he i hi
    by_cases hr' : r' = r
    · subst hr'
      rw [Function.update_self] at he
      obtain ⟨e', he', hi', hep⟩ := hepoch e he i hi
      rw [← hep]
      exact h.epochs r' hc e' he' i hi'
    · rw [Function.update_of_ne hr'] at he
      exact h.epochs r' hc e he i hi

theorem Mirror.drop_none (h : Mirror d q) (hr : (q r).Perm (e :: rest)) (hslot : e.slotIdx = none) :
    Mirror d (Function.update q r rest) := by
  have hperm : Mirror d (Function.update q r (e :: rest)) := by
    apply h.perm
    intro r'
    by_cases hr' : r' = r
    · subst hr'
      rw [Function.update_self]
      exact hr.symm
    · rw [Function.update_of_ne hr']
  have hdrop := hperm.update_slots (r := r) (l := rest)
    (by rw [Function.update_self, slotsOf_cons_none hslot])
    (fun e' he' i hi =>
      ⟨e', by rw [Function.update_self]; exact List.mem_cons_of_mem _ he', hi, rfl⟩)
  rwa [Function.update_idem] at hdrop

theorem Mirror.add_none (h : Mirror d q) (hslot : e.slotIdx = none) :
    Mirror d (Function.update q r (e :: q r)) := by
  apply h.update_slots (slotsOf_cons_none hslot)
  intro e' he' i hi
  rcases List.mem_cons.mp he' with rfl | he'
  · simp [hslot] at hi
  · exact ⟨e', he', hi, rfl⟩

/-- Releasing the hold of a queued entry always passes its check. -/
theorem Mirror.releaseEntry (h : Mirror d q) (hr : (q r).Perm (e :: rest)) :
    ∃ d', Engine.releaseEntry d r e = some d' ∧ OnlyFlags d d' ∧
      Mirror d' (Function.update q r rest) := by
  unfold Engine.releaseEntry
  cases hslot : e.slotIdx with
  | none => exact ⟨d, rfl, .refl, h.drop_none hr hslot⟩
  | some i =>
    obtain ⟨hset, hm⟩ := h.remove hr hslot
    exact ⟨_, by simp [Dpb.releaseHold, hset], .setFlag, hm⟩

/-- Moving the hold of a queued entry to another queue always passes its checks. -/
theorem Mirror.transferEntry (h : Mirror d q) (src dst : Hold) (hsrc : (q src).Perm (e :: rest))
    (hne : src ≠ dst) (hq : src ≠ .consumer) :
    ∃ d', Engine.transferEntry d src dst e = some d' ∧ OnlyFlags d d' ∧
      Mirror d' (Function.update (Function.update q src rest) dst (e :: q dst)) := by
  have hdst : Function.update q src rest dst = q dst := Function.update_of_ne hne.symm _ _
  unfold Engine.transferEntry
  cases hslot : e.slotIdx with
  | none =>
    have hadd := (h.drop_none hsrc hslot).add_none (r := dst) hslot
    rw [hdst] at hadd
    exact ⟨d, rfl, .refl, hadd⟩
  | some i =>
    obtain ⟨hset, hm⟩ := h.remove hsrc hslot
    have hi : i ∈ slotsOf (q src) := (h.flags src i).mp hset
    have hepoch : (d.slots i).epoch = e.epoch :=
      h.epochs src hq e (hsrc.mem_iff.mpr List.mem_cons_self) i hslot
    have hothers : ∀ r, r ≠ src → d.flag r i = false := by
      intro r hr
      by_contra hset'
      exact hr (h.apart r src i ((h.flags r i).mp (by simpa using hset')) hi)
    have hfree : ((d.setFlag src i false).slots i).held = false := by
      rw [Dpb.held_eq_false_iff]
      intro r
      rw [Dpb.flag_setFlag]
      by_cases hr : r = src
      · simp [hr]
      · simp [hr, hothers r hr]
    refine ⟨(d.setFlag src i false).setFlag dst i true, ?_, OnlyFlags.setFlag.trans .setFlag, ?_⟩
    · simp [Dpb.transferHold, hne, hset, hothers dst hne.symm, hepoch]
    · rw [← hdst]
      exact hm.insert hfree hslot fun _ => by rw [Dpb.epoch_setFlag, hepoch]

/-- Taking a hold on a free slot of the right epoch passes its checks. -/
theorem Mirror.addHold (h : Mirror d q) (hfree : (d.slots i).held = false)
    (hslot : e.slotIdx = some i) (hepoch : (d.slots i).epoch = e.epoch) :
    ∃ d', d.addHold i r e.epoch = some d' ∧ OnlyFlags d d' ∧
      Mirror d' (Function.update q r (e :: q r)) := by
  have hclear := Dpb.held_eq_false_iff.mp hfree r
  exact ⟨_, by simp [Dpb.addHold, hclear, hepoch], .setFlag, h.insert hfree hslot fun _ => hepoch⟩

/-- Which entries should hold a slot for which reason. -/
def queues (reorder ready outstanding : List Entry) : Hold → List Entry
  | .reorder => reorder
  | .ready => ready
  | .consumer => outstanding

theorem lowestFrom_lt {best : Entry} {bestIdx k n : Nat} {es : List Entry} (hb : bestIdx < n)
    (hn : k + es.length ≤ n) : lowestFrom best bestIdx k es < n := by
  induction es generalizing best bestIdx k with
  | nil => exact hb
  | cons e es ih =>
    rw [List.length_cons] at hn
    unfold lowestFrom
    split
    · exact ih (by omega) (by omega)
    · exact ih hb (by omega)

theorem lowestIdx_lt {l : List Entry} (h : l ≠ []) : lowestIdx l < l.length := by
  cases l with
  | nil => exact absurd rfl h
  | cons e es => exact lowestFrom_lt (by simp) (by simp; omega)

namespace DecodeEngine

variable {en en' : DecodeEngine R C} {extra out : List Entry}

/-- What the queue operations keep: flags mirror the queues, where `extra` are entries whose hold
is taken but that are not queued yet, and nothing but flags changes in the DPB. -/
structure Keeps (extra : List Entry) (out : List Entry) (en en' : DecodeEngine R C) : Prop where
  onlyFlags : OnlyFlags en.dpb en'.dpb
  mirror : Mirror en'.dpb (queues (en'.reorderQ ++ extra) en'.readyQ out)

theorem bumpLowest_keeps (h : Mirror en.dpb (queues (en.reorderQ ++ extra) en.readyQ out)) :
    ∃ en', en.bumpLowest = some en' ∧ Keeps extra out en en' ∧
      en'.reorderQ.length = en.reorderQ.length - 1 := by
  unfold bumpLowest
  by_cases hnil : en.reorderQ = []
  · exact ⟨en, by simp [hnil, lowestIdx], ⟨.refl, h⟩, by simp [hnil]⟩
  · have hlt := lowestIdx_lt hnil
    let best := en.reorderQ[lowestIdx en.reorderQ]
    let rest := en.reorderQ.eraseIdx (lowestIdx en.reorderQ)
    have hperm : (en.reorderQ ++ extra).Perm (best :: (rest ++ extra)) :=
      (List.getElem_cons_eraseIdx_perm hlt).symm.append_right extra
    obtain ⟨d', hd', honly, hm⟩ :=
      h.transferEntry .reorder .ready hperm (by decide) (by decide)
    refine ⟨{ en with dpb := d', readyQ := en.readyQ ++ [best], reorderQ := rest }, ?_,
      ⟨honly, hm.perm ?_⟩, List.length_eraseIdx_of_lt hlt⟩
    · simp [List.getElem?_eq_getElem hlt, hd', best, rest]
    · intro r
      cases r with
      | reorder => simp [queues]
      | ready => simp [queues]
      | consumer => simp [queues]

theorem bumpWhile_keeps (bound fuel : Nat)
    (h : Mirror en.dpb (queues (en.reorderQ ++ extra) en.readyQ out)) :
    ∃ en', bumpWhile bound fuel en = some en' ∧ Keeps extra out en en' ∧
      (en.reorderQ.length ≤ bound + fuel → en'.reorderQ.length ≤ bound) := by
  induction fuel generalizing en with
  | zero => exact ⟨en, rfl, ⟨.refl, h⟩, fun hlen => hlen⟩
  | succ fuel ih =>
    unfold bumpWhile
    split
    · exact ⟨en, rfl, ⟨.refl, h⟩, fun _ => by assumption⟩
    · obtain ⟨en₁, h₁, hk₁, hlen₁⟩ := bumpLowest_keeps h
      obtain ⟨en₂, h₂, hk₂, hlen₂⟩ := ih hk₁.mirror
      exact ⟨en₂, by simp [h₁, h₂], ⟨hk₁.onlyFlags.trans hk₂.onlyFlags, hk₂.mirror⟩,
        fun hlen => hlen₂ (by omega)⟩

/-- Draining empties the reorder queue. -/
theorem drain_keeps (h : Mirror en.dpb (queues (en.reorderQ ++ extra) en.readyQ out)) :
    ∃ en', en.drain = some en' ∧ Keeps extra out en en' ∧ en'.reorderQ = [] := by
  obtain ⟨en', hrun, hk, hlen⟩ := bumpWhile_keeps 0 en.reorderQ.length h
  exact ⟨en', hrun, hk, List.eq_nil_of_length_eq_zero (by omega)⟩

/-- A decoded picture whose hold is taken joins the queues; at most `bound` stay in reorder. -/
theorem onDecodeComplete_keeps {entry : Entry} (maxPics : Nat) (idr : Bool)
    (h : Mirror en.dpb (queues (en.reorderQ ++ [entry]) en.readyQ out)) :
    ∃ en', en.onDecodeComplete entry maxPics idr = some en' ∧ Keeps [] out en en' ∧
      en'.reorderQ.length ≤ min maxPics maxReorderPics := by
  obtain ⟨en₁, h₁, hk₁⟩ : ∃ en₁, (if idr then en.drain else some en) = some en₁ ∧
      Keeps [entry] out en en₁ := by
    cases idr with
    | true =>
      obtain ⟨en₁, h₁, hk₁, -⟩ := drain_keeps h
      exact ⟨en₁, h₁, hk₁⟩
    | false => exact ⟨en, rfl, .refl, h⟩
  let en₂ := { en₁ with
    reorderQ := en₁.reorderQ ++ [entry], maxNumReorderPics := min maxPics maxReorderPics }
  have hm₂ : Mirror en₂.dpb (queues (en₂.reorderQ ++ []) en₂.readyQ out) := by
    simpa [en₂] using hk₁.mirror
  obtain ⟨en₃, h₃, hk₃, hlen⟩ := bumpWhile_keeps (min maxPics maxReorderPics)
    en₂.reorderQ.length hm₂
  refine ⟨en₃, ?_, ⟨hk₁.onlyFlags.trans hk₃.onlyFlags, hk₃.mirror⟩, hlen (by omega)⟩
  rw [onDecodeComplete, h₁]
  exact h₃

theorem pollFrame_keeps (h : Mirror en.dpb (queues en.reorderQ en.readyQ out)) :
    ∃ frame en', en.pollFrame = some (frame, en') ∧ OnlyFlags en.dpb en'.dpb ∧
      Mirror en'.dpb (queues en'.reorderQ en'.readyQ (out ++ frame.toList)) := by
  unfold pollFrame
  cases hq : en.readyQ with
  | nil => exact ⟨none, en, rfl, .refl, by simpa [hq] using h⟩
  | cons entry rest =>
    obtain ⟨d', hd', honly, hm⟩ := h.transferEntry .ready .consumer
      (show (queues _ en.readyQ _ .ready).Perm (entry :: rest) by simp [queues, hq])
      (by decide) (by decide)
    refine ⟨some entry, { en with dpb := d', readyQ := rest }, by simp [hd'], honly, hm.perm ?_⟩
    intro r
    cases r with
    | reorder => simp [queues]
    | ready => simp [queues]
    | consumer => simp [queues]

theorem releaseFrame_keeps {k : Nat} {frame : Entry}
    (h : Mirror en.dpb (queues en.reorderQ en.readyQ out)) (hk : out[k]? = some frame) :
    ∃ en', en.releaseFrame frame = some en' ∧ OnlyFlags en.dpb en'.dpb ∧
      Mirror en'.dpb (queues en'.reorderQ en'.readyQ (out.eraseIdx k)) := by
  obtain ⟨hlt, rfl⟩ := List.getElem?_eq_some_iff.mp hk
  obtain ⟨d', hd', honly, hm⟩ := h.releaseEntry (r := .consumer)
    (List.getElem_cons_eraseIdx_perm hlt).symm
  refine ⟨{ en with dpb := d' }, by simp [releaseFrame, hd'], honly, hm.perm ?_⟩
  intro r
  cases r with
  | reorder => simp [queues]
  | ready => simp [queues]
  | consumer => simp [queues]

/-- Releasing the holds of a whole queue empties it. -/
theorem releaseAll_keeps {r : Hold} {l : List Entry} {d : Dpb R C} (h : Mirror d q)
    (hr : q r = l) :
    ∃ d', releaseAll r l d = some d' ∧ OnlyFlags d d' ∧ Mirror d' (Function.update q r []) := by
  induction l generalizing d q with
  | nil => exact ⟨d, rfl, .refl, by rwa [← hr, Function.update_eq_self]⟩
  | cons e rest ih =>
    obtain ⟨d₁, h₁, ho₁, hm₁⟩ := h.releaseEntry (show (q r).Perm (e :: rest) by rw [hr])
    obtain ⟨d₂, h₂, ho₂, hm₂⟩ := ih hm₁ (Function.update_self _ _ _)
    rw [Function.update_idem] at hm₂
    exact ⟨d₂, by simp [releaseAll, h₁, h₂], ho₁.trans ho₂, hm₂⟩

/-- The hold releases of `DecodeEngine_Flush`: both queues' holds go, the consumer's stay, and no
slot is left pending. -/
theorem releaseQueues_keeps (h : Mirror en.dpb (queues en.reorderQ en.readyQ out)) :
    ∃ d₁ d₂, releaseAll .reorder en.reorderQ en.dpb = some d₁ ∧
      releaseAll .ready en.readyQ d₁ = some d₂ ∧ OnlyFlags en.dpb d₂ ∧
      Mirror d₂ (queues [] [] out) ∧
      ∀ i, (d₂.slots i).pendingReorder = false ∧ (d₂.slots i).pendingReady = false := by
  obtain ⟨d₁, h₁, ho₁, hm₁⟩ := releaseAll_keeps (r := .reorder) h (l := en.reorderQ) rfl
  obtain ⟨d₂, h₂, ho₂, hm₂⟩ := releaseAll_keeps (r := .ready) hm₁ (l := en.readyQ)
    (by simp [queues])
  have hm : Mirror d₂ (queues [] [] out) := by
    refine hm₂.perm fun r => ?_
    cases r with
    | reorder => simp [queues]
    | ready => simp [queues]
    | consumer => simp [queues]
  have hclear : ∀ r, r ≠ .consumer → ∀ i, d₂.flag r i = false := by
    intro r hr i
    by_contra hset
    have hmem := (hm.flags r i).mp (by simpa using hset)
    cases r with
    | reorder => simp [queues, slotsOf] at hmem
    | ready => simp [queues, slotsOf] at hmem
    | consumer => exact hr rfl
  exact ⟨d₁, d₂, h₁, h₂, ho₁.trans ho₂, hm,
    fun i => ⟨hclear .reorder (by decide) i, hclear .ready (by decide) i⟩⟩

end DecodeEngine

end Rkvdec.Engine
