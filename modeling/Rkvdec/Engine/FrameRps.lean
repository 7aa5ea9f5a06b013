import Rkvdec.Engine.Packers
import Rkvdec.Engine.RefLists

/-! The table that has the references of an H.264 picture: what is read back from it, and the
pictures that its entries stand for. -/
namespace Rkvdec.Engine.H264

open Bitstream (Byte)
open Lib (fields fields_append length_fields ofBytes exchangeSort_perm)
open Packers (Packed)

section Model

def bottomFieldRef : Nat := 2

/-- `1u << (log2_max_frame_num_minus4 + 4)`. -/
def Parsed.maxFrameNum (parsed : Parsed) : Nat := 2 ^ (parsed.log2MaxFrameNumMinus4 + 4) % 2 ^ 32

/-- The frame numbers as `H264PackFrameRps` brings them into range. -/
def inRange (maxFrameNum n : Nat) : Nat := if 0 < maxFrameNum then n % maxFrameNum else n

/-- `wrap` of an entry. -/
def wrapField (maxFrameNum frameNum : Nat) (e : DpbEntry) : BitVec 16 :=
  if e.valid = false then 0
  else if e.longTerm then e.frameNum
  else
    let df := inRange maxFrameNum e.frameNum.toNat
    let cf := inRange maxFrameNum frameNum
    if cf < df then BitVec.ofInt 16 (df - maxFrameNum) else BitVec.ofNat 16 df

/-- `entry` of a reference: its index, a bit that it is valid, and one for a bottom field. -/
def refField (r : Reference) : Nat :=
  let valid := if r.fields &&& frameRef ≠ 0 then 1 else 0
  let dpbIdx := if valid = 1 then r.index &&& 0xf else 0
  let bottom := if valid = 1 ∧ r.fields = bottomFieldRef then 1 else 0
  ((dpbIdx ||| valid <<< 4) &&& 0x1f) ||| (bottom &&& 1) <<< 5

/-- The values and widths that are put between the two alignments. -/
def frameRpsFields (maxFrameNum frameNum : Nat) (dpb : List DpbEntry) (lists : RefLists) :
    List (BitVec 64 × Nat) :=
  let ref (list : List Reference) (i : Nat) : BitVec 64 × Nat :=
    (BitVec.ofNat 64 (refField (list.getD i {})), 7)
  ((List.range 16).map fun i =>
    ((wrapField maxFrameNum frameNum (dpb.getD i {})).setWidth 64, 16)) ++
    [(0, 16), (0, 16)] ++
    [lists.list0, lists.list1, lists.list2].flatMap fun list => (List.range 32).map (ref list)

def frameRpsOps (maxFrameNum frameNum : Nat) (dpb : List DpbEntry) (lists : RefLists) :
    List (Packers.Op Empty Unit) :=
  [.align 128 ()] ++ (frameRpsFields maxFrameNum frameNum dpb lists).map (fun f => .put f.1 f.2) ++
    [.align 128 ()]

/-- `H264PackFrameRps`, whose words on the stack are `memory` before it clears them. -/
def packFrameRps (memory : Nat → BitVec 64) (parsed : Parsed) (dpb : List DpbEntry)
    (lists : RefLists) : List Byte :=
  ((frameRpsOps parsed.maxFrameNum parsed.frameNum.toNat dpb lists).foldl Packers.H264.step
    (Packers.H264.init memory 48)).bytes

end Model

section Reading

/-- The 16 wrap fields of a table. -/
def readWraps (table : List Byte) : List Nat := fields (ofBytes table) 0 (List.replicate 16 16)

/-- A reference from its 7 bits. -/
def readRef (n : Nat) : Reference :=
  if n.testBit 4 then ⟨n % 16, if n.testBit 5 then bottomFieldRef else frameRef⟩ else {}

/-- List `j` of a table. -/
def readList (table : List Byte) (j : Nat) : List Reference :=
  (fields (ofBytes table) (288 + 224 * j) (List.replicate 32 7)).map readRef

end Reading

section Contents

/-- The DPB, with the pictures that were decoded last into the buffers of each slot. -/
structure Pool where
  dpb : DpbCtx
  content : SlotIdx → Option Parsed

def Pool.init : Pool := ⟨H264.init, fun _ => none⟩

/-- A picture that `Dpb_Select` takes gets the buffers of its slot. -/
def Pool.received (p : Pool) : Call → SlotIdx → Option Parsed
  | .select parsed =>
    match select p.dpb parsed with
    | some (.ok, some slot, _) => Function.update p.content slot (some parsed)
    | _ => p.content
  | _ => p.content

def Pool.call : Option Pool → Call → Option Pool
  | none, _ => none
  | some p, c => (H264.call (some p.dpb) c).map fun d => ⟨d, p.received c⟩

/-- The slot has the order counts of the picture, and its `frame_num`, or 0 after an operation 5. -/
structure IsPicture (s : RefState) (pic : Parsed) : Prop where
  topPoc : s.topPoc = pic.topFieldOrderCnt
  bottomPoc : s.bottomPoc = pic.bottomFieldOrderCnt
  frameNum : s.frameNum = pic.frameNum ∨ s.frameNum = 0 ∧ ∃ m ∈ pic.mmco, m.op = 5

end Contents

section Fading

variable {d d' d'' : DpbCtx} {cur i : SlotIdx} {K K' : SlotIdx → Prop} {parsed : Parsed}

/-- What is still in use is the same picture, which those with `K` may have renumbered to 0. -/
def Fades (K : SlotIdx → Prop) (d d' : DpbCtx) : Prop :=
  ∀ i, (d'.slots i).ref.inUse = true → (d.slots i).ref.inUse = true ∧
    (d'.slots i).ref.topPoc = (d.slots i).ref.topPoc ∧
    (d'.slots i).ref.bottomPoc = (d.slots i).ref.bottomPoc ∧
    ((d'.slots i).ref.frameNum = (d.slots i).ref.frameNum ∨ (d'.slots i).ref.frameNum = 0 ∧ K i)

theorem Fades.refl : Fades K d d := fun _ h => ⟨h, rfl, rfl, .inl rfl⟩

theorem Fades.trans (h : Fades K d d') (h' : Fades K d' d'') : Fades K d d'' := by
  intro i hi
  obtain ⟨huse', htop', hbottom', hfn'⟩ := h' i hi
  obtain ⟨huse, htop, hbottom, hfn⟩ := h i huse'
  refine ⟨huse, htop'.trans htop, hbottom'.trans hbottom, ?_⟩
  obtain hsame' | hzero' := hfn'
  · rw [hsame']
    exact hfn
  · exact .inr hzero'

theorem Fades.mono (h : Fades K d d') (hK : ∀ i, K i → K' i) : Fades K' d d' := by
  intro i hi
  obtain ⟨huse, htop, hbottom, hfn⟩ := h i hi
  exact ⟨huse, htop, hbottom, hfn.imp_right fun hzero => ⟨hzero.1, hK i hzero.2⟩⟩

theorem Fades.of_refs (h : ∀ i, (d'.slots i).ref = .cleared ∨ (d'.slots i).ref = (d.slots i).ref) :
    Fades K d d' := by
  intro i hi
  obtain hclear | hsame := h i
  · rw [hclear] at hi
    cases hi
  · rw [hsame] at hi ⊢
    exact ⟨hi, rfl, rfl, .inl rfl⟩

theorem Fades.foldl {α : Type} {f : DpbCtx → α → DpbCtx} (l : List α)
    (hf : ∀ d, ∀ a ∈ l, Fades K d (f d a)) :
    Fades K d (l.foldl f d) :=
  List.foldlRecOn l f .refl fun d' h a ha => h.trans (hf d' a ha)

theorem fades_slotClear : Fades K d (slotClear d i) := by
  refine .of_refs fun j => ?_
  rw [slots_slotClear]
  split
  · exact .inl rfl
  · exact .inr rfl

theorem fades_clearUnlessCur (o : Option SlotIdx) : Fades K d (clearUnlessCur cur d o) := by
  refine .of_refs fun j => ?_
  rw [clearUnlessCur_ref]
  split
  · exact .inl rfl
  · exact .inr rfl

theorem fades_modifyRef {f : RefState → RefState} (huse : ∀ s, (f s).inUse = true → s.inUse = true)
    (hpoc : ∀ s, (f s).topPoc = s.topPoc ∧ (f s).bottomPoc = s.bottomPoc)
    (hfn : ∀ s, (f s).frameNum = s.frameNum ∨ (f s).frameNum = 0 ∧ K i) :
    Fades K d (d.modifyRef i f) := by
  intro j hj
  by_cases hij : j = i
  · subst hij
    simp only [Dpb.modifyRef, Function.update_self] at hj ⊢
    exact ⟨huse _ hj, (hpoc _).1, (hpoc _).2, hfn _⟩
  · have hsame : ((d.modifyRef i f).slots j).ref = (d.slots j).ref := by
      simp only [Dpb.modifyRef, Function.update_of_ne hij]
    rw [hsame] at hj ⊢
    exact ⟨hj, rfl, rfl, .inl rfl⟩

theorem fades_setLongTerm {idx : BitVec 32} : Fades K d (setLongTerm d i idx) :=
  fades_modifyRef (fun _ h => h) (fun _ => ⟨rfl, rfl⟩) fun _ => .inl rfl

theorem fades_evict : Fades K d (evictOldestShortTerm d) := by
  obtain ⟨-, hsame⟩ | ⟨i, -, hrefs⟩ := evict_cases d
  · rw [hsame]
    exact .refl
  · intro j hj
    rw [hrefs] at hj ⊢
    exact fades_slotClear j hj

theorem fades_slideWindow (n fuel : Nat) : Fades K d (slideWindow n fuel d) := by
  induction fuel generalizing d with
  | zero => exact .refl
  | succ fuel ih =>
    unfold slideWindow
    split
    · exact .refl
    · exact fades_evict.trans ih

theorem fades_codec (c : Marking) : Fades K d { d with codec := c } :=
  fun _ h => ⟨h, rfl, rfl, .inl rfl⟩

/-- Only operation 5 renumbers, and only the current picture. -/
theorem fades_applyMmco (pn : BitVec 16) (m : Mmco) :
    Fades (fun i => i = cur ∧ m.op = 5) d (applyMmco pn cur d m) := by
  unfold applyMmco
  split
  · exact fades_clearUnlessCur _
  · exact fades_clearUnlessCur _
  · split
    · exact .refl
    · dsimp only
      split
      · exact fades_clearUnlessCur _
      · exact (fades_clearUnlessCur _).trans fades_setLongTerm
  · dsimp only
    refine (fades_codec _).trans (.foldl _ fun d i _ => ?_)
    split
    · exact fades_clearUnlessCur _
    · exact .refl
  · rename_i hop
    dsimp only
    have hcleared : Fades (fun i => i = cur ∧ m.op = 5) d
        (allSlots.foldl (fun d i => clearUnlessCur cur d (some i)) d) :=
      .foldl _ fun d i _ => fades_clearUnlessCur _
    refine hcleared.trans ?_
    refine Fades.trans (fun i hi => ⟨hi, rfl, rfl, .inl rfl⟩)
      (fades_modifyRef (fun _ h => h) (fun _ => ⟨rfl, rfl⟩) fun _ => .inr ⟨rfl, rfl, hop⟩)
  · split
    · exact .refl
    · exact (fades_clearUnlessCur _).trans fades_setLongTerm
  · exact .refl

theorem fades_applyMmcoOps :
    Fades (fun i => i = cur ∧ ∃ m ∈ d.codec.pendingMmco, m.op = 5) d (applyMmcoOps d cur) := by
  refine .foldl _ fun d' m hm => (fades_applyMmco _ m).mono ?_
  rintro i ⟨hi, hop⟩
  exact ⟨hi, m, hm, hop⟩

theorem fades_onDecodeComplete :
    Fades (fun i => d.currentIdx = some i ∧ ∃ m ∈ d.codec.pendingMmco, m.op = 5) d
    (onDecodeComplete d) := by
  unfold onDecodeComplete
  cases hcur : d.currentIdx with
  | none => exact fun i hi => ⟨hi, rfl, rfl, .inl rfl⟩
  | some cur =>
    have hstart {K : SlotIdx → Prop} : Fades K d (finished d) :=
      fun i hi => ⟨hi, rfl, rfl, .inl rfl⟩
    have hend {K : SlotIdx → Prop} {d' : DpbCtx} : Fades K d' (dropPending d') :=
      fun i hi => ⟨hi, rfl, rfl, .inl rfl⟩
    dsimp only
    split
    · exact (hstart.trans fades_slotClear).trans hend
    · split
      · refine Fades.mono ((hstart.trans fades_applyMmcoOps).trans hend) ?_
        rintro i ⟨rfl, hop⟩
        exact ⟨rfl, hop⟩
      · exact (hstart.trans (fades_slideWindow _ _)).trans hend

theorem fades_onDecodeFailed : Fades K d (onDecodeFailed d) := by
  unfold onDecodeFailed
  cases hcur : d.currentIdx with
  | none => exact fun i hi => ⟨hi, rfl, rfl, .inl rfl⟩
  | some cur =>
    have hstart : Fades K d (finished d) := fun i hi => ⟨hi, rfl, rfl, .inl rfl⟩
    exact (hstart.trans fades_slotClear).trans fun i hi => ⟨hi, rfl, rfl, .inl rfl⟩

theorem fades_flush (h : flush d = some d') : Fades K d d' := by
  unfold flush at h
  split at h
  · cases h
  · obtain rfl := Option.some.inj h
    have hslots : Fades K d (allSlots.foldl (fun d i =>
        if (d.slots i).heldByConsumer = false then slotClear d i
        else d.modifyRef i fun s => { s with
          inUse := false, isRef := false, longTerm := false }) d) := by
      refine .foldl _ fun d i _ => ?_
      split
      · exact fades_slotClear
      · exact fades_modifyRef (fun _ h => nomatch h) (fun _ => ⟨rfl, rfl⟩) fun _ => .inl rfl
    exact hslots.trans fun i hi => ⟨hi, rfl, rfl, .inl rfl⟩

theorem fades_pickSlot : Fades K d (pickSlot (clearForIdr d parsed)).2 := by
  have hclear : Fades K d (clearForIdr d parsed) := by
    unfold clearForIdr
    split
    · have hslots : Fades K d (allSlots.foldl slotClear d) := .foldl _ fun d i _ => fades_slotClear
      exact hslots.trans fun i hi => ⟨hi, rfl, rfl, .inl rfl⟩
    · exact .refl
  refine hclear.trans ?_
  unfold pickSlot
  split
  · exact .refl
  · exact fades_evict

theorem pendingMmco_pickSlot :
    (pickSlot (clearForIdr d parsed)).2.codec.pendingMmco = d.codec.pendingMmco := by
  have hslots (l : List SlotIdx) (d : DpbCtx) : (l.foldl slotClear d).codec = d.codec := by
    induction l generalizing d with
    | nil => rfl
    | cons i l ih => exact ih (slotClear d i)
  have hclear : (clearForIdr d parsed).codec.pendingMmco = d.codec.pendingMmco := by
    unfold clearForIdr
    split
    · have hsame : (allSlots.foldl slotClear d).codec.pendingMmco = d.codec.pendingMmco :=
        congrArg Marking.pendingMmco (hslots allSlots d)
      exact hsame
    · rfl
  have hevict (d : DpbCtx) : (evictOldestShortTerm d).codec.pendingMmco = d.codec.pendingMmco := by
    unfold evictOldestShortTerm
    split
    · rfl
    · rfl
  unfold pickSlot
  split
  · exact hclear
  · exact (hevict _).trans hclear

theorem select_slot {o : Option SlotIdx} (h : select d parsed = some (.ok, o, d')) :
    o = d'.currentIdx := by
  unfold select at h
  dsimp only at h
  split at h
  · cases h
  · split at h
    · cases h
    · split at h
      · cases h
      · cases h
        rfl

theorem currentIdx_flush (h : flush d = some d') : d'.currentIdx = none := by
  unfold flush at h
  split at h
  · cases h
  · obtain rfl := Option.some.inj h
    rfl

end Fading

section Runs

variable {p p' : Pool} {c : Call} {calls : List Call}

/-- What the slots in use, the picture in flight and the given pictures are. -/
structure Pool.Ok (calls : List Call) (p : Pool) : Prop where
  pictures : ∀ i, (p.dpb.slots i).ref.inUse = true → ∃ pic, p.content i = some pic ∧
    IsPicture (p.dpb.slots i).ref pic
  marking : ∀ cur, p.dpb.currentIdx = some cur →
    ∃ pic, p.content cur = some pic ∧ ∀ m ∈ p.dpb.codec.pendingMmco, m ∈ pic.mmco
  given : ∀ i pic, p.content i = some pic → Call.select pic ∈ calls

/-- A slot that fades shows the same picture. -/
theorem IsPicture.fades {s s' : RefState} {pic : Parsed} (h : IsPicture s pic)
    (htop : s'.topPoc = s.topPoc) (hbottom : s'.bottomPoc = s.bottomPoc)
    (hfn : s'.frameNum = s.frameNum ∨ s'.frameNum = 0 ∧ ∃ m ∈ pic.mmco, m.op = 5) :
    IsPicture s' pic := by
  refine ⟨htop.trans h.topPoc, hbottom.trans h.bottomPoc, ?_⟩
  obtain hsame | hzero := hfn
  · rw [hsame]
    exact h.frameNum
  · exact .inr hzero

/-- The slots of the new state are the old ones as they fade, and it has no other picture. -/
theorem Pool.Ok.keep {d : DpbCtx} (h : p.Ok calls)
    (hfade : Fades (fun i => p.dpb.currentIdx = some i ∧ ∃ m ∈ p.dpb.codec.pendingMmco, m.op = 5)
    p.dpb d)
    (hmarking : ∀ cur, d.currentIdx = some cur → p.dpb.currentIdx = some cur ∧
      d.codec.pendingMmco = p.dpb.codec.pendingMmco) : Pool.Ok (calls ++ [c]) ⟨d, p.content⟩ := by
  refine ⟨fun i hi => ?_, fun cur hcur => ?_, fun i pic hpic =>
    List.mem_append_left _ (h.given i pic hpic)⟩
  · obtain ⟨huse, htop, hbottom, hfn⟩ := hfade i hi
    obtain ⟨pic, hpic, his⟩ := h.pictures i huse
    refine ⟨pic, hpic, his.fades htop hbottom (hfn.imp_right ?_)⟩
    rintro ⟨hzero, hcur, m, hm, hop⟩
    obtain ⟨pic', hpic', hmmco⟩ := h.marking i hcur
    obtain rfl := Option.some.inj (hpic.symm.trans hpic')
    exact ⟨hzero, m, hmmco m hm, hop⟩
  · obtain ⟨hcur', hsame⟩ := hmarking cur hcur
    change ∃ pic, p.content cur = some pic ∧ ∀ m ∈ d.codec.pendingMmco, m ∈ pic.mmco
    rw [hsame]
    exact h.marking cur hcur'

/-- The picture of a selection is in its slot. -/
theorem Pool.Ok.put {d : DpbCtx} {slot : SlotIdx} {parsed : Parsed} (h : p.Ok calls)
    (hfade : Fades (fun _ => False) p.dpb d) :
    Pool.Ok (calls ++ [Call.select parsed]) ⟨put d slot parsed,
    Function.update p.content slot (some parsed)⟩ := by
  refine ⟨fun i hi => ?_, fun cur hcur => ?_, fun i pic hpic => ?_⟩
  · rw [put_ref] at hi ⊢
    by_cases hslot : i = slot
    · subst hslot
      rw [if_pos rfl]
      exact ⟨parsed, Function.update_self .., rfl, rfl, .inl rfl⟩
    · rw [if_neg hslot] at hi ⊢
      obtain ⟨huse, htop, hbottom, hfn⟩ := hfade i hi
      obtain ⟨pic, hpic, his⟩ := h.pictures i huse
      refine ⟨pic, (Function.update_of_ne hslot ..).trans hpic,
        his.fades htop hbottom (hfn.imp_right ?_)⟩
      exact fun hzero => hzero.2.elim
  · obtain rfl := Option.some.inj hcur
    refine ⟨parsed, Function.update_self .., fun m hm => ?_⟩
    change m ∈ (if parsed.isIdr then [] else parsed.mmco) at hm
    split at hm
    · cases hm
    · exact hm
  · by_cases hslot : i = slot
    · subst hslot
      have hgiven : some parsed = some pic :=
        (Function.update_self i (some parsed) p.content).symm.trans hpic
      obtain rfl := Option.some.inj hgiven
      exact List.mem_append_right _ (List.mem_singleton_self _)
    · have hgiven : p.content i = some pic :=
        (Function.update_of_ne hslot (some parsed) p.content).symm.trans hpic
      exact List.mem_append_left _ (h.given i pic hgiven)

theorem Pool.Ok.call (h : p.Ok calls) (hcall : Pool.call (some p) c = some p') :
    p'.Ok (calls ++ [c]) := by
  obtain ⟨d, hd, rfl⟩ := Option.map_eq_some_iff.mp hcall
  cases c with
  | select parsed =>
    obtain ⟨⟨status, o, d'⟩, hselect, rfl⟩ := Option.map_eq_some_iff.mp hd
    have hfade {K : SlotIdx → Prop} : Fades K p.dpb (pickSlot (clearForIdr p.dpb parsed)).2 :=
      fades_pickSlot
    have hcur : (pickSlot (clearForIdr p.dpb parsed)).2.currentIdx = p.dpb.currentIdx :=
      pickSlot_spec.1.currentIdx.trans marks_clearForIdr.currentIdx
    have hpending : (pickSlot (clearForIdr p.dpb parsed)).2.codec.pendingMmco =
        p.dpb.codec.pendingMmco :=
      pendingMmco_pickSlot
    unfold Pool.received
    dsimp only
    rw [hselect]
    obtain ⟨rfl, -, rfl⟩ | ⟨rfl, -, hfull⟩ | ⟨slot, c, rfl, -, hsome, -, -, rfl⟩ :=
      select_next hselect
    · exact h.keep .refl fun cur hcur => ⟨hcur, rfl⟩
    · rw [hfull] at hfade hcur hpending
      exact h.keep hfade fun cur hthis => ⟨hcur.symm.trans hthis, hpending⟩
    · obtain rfl : o = some slot := select_slot hselect
      rw [hsome] at hfade
      exact h.put hfade
  | decodeComplete =>
    obtain rfl := Option.some.inj hd
    exact h.keep fades_onDecodeComplete fun cur hcur =>
      nomatch marks_onDecodeComplete.currentIdx.symm.trans hcur
  | decodeFailed =>
    obtain rfl := Option.some.inj hd
    exact h.keep fades_onDecodeFailed fun cur hcur =>
      nomatch marks_onDecodeFailed.currentIdx.symm.trans hcur
  | flush =>
    exact h.keep (fades_flush hd) fun cur hcur => nomatch (currentIdx_flush hd).symm.trans hcur
  | holds pattern =>
    obtain rfl := Option.some.inj hd
    exact h.keep (fun i hi => ⟨hi, rfl, rfl, .inl rfl⟩) fun cur hcur => ⟨hcur, rfl⟩

theorem Pool.ok_run (hrun : calls.foldl Pool.call (some .init) = some p) : p.Ok calls := by
  induction calls using List.reverseRecOn generalizing p with
  | nil =>
    obtain rfl := Option.some.inj hrun
    exact ⟨fun i hi => (nomatch hi), fun cur hcur => (nomatch hcur),
      fun i pic hpic => (nomatch hpic)⟩
  | append_singleton calls c ih =>
    rw [List.foldl_append, List.foldl_cons, List.foldl_nil] at hrun
    cases hprev : calls.foldl Pool.call (some .init) with
    | none =>
      rw [hprev] at hrun
      cases hrun
    | some p₀ =>
      rw [hprev] at hrun
      exact (ih hprev).call hrun

/-- Every run of the DPB is one of the pool. -/
theorem Pool.run_dpb (p : Pool) (calls : List Call) :
    (calls.foldl Pool.call (some p)).map Pool.dpb = calls.foldl H264.call (some p.dpb) := by
  have hnone (calls : List Call) : calls.foldl Pool.call none = none ∧
      calls.foldl H264.call none = none := by
    induction calls with
    | nil => exact ⟨rfl, rfl⟩
    | cons c calls ih => exact ih
  induction calls generalizing p with
  | nil => rfl
  | cons c calls ih =>
    have hpool : Pool.call (some p) c = (H264.call (some p.dpb) c).map fun d =>
        ⟨d, p.received c⟩ := rfl
    rw [List.foldl_cons, List.foldl_cons, hpool]
    cases H264.call (some p.dpb) c with
    | none =>
      rw [Option.map_none, (hnone calls).1, (hnone calls).2]
      rfl
    | some d =>
      rw [Option.map_some, ih]

end Runs

section Table

variable {d : DpbCtx} {slot : SlotIdx} {parsed : Parsed} {sliceType : Nat}

/-- FrameNumWrap. -/
def numberWrap (maxFrameNum cur fn : Nat) : Int := if cur < fn then fn - maxFrameNum else fn

/-- What a table is to say about a reference: its FrameNumWrap by the frame numbers in range, or its
LongTermFrameIdx. -/
def wrapOf (d : DpbCtx) (parsed : Parsed) (i : SlotIdx) : BitVec 16 :=
  if isLong d i then (d.slots i).ref.longTermFrameIdx
  else BitVec.ofInt 16
    (numberWrap parsed.maxFrameNum (inRange parsed.maxFrameNum parsed.frameNum.toNat)
    (inRange parsed.maxFrameNum (d.slots i).ref.frameNum.toNat))

/-- A reference of a list: its index is that of a compact entry with the order counts and the number
of the picture whose buffers are there. -/
def NamesPicture (d : DpbCtx) (content : SlotIdx → Option Parsed) (sel : Selection)
    (r : Reference) : Prop :=
  r.index < (references d sel.currentSlot).length ∧
    ∃ i ∈ sel.refs[r.index]?, ∃ e ∈ sel.dpbEntries[r.index]?, ∃ pic ∈ content i, i ∈
    references d sel.currentSlot ∧
      IsPicture (d.slots i).ref pic ∧ e.valid = true ∧ e.topFieldOrderCnt = pic.topFieldOrderCnt ∧
      e.bottomFieldOrderCnt = pic.bottomFieldOrderCnt ∧ e.longTerm = isLong d i ∧
      e.frameNum = if isLong d i then (d.slots i).ref.longTermFrameIdx else (d.slots i).ref.frameNum

/-- The table of a selection, as it is to be read. -/
structure TableAgrees (d : DpbCtx) (content : SlotIdx → Option Parsed) (parsed : Parsed)
    (sel : Selection) (lists : RefLists) (table : List Byte) : Prop where
  size : table.length = 384
  wraps : ∀ i < (references d sel.currentSlot).length, ∀ slot ∈ sel.refs[i]?,
    (readWraps table)[i]? = some (wrapOf d parsed slot).toNat
  list0 : readList table 0 = lists.list0
  list1 : readList table 1 = lists.list1
  list2 : readList table 2 = lists.list2
  named : ∀ list ∈ [lists.list0, lists.list1, lists.list2], ∀ r ∈ list, r.fields ≠ 0 →
    NamesPicture d content sel r

section Packing

theorem widths_frameRpsFields (maxFrameNum frameNum : Nat) (dpb : List DpbEntry)
    (lists : RefLists) :
    (frameRpsFields maxFrameNum frameNum dpb lists).map Prod.snd =
    List.replicate 16 16 ++ [16,
    16] ++ (List.replicate 32 7 ++ (List.replicate 32 7 ++ List.replicate 32 7)) := rfl

theorem valid_frameRpsOps (maxFrameNum frameNum : Nat) (dpb : List DpbEntry) (lists : RefLists) :
    ∀ op ∈ frameRpsOps maxFrameNum frameNum dpb lists, op.Valid := by
  have hput : ∀ f ∈ frameRpsFields maxFrameNum frameNum dpb lists, 1 ≤ f.2 ∧ f.2 ≤ 64 := by
    intro f hf
    have hmem : f.2 ∈ (frameRpsFields maxFrameNum frameNum dpb lists).map Prod.snd :=
      List.mem_map_of_mem hf
    rw [widths_frameRpsFields] at hmem
    simp only [List.mem_append, List.mem_replicate, List.mem_cons, List.not_mem_nil,
      or_false] at hmem
    omega
  intro op hop
  unfold frameRpsOps at hop
  simp only [List.mem_append, List.mem_singleton, List.mem_map] at hop
  obtain (rfl | ⟨f, hf, rfl⟩) | rfl := hop
  · exact ⟨7, rfl⟩
  · exact hput f hf
  · exact ⟨7, rfl⟩

theorem length_packFrameRps (memory : Nat → BitVec 64) (parsed : Parsed) (dpb : List DpbEntry)
    (lists : RefLists) :
    (packFrameRps memory parsed dpb lists).length = 384 := by
  rw [packFrameRps, Packers.BitPacker.bytes, List.length_map, List.length_range,
    (Packers.packed_h264 memory 48 _ (valid_frameRpsOps _ _ dpb lists)).capacity]

/-- The fields between the alignments are at the front of the table. -/
theorem packFrameRps_fields (memory : Nat → BitVec 64) (parsed : Parsed) (dpb : List DpbEntry)
    (lists : RefLists) :
    fields (ofBytes (packFrameRps memory parsed dpb lists)) 0
        ((frameRpsFields parsed.maxFrameNum parsed.frameNum.toNat dpb lists).map Prod.snd) =
      (frameRpsFields parsed.maxFrameNum parsed.frameNum.toNat dpb lists).map fun f =>
      f.1.toNat % 2 ^ f.2 := by
  have hwidths := widths_frameRpsFields parsed.maxFrameNum parsed.frameNum.toNat dpb lists
  have hpacked := Packers.packed_h264 memory 48 _
    (valid_frameRpsOps parsed.maxFrameNum parsed.frameNum.toNat dpb lists)
  generalize hfs : frameRpsFields parsed.maxFrameNum parsed.frameNum.toNat dpb lists = fs
    at hwidths ⊢
  obtain ⟨behind, hbits⟩ : ∃ behind, Packers.Op.concat
      ((frameRpsOps parsed.maxFrameNum parsed.frameNum.toNat dpb lists).map
      (Packers.Op.map Empty.elim fun _ => false)) =
        [] ++ (fs.flatMap fun f => Packers.Op.lowBits f.2 f.1) ++ behind := by
    unfold frameRpsOps
    rw [hfs, List.map_append, List.map_append, Packers.Op.concat, List.foldl_append,
      List.foldl_append, List.map_map]
    exact ⟨_, congrArg (fun w => List.foldl _ w _) (Packers.concat_puts fs [])⟩
  rw [hbits] at hpacked
  refine hpacked.fields fs ?_
  rw [hwidths]
  decide

/-- The 7 bits of a list's reference. -/
def refBits (list : List Reference) (i : Nat) : Nat :=
  (BitVec.ofNat 64 (refField (list.getD i {}))).toNat % 2 ^ 7

/-- The parts of the table. -/
theorem packFrameRps_parts (memory : Nat → BitVec 64) (parsed : Parsed) (dpb : List DpbEntry)
    (lists : RefLists) :
    readWraps (packFrameRps memory parsed dpb lists) = ((List.range 16).map fun i =>
        ((wrapField parsed.maxFrameNum parsed.frameNum.toNat (dpb.getD i {})).setWidth 64).toNat %
          2 ^ 16) ∧
      readList (packFrameRps memory parsed dpb lists) 0 =
      (List.range 32).map (fun i => readRef (refBits lists.list0 i)) ∧
      readList (packFrameRps memory parsed dpb lists) 1 =
      (List.range 32).map (fun i => readRef (refBits lists.list1 i)) ∧
      readList (packFrameRps memory parsed dpb lists) 2 = (List.range 32).map fun i =>
      readRef (refBits lists.list2 i) := by
  have hfields := packFrameRps_fields memory parsed dpb lists
  rw [widths_frameRpsFields] at hfields
  generalize packFrameRps memory parsed dpb lists = table at hfields
  have hlen (pos n w : Nat) : (fields (ofBytes table) pos (List.replicate n w)).length = n := by
    rw [length_fields, List.length_replicate]
  have hrange {α : Type} (n : Nat) (f : Nat → α) : ((List.range n).map f).length = n := by
    rw [List.length_map, List.length_range]
  rw [fields_append, fields_append, fields_append, fields_append] at hfields
  unfold frameRpsFields at hfields
  dsimp only at hfields
  rw [List.map_append, List.map_append, List.map_map, List.flatMap_cons, List.flatMap_cons,
    List.flatMap_cons, List.flatMap_nil, List.append_nil, List.map_append, List.map_append,
    List.map_map, List.map_map, List.map_map] at hfields
  obtain ⟨hfront, hrest⟩ := List.append_inj hfields (by
    rw [List.length_append, List.length_append, hlen, hrange, length_fields]
    rfl)
  obtain ⟨hwraps, -⟩ := List.append_inj hfront (by rw [hlen, hrange])
  obtain ⟨h0, hrest⟩ := List.append_inj hrest (by rw [hlen, hrange])
  obtain ⟨h1, h2⟩ := List.append_inj hrest (by rw [hlen, hrange])
  have hpos0 : 0 + (List.replicate 16 16 ++ [16, 16]).sum = 288 + 224 * 0 := by decide
  have hpos1 : 0 + (List.replicate 16 16 ++ [16, 16]).sum + (List.replicate 32 7).sum =
      288 + 224 * 1 := by decide
  have hpos2 : 0 + (List.replicate 16 16 ++ [16, 16]).sum + (List.replicate 32 7).sum +
      (List.replicate 32 7).sum =
      288 + 224 * 2 := by decide
  rw [hpos0] at h0
  rw [hpos1] at h1
  rw [hpos2] at h2
  refine ⟨hwraps, ?_, ?_, ?_⟩
  · rw [readList, h0, List.map_map]
    rfl
  · rw [readList, h1, List.map_map]
    rfl
  · rw [readList, h2, List.map_map]
    rfl

/-- Entries of lists of frames come back. -/
theorem readRef_refBits {list : List Reference} {i : Nat}
    (h : list.getD i {} = {} ∨ ∃ k < 16, list.getD i {} = ⟨k, frameRef⟩) :
    readRef (refBits list i) = list.getD i {} := by
  have hempty : readRef ((BitVec.ofNat 64 (refField {})).toNat % 2 ^ 7) = {} := by decide
  have hvalid : ∀ k < 16, readRef ((BitVec.ofNat 64 (refField ⟨k, frameRef⟩)).toNat % 2 ^ 7) =
      ⟨k, frameRef⟩ := by decide
  unfold refBits
  obtain hnone | ⟨k, hk, hsome⟩ := h
  · rw [hnone]
    exact hempty
  · rw [hsome]
    exact hvalid k hk

theorem map_readRef {list : List Reference} (hlen : list.length = 32)
    (h : ∀ r ∈ list, r = {} ∨ ∃ k < 16, r = ⟨k, frameRef⟩) :
    (List.range 32).map (fun i => readRef (refBits list i)) = list := by
  refine List.ext_getElem (by rw [List.length_map, List.length_range, hlen]) fun i hi hi' => ?_
  rw [List.getElem_map, List.getElem_range]
  have hget : list.getD i {} = list[i] := by
    rw [List.getD_eq_getElem?_getD, List.getElem?_eq_getElem hi']
    rfl
  rw [readRef_refBits (by rw [hget]; exact h _ (List.getElem_mem hi')), hget]

end Packing

section Entries

variable {es : List RefSort} {compact : List CompactRef} {r : Reference} {list : List Reference}

theorem length_fill (es : List RefSort) : (fill es).length = 32 := by
  rw [fill, List.length_append, List.length_map, List.length_take, List.length_replicate]
  omega

theorem mem_fill (h : r ∈ fill es) : r = {} ∨ ∃ e ∈ es, r = ⟨e.compactIdx, frameRef⟩ := by
  obtain hfront | hback := List.mem_append.mp h
  · obtain ⟨e, he, rfl⟩ := List.mem_map.mp hfront
    exact .inr ⟨e, List.mem_of_mem_take he, rfl⟩
  · exact .inl (List.eq_of_mem_replicate hback)

/-- The lists are filled with references to compact entries. -/
theorem refLists_fill (sliceType : Nat) (hlist : list ∈ [(refLists parsed sliceType compact).list0,
      (refLists parsed sliceType compact).list1, (refLists parsed sliceType compact).list2]) :
    ∃ es ⊆ refSorts compact, list = fill es := by
  have hempty : List.replicate 32 ({} : Reference) = fill [] := rfl
  have hall : allRefs parsed (refSorts compact) ⊆ refSorts compact :=
    fun e he => exchangeSort_perm.mem_iff.mp he
  have hpast (poc : Int) : pastRefs poc (refSorts compact) ++ futureRefs poc (refSorts compact) ⊆
      refSorts compact :=
    List.append_subset.mpr ⟨pastRefs_subset, futureRefs_subset⟩
  have hfuture (poc : Int) : futureRefs poc (refSorts compact) ++ pastRefs poc (refSorts compact) ⊆
      refSorts compact :=
    List.append_subset.mpr ⟨futureRefs_subset, pastRefs_subset⟩
  have hnone : ∃ es ⊆ refSorts compact, List.replicate 32 ({} : Reference) = fill es :=
    ⟨[], List.nil_subset _, hempty⟩
  simp only [List.mem_cons, List.not_mem_nil, or_false] at hlist
  unfold refLists at hlist
  dsimp only at hlist
  split at hlist
  · obtain rfl | rfl | rfl := hlist
    · exact hnone
    · exact hnone
    · exact hnone
  · split at hlist
    · obtain rfl | rfl | rfl := hlist
      · exact ⟨_, hall, rfl⟩
      · exact ⟨_, hpast _, rfl⟩
      · refine ⟨_, ?_, rfl⟩
        split
        · exact fun e he => hfuture _ ((swapFirst_perm _).mem_iff.mp he)
        · exact hfuture _
    · obtain rfl | rfl | rfl := hlist
      · exact ⟨_, hall, rfl⟩
      · exact hnone
      · exact hnone

theorem refLists_entries (sliceType : Nat)
    (hlist : list ∈ [(refLists parsed sliceType compact).list0,
      (refLists parsed sliceType compact).list1, (refLists parsed sliceType compact).list2]) :
    list.length = 32 ∧ ∀ r ∈ list, r = {} ∨ ∃ k < compact.length, r = ⟨k, frameRef⟩ := by
  obtain ⟨es, hes, rfl⟩ := refLists_fill sliceType hlist
  refine ⟨length_fill es, fun r hr => (mem_fill hr).imp_right ?_⟩
  rintro ⟨e, he, rfl⟩
  obtain ⟨c, hget, -⟩ := mem_refSorts (hes he)
  exact ⟨e.compactIdx, (List.getElem?_eq_some_iff.mp hget).1, rfl⟩

end Entries

section Selected

variable {i : Nat}

/-- The compact entry of a number, with its slot. -/
theorem selection_get (d : DpbCtx) (slot : SlotIdx) (parsed : Parsed)
    (hi : i < (references d slot).length) :
    ∃ c, (compactRefs d slot parsed)[i]? = some c ∧
    (selection d slot parsed).refs[i]? = some c.poolIdx ∧
      (selection d slot parsed).dpbEntries[i]? = some c.entry ∧ c.poolIdx ∈ references d slot ∧
      c = compactRef c.poolIdx (d.slots c.poolIdx).ref := by
  have hlt : i < (compactRefs d slot parsed).length := by
    rw [length_compactRefs]
    exact hi
  obtain ⟨c, hget⟩ : ∃ c, (compactRefs d slot parsed)[i]? = some c :=
    ⟨_, List.getElem?_eq_getElem hlt⟩
  obtain ⟨hmem, hc⟩ := mem_compactRefs (List.mem_of_getElem? hget)
  have hrefs : (selection d slot parsed).refs[i]? =
      ((compactRefs d slot parsed).map CompactRef.poolIdx)[i]? :=
    List.getElem?_append_left (by rw [List.length_map]; exact hlt)
  have hentries : (selection d slot parsed).dpbEntries[i]? =
      ((compactRefs d slot parsed).map CompactRef.entry)[i]? :=
    List.getElem?_append_left (by rw [List.length_map]; exact hlt)
  refine ⟨c, hget, ?_, ?_, hmem, hc⟩
  · rw [hrefs, List.getElem?_map, hget]
    rfl
  · rw [hentries, List.getElem?_map, hget]
    rfl

/-- The wrap that is packed for a compact entry. -/
theorem wrapField_entry (d : DpbCtx) (parsed : Parsed) (j : SlotIdx) :
    wrapField parsed.maxFrameNum parsed.frameNum.toNat (compactRef j (d.slots j).ref).entry =
    wrapOf d parsed j := by
  unfold wrapField wrapOf isLong CompactRef.entry compactRef
  dsimp only
  rw [if_neg (by decide)]
  split
  · rfl
  · rw [numberWrap]
    split
    · rfl
    · exact (BitVec.ofInt_natCast 16 _).symm

end Selected

section Result

variable {d' : DpbCtx} {calls : List Call} {sel : Selection} {lists : RefLists}

/-- The pictures have the one MaxFrameNum, and frame numbers below it. -/
def OneRange (calls : List Call) (parsed : Parsed) : Prop :=
  ∀ pic, Call.select pic ∈ calls ∨ pic = parsed →
    pic.log2MaxFrameNumMinus4 = parsed.log2MaxFrameNumMinus4 ∧
    pic.frameNum.toNat < parsed.maxFrameNum

/-- With frame numbers in range the wrap is the one that sorts the references. -/
theorem wrapOf_eq_wrapped {i : SlotIdx} (hlong : isLong d i = false)
    (hcur : parsed.frameNum.toNat < parsed.maxFrameNum)
    (hfn : (d.slots i).ref.frameNum.toNat < parsed.maxFrameNum) :
    wrapOf d parsed i =
    BitVec.ofInt 16 (wrapped parsed.maxFn parsed.frameNum (d.slots i).ref.frameNum) := by
  have hin {n : Nat} (hn : n < parsed.maxFrameNum) : inRange parsed.maxFrameNum n = n := by
    unfold inRange
    rw [if_pos (Nat.zero_lt_of_lt hn), Nat.mod_eq_of_lt hn]
  have hmax : parsed.maxFn = (parsed.maxFrameNum : Int) := rfl
  unfold wrapOf
  rw [hlong, if_neg Bool.false_ne_true, hin hcur, hin hfn, numberWrap, wrapped, hmax]
  simp only [Nat.cast_lt]

theorem frameNum_lt {p : Pool} {i : SlotIdx} (hok : p.Ok calls) (hrange : OneRange calls parsed)
    (huse : (p.dpb.slots i).ref.inUse = true) :
    (p.dpb.slots i).ref.frameNum.toNat < parsed.maxFrameNum := by
  obtain ⟨pic, hpic, his⟩ := hok.pictures i huse
  obtain ⟨-, hlt⟩ := hrange pic (.inl (hok.given i pic hpic))
  obtain hsame | ⟨hzero, -⟩ := his.frameNum
  · rw [hsame]
    exact hlt
  · rw [hzero]
    exact Nat.zero_lt_of_lt hlt

/-- A list's entry has the picture that the slot of its compact entry shows. -/
theorem namesPicture {p : Pool} {slot : SlotIdx} {r : Reference} (hok : p.Ok calls)
    (hr : r.index < (references p.dpb slot).length) :
    NamesPicture p.dpb p.content (selection p.dpb slot parsed) r := by
  obtain ⟨c, -, hslot, hentry, hmem, hc⟩ := selection_get p.dpb slot parsed hr
  have huse : (p.dpb.slots c.poolIdx).ref.inUse = true := by
    have hfilter := (List.mem_filter.mp hmem).2
    simp only [Bool.and_eq_true] at hfilter
    exact hfilter.1.2
  obtain ⟨pic, hpic, his⟩ := hok.pictures c.poolIdx huse
  refine ⟨hr, c.poolIdx, hslot, c.entry, hentry, pic, hpic, hmem, his, rfl, ?_, ?_, ?_, ?_⟩
  · rw [hc]
    exact his.topPoc
  · rw [hc]
    exact his.bottomPoc
  · rw [hc]
    rfl
  · rw [hc]
    rfl

theorem table_agrees {p : Pool} {slot : SlotIdx} (hok : p.Ok calls) (memory : Nat → BitVec 64)
    (sliceType : Nat) :
    TableAgrees p.dpb p.content parsed (selection p.dpb slot parsed)
      (refLists parsed sliceType (compactRefs p.dpb slot parsed))
      (packFrameRps memory parsed (selection p.dpb slot parsed).dpbEntries
        (refLists parsed sliceType (compactRefs p.dpb slot parsed))) := by
  obtain ⟨hwraps, h0, h1, h2⟩ :=
    packFrameRps_parts memory parsed (selection p.dpb slot parsed).dpbEntries
    (refLists parsed sliceType (compactRefs p.dpb slot parsed))
  have hcount : (compactRefs p.dpb slot parsed).length ≤ 16 := by
    rw [length_compactRefs]
    exact length_references
  have hentries {list : List Reference}
      (hlist : list ∈ [(refLists parsed sliceType (compactRefs p.dpb slot parsed)).list0,
        (refLists parsed sliceType (compactRefs p.dpb slot parsed)).list1,
      (refLists parsed sliceType (compactRefs p.dpb slot parsed)).list2]) :
      (List.range 32).map (fun i => readRef (refBits list i)) = list := by
    obtain ⟨hlen, hrefs⟩ := refLists_entries sliceType hlist
    refine map_readRef hlen fun r hr => (hrefs r hr).imp_right ?_
    rintro ⟨k, hk, rfl⟩
    exact ⟨k, lt_of_lt_of_le hk hcount, rfl⟩
  constructor
  · exact length_packFrameRps ..
  · intro i hi j hj
    obtain ⟨c, -, hslot, hentry, -, hc⟩ := selection_get p.dpb slot parsed hi
    obtain rfl := Option.some.inj (hslot.symm.trans hj)
    have hi16 : i < 16 := lt_of_lt_of_le hi length_references
    rw [hwraps, List.getElem?_map, List.getElem?_range hi16, Option.map_some,
      List.getD_eq_getElem?_getD, hentry]
    rw [Option.getD_some, hc, wrapField_entry, BitVec.toNat_setWidth]
    have hlt := (wrapOf p.dpb parsed c.poolIdx).isLt
    rw [Nat.mod_eq_of_lt (by omega), Nat.mod_eq_of_lt (by omega)]
    rfl
  · rw [h0]
    exact hentries List.mem_cons_self
  · rw [h1]
    exact hentries (List.mem_cons_of_mem _ List.mem_cons_self)
  · rw [h2]
    exact hentries (List.mem_cons_of_mem _ (List.mem_cons_of_mem _ List.mem_cons_self))
  · intro list hlist r hr hvalid
    obtain rfl | ⟨k, hk, rfl⟩ := (refLists_entries sliceType hlist).2 r hr
    · exact absurd rfl hvalid
    · exact namesPicture hok (by rw [← length_compactRefs]; exact hk)

/-- The compact entries are by FrameNumWrap. -/
theorem refs_sorted (d : DpbCtx) (slot : SlotIdx) (parsed : Parsed) :
    ((selection d slot parsed).refs.take (references d slot).length).Pairwise fun i j =>
      wrapped parsed.maxFn parsed.frameNum (d.slots i).ref.frameNum ≤
        wrapped parsed.maxFn parsed.frameNum (d.slots j).ref.frameNum := by
  have htake : (selection d slot parsed).refs.take (references d slot).length =
      (compactRefs d slot parsed).map CompactRef.poolIdx :=
    List.take_left' ((List.length_map ..).trans length_compactRefs)
  rw [htake, List.pairwise_map]
  refine List.Pairwise.imp_of_mem ?_ (compactRefs_sorted d slot parsed)
  intro a b ha hb hab
  have hnum : ∀ c ∈ compactRefs d slot parsed, c.frameNum = (d.slots c.poolIdx).ref.frameNum :=
    fun c hc => by
    rw [(mem_compactRefs hc).2]
    rfl
  rw [← hnum a ha, ← hnum b hb]
  obtain hlt | ⟨heq, -⟩ := hab
  · exact hlt.le
  · exact heq.le

/-- After every run of calls the table of a selection agrees with it and with the pictures in the
buffers, and the references are in the order of their FrameNumWrap. With frame numbers below one
MaxFrameNum that is also the wrap that the table has. -/
theorem frame_table_agrees (memory : Nat → BitVec 64) (hrun : calls.foldl call (some init) = some d)
    (hselect : selectLists d parsed sliceType = some (sel, lists, d')) :
    ∃ content, (calls ++ [Call.select parsed]).foldl Pool.call (some .init) = some ⟨d', content⟩ ∧
      TableAgrees d' content parsed sel lists (packFrameRps memory parsed sel.dpbEntries lists) ∧
      (sel.refs.take (references d' sel.currentSlot).length).Pairwise (fun i j =>
        wrapped parsed.maxFn parsed.frameNum (d'.slots i).ref.frameNum ≤
          wrapped parsed.maxFn parsed.frameNum (d'.slots j).ref.frameNum) ∧
      (OneRange calls parsed → ∀ i ∈ references d' sel.currentSlot, isLong d' i = false →
        wrapOf d' parsed i =
        BitVec.ofInt 16 (wrapped parsed.maxFn parsed.frameNum (d'.slots i).ref.frameNum)) := by
  have hcall : call (some d) (.select parsed) = some d' := by
    unfold selectLists at hselect
    split at hselect
    · rename_i heq
      cases hselect
      exact congrArg (Option.map fun r => r.2.2) heq
    · cases hselect
  have hrun' : (calls ++ [Call.select parsed]).foldl call (some init) = some d' := by
    rw [List.foldl_append, hrun]
    exact hcall
  obtain ⟨p, hp, rfl⟩ :=
    Option.map_eq_some_iff.mp ((Pool.run_dpb .init (calls ++ [Call.select parsed])).trans hrun')
  have hok := Pool.ok_run hp
  obtain ⟨hsel, rfl⟩ := selectLists_eq hselect
  generalize sel.currentSlot = slot at hsel ⊢
  subst hsel
  refine ⟨p.content, hp, table_agrees hok memory sliceType, refs_sorted p.dpb slot parsed, ?_⟩
  intro hrange i hi hlong
  have hcur := (hrange parsed (.inr rfl)).2
  have hall : OneRange (calls ++ [Call.select parsed]) parsed := by
    rintro pic (hmem | rfl)
    · obtain hmem | hlast := List.mem_append.mp hmem
      · exact hrange pic (.inl hmem)
      · cases List.mem_singleton.mp hlast
        exact hrange parsed (.inr rfl)
    · exact hrange pic (.inr rfl)
  have huse := (List.mem_filter.mp hi).2
  simp only [Bool.and_eq_true] at huse
  exact wrapOf_eq_wrapped hlong hcur (frameNum_lt hok hall huse.1.2)

/-- Two references, the first one from before `frame_num` wrapped. -/
def wrapRun : List Call :=
  [.select (windowPicture false 15 0), .decodeComplete, .select (windowPicture false 0 2),
    .decodeComplete]

/-- A reference of a sequence with a MaxFrameNum of 64, which the next picture has as 16. -/
def shrinkRun : List Call :=
  [.select { windowPicture false 40 0 with log2MaxFrameNumMinus4 := 2 }, .decodeComplete]

def listsAfter (calls : List Call) (parsed : Parsed) : Option (Selection × RefLists × DpbCtx) :=
  (calls.foldl call (some init)).bind fun d => selectLists d parsed Bitstream.H264.sliceTypeP

theorem frame_table_agrees_wrap :
    ∃ d d' sel lists content, wrapRun.foldl call (some init) = some d ∧
    selectLists d (windowPicture false 1 4) Bitstream.H264.sliceTypeP = some (sel, lists, d') ∧
    TableAgrees d' content (windowPicture false 1 4) sel lists
      (packFrameRps (fun _ => 0) (windowPicture false 1 4) sel.dpbEntries lists) ∧
    ∀ i ∈ references d' sel.currentSlot, isLong d' i = false →
      wrapOf d' (windowPicture false 1 4) i =
      BitVec.ofInt 16 (wrapped 16 1 (d'.slots i).ref.frameNum) := by
  obtain ⟨⟨sel, lists, d'⟩, hlists⟩ := Option.isSome_iff_exists.mp
    (show (listsAfter wrapRun (windowPicture false 1 4)).isSome = true by decide +kernel)
  obtain ⟨d, hrun, hselect⟩ := Option.bind_eq_some_iff.mp hlists
  obtain ⟨content, -, htable, -, hwraps⟩ := frame_table_agrees (fun _ => 0) hrun hselect
  refine ⟨d, d', sel, lists, content, hrun, hselect, htable, hwraps ?_⟩
  intro pic hpic
  simp only [wrapRun, List.mem_cons, Call.select.injEq, reduceCtorEq, List.not_mem_nil, or_false,
    false_or] at hpic
  obtain (rfl | rfl) | rfl := hpic
  · decide
  · decide
  · decide

/-- `Dpb_Select` sorts by 24, and the table has -8. -/
theorem shrunk_range_differs : ∃ d d' sel lists, shrinkRun.foldl call (some init) = some d ∧
    selectLists d (windowPicture false 5 2) Bitstream.H264.sliceTypeP = some (sel, lists, d') ∧
    (∃ i, sel.refs[0]? = some i ∧ i ∈ references d' sel.currentSlot ∧ isLong d' i = false ∧
      wrapped (windowPicture false 5 2).maxFn 5 (d'.slots i).ref.frameNum = 24) ∧
    (readWraps (packFrameRps (fun _ => 0) (windowPicture false 5 2) sel.dpbEntries lists))[0]? =
    some (2 ^ 16 - 8) := by
  obtain ⟨⟨sel, lists, d'⟩, hlists⟩ := Option.isSome_iff_exists.mp
    (show (listsAfter shrinkRun (windowPicture false 5 2)).isSome = true by decide +kernel)
  obtain ⟨d, hrun, hselect⟩ := Option.bind_eq_some_iff.mp hlists
  have hfacts : ∀ r ∈ listsAfter shrinkRun (windowPicture false 5 2), r.1.refs[0]? =
      some ⟨0, by decide⟩ ∧
      (⟨0, by decide⟩ : SlotIdx) ∈ references r.2.2 r.1.currentSlot ∧
      isLong r.2.2 ⟨0, by decide⟩ = false ∧
      wrapped (windowPicture false 5 2).maxFn 5 (r.2.2.slots ⟨0, by decide⟩).ref.frameNum = 24 ∧
      (readWraps (packFrameRps (fun _ => 0) (windowPicture false 5 2) r.1.dpbEntries r.2.1))[0]? =
      some (2 ^ 16 - 8) := by
    decide +kernel
  obtain ⟨hslot, hmem, hlong, hwrap, hread⟩ := hfacts _ hlists
  exact ⟨d, d', sel, lists, hrun, hselect, ⟨_, hslot, hmem, hlong, hwrap⟩, hread⟩

end Result

end Table

end Rkvdec.Engine.H264
