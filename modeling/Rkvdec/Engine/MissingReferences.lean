import Rkvdec.Bitstream.PictureRuns
import Rkvdec.Engine.H265Session
import Rkvdec.Engine.Retention

/-! Whether the H.265 engine has the references of a picture when the picture reaches the hardware,
in a stream that it decodes from an IRAP picture on. -/
namespace Rkvdec.Engine

section Queues

variable {R C : Type} {d d' : Dpb R C} {e e' : DecodeEngine R C} {entry : Entry} {r src dst : Hold}
  {i : SlotIdx} {epoch : BitVec 32} {l : List Entry}

/-- The slots have the same pictures in them, whoever holds them. -/
structure SamePictures (d d' : Dpb R C) : Prop where
  ref : ∀ i, (d'.slots i).ref = (d.slots i).ref
  codec : d'.codec = d.codec

theorem SamePictures.refl : SamePictures d d := ⟨fun _ => rfl, rfl⟩

theorem SamePictures.trans {d'' : Dpb R C} (h : SamePictures d d') (h' : SamePictures d' d'') :
    SamePictures d d'' :=
  ⟨fun i => (h'.ref i).trans (h.ref i), h'.codec.trans h.codec⟩

theorem samePictures_setFlag {v : Bool} : SamePictures d (d.setFlag r i v) :=
  ⟨fun _ => Dpb.ref_setFlag, rfl⟩

theorem samePictures_addHold (h : d.addHold i r epoch = some d') : SamePictures d d' := by
  unfold Dpb.addHold at h
  split_ifs at h
  cases h
  exact samePictures_setFlag

theorem samePictures_transferEntry (h : transferEntry d src dst entry = some d') :
    SamePictures d d' := by
  unfold transferEntry at h
  split at h
  · cases h
    exact .refl
  · unfold Dpb.transferHold at h
    split_ifs at h
    cases h
    exact samePictures_setFlag.trans samePictures_setFlag

theorem samePictures_releaseEntry (h : releaseEntry d r entry = some d') : SamePictures d d' := by
  unfold releaseEntry at h
  split at h
  · cases h
    exact .refl
  · unfold Dpb.releaseHold at h
    split_ifs at h
    cases h
    exact samePictures_setFlag

/-- The engine between two pictures. -/
structure SameDecoder (e e' : DecodeEngine R C) : Prop where
  dpb : SamePictures e.dpb e'.dpb
  waitForIdr : e'.waitForIdr = e.waitForIdr
  lastDecodedSlot : e'.lastDecodedSlot = e.lastDecodedSlot

theorem SameDecoder.refl : SameDecoder e e := ⟨.refl, rfl, rfl⟩

theorem SameDecoder.trans {e'' : DecodeEngine R C} (h : SameDecoder e e')
    (h' : SameDecoder e' e'') :
    SameDecoder e e'' :=
  ⟨h.dpb.trans h'.dpb, h'.waitForIdr.trans h.waitForIdr, h'.lastDecodedSlot.trans h.lastDecodedSlot⟩

namespace DecodeEngine

theorem sameDecoder_bumpLowest (h : e.bumpLowest = some e') : SameDecoder e e' := by
  unfold bumpLowest at h
  dsimp only at h
  split at h
  · cases h
    exact .refl
  · obtain ⟨d, htransfer, hrest⟩ := Option.bind_eq_some_iff.mp h
    cases hrest
    exact ⟨samePictures_transferEntry htransfer, rfl, rfl⟩

theorem sameDecoder_bumpWhile (bound fuel : Nat) (h : bumpWhile bound fuel e = some e') :
    SameDecoder e e' := by
  induction fuel generalizing e with
  | zero =>
    cases h
    exact .refl
  | succ fuel ih =>
    unfold bumpWhile at h
    split at h
    · cases h
      exact .refl
    · obtain ⟨e₁, hbump, hrest⟩ := Option.bind_eq_some_iff.mp h
      exact (sameDecoder_bumpLowest hbump).trans (ih hrest)

theorem sameDecoder_drain (h : e.drain = some e') : SameDecoder e e' := sameDecoder_bumpWhile _ _ h

theorem sameDecoder_onDecodeComplete {maxPics : Nat} {idr : Bool}
    (h : e.onDecodeComplete entry maxPics idr = some e') : SameDecoder e e' := by
  unfold onDecodeComplete at h
  obtain ⟨e₁, hdrain, hrest⟩ := Option.bind_eq_some_iff.mp h
  have hfirst : SameDecoder e e₁ := by
    split at hdrain
    · exact sameDecoder_drain hdrain
    · cases hdrain
      exact .refl
  have hsecond := sameDecoder_bumpWhile _ _ hrest
  exact hfirst.trans ⟨hsecond.dpb, hsecond.waitForIdr, hsecond.lastDecodedSlot⟩

theorem sameDecoder_pollFrame {frame : Option Entry} (h : e.pollFrame = some (frame, e')) :
    SameDecoder e e' := by
  unfold pollFrame at h
  split at h
  · cases h
    exact .refl
  · obtain ⟨d, htransfer, hrest⟩ := Option.bind_eq_some_iff.mp h
    cases hrest
    exact ⟨samePictures_transferEntry htransfer, rfl, rfl⟩

theorem sameDecoder_releaseFrame (h : e.releaseFrame entry = some e') : SameDecoder e e' := by
  obtain ⟨d, hrelease, hrest⟩ := Option.bind_eq_some_iff.mp h
  cases hrest
  exact ⟨samePictures_releaseEntry hrelease, rfl, rfl⟩

theorem samePictures_releaseAll (h : releaseAll r l d = some d') : SamePictures d d' := by
  induction l generalizing d with
  | nil =>
    cases h
    exact .refl
  | cons entry l ih =>
    obtain ⟨d₁, hrelease, hrest⟩ := Option.bind_eq_some_iff.mp h
    exact (samePictures_releaseEntry hrelease).trans (ih hrest)

end DecodeEngine

end Queues

namespace H265

open Bitstream.H265 (ParseResult dpbInput)

/-- The short-term RPS that `h265_active_strps` finds in a parse result. -/
def activeSet (out : ParseResult) : Option Bitstream.H265.ShortTermRps :=
  let sps := Bitstream.H265.activeSps out
  if out.slice.shortTermRefPicSetSpsFlag = 0 then some out.slice.stRpsSlice
  else if out.activeSpsId < 0 ∨ sps.valid = false ∨
      sps.numShortTermRefPicSets ≤ out.slice.shortTermRefPicSetIdx then none
  else some (sps.stRps.getD out.slice.shortTermRefPicSetIdx {})

/-- The POCs of the entries that have `used_by_curr_pic_flag` set. -/
def usedPocs (out : ParseResult) : List Int :=
  match activeSet out with
  | none => []
  | some rps =>
    ((List.finRange maxRefs).filter fun i : Fin maxRefs =>
      decide (i.val < rps.numNegativePics + rps.numPositivePics) &&
        decide (rps.usedByCurrPicFlag.getD i.val 0 ≠ 0)).map fun i =>
          out.poc + rps.deltaPoc.getD i.val 0

/-- A picture of the stream. `afterEos`: an end of sequence is in front of it. -/
structure StreamPicture where
  out : ParseResult
  afterEos : Bool

namespace StreamPicture

variable (pic : StreamPicture)

def nalType : Nat := pic.out.sliceNalUnitType

def isIrap : Bool := 16 ≤ pic.nalType ∧ pic.nalType ≤ 23

def isBla : Bool := 16 ≤ pic.nalType ∧ pic.nalType ≤ 18

def isRasl : Bool := pic.nalType = 8 ∨ pic.nalType = 9

/-- The POCs that its RPS keeps, whether it uses them or not. -/
def needed : List Int := neededPocs (dpbInput pic.out)

end StreamPicture

/-- What was fed before, the last picture first, and whether it was decoded. -/
abbrev Past := List (StreamPicture × Bool)

/-- The last picture of POC `p`. -/
def reference (past : Past) (p : Int) : Option (StreamPicture × Bool) :=
  past.find? fun q => q.1.out.poc = p

/-- The pictures after that one. -/
def between (past : Past) (p : Int) : Past := past.takeWhile fun q => q.1.out.poc ≠ p

/-- A picture of POC `p` is in the stream, and no picture after it has dropped it from the RPS. -/
def Provided (past : Past) (p : Int) : Prop :=
  (reference past p).isSome = true ∧ ∀ q ∈ between past p, q.1.out.isIdr = false ∧ p ∈ q.1.needed

/-- No IRAP picture is among them. -/
def BeforeIrap (past : Past) : Prop := ∀ q ∈ past, q.1.isIrap = false

/-- NoRaslOutputFlag of the last IRAP picture: a BLA picture, the one that decoding starts at, or
the first one of a sequence. -/
def noRaslOutputFlag (past : Past) : Bool :=
  match past.dropWhile fun q => !q.1.isIrap with
  | [] => true
  | irap :: older => irap.1.isBla || irap.1.afterEos || older.all fun q => !q.1.isIrap

/-- What the standard asks of the stream: an IRAP picture uses no references, and those of other
pictures are in the stream, after the last IRAP picture if the picture is not a RASL picture. After
a flush the stream goes on at any picture, and the references of what is in front of the next IRAP
picture may be missing. -/
structure Conforms (pic : StreamPicture) (flushed : Bool) (past : Past) : Prop where
  idr : pic.out.isIdr = true → pic.isIrap = true
  irap : pic.isIrap = true → usedPocs pic.out = []
  provided : ∀ p ∈ usedPocs pic.out, flushed = true ∧ BeforeIrap past ∨
    pic.isRasl = true ∧ noRaslOutputFlag past = true ∨
    Provided past p ∧ (pic.isRasl = false → BeforeIrap (between past p))

/-- No reference is a sub-layer non-reference picture. Those of a RASL picture are in the stream,
still in the RPS, and were decoded. -/
def Guarded (pic : StreamPicture) (past : Past) : Prop :=
  ∀ p ∈ usedPocs pic.out, (∀ m ∈ reference past p, m.1.out.nalRefFlag = true) ∧
    (pic.isRasl = true → Provided past p ∧ ∀ m ∈ reference past p, m.2 = true)

instance (past : Past) (p : Int) : Decidable (Provided past p) :=
  inferInstanceAs (Decidable (_ ∧ _))

instance (past : Past) : Decidable (BeforeIrap past) := inferInstanceAs (Decidable (∀ _ ∈ _, _))

instance (pic : StreamPicture) (past : Past) : Decidable (Guarded pic past) :=
  inferInstanceAs (Decidable (∀ _ ∈ _, _))

instance (pic : StreamPicture) (flushed : Bool) (past : Past) :
    Decidable (Conforms pic flushed past) :=
  decidable_of_iff ((pic.out.isIdr = true → pic.isIrap = true) ∧
      (pic.isIrap = true → usedPocs pic.out = []) ∧
      ∀ p ∈ usedPocs pic.out, flushed = true ∧ BeforeIrap past ∨
        pic.isRasl = true ∧ noRaslOutputFlag past = true ∨
        Provided past p ∧ (pic.isRasl = false → BeforeIrap (between past p)))
    ⟨fun h => ⟨h.1, h.2.1, h.2.2⟩, fun h => ⟨h.idr, h.irap, h.provided⟩⟩

/-- What becomes of an access unit. -/
structure Outcome where
  parseOk : Bool
  packOk : Bool
  regbuildOk : Bool
  decodeOk : Bool

def accessUnit (pic : StreamPicture) (outcome : Outcome) : AccessUnit where
  hasIrap := pic.isIrap
  parsed := if outcome.parseOk then some (dpbInput pic.out) else none
  packOk := outcome.packOk
  regbuildOk := outcome.regbuildOk
  decodeOk := outcome.decodeOk

/-- What `H265Dpb_Select` selects, if it finds a slot. -/
def selection (d : DpbCtx) (parsed : Parsed) : Option Selection :=
  match select d parsed with
  | (.ok, some sel, _) => some sel
  | _ => none

/-- The gate of `DecodeEngine_Submit` is shut for the access unit. -/
def gated (e : H265Engine) (au : AccessUnit) : Bool := e.waitForIdr && !au.hasIrap

def decodes (e : H265Engine) (au : AccessUnit) : Bool :=
  !gated e au && (decodeOne { e with waitForIdr := false } au).1

/-- The engine with its caller, what was fed since the start or the last flush, and the slots and
POCs of what was decoded since then. `flushed`: there was a flush. -/
structure Feed where
  session : Session
  flushed : Bool
  past : Past
  decoded : List (SlotIdx × Int)

/-- A call; the caller may pass any epoch. -/
inductive Call where
  | submit (pic : StreamPicture) (outcome : Outcome) (ptsHns : Int) (epoch : BitVec 32)
  | pollFrame
  | releaseFrame (k : Nat)
  | drain
  | flush

namespace Feed

/-- After the submission has led to the engine `e`. -/
def submitted (s : Feed) (pic : StreamPicture) (au : AccessUnit) (e : H265Engine) : Feed where
  session := { s.session with engine := e }
  flushed := s.flushed
  past := (pic, decodes s.session.engine au) :: s.past
  decoded :=
    if decodes s.session.engine au then
      (e.lastDecodedSlot.map fun i => (i, pic.out.poc)).toList ++ s.decoded
    else s.decoded

def step (s : Feed) : Call → Option Feed
  | .submit pic outcome ptsHns epoch =>
    (H265.submit s.session.engine (accessUnit pic outcome) ptsHns epoch).map
      (s.submitted pic (accessUnit pic outcome))
  | .pollFrame => (s.session.step .pollFrame).map fun session => { s with session := session }
  | .releaseFrame k =>
    (s.session.step (.releaseFrame k)).map fun session => { s with session := session }
  | .drain => (s.session.step .drain).map fun session => { s with session := session }
  | .flush => (s.session.step .flush).map fun session => ⟨session, true, [], []⟩

def init (buffers : SlotIdx → PoolEntry) : Feed := ⟨Session.init buffers, false, [], []⟩

/-- Of every call of the run, in the state it is made in. -/
def EachCall (Q : Feed → Call → Prop) : Feed → List Call → Prop
  | _, [] => True
  | s, c :: calls => Q s c ∧ ∀ s' ∈ s.step c, EachCall Q s' calls

/-- The call feeds the next picture of a stream. -/
def Streams (s : Feed) : Call → Prop
  | .submit pic _ _ _ => Conforms pic s.flushed s.past
  | _ => True

/-- Past the gate a picture is guarded. -/
def Safe (s : Feed) : Call → Prop
  | .submit pic _ _ _ => s.session.engine.waitForIdr = false → Guarded pic s.past
  | _ => True

/-- The selection has a slot with POC `p`, decoded since the last flush. -/
def Offers (s : Feed) (sel : Selection) (p : Int) : Prop :=
  ∃ i : SlotIdx, sel.refValidMask.getLsbD i = true ∧ sel.refPocs i = p ∧ (i, p) ∈ s.decoded

/-- A picture that gets a slot, and with it to the hardware, has one for each entry of its RPS that
it uses. -/
def HasReferences (s : Feed) : Call → Prop
  | .submit pic outcome _ _ => gated s.session.engine (accessUnit pic outcome) = false →
      ∀ parsed ∈ (accessUnit pic outcome).parsed, ∀ sel ∈ selection s.session.engine.dpb parsed,
        ∀ p ∈ usedPocs pic.out, s.Offers sel p
  | _ => True

instance (s : Feed) (sel : Selection) (p : Int) : Decidable (s.Offers sel p) :=
  inferInstanceAs (Decidable (∃ _, _))

instance (s : Feed) : ∀ c, Decidable (Streams s c)
  | .submit pic _ _ _ => inferInstanceAs (Decidable (Conforms pic s.flushed s.past))
  | .pollFrame | .releaseFrame _ | .drain | .flush => .isTrue trivial

instance (s : Feed) : ∀ c, Decidable (Safe s c)
  | .submit pic _ _ _ => inferInstanceAs (Decidable (_ → Guarded pic s.past))
  | .pollFrame | .releaseFrame _ | .drain | .flush => .isTrue trivial

instance (s : Feed) : ∀ c, Decidable (HasReferences s c)
  | .submit pic outcome _ _ =>
    inferInstanceAs (Decidable (gated s.session.engine (accessUnit pic outcome) =
      false →
      ∀ parsed ∈ (accessUnit pic outcome).parsed, ∀ sel ∈ selection s.session.engine.dpb parsed,
        ∀ p ∈ usedPocs pic.out, s.Offers sel p))
  | .pollFrame | .releaseFrame _ | .drain | .flush => .isTrue trivial

instance (Q : Feed → Call → Prop) [∀ s c, Decidable (Q s c)] :
    ∀ (s : Feed) (calls : List Call), Decidable (EachCall Q s calls)
  | _, [] => .isTrue trivial
  | s, c :: calls =>
    have (s' : Feed) : Decidable (EachCall Q s' calls) := instDecidableEachCall Q s' calls
    inferInstanceAs (Decidable (_ ∧ ∀ s' ∈ s.step c, EachCall Q s' calls))

end Feed

section Marking

variable {d d' : DpbCtx} {i j : SlotIdx} {p : Int} {parsed : Parsed} {out : ParseResult}

theorem activeStrps_dpbInput :
    activeStrps (dpbInput out) = (activeSet out).map Bitstream.H265.ShortTermRps.dpbInput := by
  unfold activeStrps activeSet
  by_cases hflag : out.slice.shortTermRefPicSetSpsFlag = 0
  · simp [dpbInput, hflag]
  · by_cases hid : out.activeSpsId < 0
    · have hnot : ¬ 0 ≤ out.activeSpsId := by omega
      simp [dpbInput, hflag, hid, hnot]
    · have hyes : 0 ≤ out.activeSpsId := by omega
      simp only [dpbInput, hflag, hid, hyes, ne_eq, not_false_eq_true, decide_true,
        Bool.true_eq_false, if_false, if_true, false_or]
      by_cases hvalid : (Bitstream.H265.activeSps out).valid = false
      · simp [Bitstream.H265.Sps.dpbInput, hvalid]
      · by_cases hroom : (Bitstream.H265.activeSps out).numShortTermRefPicSets ≤
            out.slice.shortTermRefPicSetIdx
        · simp [Bitstream.H265.Sps.dpbInput, hvalid, hroom]
        · simp [Bitstream.H265.Sps.dpbInput, hvalid, hroom]

/-- An entry that is used is needed. -/
theorem usedPocs_needed (h : p ∈ usedPocs out) : p ∈ neededPocs (dpbInput out) := by
  unfold usedPocs at h
  unfold neededPocs
  rw [activeStrps_dpbInput]
  cases hset : activeSet out with
  | none =>
    rw [hset] at h
    cases h
  | some rps =>
    rw [hset] at h
    obtain ⟨i, hi, rfl⟩ := List.mem_map.mp h
    obtain ⟨hmem, hused⟩ := List.mem_filter.mp hi
    simp only [Bool.and_eq_true] at hused
    refine List.mem_map.mpr ⟨i, List.mem_filter.mpr ⟨hmem, hused.1⟩, rfl⟩

/-- A reference of POC `p` is in the slot. -/
def Stores (d : DpbCtx) (p : Int) (i : SlotIdx) : Prop :=
  i.val < d.codec.size ∧ (d.slots i).ref = ⟨true, true, p⟩

theorem Stores.congr (h : Stores d p i) (hsame : SamePictures d d') : Stores d' p i :=
  ⟨by rw [hsame.codec]; exact h.1, (hsame.ref i).trans h.2⟩

theorem Stores.mark (h : Stores d p i) (hidr : parsed.isIdr = false)
    (hneed : p ∈ neededPocs parsed) :
    Stores (markForPicture d parsed) p i := by
  refine ⟨by rw [marks_markForPicture.codec]; exact h.1, ?_⟩
  unfold markForPicture
  rw [if_neg (by simp [hidr]), remark_ref, h.2]
  simp [h.1, hneed]

theorem selected_of_selection {sel : Selection} (h : sel ∈ selection d parsed) :
    ∃ d', Selected d parsed sel d' := by
  unfold selection at h
  split at h
  · rename_i hsel
    cases h
    exact ⟨_, selected_of_select hsel⟩
  · cases h

/-- The slot of a reference is not given to another picture. -/
theorem Stores.ne {sel : Selection} (h : Stores (markForPicture d parsed) p i)
    (hs : Selected d parsed sel d') : i ≠ sel.currentSlot := by
  rintro rfl
  obtain ⟨-, -, huse | href⟩ := findFree_some hs.free
  · simp [h.2] at huse
  · simp [h.2] at href

theorem Stores.selected {sel : Selection} (h : Stores (markForPicture d parsed) p i)
    (hs : Selected d parsed sel d') : Stores d' p i := by
  have hlt := h.1
  rw [marks_markForPicture.codec] at hlt
  refine ⟨by rwa [hs.codec], ?_⟩
  rw [hs.other i (h.ne hs), h.2]

theorem onDecodeFailed_ref {slot : SlotIdx} (hcur : d.currentIdx = some slot) :
    ((onDecodeFailed d).slots j).ref = if j = slot then .cleared else (d.slots j).ref := by
  unfold onDecodeFailed
  rw [hcur]
  by_cases hj : j = slot
  · subst hj
    simp [slotClear, Dpb.modifyRef]
  · simp [slotClear, Dpb.modifyRef, hj]

theorem onDecodeFailed_codec : (onDecodeFailed d).codec = d.codec := by
  unfold onDecodeFailed
  split <;> rfl

end Marking

section Decoding

variable {e e' : H265Engine} {au : AccessUnit} {d d' : DpbCtx} {i : SlotIdx} {p : Int}
  {parsed : Parsed}
  {ptsHns : Int} {epoch : BitVec 32}

/-- Everything `DecodeOne_H265` can do. -/
theorem decodeOne_cases (e : H265Engine) (au : AccessUnit) :
    (decodeOne e au).2.waitForIdr = e.waitForIdr ∧
      ((decodeOne e au).1 = false ∧ (decodeOne e au).2.dpb = e.dpb ∨
        ∃ parsed ∈ au.parsed,
          (decodeOne e au).1 = false ∧ (decodeOne e au).2.dpb = markForPicture e.dpb parsed ∨
          ∃ sel d', Selected e.dpb parsed sel d' ∧
            ((decodeOne e au).1 = false ∧ (decodeOne e au).2.dpb = onDecodeFailed d' ∨
              (decodeOne e au).1 = true ∧ (decodeOne e au).2.dpb = onDecodeComplete d' ∧
                (decodeOne e au).2.lastDecodedSlot = some sel.currentSlot)) := by
  unfold decodeOne
  cases hp : au.parsed with
  | none => exact ⟨rfl, .inl ⟨rfl, rfl⟩⟩
  | some parsed =>
    dsimp only
    cases hslice : parsed.hasSlice with
    | false =>
      have hsel : select e.dpb parsed = (.invalidInput, none, e.dpb) := by simp [select, hslice]
      rw [hsel]
      exact ⟨rfl, .inl ⟨rfl, rfl⟩⟩
    | true =>
      obtain ⟨-, hsel⟩ | ⟨slot, d', -, hsel, -⟩ := select_cases (d := e.dpb) hslice
      · rw [hsel]
        exact ⟨rfl, .inr ⟨parsed, rfl, .inl ⟨rfl, rfl⟩⟩⟩
      · have hs := selected_of_select hsel
        rw [hsel]
        dsimp only
        split_ifs
        · exact ⟨rfl, .inr ⟨parsed, rfl, .inr ⟨_, d', hs, .inl ⟨rfl, rfl⟩⟩⟩⟩
        · exact ⟨rfl, .inr ⟨parsed, rfl, .inr ⟨_, d', hs, .inl ⟨rfl, rfl⟩⟩⟩⟩
        · exact ⟨rfl, .inr ⟨parsed, rfl, .inr ⟨_, d', hs, .inl ⟨rfl, rfl⟩⟩⟩⟩
        · exact ⟨rfl, .inr ⟨parsed, rfl, .inr ⟨_, d', hs, .inr ⟨rfl, rfl, rfl⟩⟩⟩⟩

/-- A reference that the picture needs stays where it is, whatever becomes of the picture. -/
theorem Stores.decodeOne (h : Stores e.dpb p i)
    (hneed : ∀ parsed ∈ au.parsed, parsed.isIdr = false ∧ p ∈ neededPocs parsed) :
    Stores (decodeOne e au).2.dpb p i := by
  obtain ⟨-, ⟨-, hdpb⟩ | ⟨parsed, hparsed, hcase⟩⟩ := decodeOne_cases e au
  · rwa [hdpb]
  · obtain ⟨hidr, hmem⟩ := hneed parsed hparsed
    have hmark := h.mark hidr hmem
    obtain ⟨-, hdpb⟩ | ⟨sel, d', hs, hcase⟩ := hcase
    · rwa [hdpb]
    · have hne := hmark.ne hs
      have hsel := hmark.selected hs
      obtain ⟨-, hdpb⟩ | ⟨-, hdpb, -⟩ := hcase
      · rw [hdpb]
        refine ⟨by rw [onDecodeFailed_codec]; exact hsel.1, ?_⟩
        rw [onDecodeFailed_ref hs.current, if_neg hne, hsel.2]
      · rw [hdpb]
        refine ⟨by rw [onDecodeComplete_codec]; exact hsel.1, ?_⟩
        rw [onDecodeComplete_ref hs.current, if_neg fun h => hne h.1, hsel.2]

/-- A decoded picture that is a reference is in its slot. -/
theorem decodeOne_stores (hok : (decodeOne e au).1 = true) (hparsed : au.parsed = some parsed)
    (href : parsed.nalRefFlag = true) : ∃ i, Stores (decodeOne e au).2.dpb parsed.poc i := by
  obtain ⟨-, ⟨hno, -⟩ | ⟨parsed', hparsed', hcase⟩⟩ := decodeOne_cases e au
  · rw [hok] at hno
    cases hno
  · obtain rfl := Option.some.inj (hparsed.symm.trans hparsed')
    obtain ⟨hno, -⟩ | ⟨sel, d', hs, hcase⟩ := hcase
    · rw [hok] at hno
      cases hno
    · obtain ⟨hno, -⟩ | ⟨-, hdpb, -⟩ := hcase
      · rw [hok] at hno
        cases hno
      · have hlt := (findFree_some hs.free).1
        rw [marks_markForPicture.codec, ← hs.codec] at hlt
        refine ⟨sel.currentSlot, ?_, ?_⟩
        · rwa [hdpb, onDecodeComplete_codec]
        · rw [hdpb, onDecodeComplete_ref hs.current, hs.own, if_neg (by simp [href]), href]

theorem markForPicture_inUse (huse : ((markForPicture d parsed).slots i).ref.inUse = true) :
    (d.slots i).ref.inUse = true ∧
      ((markForPicture d parsed).slots i).ref.poc = (d.slots i).ref.poc := by
  by_cases hlt : i.val < d.codec.size
  · exact markForPicture_poc hlt huse
  · have hsame : ((markForPicture d parsed).slots i).ref = (d.slots i).ref := by
      unfold markForPicture
      split
      · exact (ref_foldl_modifyRef nodup_poolSlots fun _ => .cleared).trans
          (if_neg (mt mem_poolSlots.mp hlt))
      · rw [remark_ref, if_neg fun h => hlt h.1]
    rw [hsame] at huse ⊢
    exact ⟨huse, rfl⟩

/-- A slot in use after the picture was in use before, or has the picture in it. -/
theorem decodeOne_inUse (huse : ((decodeOne e au).2.dpb.slots i).ref.inUse = true) :
    ((e.dpb.slots i).ref.inUse = true ∧
        ((decodeOne e au).2.dpb.slots i).ref.poc = (e.dpb.slots i).ref.poc) ∨
      (decodeOne e au).1 = true ∧ i.val < e.dpb.codec.size ∧
        (decodeOne e au).2.lastDecodedSlot = some i ∧
        ∃ parsed ∈ au.parsed, ((decodeOne e au).2.dpb.slots i).ref.poc = parsed.poc := by
  obtain ⟨-, ⟨-, hdpb⟩ | ⟨parsed, hparsed, hcase⟩⟩ := decodeOne_cases e au
  · rw [hdpb] at huse ⊢
    exact .inl ⟨huse, rfl⟩
  · obtain ⟨-, hdpb⟩ | ⟨sel, d', hs, hcase⟩ := hcase
    · rw [hdpb] at huse ⊢
      exact .inl (markForPicture_inUse huse)
    · obtain ⟨-, hdpb⟩ | ⟨hok, hdpb, hlast⟩ := hcase
      · rw [hdpb, onDecodeFailed_ref hs.current] at huse ⊢
        split at huse
        · cases huse
        · rename_i hne
          rw [if_neg hne]
          rw [hs.other i hne] at huse ⊢
          exact .inl (markForPicture_inUse huse)
      · rw [hdpb, onDecodeComplete_ref hs.current] at huse ⊢
        split at huse
        · cases huse
        · rename_i hkept
          rw [if_neg hkept]
          by_cases hi : i = sel.currentSlot
          · subst hi
            have hlt := (findFree_some hs.free).1
            rw [marks_markForPicture.codec] at hlt
            exact .inr ⟨hok, hlt, hlast, parsed, hparsed, by rw [hs.own]⟩
          · rw [hs.other i hi] at huse ⊢
            exact .inl (markForPicture_inUse huse)

theorem decodeOne_codec : (decodeOne e au).2.dpb.codec = e.dpb.codec := by
  obtain ⟨-, ⟨-, hdpb⟩ | ⟨parsed, -, hcase⟩⟩ := decodeOne_cases e au
  · rw [hdpb]
  · obtain ⟨-, hdpb⟩ | ⟨sel, d', hs, hcase⟩ := hcase
    · rw [hdpb, marks_markForPicture.codec]
    · obtain ⟨-, hdpb⟩ | ⟨-, hdpb, -⟩ := hcase
      · rw [hdpb, onDecodeFailed_codec, hs.codec]
      · rw [hdpb, onDecodeComplete_codec, hs.codec]

theorem sameDecoder_enqueue (h : enqueue e parsed ptsHns epoch = some e') : SameDecoder e e' := by
  unfold enqueue at h
  dsimp only at h
  split at h
  · rw [Option.bind_eq_bind, Option.bind_some] at h
    have hqueue := DecodeEngine.sameDecoder_onDecodeComplete h
    exact ⟨hqueue.dpb, hqueue.waitForIdr, hqueue.lastDecodedSlot⟩
  · obtain ⟨d, hhold, hrest⟩ := Option.bind_eq_some_iff.mp h
    have hqueue := DecodeEngine.sameDecoder_onDecodeComplete hrest
    exact ⟨(samePictures_addHold hhold).trans hqueue.dpb, hqueue.waitForIdr, hqueue.lastDecodedSlot⟩

/-- What `DecodeEngine_Submit` does. -/
theorem submit_cases (h : submit e au ptsHns epoch = some e') :
    (gated e au = true ∧ e' = e) ∨
      gated e au = false ∧
        ((decodeOne { e with waitForIdr := false } au).1 = false ∧
            e' = { (decodeOne { e with waitForIdr := false } au).2 with waitForIdr := true } ∨
          (decodeOne { e with waitForIdr := false } au).1 = true ∧
            SameDecoder (decodeOne { e with waitForIdr := false } au).2 e') := by
  unfold submit at h
  by_cases hgate : gated e au = true
  · rw [gated] at hgate
    rw [if_pos hgate] at h
    cases h
    exact .inl ⟨hgate, rfl⟩
  · refine .inr ⟨by simpa using hgate, ?_⟩
    rw [gated] at hgate
    rw [if_neg hgate] at h
    rcases hdec : decodeOne { e with waitForIdr := false } au with ⟨ok, e₁⟩
    rw [hdec] at h
    cases ok with
    | false =>
      cases h
      exact .inl ⟨rfl, rfl⟩
    | true =>
      cases hparsed : au.parsed with
      | some parsed =>
        rw [hparsed] at h
        exact .inr ⟨rfl, sameDecoder_enqueue h⟩
      | none =>
        rw [decodeOne, hparsed] at hdec
        cases hdec

end Decoding

section PastLemmas

variable {past : Past} {q m : StreamPicture × Bool} {p : Int}

theorem reference_cons :
    reference (q :: past) p = if q.1.out.poc = p then some q else reference past p := by
  unfold reference
  rw [List.find?_cons]
  by_cases h : q.1.out.poc = p
  · simp [h]
  · simp [h]

theorem between_cons :
    between (q :: past) p = if q.1.out.poc = p then [] else q :: between past p := by
  unfold between
  rw [List.takeWhile_cons]
  by_cases h : q.1.out.poc = p
  · simp [h]
  · simp [h]

theorem reference_split (h : reference past p = some m) :
    ∃ pre, past = between past p ++ m :: pre := by
  induction past with
  | nil => cases h
  | cons q past ih =>
    rw [reference_cons] at h
    rw [between_cons]
    by_cases hq : q.1.out.poc = p
    · rw [if_pos hq] at h ⊢
      cases h
      exact ⟨past, rfl⟩
    · rw [if_neg hq] at h ⊢
      obtain ⟨pre, hpre⟩ := ih h
      exact ⟨pre, congrArg (q :: ·) hpre⟩

end PastLemmas

namespace Feed

variable {s s' : Feed} {c : Call} {calls : List Call} {e : H265Engine} {d d' : DpbCtx} {i : SlotIdx}

/-- Between two calls. `stored`: a reference that was decoded and never dropped from the RPS is in
the DPB. `gate`: while the gate is open, what was fed since the last IRAP picture was decoded.
`opened`: after a flush only an IRAP picture opens the gate. -/
structure Inv (s : Feed) : Prop where
  decoded : ∀ i, (s.session.engine.dpb.slots i).ref.inUse = true →
    i.val < s.session.engine.dpb.codec.size ∧
    (i, (s.session.engine.dpb.slots i).ref.poc) ∈ s.decoded
  stored : ∀ p m, reference s.past p = some (m, true) → m.out.nalRefFlag = true →
    (∀ q ∈ between s.past p, q.1.out.isIdr = false ∧ p ∈ q.1.needed) →
    ∃ i, Stores s.session.engine.dpb p i
  gate : s.session.engine.waitForIdr = false → ∀ post m pre, s.past = post ++ m :: pre →
    BeforeIrap post → m.2 = true
  opened : s.flushed = true → s.session.engine.waitForIdr = false → ¬ BeforeIrap s.past

theorem inv_init (buffers : SlotIdx → PoolEntry) : (init buffers).Inv := by
  refine ⟨?_, ?_, ?_, ?_⟩
  · intro i huse
    cases huse
  · intro p m hm
    cases hm
  · intro _ post m pre hpast
    simp [init] at hpast
  · intro hflushed
    cases hflushed

/-- The calls that feed no picture. -/
theorem Inv.sameDecoder (h : s.Inv) (hf : s'.flushed = s.flushed) (hs : s'.past = s.past)
    (hd : s'.decoded = s.decoded) (he : SameDecoder s.session.engine s'.session.engine) :
    s'.Inv := by
  refine ⟨?_, ?_, ?_, ?_⟩
  · intro i huse
    rw [he.dpb.ref] at huse ⊢
    rw [he.dpb.codec, hd]
    exact h.decoded i huse
  · intro p m hm href hkept
    rw [hs] at hm hkept
    obtain ⟨i, hi⟩ := h.stored p m hm href hkept
    exact ⟨i, hi.congr he.dpb⟩
  · intro hwait
    rw [he.waitForIdr] at hwait
    rw [hs]
    exact h.gate hwait
  · rw [hf, hs, he.waitForIdr]
    exact h.opened

theorem flush_clears (h : H265.flush d = some d') :
    d'.codec = d.codec ∧ ∀ i, (d'.slots i).ref.inUse = true →
      ¬ i.val < d.codec.size ∧ (d.slots i).ref.inUse = true := by
  have hstep : ∀ (l : List SlotIdx) (c : DpbCtx) (i : SlotIdx),
      ((l.foldl (fun d i => if (d.slots i).heldByConsumer = false then slotClear d i
        else d.modifyRef i fun s => { s with inUse := false, isRef := false }) c).slots
          i).ref.inUse = true →
      i ∉ l ∧ (c.slots i).ref.inUse = true := by
    intro l
    induction l with
    | nil => exact fun c i huse => ⟨List.not_mem_nil, huse⟩
    | cons j l ih =>
      intro c i huse
      obtain ⟨hnot, hbefore⟩ := ih _ i huse
      dsimp only at hbefore
      by_cases hi : i = j
      · subst hi
        split at hbefore
        · simp [slotClear, Dpb.modifyRef, RefState.cleared] at hbefore
        · simp [Dpb.modifyRef] at hbefore
      · refine ⟨by simp [hi, hnot], ?_⟩
        split at hbefore
        · simpa [slotClear, Dpb.modifyRef, hi] using hbefore
        · simpa [Dpb.modifyRef, hi] using hbefore
  unfold H265.flush at h
  split at h
  · cases h
  · cases h
    have hm : Marks d ((poolSlots d).foldl (fun d i =>
        if (d.slots i).heldByConsumer = false then slotClear d i
        else d.modifyRef i fun s => { s with inUse := false, isRef := false }) d) := by
      refine .foldl _ fun d i => ?_
      split
      · exact marks_slotClear
      · exact .modifyRef
    refine ⟨hm.codec, ?_⟩
    intro i huse
    obtain ⟨hnot, hbefore⟩ := hstep _ _ i huse
    exact ⟨mt mem_poolSlots.mpr hnot, hbefore⟩

theorem Inv.flush (h : s.Inv) {x : Session} (hstep : s.session.step .flush = some x) :
    (⟨x, true, [], []⟩ : Feed).Inv := by
  obtain ⟨e', hflush, hx⟩ := Option.bind_eq_some_iff.mp hstep
  cases hx
  obtain ⟨d₁, hreorder, hflush⟩ := Option.bind_eq_some_iff.mp hflush
  obtain ⟨d₂, hready, hflush⟩ := Option.bind_eq_some_iff.mp hflush
  obtain ⟨d₃, hclear, hflush⟩ := Option.bind_eq_some_iff.mp hflush
  cases hflush
  have hsame := (DecodeEngine.samePictures_releaseAll hreorder).trans
    (DecodeEngine.samePictures_releaseAll hready)
  obtain ⟨-, huse⟩ := flush_clears hclear
  refine ⟨?_, ?_, ?_, ?_⟩
  · intro i hi
    obtain ⟨hnot, hbefore⟩ := huse i hi
    rw [hsame.codec] at hnot
    rw [hsame.ref] at hbefore
    exact absurd (h.decoded i hbefore).1 hnot
  · intro p m hm
    cases hm
  · intro hwait
    cases hwait
  · intro _ hwait
    cases hwait

section Submission

variable {pic : StreamPicture} {outcome : Outcome} {ptsHns : Int} {epoch : BitVec 32}

theorem parsed_accessUnit {parsed : Parsed} (h : parsed ∈ (accessUnit pic outcome).parsed) :
    parsed = dpbInput pic.out := by
  simp only [accessUnit] at h
  split at h
  · exact (Option.some.inj h).symm
  · cases h

/-- The references are in the DPB after one more picture, when the picture keeps what it needs and
itself. -/
theorem Inv.stored_cons (h : s.Inv) {e' : H265Engine} {ok : Bool}
    (hkeep : ∀ p i, Stores s.session.engine.dpb p i → pic.out.isIdr = false → p ∈ pic.needed →
      Stores e'.dpb p i)
    (hown : ok = true → pic.out.nalRefFlag = true → ∃ i, Stores e'.dpb pic.out.poc i)
    {p : Int} {m : StreamPicture} (hm : reference ((pic, ok) :: s.past) p = some (m, true))
    (href : m.out.nalRefFlag = true)
    (hkept : ∀ q ∈ between ((pic, ok) :: s.past) p, q.1.out.isIdr = false ∧ p ∈ q.1.needed) :
    ∃ i, Stores e'.dpb p i := by
  rw [reference_cons] at hm
  rw [between_cons] at hkept
  by_cases hpoc : pic.out.poc = p
  · rw [if_pos hpoc] at hm
    obtain ⟨rfl, rfl⟩ := Prod.mk.inj (Option.some.inj hm)
    rw [← hpoc]
    exact hown rfl href
  · rw [if_neg hpoc] at hm hkept
    obtain ⟨hidr, hneed⟩ := hkept _ List.mem_cons_self
    obtain ⟨i, hi⟩ := h.stored p m hm href fun q hq => hkept q (List.mem_cons_of_mem _ hq)
    exact ⟨i, hkeep p i hi hidr hneed⟩

/-- What gets past the gate is an IRAP picture or has one before it since the flush. -/
theorem Inv.opened_cons (h : s.Inv) {ok : Bool}
    (hgate : gated s.session.engine (accessUnit pic outcome) = false)
    (hflushed : s.flushed = true) :
    ¬ BeforeIrap ((pic, ok) :: s.past) := by
  intro hbefore
  have hnot : pic.isIrap = false := hbefore _ List.mem_cons_self
  have hopen : s.session.engine.waitForIdr = false := by
    simpa [gated, accessUnit, hnot] using hgate
  exact h.opened hflushed hopen fun q hq => hbefore q (List.mem_cons_of_mem _ hq)

theorem Inv.submit (h : s.Inv)
    (hsubmit : H265.submit s.session.engine (accessUnit pic outcome) ptsHns epoch = some e) :
    (s.submitted pic (accessUnit pic outcome) e).Inv := by
  have hneeds : ∀ p, pic.out.isIdr = false → p ∈ pic.needed →
      ∀ parsed ∈ (accessUnit pic outcome).parsed, parsed.isIdr = false ∧ p ∈ neededPocs parsed := by
    intro p hidr hneed parsed hparsed
    rw [parsed_accessUnit hparsed]
    exact ⟨hidr, hneed⟩
  obtain ⟨hgate, rfl⟩ | ⟨hgate, ⟨hok, rfl⟩ | ⟨hok, hsame⟩⟩ := submit_cases hsubmit
  · have hdec : decodes s.session.engine (accessUnit pic outcome) = false := by
      simp [decodes, hgate]
    refine ⟨?_, ?_, ?_, ?_⟩
    · simpa only [submitted, hdec, Bool.false_eq_true, if_false] using h.decoded
    · intro p m hm href hkept
      simp only [submitted, hdec] at hm hkept ⊢
      refine h.stored_cons (fun _ _ hi _ _ => hi) ?_ hm href hkept
      intro hno
      cases hno
    · intro hwait
      have hyes : s.session.engine.waitForIdr = true := by
        simp only [gated, Bool.and_eq_true] at hgate
        exact hgate.1
      rw [submitted] at hwait
      rw [hyes] at hwait
      cases hwait
    · intro _ hwait
      have hyes : s.session.engine.waitForIdr = true := by
        simp only [gated, Bool.and_eq_true] at hgate
        exact hgate.1
      rw [submitted] at hwait
      rw [hyes] at hwait
      cases hwait
  · have hdec : decodes s.session.engine (accessUnit pic outcome) = false := by simp [decodes, hok]
    refine ⟨?_, ?_, ?_, ?_⟩
    · intro i huse
      simp only [submitted, hdec, Bool.false_eq_true, if_false] at huse ⊢
      obtain ⟨hbefore, hpoc⟩ | ⟨hyes, -⟩ := decodeOne_inUse huse
      · rw [hpoc, decodeOne_codec]
        exact h.decoded i hbefore
      · rw [hok] at hyes
        cases hyes
    · intro p m hm href hkept
      simp only [submitted, hdec] at hm hkept ⊢
      refine h.stored_cons ?_ ?_ hm href hkept
      · intro p i hi hidr hneed
        exact Stores.decodeOne (e := { s.session.engine with waitForIdr := false }) hi
          (hneeds p hidr hneed)
      · intro hno
        cases hno
    · intro hwait
      cases hwait
    · intro _ hwait
      cases hwait
  · have hdec : decodes s.session.engine (accessUnit pic outcome) = true := by
      simp [decodes, hgate, hok]
    refine ⟨?_, ?_, ?_, ?_⟩
    · intro i huse
      simp only [submitted, hdec, if_true] at huse ⊢
      rw [hsame.dpb.ref] at huse ⊢
      rw [hsame.dpb.codec, decodeOne_codec]
      obtain ⟨hbefore, hpoc⟩ | ⟨-, hlt, hlast, parsed, hparsed, hpoc⟩ := decodeOne_inUse huse
      · rw [hpoc]
        obtain ⟨hlt, hmem⟩ := h.decoded i hbefore
        exact ⟨hlt, List.mem_append_right _ hmem⟩
      · rw [hpoc, parsed_accessUnit hparsed, hsame.lastDecodedSlot, hlast]
        exact ⟨hlt, List.mem_append_left _ (by simp [dpbInput])⟩
    · intro p m hm href hkept
      simp only [submitted, hdec] at hm hkept ⊢
      refine h.stored_cons ?_ ?_ hm href hkept
      · intro p i hi hidr hneed
        exact (Stores.decodeOne (e := { s.session.engine with waitForIdr := false }) hi
          (hneeds p hidr hneed)).congr hsame.dpb
      · intro _ hflag
        obtain ⟨-, hcases⟩ := decodeOne_cases { s.session.engine with waitForIdr := false }
          (accessUnit pic outcome)
        have hparsed : (accessUnit pic outcome).parsed = some (dpbInput pic.out) := by
          obtain ⟨hno, -⟩ | ⟨parsed, hparsed, -⟩ := hcases
          · rw [hok] at hno
            cases hno
          · rw [← parsed_accessUnit hparsed]
            exact hparsed
        obtain ⟨i, hi⟩ := decodeOne_stores hok hparsed hflag
        exact ⟨i, hi.congr hsame.dpb⟩
    · intro _ post m pre hpast hpost
      simp only [submitted, hdec] at hpast
      cases post with
      | nil =>
        rw [List.nil_append] at hpast
        obtain ⟨rfl, -⟩ := List.cons.inj hpast
        rfl
      | cons q post =>
        rw [List.cons_append] at hpast
        obtain ⟨rfl, hrest⟩ := List.cons.inj hpast
        have hnot : pic.isIrap = false := hpost _ List.mem_cons_self
        have hopen : s.session.engine.waitForIdr = false := by
          simpa [gated, accessUnit, hnot] using hgate
        exact h.gate hopen post m pre hrest fun q hq => hpost q (List.mem_cons_of_mem _ hq)
    · intro hflushed _
      exact h.opened_cons hgate hflushed

end Submission

theorem Inv.step (h : s.Inv) (hstep : s.step c = some s') : s'.Inv := by
  cases c with
  | submit pic outcome ptsHns epoch =>
    obtain ⟨e, hsubmit, rfl⟩ := Option.map_eq_some_iff.mp hstep
    exact h.submit hsubmit
  | pollFrame =>
    obtain ⟨x, hx, rfl⟩ := Option.map_eq_some_iff.mp hstep
    obtain ⟨⟨frame, e⟩, hpoll, hx⟩ := Option.bind_eq_some_iff.mp hx
    cases hx
    exact h.sameDecoder rfl rfl rfl (DecodeEngine.sameDecoder_pollFrame hpoll)
  | releaseFrame k =>
    obtain ⟨x, hx, rfl⟩ := Option.map_eq_some_iff.mp hstep
    simp only [Session.step] at hx
    split at hx
    · cases hx
      exact h.sameDecoder rfl rfl rfl .refl
    · obtain ⟨e, hrelease, hx⟩ := Option.bind_eq_some_iff.mp hx
      cases hx
      exact h.sameDecoder rfl rfl rfl (DecodeEngine.sameDecoder_releaseFrame hrelease)
  | drain =>
    obtain ⟨x, hx, rfl⟩ := Option.map_eq_some_iff.mp hstep
    obtain ⟨e, hdrain, hx⟩ := Option.bind_eq_some_iff.mp hx
    cases hx
    exact h.sameDecoder rfl rfl rfl (DecodeEngine.sameDecoder_drain hdrain)
  | flush =>
    obtain ⟨x, hx, rfl⟩ := Option.map_eq_some_iff.mp hstep
    exact h.flush hx

/-- The references of one picture. -/
theorem Inv.hasReferences (h : s.Inv) (hstream : Streams s c) (hsafe : Safe s c) :
    HasReferences s c := by
  cases c with
  | submit pic outcome ptsHns epoch =>
    intro hgate parsed hparsed sel hsel p hp
    obtain ⟨d', hs⟩ := selected_of_selection hsel
    rw [parsed_accessUnit hparsed] at hs
    have hirap : pic.isIrap = false := by
      by_contra hyes
      rw [hstream.irap (by simpa using hyes)] at hp
      cases hp
    have hidr : pic.out.isIdr = false := by
      by_contra hyes
      rw [hstream.idr (by simpa using hyes)] at hirap
      cases hirap
    have hopen : s.session.engine.waitForIdr = false := by
      simpa [gated, accessUnit, hirap] using hgate
    obtain ⟨hflag, hrasl⟩ := hsafe hopen p hp
    -- a RASL picture has it by the guard, another picture because the gate is open
    have hprovided : Provided s.past p ∧ ∀ m ∈ reference s.past p, m.2 = true := by
      obtain ⟨hflushed, hbefore⟩ | ⟨hyes, -⟩ | ⟨hprovided, hafter⟩ := hstream.provided p hp
      · exact absurd hbefore (h.opened hflushed hopen)
      · exact hrasl hyes
      · cases hisRasl : pic.isRasl with
        | true => exact hrasl hisRasl
        | false =>
          refine ⟨hprovided, fun m hm => ?_⟩
          obtain ⟨pre, hpast⟩ := reference_split hm
          exact h.gate hopen _ m pre hpast (hafter hisRasl)
    obtain ⟨⟨hsome, hkept⟩, hdecoded⟩ := hprovided
    obtain ⟨⟨m, ok⟩, hm⟩ := Option.isSome_iff_exists.mp hsome
    obtain rfl : ok = true := hdecoded _ hm
    obtain ⟨i, hi⟩ := h.stored p m hm (hflag _ hm) hkept
    have hmark : Stores (markForPicture s.session.engine.dpb (dpbInput pic.out)) p i :=
      hi.mark hidr (usedPocs_needed hp)
    obtain ⟨hlt, href⟩ := hmark.selected hs
    have hactive : isActiveRef d' sel.currentSlot i = true := by
      rw [isActiveRef_iff, href]
      exact ⟨hlt, hmark.ne hs, rfl, rfl⟩
    refine ⟨i, ?_, ?_, ?_⟩
    · rw [hs.packed, refValidMask_packSelection]
      exact hactive
    · rw [hs.packed]
      simp only [packSelection, hactive, if_true, href]
    · have hmem := (h.decoded i (by rw [hi.2])).2
      rwa [hi.2] at hmem
  | pollFrame => trivial
  | releaseFrame k => trivial
  | drain => trivial
  | flush => trivial

theorem Inv.eachCall (h : s.Inv) (hstream : EachCall Streams s calls)
    (hsafe : EachCall Safe s calls) :
    EachCall HasReferences s calls := by
  induction calls generalizing s with
  | nil => trivial
  | cons c calls ih =>
    obtain ⟨hcall, hstream⟩ := hstream
    obtain ⟨hsafeCall, hsafe⟩ := hsafe
    refine ⟨h.hasReferences hcall hsafeCall, ?_⟩
    intro s' hs'
    exact ih (h.step hs') (hstream s' hs') (hsafe s' hs')

end Feed

/-- In every run over a stream every picture that gets to the hardware has its short-term
references, decoded since the last flush, when no picture past the gate uses a sub-layer
non-reference picture or is a RASL picture with a reference that is not in the stream any more or
was not decoded. -/
theorem references_present (buffers : SlotIdx → PoolEntry) (calls : List Call)
    (hstream : Feed.EachCall Feed.Streams (.init buffers) calls)
    (hsafe : Feed.EachCall Feed.Safe (.init buffers) calls) :
    Feed.EachCall Feed.HasReferences (.init buffers) calls :=
  (Feed.inv_init buffers).eachCall hstream hsafe

section Streams

open Bitstream (framed hevcSets)
open Bitstream.H265 (parsed)

def feed (out : ParseResult) : Call := .submit ⟨out, false⟩ ⟨true, true, true, true⟩ 0 0

/-- What a unit after the ones that led to `out` is parsed into. -/
abbrev after (out : ParseResult) (units : List (List Bitstream.Byte)) : ParseResult :=
  parsed (framed units, 128) out

abbrev idrOut : ParseResult := after {} (hevcSets ++ [[0x26, 0x01, 0xaf, 0x80]])

/-- A picture of POC 1 that uses the IDR picture. -/
abbrev trailOut : ParseResult := after idrOut [[0x02, 0x01, 0xd8, 0x97, 0xc0, 0x80]]

/-- A CRA picture of POC 4 that keeps it. -/
abbrev craOut : ParseResult := after trailOut [[0x2a, 0x01, 0xad, 0x0a, 0xd8, 0x10]]

/-- A RASL picture of POC 2 that uses both. -/
abbrev raslOut : ParseResult := after craOut [[0x12, 0x01, 0xd9, 0x12, 0xd7, 0x02]]

/-- The stream starts with a CRA picture, and has a RASL picture that uses POC 1. -/
abbrev firstOut : ParseResult := after {} (hevcSets ++ [[0x2a, 0x01, 0xad, 0x1e, 0x04]])

abbrev leadingOut : ParseResult := after firstOut [[0x12, 0x01, 0xd9, 0x17, 0xc0, 0x80]]

/-- A picture of POC 5 that uses the CRA picture. -/
abbrev nextOut : ParseResult := after craOut [[0x02, 0x01, 0xda, 0x97, 0xc0, 0x80]]

/-- A flush before a picture whose reference is gone with it; the gate drops the picture, and
decoding goes on at the CRA picture behind it. -/
theorem references_present_for_leading_picture :
    usedPocs raslOut = [1, 4] ∧ usedPocs trailOut = [0] ∧ usedPocs nextOut = [4] ∧
      Feed.EachCall Feed.HasReferences (.init fun _ => ⟨1, 1⟩)
        [feed idrOut, feed trailOut, feed craOut, feed raslOut, .flush, feed trailOut, feed craOut,
          feed nextOut] := by
  refine ⟨by decide +kernel, by decide +kernel, by decide +kernel, references_present _ _ ?_ ?_⟩
  · decide +kernel
  · decide +kernel

theorem leading_picture_without_reference :
    Feed.EachCall Feed.Streams (.init fun _ => ⟨1, 1⟩) [feed firstOut, feed leadingOut] ∧
      ¬ Feed.EachCall Feed.HasReferences (.init fun _ => ⟨1, 1⟩) [feed firstOut,
      feed leadingOut] := by
  constructor
  · decide +kernel
  · decide +kernel

end Streams

end H265

end Rkvdec.Engine
