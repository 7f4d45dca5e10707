import EditableText.Proofs.Anchor.Order
import EditableText.Proofs.Document.Editing
import EditableText.Proofs.Document.Returning

namespace EditableText

open EditableText.Action EditableText.Document

variable {seg : AnchorSegment} {first last offset : Nat} {movement : AnchorMovement} {id : AnchorId}

structure AnchorTable.Tracks (table : AnchorTable) (seg : AnchorSegment) (first last : Nat) : Prop where
  start : table.get seg.start = .ok ⟨seg.start, first, .beforeInsertion, true, false⟩
  stop : table.get seg.stop = .ok ⟨seg.stop, last, .afterInsertion, true, false⟩

namespace OffsetStep.Exact

variable {step : OffsetStep} {stop behind position : Nat}

lemma move_before_insertion (h : step.Exact offset behind stop) (hposition : position ≤ stop + behind)
    (hremoval : step.removal = 0) :
    step.move .beforeInsertion position =
      if position ≤ step.offset then position else position + step.insertion := by
  have hresolve : step.resolve .beforeInsertion = .beforeInsertion := rfl
  rw [h.move_eq _ hposition, if_pos hresolve, hremoval]
  split_ifs <;> omega

lemma move_after_insertion (h : step.Exact offset behind stop) (hposition : position ≤ stop + behind)
    (hremoval : step.removal = 0) :
    step.move .afterInsertion position =
      if position < step.offset then position else position + step.insertion := by
  have hresolve : step.resolve .afterInsertion ≠ .beforeInsertion := by simp [resolve]
  rw [h.move_eq _ hposition, if_neg hresolve, hremoval]
  split_ifs <;> omega

lemma move_removal (h : step.Exact offset behind stop) (hposition : position ≤ stop + behind)
    (hinsertion : step.insertion = 0) (movement : AnchorMovement) :
    step.move movement position = position - (min (step.offset + step.removal) position - step.offset) := by
  rw [h.move_eq _ hposition, hinsertion]
  split_ifs <;> omega

lemma ofRange_insertion (h : step.Exact offset behind stop) (hfirst : first ≤ stop + behind)
    (hlast : last ≤ stop + behind) (hremoval : step.removal = 0) :
    Segment.ofRange (step.move .beforeInsertion first) (step.move .afterInsertion last) =
      ⟨if step.offset < first then first + step.insertion else first,
        if first ≤ step.offset ∧ step.offset ≤ last then last - first + step.insertion else last - first⟩ := by
  rw [h.move_before_insertion hfirst hremoval, h.move_after_insertion hlast hremoval, Segment.ofRange,
    Segment.mk.injEq]
  constructor <;> split_ifs <;> omega

lemma ofRange_removal (h : step.Exact offset behind stop) (hfirst : first ≤ stop + behind)
    (hlast : last ≤ stop + behind) (hinsertion : step.insertion = 0) :
    Segment.ofRange (step.move .beforeInsertion first) (step.move .afterInsertion last) =
      ⟨first - (min (step.offset + step.removal) first - step.offset),
        last - first - (min (step.offset + step.removal) last - max step.offset first)⟩ := by
  rw [h.move_removal hfirst hinsertion, h.move_removal hlast hinsertion, Segment.ofRange, Segment.mk.injEq]
  omega

end OffsetStep.Exact

namespace ChangeGroup

variable {group : ChangeGroup} {movement' : AnchorMovement} {t : Text}

lemma newOffset_le_newOffset {a b : Nat} (hrange : Change.InRangeAll group t) (hexact : Change.ExactAll group t)
    (h : movement.LeadsUpTo movement') (hab : a ≤ b) (hb : b ≤ t.length) :
    newOffset group movement a ≤ newOffset group movement' b := by
  induction group generalizing a b t with
  | nil => exact hab
  | cons c rest ih =>
    obtain ⟨hc, hrest⟩ := hexact
    have hle : c.newOffset movement a ≤ c.newOffset movement' b := hc.move_le_move h hab (by omega)
    exact ih hrange.2 hrest hle (Change.length_apply hrange.1 ▸ Change.Exact.newOffset_le hc movement' hrange.1 hb)

end ChangeGroup

namespace AnchorTable

variable {table after : AnchorTable}

lemma Tracks.unique {first' last' : Nat} (h : table.Tracks seg first last) (h' : table.Tracks seg first' last') :
    first = first' ∧ last = last' :=
  ⟨congrArg Anchor.offset (Except.ok.inj (h.start.symm.trans h'.start)),
    congrArg Anchor.offset (Except.ok.inj (h.stop.symm.trans h'.stop))⟩

lemma Tracks.segment_eq (h : table.Tracks seg first last) : seg.segment table = .ok (.ofRange first last) := by
  obtain ⟨slot, hslot, hstart⟩ := get_eq_ok h.start
  obtain ⟨slot', hslot', hstop⟩ := get_eq_ok h.stop
  rw [AnchorSegment.segment, AnchorTable.offset, AnchorTable.offset, hslot, hslot']
  simp only [Anchor.mk.injEq] at hstart hstop
  rw [hstart.2.1, hstop.2.1]
  rfl

lemma slot_of_get {a : Anchor} {slot : AnchorSlot} (hget : table.get id = .ok a)
    (hslot : table.slot id = .ok slot) :
    slot.movement = a.movement ∧ slot.survivesDeletion = a.survivesDeletion := by
  obtain ⟨found, hfound, rfl⟩ := get_eq_ok hget
  obtain rfl := Except.ok.inj (hfound.symm.trans hslot)
  exact ⟨rfl, rfl⟩

lemma modify_same {f : AnchorSlot → AnchorSlot} (hafter : table.modify id f = .ok after)
    (hf : ∀ slot, table.slot id = .ok slot → f slot = slot) : after = table := by
  obtain ⟨slot, hslot, rfl⟩ := modify_eq_ok hafter
  obtain ⟨hget, -, -⟩ := slot_eq_ok hslot
  have hslots : table.slots.setIfInBounds id.index.toNat slot = table.slots := by
    refine Array.ext_getElem? fun index => ?_
    rw [Array.getElem?_setIfInBounds]
    split_ifs with hindex hbound
    · rw [← hget, hindex]
    · exact absurd (Array.getElem?_eq_some_iff.mp hget).1 (hindex ▸ hbound)
    · rfl
  rw [hf slot hslot, hslots]

lemma setMovement_same {a : Anchor} (hget : table.get id = .ok a)
    (hafter : table.setMovement id a.movement = .ok after) : after = table :=
  modify_same hafter fun slot hslot => by rw [← (slot_of_get hget hslot).1]

lemma setSurvivesDeletion_same {a : Anchor} (hget : table.get id = .ok a)
    (hafter : table.setSurvivesDeletion id a.survivesDeletion = .ok after) : after = table :=
  modify_same hafter fun slot hslot => by rw [← (slot_of_get hget hslot).2]

lemma tracks_createSegment (ht : table.Tidy) (s : Segment)
    (hsize : (AnchorSegment.create table s true).2.capacity ≤ UInt32.size) :
    (AnchorSegment.create table s true).2.Tracks (AnchorSegment.create table s true).1 s.offset s.endOffset := by
  have hstarted : (table.create s.offset .beforeInsertion true).2.Tidy := ht.create
  have hsmaller := Nat.le_trans (capacity_create_le (table.create s.offset .beforeInsertion true).2 _ _ _) hsize
  exact ⟨hstarted.get_create (get_create_self ht _ _ _ hsmaller), get_create_self hstarted _ _ _ hsize⟩

end AnchorTable

def Move.Spares (id : AnchorId) (move : Move) : Prop := move ≠ .release id ∧ move ≠ .adjust id

def Move.SparesEnds (seg : AnchorSegment) (move : Move) : Prop := move.Spares seg.start ∧ move.Spares seg.stop

namespace Document

variable {doc after : Document} {c : Change} {move : Move} {moves : List Move}

lemma Applied.get_eq (h : Applied c doc after)
    (hget : doc.anchors.get id = .ok ⟨id, offset, movement, true, false⟩) :
    after.anchors.get id =
      .ok ⟨id, min (c.newOffset movement offset) after.text.length, movement, true, false⟩ := by
  obtain ⟨slot, hslot, hanchor⟩ := AnchorTable.get_eq_ok hget
  simp only [Anchor.mk.injEq, true_and] at hanchor
  obtain ⟨rfl, rfl, hsurvives, hdeleted⟩ := hanchor
  have hlive := AnchorTable.live_of_slot hslot hdeleted.symm
  obtain ⟨slot', hslot', hcarried⟩ := h.exists_slot hslot
  have hkept : ¬ AnchorSlot.LostAlong slot.movement slot.survivesDeletion slot.offset c.map :=
    AnchorSlot.not_lostAlong_of_survives hsurvives.symm
  rw [AnchorTable.get_of_slot hslot', hcarried.moved hlive hkept, ← hsurvives]
  simp [hlive]

lemma Link.get_eq (h : Link doc move after) (ht : doc.anchors.Tidy) (hmove : move.Spares id)
    (hget : doc.anchors.get id = .ok ⟨id, offset, movement, true, false⟩) :
    ∃ offset', after.anchors.get id = .ok ⟨id, offset', movement, true, false⟩ ∧
      (offset ≤ doc.text.length → Change.ExactAll (Move.changes [move]) doc.text →
        offset' = ChangeGroup.newOffset (Move.changes [move]) movement offset) := by
  cases h with
  | @change _ c happlied =>
    refine ⟨_, happlied.get_eq hget, fun hoffset hexact => ?_⟩
    rw [happlied.text_eq, Change.length_apply happlied.inRange]
    exact Nat.min_eq_left (Change.Exact.newOffset_le hexact.1 movement happlied.inRange hoffset)
  | create hmatter =>
    rw [anchors_eq_of_matter hmatter]
    exact ⟨offset, ht.get_create hget, fun _ _ => rfl⟩
  | @release _ other _ hanchors hmatter =>
    have hne : other ≠ id := fun hid => hmove.1 (hid ▸ rfl)
    rw [anchors_eq_of_matter hmatter]
    exact ⟨offset, AnchorTable.get_release_of_ne hget hanchors hne, fun _ _ => rfl⟩
  | @adjust _ other _ _ hanchors hf hmatter =>
    have hne : other ≠ id := fun hid => hmove.2 (hid ▸ rfl)
    rw [anchors_eq_of_matter hmatter]
    exact ⟨offset, AnchorTable.get_modify hget hanchors fun hid => absurd hid hne, fun _ _ => rfl⟩

lemma Course.get_eq (h : Course doc moves after) (ht : doc.anchors.Tidy) (hmoves : ∀ move ∈ moves, move.Spares id)
    (hget : doc.anchors.get id = .ok ⟨id, offset, movement, true, false⟩) :
    ∃ offset', after.anchors.get id = .ok ⟨id, offset', movement, true, false⟩ ∧
      (offset ≤ doc.text.length → Change.ExactAll (Move.changes moves) doc.text →
        offset' = ChangeGroup.newOffset (Move.changes moves) movement offset) := by
  induction h with
  | refl => exact ⟨offset, hget, fun _ _ => rfl⟩
  | still _ hmatter ih =>
    rw [anchors_eq_of_matter hmatter]
    exact ih hmoves
  | @step moves mid after move hcourse hlink ih =>
    obtain ⟨p, hp, hpeq⟩ := ih fun move hmem => hmoves move (List.mem_append_left _ hmem)
    obtain ⟨q, hq, hqeq⟩ := hlink.get_eq (hcourse.tidy ht) (hmoves move (by simp)) hp
    refine ⟨q, hq, fun hoffset hexact => ?_⟩
    rw [Move.changes_append, Change.exactAll_append] at hexact
    obtain ⟨hrange, htext⟩ := hcourse.applied
    have hinside : p ≤ mid.text.length := by
      rw [hpeq hoffset hexact.1, htext]
      exact ChangeGroup.newOffset_le hrange hexact.1 movement hoffset
    rw [hqeq hinside (htext ▸ hexact.2), hpeq hoffset hexact.1, Move.changes_append, ChangeGroup.newOffset_append]

lemma Course.exists_tracks (h : Course doc moves after) (ht : doc.anchors.Tidy)
    (hmoves : ∀ move ∈ moves, move.SparesEnds seg) (htracks : doc.anchors.Tracks seg first last) :
    ∃ first' last', after.anchors.Tracks seg first' last' ∧
      (first ≤ doc.text.length → last ≤ doc.text.length → Change.ExactAll (Move.changes moves) doc.text →
        first' = ChangeGroup.newOffset (Move.changes moves) .beforeInsertion first ∧
        last' = ChangeGroup.newOffset (Move.changes moves) .afterInsertion last) := by
  obtain ⟨first', hfirst', hfirst⟩ := h.get_eq ht (fun move hmem => (hmoves move hmem).1) htracks.start
  obtain ⟨last', hlast', hlast⟩ := h.get_eq ht (fun move hmem => (hmoves move hmem).2) htracks.stop
  exact ⟨first', last', ⟨hfirst', hlast'⟩, fun hle hle' hexact => ⟨hfirst hle hexact, hlast hle' hexact⟩⟩

lemma Sturdy.tracks_le (h : doc.Sturdy) (htracks : doc.anchors.Tracks seg first last) :
    first ≤ doc.text.length ∧ last ≤ doc.text.length := by
  have hend {id : AnchorId} {offset : Nat} {movement : AnchorMovement}
      (hget : doc.anchors.get id = .ok ⟨id, offset, movement, true, false⟩) : offset ≤ doc.text.length := by
    obtain ⟨slot, hslot, hanchor⟩ := AnchorTable.get_eq_ok hget
    simp only [Anchor.mk.injEq] at hanchor
    obtain ⟨-, rfl, -, -, hdeleted⟩ := hanchor
    exact h.offset_le hslot (AnchorTable.live_of_slot hslot hdeleted.symm)
  exact ⟨hend htracks.start, hend htracks.stop⟩

lemma material_sparing {first : Document} : Material (Led first (Move.SparesEnds seg)) :=
  material_led fun c => by simp [Move.SparesEnds, Move.Spares]

lemma tended_sparing (hdoc : doc.Sturdy) (htracks : doc.anchors.Tracks seg first last) :
    Tended (fun id => id ≠ seg.start ∧ id ≠ seg.stop)
      (fun id movement => (id = seg.start → movement = .beforeInsertion) ∧
        (id = seg.stop → movement = .afterInsertion))
      (fun id survives => id = seg.start ∨ id = seg.stop → survives = true)
      (Led doc (Move.SparesEnds seg)) := by
  have hthere {after : Document} (h : Led doc (Move.SparesEnds seg) after) :
      ∃ first last, after.anchors.Tracks seg first last := by
    obtain ⟨moves, halong, hmoves⟩ := h
    obtain ⟨first', last', htracks', -⟩ := halong.course.exists_tracks hdoc.tidy hmoves htracks
    exact ⟨first', last', htracks'⟩
  have hsame {after : Document} {anchors : AnchorTable} (h : Led doc (Move.SparesEnds seg) after)
      (hanchors : anchors = after.anchors) : Led doc (Move.SparesEnds seg) { after with anchors } := by
    subst hanchors
    exact h
  have hother {after : Document} {id : AnchorId} {f : AnchorSlot → AnchorSlot} {anchors : AnchorTable}
      (h : Led doc (Move.SparesEnds seg) after) (hf : ∀ slot, (f slot).offset = slot.offset ∧
        (f slot).state = slot.state ∧ (f slot).generation = slot.generation)
      (hanchors : after.anchors.modify id f = .ok anchors) (hstart : id ≠ seg.start) (hstop : id ≠ seg.stop) :
      Led doc (Move.SparesEnds seg) { after with anchors } := by
    have hwithin := h.sturdy.coherent.anchors.modify (fun slot => (hf slot).1) (fun slot => (hf slot).2.1) hanchors
    exact h.link (.adjust hanchors hf rfl) hwithin (by simp [Move.SparesEnds, Move.Spares, hstart, hstop])
  constructor
  case sturdy => exact Led.sturdy
  case create =>
    intro after offset movement survives h ho
    have hcoherent := h.sturdy.coherent
    have hwithin := hcoherent.anchors.create (hcoherent.text_eq ▸ ho) movement survives
    exact h.link (.create rfl) hwithin (by simp [Move.SparesEnds, Move.Spares])
  case release =>
    rintro after id anchors h ⟨hstart, hstop⟩ hanchors
    exact h.link (.release hanchors rfl) (h.sturdy.coherent.anchors.release hanchors)
      (by simp [Move.SparesEnds, Move.Spares, hstart, hstop])
  case setMovement =>
    rintro after id movement anchors h ⟨hstart, hstop⟩ hanchors
    obtain ⟨first', last', htracks'⟩ := hthere h
    by_cases hid : id = seg.start
    · rw [hstart hid, hid] at hanchors
      exact hsame h (AnchorTable.setMovement_same htracks'.start hanchors)
    · by_cases hid' : id = seg.stop
      · rw [hstop hid', hid'] at hanchors
        exact hsame h (AnchorTable.setMovement_same htracks'.stop hanchors)
      · exact hother (f := fun slot => { slot with movement }) h (fun _ => ⟨rfl, rfl, rfl⟩) hanchors hid hid'
  case setSurvivesDeletion =>
    rintro after id survives anchors h hkeeps hanchors
    obtain ⟨first', last', htracks'⟩ := hthere h
    by_cases hid : id = seg.start
    · rw [hkeeps (.inl hid), hid] at hanchors
      exact hsame h (AnchorTable.setSurvivesDeletion_same htracks'.start hanchors)
    · by_cases hid' : id = seg.stop
      · rw [hkeeps (.inr hid'), hid'] at hanchors
        exact hsame h (AnchorTable.setSurvivesDeletion_same htracks'.stop hanchors)
      · exact hother (f := fun slot => { slot with survivesDeletion := survives }) h (fun _ => ⟨rfl, rfl, rfl⟩)
          hanchors hid hid'

end Document

namespace Call

variable {s : Session} {cs : List Change}

/-- No anchor of the segment is released, nor set to anything but what it is. -/
def Spares (seg : AnchorSegment) (c : Call) : Prop :=
  c.Each (fun c => ¬ c.Holds ∧ c.TendsOnly (fun id => id ≠ seg.start ∧ id ≠ seg.stop)
    (fun id movement => (id = seg.start → movement = .beforeInsertion) ∧
      (id = seg.stop → movement = .afterInsertion))
    fun id survives => id = seg.start ∨ id = seg.stop → survives = true) fun _ => True

lemma sparing_perform {start : Document} (hstart : start.Sturdy) (htracks : start.anchors.Tracks seg first last)
    (h : Led start (Move.SparesEnds seg) s.document) {c : Call} (hc : c.Spares seg) :
    Led start (Move.SparesEnds seg) (c.perform s).state.document := by
  refine ((lasting_rule material_sparing.lasting fun honly hsingle => ?_).each c hc).state h
  refine keeps_single material_sparing.lasting hsingle ?_
  rintro (hanchors | hobservers)
  · exact keeps_tending (tended_sparing hstart htracks) hanchors honly
  · exact keeps_observing material_sparing.withObservers hobservers

lemma tracks_createAnchorSegment {length : Nat} (h : s.document.Sturdy)
    (hword : s.document.textLength < UInt64.size)
    (hok : ((createAnchorSegment offset length).perform s).outcome = .ok (.anchorSegment seg))
    (hsize : ((createAnchorSegment offset length).perform s).state.document.anchors.capacity ≤ UInt32.size) :
    ((createAnchorSegment offset length).perform s).state.document.Sturdy ∧
      ((createAnchorSegment offset length).perform s).state.document.anchors.Tracks seg offset
        (offset + length) := by
  rw [perform, acting_eq] at hok hsize ⊢
  have hchecked : Document.createAnchorSegment offset length s.document =
      match checkRange offset length s.document.textLength with
      | .ok _ => ⟨.ok (AnchorSegment.create s.document.anchors ⟨offset, length⟩ true).1,
          { s.document with anchors := (AnchorSegment.create s.document.anchors ⟨offset, length⟩ true).2 }, []⟩
      | .error e => ⟨.refused (.text e), s.document, []⟩ := by
    change Action.bind (Action.lift (checkRange offset length s.document.textLength)) _ s.document = _
    cases checkRange offset length s.document.textLength <;> rfl
  cases hcheck : checkRange offset length s.document.textLength with
  | error e =>
    rw [hchecked, hcheck] at hok
    cases hok
  | ok _ =>
    rw [hchecked, hcheck] at hok hsize ⊢
    have hrange := checkRange_eq_ok.mp hcheck
    have hstop : Word.add offset length = offset + length := Word.add_eq (Nat.lt_of_le_of_lt hrange hword)
    obtain rfl : (AnchorSegment.create s.document.anchors ⟨offset, length⟩ true).1 = seg := by
      injection hok with hreply
      injection hreply
    have hwithin := h.coherent.anchors.createSegment (s := ⟨offset, length⟩)
      (h.coherent.textLength_eq ▸ hrange) true
    have htracks := AnchorTable.tracks_createSegment h.tidy ⟨offset, length⟩ hsize
    rw [Segment.endOffset, hstop] at htracks
    exact ⟨⟨h.coherent.withAnchors hwithin, h.tidy.create.create⟩, htracks⟩

/-- The text becomes such and the segment lies so; only if the call fails, both may also be as before. -/
def Brings (c : Call) (s : Session) (seg : AnchorSegment) (t : Text) (lies : Segment) : Prop :=
  let after := (c.perform s).state.document
  let done := after.text = t ∧ seg.segment after.anchors = .ok lies
  (∀ reply, (c.perform s).outcome = .ok reply → done) ∧
    (done ∨ after.text = s.document.text ∧ seg.segment after.anchors = seg.segment s.document.anchors)

lemma brings_of_asks (h : s.document.Sturdy) (htracks : s.document.anchors.Tracks seg first last) {c : Call}
    (hasks : c.asks s.document = some cs) (hcs : cs.length ≤ 1)
    (hexact : Change.InRangeAll cs s.document.text → Change.ExactAll cs s.document.text) :
    c.Brings s seg (Change.applyAll cs s.document.text)
      (.ofRange (ChangeGroup.newOffset cs .beforeInsertion first)
        (ChangeGroup.newOffset cs .afterInsertion last)) := by
  obtain ⟨hfirst, hlast⟩ := h.tracks_le htracks
  have hdone {done : List Change} {after : Document} (hpart : done <+: cs)
      (halong : Along s.document ([] ++ done.map .change) after) :
      after.text = Change.applyAll done s.document.text ∧ seg.segment after.anchors = .ok (.ofRange
        (ChangeGroup.newOffset done .beforeInsertion first)
        (ChangeGroup.newOffset done .afterInsertion last)) := by
    have hcourse : Course s.document (done.map .change) after := halong.course
    obtain ⟨hrange, htext⟩ := hcourse.applied
    obtain ⟨first', last', hafter, hplaces⟩ :=
      hcourse.exists_tracks h.tidy (by simp [Move.SparesEnds, Move.Spares]) htracks
    rw [Move.changes_map] at hrange htext hplaces
    have hall : Change.ExactAll done s.document.text := by
      cases done with
      | nil => trivial
      | cons d rest =>
        obtain rfl : d :: rest = cs := hpart.eq_of_length (Nat.le_antisymm hpart.length_le (by simp; omega))
        exact hexact hrange
    obtain ⟨rfl, rfl⟩ := hplaces hfirst hlast hall
    exact ⟨htext, hafter.segment_eq⟩
  have hleaves := leaves_perform (⟨h, .refl⟩ : Along s.document [] s.document) hasks
  refine ⟨fun reply hok => ?_, ?_⟩
  · rw [Run.Leaves, hok] at hleaves
    exact hdone (List.prefix_refl cs) hleaves
  -- a call that fails has made its changes up to some point, and here there is one at most
  obtain ⟨done, hpart, halong⟩ := Run.leaves_self.mp (hleaves.mono (fun _ => Along.wholly) fun _ h => h)
  cases done with
  | nil =>
    rw [htracks.segment_eq]
    exact .inr (hdone hpart halong)
  | cons d rest =>
    have hwhole : d :: rest = cs := hpart.eq_of_length (Nat.le_antisymm hpart.length_le (by simp; omega))
    exact .inl (hwhole ▸ hdone hpart halong)

lemma brings_of_refused (h : s.document.AtRest) {c : Call} {length : Nat} {t : Text} {map : OffsetMap}
    (hperform : c.perform s = doing (Document.replaceWithMap offset length t map) s)
    (hnot : ¬ s.document.Admissible offset length t map) (after : Text) (lies : Segment) :
    c.Brings s seg after lies := by
  obtain ⟨e, hrun⟩ := h.runs_replaceWithMap_refused hnot
  rw [doing, acting_eq, hrun] at hperform
  rw [Brings, hperform]
  refine ⟨fun reply hok => ?_, .inr ⟨rfl, rfl⟩⟩
  cases hok

lemma brings_insert (hrest : s.document.AtRest) (h : s.document.Sturdy)
    (htracks : s.document.anchors.Tracks seg first last) {c : Call} {t : Text} {keeps before : Bool}
    (hword : s.document.text.length + t.length < UInt64.size)
    (hperform : c.perform s = doing (Document.replaceWithMap offset 0 t [⟨offset, 0, t.length, keeps, before⟩]) s)
    (hasks : c.asks s.document =
      some (edits s.document.text offset 0 t [⟨offset, 0, t.length, keeps, before⟩])) :
    c.Brings s seg (s.document.text.splice offset 0 t) ⟨if offset < first then first + t.length else first,
      if first ≤ offset ∧ offset ≤ last then last - first + t.length else last - first⟩ := by
  obtain ⟨hfirst, hlast⟩ := h.tracks_le htracks
  by_cases hadmissible : s.document.Admissible offset 0 t [⟨offset, 0, t.length, keeps, before⟩]
  case neg => exact brings_of_refused hrest hperform hadmissible _ _
  have hoffset : offset ≤ s.document.text.length := hrest.textLength_eq_length ▸ hadmissible.1
  rw [edits] at hasks
  split at hasks
  case isTrue hempty =>
    obtain ⟨-, rfl⟩ := hempty
    have hbrings := brings_of_asks h htracks hasks (by simp) fun _ => trivial
    simpa [Text.splice_nil, Segment.ofRange, ChangeGroup.newOffset, Change.applyAll] using hbrings
  case isFalse =>
    have hexact : OffsetStep.Exact offset (s.document.text.length - offset) offset
        ⟨offset, 0, t.length, keeps, before⟩ := ⟨Nat.le_refl _, Nat.le_refl _, by omega, by dsimp only; omega⟩
    have hbrings := brings_of_asks h htracks hasks (by simp) fun _ => ⟨⟨hexact, rfl⟩, trivial⟩
    have hfirst' : first ≤ offset + (s.document.text.length - offset) := by omega
    have hlast' : last ≤ offset + (s.document.text.length - offset) := by omega
    have hlies := hexact.ofRange_insertion hfirst' hlast' rfl
    rw [← hlies]
    exact hbrings

lemma brings_remove (hrest : s.document.AtRest) (h : s.document.Sturdy)
    (htracks : s.document.anchors.Tracks seg first last) (hword : s.document.text.length < UInt64.size)
    (offset length : Nat) :
    (remove offset length).Brings s seg (s.document.text.splice offset length [])
      ⟨first - (min (offset + length) first - offset),
        last - first - (min (offset + length) last - max offset first)⟩ := by
  obtain ⟨hfirst, hlast⟩ := h.tracks_le htracks
  by_cases hadmissible : s.document.Admissible offset length [] (ChangeMapping.normal.offsetMap offset length 0)
  case neg => exact brings_of_refused hrest (by rw [perform]; rfl) hadmissible _ _
  have hrange : offset + length ≤ s.document.text.length := hrest.textLength_eq_length ▸ hadmissible.1
  have hasks : (remove offset length).asks s.document = some (edits s.document.text offset length []
    (ChangeMapping.normal.offsetMap offset length 0)) := rfl
  rw [edits] at hasks
  split at hasks
  case isTrue hempty =>
    obtain ⟨rfl, -⟩ := hempty
    have hbrings := brings_of_asks h htracks hasks (by simp) fun _ => trivial
    have hlies : Segment.ofRange first last = ⟨first - (min (offset + 0) first - offset),
        last - first - (min (offset + 0) last - max offset first)⟩ := by
      rw [Segment.ofRange, Segment.mk.injEq]
      omega
    rw [← hlies, Text.splice_nil]
    exact hbrings
  case isFalse =>
    have hremoved : ((s.document.text.drop offset).take length).length = length := by
      rw [List.length_take, List.length_drop]
      omega
    have hexact : (OffsetStep.plain offset length 0).Exact offset
        (s.document.text.length - (offset + length)) (offset + length) :=
      OffsetStep.exact_plain hrange hword (by omega)
    have hbrings := brings_of_asks h htracks hasks (by simp) fun _ => by
      refine ⟨?_, trivial⟩
      rw [Change.ExactOn, Change.Exact, hremoved]
      exact ⟨hexact, by dsimp only [OffsetStep.plain, OffsetMap.Exact, List.length_nil]; omega⟩
    have hfirst' : first ≤ offset + length + (s.document.text.length - (offset + length)) := by omega
    have hlast' : last ≤ offset + length + (s.document.text.length - (offset + length)) := by omega
    have hlies := hexact.ofRange_removal hfirst' hlast' rfl
    dsimp only [OffsetStep.plain] at hlies
    have htext : s.document.text.splice offset length [] = Change.applyAll
        [⟨offset, (s.document.text.drop offset).take length, [],
          ChangeMapping.normal.offsetMap offset length 0⟩] s.document.text := by
      change _ = s.document.text.splice offset ((s.document.text.drop offset).take length).length []
      rw [hremoved]
    rw [← hlies, htext]
    exact hbrings

end Call

namespace Document

inductive Later (seg : AnchorSegment) (start : Document) : Document → Prop
  | refl : Later seg start start
  | call {s : Session} {c : Call} (h : Later seg start s.document) (hc : c.Spares seg) :
    Later seg start (c.perform s).state.document
  | unwind {doc : Document} (h : Later seg start doc) : Later seg start doc.closeSilently
  | drive {doc : Document} (h : Later seg start doc) {history : History}
    (hh : ∀ c, history.Holds c → doc.history.Holds c ∨ c.Built) : Later seg start { doc with history }

namespace Later

variable {start doc : Document}

lemma reachable {t : Text} {options : DocumentOptions} (h : Later seg start doc)
    (hstart : Reachable t options start) : Reachable t options doc := by
  induction h with
  | refl => exact hstart
  | call _ _ ih => exact ih.call _
  | unwind _ ih => exact ih.unwind
  | drive _ hh ih => exact ih.drive hh

lemma led (h : Later seg start doc) (hstart : start.Sturdy) (htracks : start.anchors.Tracks seg first last) :
    Led start (Move.SparesEnds seg) doc := by
  induction h with
  | refl => exact ⟨[], ⟨hstart, .refl⟩, by simp⟩
  | call _ hc ih => exact Call.sparing_perform hstart htracks ih hc
  | unwind _ ih => exact material_sparing.inert.upkeep.closeSilently ih
  | drive _ hh ih =>
    refine material_sparing.still ih rfl (History.ofChanges_of_holds fun c hc => ?_)
    rcases hh c hc with hold | hbuilt
    · exact ih.sturdy.balanced.of_holds hold
    · exact hbuilt.balanced

end Later

end Document

end EditableText
