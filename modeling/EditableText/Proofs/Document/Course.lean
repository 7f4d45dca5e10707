import EditableText.Proofs.Anchor.Lifetime
import EditableText.Proofs.Document.Reachable

namespace EditableText

inductive Move where
  | change (c : Change)
  | create (id : AnchorId)
  | release (id : AnchorId)
  | adjust (id : AnchorId)
  deriving DecidableEq

namespace Move

def change? : Move → Option Change
  | change c => some c
  | _ => none

def changes (moves : List Move) : List Change := moves.filterMap change?

lemma changes_append (a b : List Move) : changes (a ++ b) = changes a ++ changes b := List.filterMap_append

lemma changes_map (cs : List Change) : changes (cs.map .change) = cs := by
  induction cs with
  | nil => rfl
  | cons c rest ih =>
    change c :: changes (rest.map .change) = _
    rw [ih]

def Leads : Move → AnchorSlot → AnchorSlot → Prop
  | change c, slot, slot' => ∃ textLength, AnchorSlot.Carried c textLength slot slot'
  | _, slot, slot' => slot'.state = slot.state ∧ slot'.offset = slot.offset

end Move

namespace Document

variable {doc mid after next : Document} {c : Change} {move : Move} {moves moves' : List Move} {id : AnchorId}
  {slot : AnchorSlot} {n : Nat}

def matter (doc : Document) : Storage × LineTable × DocumentOptions × AnchorTable × Nat :=
  (doc.storage, doc.lines, doc.options, doc.anchors, doc.version)

structure Applied (c : Change) (doc after : Document) : Prop where
  balanced : c.Balanced
  inRange : c.offset + c.removed.length ≤ doc.text.length
  text_eq : after.text = c.apply doc.text
  version_eq : after.version = doc.version + 1
  carried : ∀ (index : Nat) (slot : AnchorSlot), doc.anchors.slots[index]? = some slot →
    ∃ slot', after.anchors.slots[index]? = some slot' ∧ AnchorSlot.Carried c after.text.length slot slot'
  /-- The clamp to the text moves no anchor, unless a sum wraps around when the map is checked. -/
  inText : c.Exact 0 → ∀ slot ∈ doc.anchors.slots.toList, slot.state = .live →
    c.newOffset slot.movement slot.offset ≤ after.text.length
  size_eq : after.anchors.slots.size = doc.anchors.slots.size
  released_eq : after.anchors.released = doc.anchors.released
  reported : ∃ deleted next, doc.mutate c = .ok (deleted, next) ∧ next.matter = after.matter ∧
    deleted = doc.anchors.lost after.anchors ∧
    after.anchors.liveCount + deleted.length = doc.anchors.liveCount

inductive Link : Document → Move → Document → Prop
  | change {doc after : Document} {c : Change} (h : Applied c doc after) : Link doc (.change c) after
  | create {doc after : Document} {offset : Nat} {movement : AnchorMovement} {survives : Bool}
    (h : after.matter =
      ({ doc with anchors := (doc.anchors.create offset movement survives).2 } : Document).matter) :
    Link doc (.create (doc.anchors.create offset movement survives).1) after
  | release {doc after : Document} {id : AnchorId} {anchors : AnchorTable}
    (hanchors : doc.anchors.release id = .ok anchors)
    (h : after.matter = ({ doc with anchors } : Document).matter) : Link doc (.release id) after
  | adjust {doc after : Document} {id : AnchorId} {anchors : AnchorTable} {f : AnchorSlot → AnchorSlot}
    (hanchors : doc.anchors.modify id f = .ok anchors)
    (hf : ∀ slot, (f slot).offset = slot.offset ∧ (f slot).state = slot.state ∧
      (f slot).generation = slot.generation)
    (h : after.matter = ({ doc with anchors } : Document).matter) : Link doc (.adjust id) after

/-- One link after the other, and nothing else that matters between them. -/
inductive Course (doc : Document) : List Move → Document → Prop
  | refl : Course doc [] doc
  | still {moves : List Move} {mid after : Document} (h : Course doc moves mid)
    (hmatter : after.matter = mid.matter) : Course doc moves after
  | step {moves : List Move} {mid after : Document} {move : Move} (h : Course doc moves mid)
    (hlink : Link mid move after) : Course doc (moves ++ [move]) after

lemma anchors_eq_of_matter (h : after.matter = doc.matter) : after.anchors = doc.anchors := by
  simp only [matter, Prod.mk.injEq] at h
  exact h.2.2.2.1

lemma text_eq_of_matter (h : after.matter = doc.matter) : after.text = doc.text := by
  simp only [matter, Prod.mk.injEq] at h
  rw [text, text, h.1]

lemma version_eq_of_matter (h : after.matter = doc.matter) : after.version = doc.version := by
  simp only [matter, Prod.mk.injEq] at h
  exact h.2.2.2.2

lemma anchors_of_mutate {deleted : List AnchorId} (h : doc.mutate c = .ok (deleted, next)) :
    ∃ textLength, next.anchors = (doc.anchors.follow c.map textLength).2 := by
  obtain ⟨cut, -, h⟩ := exists_of_bind_eq_ok h
  obtain ⟨storage, -, h⟩ := exists_of_bind_eq_ok h
  obtain ⟨lines, -, h⟩ := exists_of_bind_eq_ok h
  obtain ⟨-, rfl⟩ := Prod.mk.inj (Except.ok.inj h)
  exact ⟨_, rfl⟩

namespace Applied

lemma exists_slot (h : Applied c doc after) (hslot : doc.anchors.slot id = .ok slot) :
    ∃ slot', after.anchors.slot id = .ok slot' ∧ AnchorSlot.Carried c after.text.length slot slot' := by
  obtain ⟨hget, hgeneration, hfree⟩ := AnchorTable.slot_eq_ok hslot
  obtain ⟨slot', hget', hcarried⟩ := h.carried _ _ hget
  refine ⟨slot', AnchorTable.slot_eq_ok_iff.mpr ⟨hget', ?_, ?_⟩, hcarried⟩
  · rw [hcarried.generation_eq, hgeneration]
  · exact hcarried.free_iff.not.mpr hfree

lemma tidy (h : Applied c doc after) (ht : doc.anchors.Tidy) : after.anchors.Tidy := by
  obtain ⟨deleted, next, hmutate, hmatter, -⟩ := h.reported
  obtain ⟨textLength, hanchors⟩ := anchors_of_mutate hmutate
  rw [anchors_eq_of_matter hmatter.symm, hanchors]
  exact ht.follow _ _

end Applied

namespace Link

lemma tidy (h : Link doc move after) (ht : doc.anchors.Tidy) : after.anchors.Tidy := by
  cases h with
  | change happlied => exact happlied.tidy ht
  | create hmatter =>
    rw [anchors_eq_of_matter hmatter]
    exact ht.create
  | release hanchors hmatter =>
    rw [anchors_eq_of_matter hmatter]
    exact ht.release hanchors
  | adjust hanchors hf hmatter =>
    rw [anchors_eq_of_matter hmatter]
    exact ht.modify (fun slot => (hf slot).2.1) hanchors

lemma exists_slot (h : Link doc move after) (ht : doc.anchors.Tidy) (hslot : doc.anchors.slot id = .ok slot)
    (hmove : move ≠ .release id) : ∃ slot', after.anchors.slot id = .ok slot' ∧ move.Leads slot slot' := by
  cases h with
  | change happlied =>
    obtain ⟨slot', hslot', hcarried⟩ := happlied.exists_slot hslot
    exact ⟨slot', hslot', _, hcarried⟩
  | create hmatter =>
    rw [anchors_eq_of_matter hmatter]
    exact ⟨slot, ht.slot_create hslot, rfl, rfl⟩
  | release hanchors hmatter =>
    rw [anchors_eq_of_matter hmatter]
    exact ⟨slot, AnchorTable.slot_release_of_ne hslot hanchors fun hid => hmove (hid ▸ rfl), rfl, rfl⟩
  | adjust hanchors hf hmatter =>
    rw [anchors_eq_of_matter hmatter]
    rcases AnchorTable.slot_modify hslot hanchors (fun slot => (hf slot).2.1) (fun slot => (hf slot).2.2) with
      hsame | hchanged
    · exact ⟨slot, hsame, rfl, rfl⟩
    · exact ⟨_, hchanged, (hf slot).2.1, (hf slot).1⟩

lemma applied (h : Link doc move after) : Change.InRangeAll (Move.changes [move]) doc.text ∧
    after.text = Change.applyAll (Move.changes [move]) doc.text := by
  have hstill : ∀ anchors, after.matter = ({ doc with anchors } : Document).matter → after.text = doc.text := by
    intro anchors hmatter
    rw [text_eq_of_matter hmatter]
    rfl
  cases h with
  | change happlied => exact ⟨⟨happlied.inRange, trivial⟩, happlied.text_eq⟩
  | create hmatter | release _ hmatter | adjust _ _ hmatter => exact ⟨trivial, hstill _ hmatter⟩

lemma version_eq (h : Link doc move after) : after.version = doc.version + (Move.changes [move]).length := by
  have hstill : ∀ anchors, after.matter = ({ doc with anchors } : Document).matter →
      after.version = doc.version := by
    intro anchors hmatter
    rw [version_eq_of_matter hmatter]
  cases h with
  | change happlied => exact happlied.version_eq
  | create hmatter | release _ hmatter | adjust _ _ hmatter => exact hstill _ hmatter

end Link

namespace Course

lemma applied (h : Course doc moves after) : Change.InRangeAll (Move.changes moves) doc.text ∧
    after.text = Change.applyAll (Move.changes moves) doc.text := by
  induction h with
  | refl => exact ⟨trivial, rfl⟩
  | still _ hmatter ih => exact ⟨ih.1, (text_eq_of_matter hmatter).trans ih.2⟩
  | step _ hlink ih =>
    obtain ⟨hrange, htext⟩ := hlink.applied
    obtain ⟨hrange', htext'⟩ := ih
    rw [htext'] at hrange htext
    rw [Move.changes_append, Change.inRange_append, Change.applyAll_append]
    exact ⟨⟨hrange', hrange⟩, htext⟩

lemma version_eq (h : Course doc moves after) : after.version = doc.version + (Move.changes moves).length := by
  induction h with
  | refl => rfl
  | still _ hmatter ih => exact (version_eq_of_matter hmatter).trans ih
  | step _ hlink ih => rw [hlink.version_eq, ih, Move.changes_append, List.length_append, Nat.add_assoc]

lemma tidy (h : Course doc moves after) (ht : doc.anchors.Tidy) : after.anchors.Tidy := by
  induction h with
  | refl => exact ht
  | still _ hmatter ih => exact anchors_eq_of_matter hmatter ▸ ih
  | step _ hlink ih => exact hlink.tidy ih

lemma deleted (h : Course doc moves after) (ht : doc.anchors.Tidy) (hslot : doc.anchors.slot id = .ok slot)
    (hdeleted : slot.state = .deleted) (hmoves : .release id ∉ moves) :
    ∃ slot', after.anchors.slot id = .ok slot' ∧ slot'.state = .deleted ∧ slot'.offset = slot.offset := by
  induction h with
  | refl => exact ⟨slot, hslot, hdeleted, rfl⟩
  | still _ hmatter ih =>
    rw [anchors_eq_of_matter hmatter]
    exact ih hmoves
  | @step moves mid after move hcourse hlink ih =>
    rw [List.mem_append, List.mem_singleton, not_or] at hmoves
    obtain ⟨slot', hslot', hstate, hoffset⟩ := ih hmoves.1
    obtain ⟨slot'', hslot'', hleads⟩ := hlink.exists_slot (hcourse.tidy ht) hslot' fun hmove => hmoves.2 hmove.symm
    refine ⟨slot'', hslot'', ?_⟩
    cases move with
    | change c =>
      obtain ⟨textLength, hcarried⟩ := hleads
      rw [hcarried.still (by simp [hstate])]
      exact ⟨hstate, hoffset⟩
    | create | release | adjust => exact ⟨hleads.1.trans hstate, hleads.2.trans hoffset⟩

end Course

end Document

end EditableText
