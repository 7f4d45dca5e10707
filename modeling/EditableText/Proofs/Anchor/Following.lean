import EditableText.Proofs.Anchor.Deletion
import EditableText.Proofs.Change.Region

namespace EditableText

namespace AnchorSlot

variable {slot after : AnchorSlot} {map : OffsetMap} {movement : AnchorMovement} {survives : Bool}
  {offset textLength : Nat}

/-- A step that may delete anchors takes away the text around the position that the steps before it lead
to. -/
def LostAlong (movement : AnchorMovement) (survives : Bool) (offset : Nat) (map : OffsetMap) : Prop :=
  ∃ before step behind, map = before ++ step :: behind ∧
    step.removesAround (OffsetMap.move before movement offset) = true ∧ survives = false ∧
    step.keepsAnchors = false

lemma lostAlong_nil : ¬ LostAlong movement survives offset [] := by
  rintro ⟨before, step, behind, hmap, -⟩
  simp at hmap

lemma lostAlong_cons {step : OffsetStep} {rest : OffsetMap} :
    LostAlong movement survives offset (step :: rest) ↔
      (step.removesAround offset = true ∧ survives = false ∧ step.keepsAnchors = false) ∨
        LostAlong movement survives (step.move movement offset) rest := by
  constructor
  · rintro ⟨before, other, behind, hmap, hlost⟩
    cases before with
    | nil =>
      obtain ⟨rfl, rfl⟩ := List.cons.inj hmap
      exact .inl hlost
    | cons first before =>
      obtain ⟨rfl, rfl⟩ := List.cons.inj hmap
      exact .inr ⟨before, other, behind, rfl, hlost⟩
  · rintro (hlost | ⟨before, other, behind, rfl, hlost⟩)
    · exact ⟨[], step, rest, rfl, hlost⟩
    · exact ⟨step :: before, other, behind, rfl, hlost⟩

lemma carry_lost_iff : (carry movement survives offset map).2 = true ↔ LostAlong movement survives offset map := by
  induction map generalizing offset with
  | nil => simpa [carry] using lostAlong_nil
  | cons step rest ih =>
    rw [lostAlong_cons, carry]
    split
    case isTrue hlost =>
      simp only [Bool.and_eq_true, Bool.not_eq_true', and_assoc] at hlost
      simp [hlost]
    case isFalse hkept =>
      simp only [Bool.and_eq_true, Bool.not_eq_true', and_assoc] at hkept
      simp [hkept, ih]

lemma carry_of_not_lost (h : ¬ LostAlong movement survives offset map) :
    carry movement survives offset map = (map.move movement offset, false) := by
  induction map generalizing offset with
  | nil => rfl
  | cons step rest ih =>
    rw [lostAlong_cons, not_or] at h
    have hkept : ¬ (step.removesAround offset && !survives && !step.keepsAnchors) = true := by
      simpa only [Bool.and_eq_true, Bool.not_eq_true', and_assoc] using h.1
    rw [carry, if_neg hkept, ih h.2]
    rfl

structure Carried (c : Change) (textLength : Nat) (slot after : AnchorSlot) : Prop where
  lost : slot.state = .live → LostAlong slot.movement slot.survivesDeletion slot.offset c.map →
    after = { slot with offset := after.offset, state := .deleted }
  moved : slot.state = .live → ¬ LostAlong slot.movement slot.survivesDeletion slot.offset c.map →
    after = { slot with offset := min (c.newOffset slot.movement slot.offset) textLength }
  still : slot.state ≠ .live → after = slot

namespace Carried

variable {c : Change}

lemma generation_eq (h : Carried c textLength slot after) : after.generation = slot.generation := by
  by_cases hlive : slot.state = .live
  · by_cases hlost : LostAlong slot.movement slot.survivesDeletion slot.offset c.map
    · rw [h.lost hlive hlost]
    · rw [h.moved hlive hlost]
  · rw [h.still hlive]

lemma free_iff (h : Carried c textLength slot after) : after.state = .free ↔ slot.state = .free := by
  by_cases hlive : slot.state = .live
  · by_cases hlost : LostAlong slot.movement slot.survivesDeletion slot.offset c.map
    · rw [h.lost hlive hlost]
      simp [hlive]
    · rw [h.moved hlive hlost]
  · rw [h.still hlive]

end Carried

variable {c : Change}

lemma follow_of_not_live (h : slot.state ≠ .live) : slot.follow map textLength = slot := by
  rw [follow, if_neg h]

lemma follow_nil (h : slot.state = .live → slot.offset ≤ textLength) : slot.follow [] textLength = slot := by
  by_cases hlive : slot.state = .live
  · rw [follow, if_pos hlive]
    simp only [carry, Nat.min_eq_left (h hlive), Bool.false_eq_true, if_false, ← hlive]
  · exact follow_of_not_live hlive

lemma follow_of_kept (hlive : slot.state = .live)
    (hkept : ¬ LostAlong slot.movement slot.survivesDeletion slot.offset map) :
    slot.follow map textLength = { slot with offset := min (map.move slot.movement slot.offset) textLength } := by
  rw [follow, if_pos hlive, carry_of_not_lost hkept]
  simp [hlive]

lemma carried_follow (c : Change) (textLength : Nat) (slot : AnchorSlot) :
    Carried c textLength slot (slot.follow c.map textLength) := by
  refine ⟨fun hlive hlost => ?_, fun hlive hkept => follow_of_kept hlive hkept, follow_of_not_live⟩
  have hcarry := carry_lost_iff.mpr hlost
  rw [follow, if_pos hlive]
  simp only [hcarry, if_true]

lemma follow_state (slot : AnchorSlot) (map : OffsetMap) (textLength : Nat) (hlive : slot.state = .live) :
    (slot.follow map textLength).state = .live ∨ (slot.follow map textLength).state = .deleted := by
  rw [follow, if_pos hlive]
  dsimp only
  split
  · exact .inr rfl
  · exact .inl rfl

lemma follow_free_iff (slot : AnchorSlot) (map : OffsetMap) (textLength : Nat) :
    (slot.follow map textLength).state = .free ↔ slot.state = .free := by
  by_cases hlive : slot.state = .live
  · rcases slot.follow_state map textLength hlive with hkept | hlost
    · simp [hlive, hkept]
    · simp [hlive, hlost]
  · rw [follow_of_not_live hlive]

lemma not_lostAlong_of_survives (h : survives = true) : ¬ LostAlong movement survives offset map := by
  rintro ⟨_, _, _, _, _, hnot, _⟩
  cases h.symm.trans hnot

lemma not_lostAlong_of_outside {t : Text} (hc : c.ExactOn t) (ho : c.Outside offset)
    (hoffset : offset ≤ t.length) : ¬ LostAlong movement survives offset c.map := by
  rintro ⟨before, step, behind, hmap, haround, -⟩
  rw [OffsetMap.Exact.removesAround_eq_false hc ho (by omega) hmap] at haround
  cases haround

end AnchorSlot

namespace AnchorTable

variable {table : AnchorTable} {map : OffsetMap} {textLength n : Nat} {c : Change}

lemma follow_slots (h : table.Within n) (hmap : map = [] → textLength = n) :
    (table.follow map textLength).2.slots = table.slots.map (·.follow map textLength) := by
  rw [follow]
  split
  case isFalse => rfl
  case isTrue hempty =>
    have hnil := List.isEmpty_iff.mp hempty
    subst hnil
    rw [hmap rfl]
    refine Array.ext_getElem? fun i => ?_
    rw [Array.getElem?_map]
    cases hslot : table.slots[i]? with
    | none => rfl
    | some slot =>
      have hlt := (Array.getElem?_eq_some_iff.mp hslot).1
      have hmem : slot ∈ table.slots.toList := by
        rw [← (Array.getElem?_eq_some_iff.mp hslot).2]
        exact Array.getElem_mem_toList hlt
      exact congrArg some (AnchorSlot.follow_nil (h slot hmem)).symm

lemma follow_released (table : AnchorTable) (map : OffsetMap) (textLength : Nat) :
    (table.follow map textLength).2.released = table.released := by
  rw [follow]
  split <;> rfl

lemma carried_slot (h : table.Within n) (hmap : c.map = [] → textLength = n) {i : Nat} {slot : AnchorSlot}
    (hslot : table.slots[i]? = some slot) :
    ∃ after, (table.follow c.map textLength).2.slots[i]? = some after ∧
      AnchorSlot.Carried c textLength slot after := by
  refine ⟨_, ?_, AnchorSlot.carried_follow c textLength slot⟩
  rw [follow_slots h hmap, Array.getElem?_map, hslot]
  rfl

lemma length_filterMap_zipIdx {α β : Type} (p : α → Prop) [DecidablePred p] (g : Nat → α → β) (l : List α)
    (first : Nat) :
    ((l.zipIdx first).filterMap fun (x, index) => if p x then some (g index x) else none).length =
      l.countP (p ·) := by
  induction l generalizing first with
  | nil => rfl
  | cons x rest ih =>
    rw [List.zipIdx_cons, List.filterMap_cons, List.countP_cons, ← ih (first + 1)]
    by_cases hx : p x <;> simp [hx]

lemma countP_add_countP {α : Type} {p q r : α → Bool} (h : ∀ x, (r x = true ∧ p x = !q x) ∨
    (r x = false ∧ p x = false ∧ q x = false)) (l : List α) : l.countP p + l.countP q = l.countP r := by
  induction l with
  | nil => rfl
  | cons x rest ih =>
    rw [List.countP_cons, List.countP_cons, List.countP_cons, ← ih]
    rcases h x with ⟨hr, hp⟩ | ⟨hr, hp, hq⟩
    · cases hq : q x <;> simp [hr, hp, hq] <;> omega
    · simp [hr, hp, hq]

lemma liveSlots_follow (table : AnchorTable) (map : OffsetMap) (textLength : Nat) :
    (table.follow map textLength).2.liveSlots + (table.follow map textLength).1.length = table.liveSlots := by
  rw [follow]
  split
  case isTrue => rfl
  case isFalse =>
    have hlength : (table.deletedBy map textLength).length = table.slots.toList.countP fun slot =>
        slot.state = .live ∧ (slot.follow map textLength).state = .deleted :=
      length_filterMap_zipIdx
        (fun slot : AnchorSlot => slot.state = .live ∧ (slot.follow map textLength).state = .deleted) idAt _ 0
    rw [liveSlots, liveSlots, ← Array.countP_toList, ← Array.countP_toList, Array.toList_map, List.countP_map,
      hlength]
    refine countP_add_countP (fun slot => ?_) _
    by_cases hlive : slot.state = .live
    · rcases slot.follow_state map textLength hlive with hkept | hlost
      · simp [hlive, hkept]
      · simp [hlive, hlost]
    · simp [hlive, AnchorSlot.follow_of_not_live hlive]

lemma liveCount_follow (table : AnchorTable) (map : OffsetMap) (textLength : Nat) :
    (table.follow map textLength).2.liveCount = table.liveCount - (table.follow map textLength).1.length := by
  rw [follow]
  split <;> rfl

end AnchorTable

end EditableText
