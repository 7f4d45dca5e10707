import EditableText.Anchor.Segment
import EditableText.Proofs.Except
import Mathlib.Data.List.Basic

namespace EditableText

namespace AnchorTable

def Within (table : AnchorTable) (textLength : Nat) : Prop :=
  ∀ slot ∈ table.slots.toList, slot.state = .live → slot.offset ≤ textLength

def liveSlots (table : AnchorTable) : Nat := table.slots.countP (·.state = .live)

variable {table after : AnchorTable} {id : AnchorId} {n : Nat}

lemma within_empty (n : Nat) : empty.Within n := by simp [Within, empty]

lemma slot_eq_ok {slot : AnchorSlot} (h : table.slot id = .ok slot) :
    table.slots[id.index.toNat]? = some slot ∧ slot.generation = id.generation ∧ slot.state ≠ .free := by
  rw [AnchorTable.slot] at h
  split at h
  case h_1 found hfound =>
    split at h
    case isTrue hstate =>
      obtain rfl : found = slot := by simpa using h
      exact ⟨hfound, hstate⟩
    case isFalse => simp at h
  case h_2 => simp at h

lemma modify_eq_ok {f : AnchorSlot → AnchorSlot} (h : table.modify id f = .ok after) :
    ∃ slot, table.slot id = .ok slot ∧
      after = { table with slots := table.slots.setIfInBounds id.index.toNat (f slot) } := by
  obtain ⟨slot, hslot, hok⟩ := exists_of_bind_eq_ok h
  exact ⟨slot, hslot, (Except.ok.inj hok).symm⟩

lemma release_eq_ok (h : table.release id = .ok after) :
    ∃ slot, table.slot id = .ok slot ∧
      after.slots = table.slots.setIfInBounds id.index.toNat
        { slot with state := .free, generation := slot.generation + 1 } := by
  obtain ⟨slot, hslot, hok⟩ := exists_of_bind_eq_ok h
  exact ⟨slot, hslot, by rw [← Except.ok.inj hok]⟩

lemma create_eq (table : AnchorTable) (offset : Nat) (movement : AnchorMovement) (survives : Bool) :
    ∃ index slot, (table.create offset movement survives).1 = idAt index slot ∧
      slot.offset = offset ∧ slot.state = .live ∧
      ((table.create offset movement survives).2.slots = table.slots.setIfInBounds index slot ∨
        index = table.slots.size ∧
          (table.create offset movement survives).2.slots = table.slots.push slot) := by
  rw [create]
  split
  case h_1 index released h => exact ⟨index, _, rfl, rfl, rfl, .inl rfl⟩
  case h_2 h => exact ⟨table.slots.size, _, rfl, rfl, rfl, .inr ⟨rfl, rfl⟩⟩

lemma exists_slot_of_mem_live {a : Anchor} (h : a ∈ table.live) :
    ∃ slot ∈ table.slots.toList, slot.state = .live ∧ a.offset = slot.offset := by
  obtain ⟨⟨slot, index⟩, hslot, hsome⟩ := List.mem_filterMap.mp h
  refine ⟨slot, List.fst_mem_of_mem_zipIdx hslot, ?_⟩
  dsimp only at hsome
  split at hsome
  case isTrue hlive =>
    obtain rfl := Option.some.inj hsome
    exact ⟨hlive, rfl⟩
  case isFalse => cases hsome

namespace Within

lemma of_mem_live (h : table.Within n) {a : Anchor} (ha : a ∈ table.live) : a.offset ≤ n := by
  obtain ⟨slot, hslot, hlive, hoffset⟩ := exists_slot_of_mem_live ha
  exact hoffset ▸ h slot hslot hlive

lemma setIfInBounds (h : table.Within n) {index : Nat} {slot : AnchorSlot}
    (hslot : slot.state = .live → slot.offset ≤ n)
    (hafter : after.slots = table.slots.setIfInBounds index slot) : after.Within n := by
  intro other hmem hlive
  rw [hafter, Array.toList_setIfInBounds] at hmem
  rcases List.mem_or_eq_of_mem_set hmem with hold | rfl
  · exact h other hold hlive
  · exact hslot hlive

lemma create (h : table.Within n) {offset : Nat} (ho : offset ≤ n) (movement : AnchorMovement)
    (survives : Bool) : (table.create offset movement survives).2.Within n := by
  obtain ⟨index, slot, -, hoffset, -, hset | ⟨-, hpush⟩⟩ := create_eq table offset movement survives
  · exact h.setIfInBounds (fun _ => hoffset.symm ▸ ho) hset
  · intro other hmem hlive
    rw [hpush, Array.toList_push, List.mem_append, List.mem_singleton] at hmem
    rcases hmem with hold | rfl
    · exact h other hold hlive
    · exact hoffset.symm ▸ ho

lemma offset_le (h : table.Within n) {slot : AnchorSlot} (hslot : table.slot id = .ok slot) :
    slot.state = .live → slot.offset ≤ n := by
  obtain ⟨hget, -⟩ := slot_eq_ok hslot
  obtain ⟨hlt, rfl⟩ := Array.getElem?_eq_some_iff.mp hget
  exact h _ (Array.getElem_mem_toList hlt)

lemma modify (h : table.Within n) {f : AnchorSlot → AnchorSlot}
    (hoffset : ∀ slot, (f slot).offset = slot.offset) (hstate : ∀ slot, (f slot).state = slot.state)
    (hafter : table.modify id f = .ok after) : after.Within n := by
  obtain ⟨slot, hslot, rfl⟩ := modify_eq_ok hafter
  have hslot' : (f slot).state = .live → (f slot).offset ≤ n := by
    rw [hoffset, hstate]
    exact h.offset_le hslot
  exact h.setIfInBounds hslot' rfl

lemma setMovement (h : table.Within n) {movement : AnchorMovement}
    (hafter : table.setMovement id movement = .ok after) : after.Within n :=
  h.modify (f := fun slot => { slot with movement }) (fun _ => rfl) (fun _ => rfl) hafter

lemma setSurvivesDeletion (h : table.Within n) {survives : Bool}
    (hafter : table.setSurvivesDeletion id survives = .ok after) : after.Within n :=
  h.modify (f := fun slot => { slot with survivesDeletion := survives }) (fun _ => rfl) (fun _ => rfl)
    hafter

lemma release (h : table.Within n) (hafter : table.release id = .ok after) : after.Within n := by
  obtain ⟨slot, -, hslots⟩ := release_eq_ok hafter
  exact h.setIfInBounds (by simp) hslots

lemma follow (h : table.Within n) {map : OffsetMap} {textLength : Nat} (hmap : map = [] → textLength = n) :
    (table.follow map textLength).2.Within textLength := by
  rw [AnchorTable.follow]
  split
  case isTrue hempty =>
    rw [hmap (List.isEmpty_iff.mp hempty)]
    exact h
  case isFalse =>
    intro slot hmem hlive
    simp only [Array.toList_map, List.mem_map] at hmem
    obtain ⟨old, hold, rfl⟩ := hmem
    rw [AnchorSlot.follow] at hlive ⊢
    split
    · exact Nat.min_le_right _ _
    · next hstate => rw [if_neg hstate] at hlive; exact absurd hlive hstate

lemma createSegment (h : table.Within n) {s : Segment} (hs : s.offset + s.length ≤ n) (survives : Bool) :
    (AnchorSegment.create table s survives).2.Within n :=
  (h.create (Nat.le_trans (Nat.le_add_right _ _) hs) _ survives).create
    (Nat.le_trans (Word.add_le _ _) hs) _ survives

lemma releaseSegment (h : table.Within n) (s : AnchorSegment) : (s.release table).2.Within n := by
  rw [AnchorSegment.release]
  cases hstart : table.release s.start with
  | error e => exact h
  | ok started =>
    have hstarted := h.release hstart
    cases hstop : started.release s.stop with
    | error e => simpa [hstop] using hstarted
    | ok released => simpa [hstop] using hstarted.release hstop

end Within

end AnchorTable

end EditableText
