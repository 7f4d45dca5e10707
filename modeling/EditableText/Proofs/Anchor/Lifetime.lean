import EditableText.Proofs.Anchor.Following

namespace EditableText

namespace AnchorTable

structure Tidy (table : AnchorTable) : Prop where
  nodup : table.released.Nodup
  free : ∀ index ∈ table.released, ∃ slot, table.slots[index]? = some slot ∧ slot.state = .free
  counted : table.liveCount = table.liveSlots

variable {table after : AnchorTable} {id other : AnchorId} {slot : AnchorSlot} {offset n : Nat}
  {movement : AnchorMovement} {survives : Bool}

lemma slot_eq_ok_iff : table.slot id = .ok slot ↔
    table.slots[id.index.toNat]? = some slot ∧ slot.generation = id.generation ∧ slot.state ≠ .free := by
  refine ⟨slot_eq_ok, fun ⟨hget, hgeneration, hfree⟩ => ?_⟩
  rw [AnchorTable.slot, hget]
  exact if_pos ⟨hgeneration, hfree⟩

lemma get_eq_ok {a : Anchor} (h : table.get id = .ok a) : ∃ slot, table.slot id = .ok slot ∧
    a = ⟨id, slot.offset, slot.movement, slot.survivesDeletion, slot.state = .deleted⟩ := by
  obtain ⟨slot, hslot, hok⟩ := exists_of_bind_eq_ok h
  exact ⟨slot, hslot, (Except.ok.inj hok).symm⟩

lemma get_of_slot (h : table.slot id = .ok slot) :
    table.get id = .ok ⟨id, slot.offset, slot.movement, slot.survivesDeletion, slot.state = .deleted⟩ := by
  rw [AnchorTable.get, h]
  rfl

lemma get_congr (h : after.slot id = table.slot id) : after.get id = table.get id := by
  rw [get, get, h]

lemma modify_of_slot (h : table.slot id = .ok slot) (f : AnchorSlot → AnchorSlot) :
    table.modify id f = .ok { table with slots := table.slots.setIfInBounds id.index.toNat (f slot) } := by
  rw [modify, h]
  rfl

lemma size_modify (table : AnchorTable) (id : AnchorId) (f : AnchorSlot → AnchorSlot) :
    ((table.modify id f).toOption.getD table).slots.size = table.slots.size := by
  cases hok : table.modify id f with
  | error e => rfl
  | ok after =>
    obtain ⟨slot, -, rfl⟩ := modify_eq_ok hok
    exact Array.size_setIfInBounds

lemma size_follow (table : AnchorTable) (map : OffsetMap) (textLength : Nat) :
    (table.follow map textLength).2.slots.size = table.slots.size := by
  rw [follow]
  split
  · rfl
  · exact Array.size_map

lemma release_of_slot (h : table.slot id = .ok slot) : table.release id =
    .ok ⟨table.slots.setIfInBounds id.index.toNat
      { slot with state := .free, generation := slot.generation + 1 }, id.index.toNat :: table.released,
      if slot.state = .live then table.liveCount - 1 else table.liveCount⟩ := by
  rw [release, h]
  rfl

def Refuses (table : AnchorTable) (id : AnchorId) : Prop :=
  table.get id = .error (.staleAnchor id) ∧ table.offset id = .error (.staleAnchor id) ∧
    table.isDeleted id = .error (.staleAnchor id) ∧ table.release id = .error (.staleAnchor id) ∧
    (∀ movement, table.setMovement id movement = .error (.staleAnchor id)) ∧
    ∀ survives, table.setSurvivesDeletion id survives = .error (.staleAnchor id)

lemma modify_of_refused (h : table.slot id = .error (.staleAnchor id)) (f : AnchorSlot → AnchorSlot) :
    table.modify id f = .error (.staleAnchor id) := by
  rw [modify, h]
  rfl

lemma refuses_of_slot (h : table.slot id = .error (.staleAnchor id)) : table.Refuses id := by
  refine ⟨?_, ?_, ?_, ?_, fun _ => modify_of_refused h _, fun _ => modify_of_refused h _⟩
  · rw [get, h]
    rfl
  · rw [offset, h]
    rfl
  · rw [isDeleted, h]
    rfl
  · rw [release, h]
    rfl

lemma id_eq_of_slot {otherSlot : AnchorSlot} (h : table.slot id = .ok slot)
    (hother : table.slot other = .ok otherSlot) (hindex : other.index.toNat = id.index.toNat) : other = id := by
  obtain ⟨hget, hgeneration, -⟩ := slot_eq_ok h
  obtain ⟨hget', hgeneration', -⟩ := slot_eq_ok hother
  rw [hindex, hget] at hget'
  obtain rfl := Option.some.inj hget'
  obtain ⟨index, generation⟩ := id
  obtain ⟨index', generation'⟩ := other
  obtain rfl : index' = index := UInt32.toNat_inj.mp hindex
  exact congrArg (AnchorId.mk index') (hgeneration'.symm.trans hgeneration)

lemma slot_set_of_ne {otherSlot fresh : AnchorSlot} (h : table.slot id = .ok slot)
    (hother : table.slot other = .ok otherSlot) (hne : other ≠ id)
    (hafter : after.slots = table.slots.setIfInBounds other.index.toNat fresh) : after.slot id = .ok slot := by
  obtain ⟨hget, hrest⟩ := slot_eq_ok h
  refine slot_eq_ok_iff.mpr ⟨?_, hrest⟩
  rw [hafter, Array.getElem?_setIfInBounds_ne fun hindex => hne (id_eq_of_slot h hother hindex), hget]

lemma slot_modify {f : AnchorSlot → AnchorSlot} (h : table.slot id = .ok slot)
    (hafter : table.modify other f = .ok after) (hstate : ∀ slot, (f slot).state = slot.state)
    (hgeneration : ∀ slot, (f slot).generation = slot.generation) :
    after.slot id = .ok slot ∨ after.slot id = .ok (f slot) := by
  obtain ⟨otherSlot, hother, rfl⟩ := modify_eq_ok hafter
  by_cases hid : other = id
  · subst hid
    obtain rfl := Except.ok.inj (hother.symm.trans h)
    obtain ⟨hget, hgen, hfree⟩ := slot_eq_ok h
    obtain ⟨hlt, -⟩ := Array.getElem?_eq_some_iff.mp hget
    refine .inr (slot_eq_ok_iff.mpr ⟨?_, by rw [hgeneration, hgen], by rwa [hstate]⟩)
    exact Array.getElem?_setIfInBounds_self_of_lt hlt
  · exact .inl (slot_set_of_ne h hother hid rfl)

lemma get_modify {a : Anchor} {f : AnchorSlot → AnchorSlot} (h : table.get id = .ok a)
    (hafter : table.modify other f = .ok after)
    (hf : other = id → ∀ slot, table.slot id = .ok slot → f slot = slot) : after.get id = .ok a := by
  obtain ⟨slot, hslot, -⟩ := get_eq_ok h
  refine (get_congr ?_).trans h
  obtain ⟨otherSlot, hother, rfl⟩ := modify_eq_ok hafter
  rw [hslot]
  by_cases hid : other = id
  · subst hid
    obtain rfl := Except.ok.inj (hother.symm.trans hslot)
    obtain ⟨hget, hrest⟩ := slot_eq_ok hslot
    refine slot_eq_ok_iff.mpr ⟨?_, hrest⟩
    rw [hf rfl _ hslot]
    exact Array.getElem?_setIfInBounds_self_of_lt (Array.getElem?_eq_some_iff.mp hget).1
  · exact slot_set_of_ne hslot hother hid rfl

lemma slot_release_of_ne (h : table.slot id = .ok slot) (hafter : table.release other = .ok after)
    (hne : other ≠ id) : after.slot id = .ok slot := by
  obtain ⟨otherSlot, hother, hslots⟩ := release_eq_ok hafter
  exact slot_set_of_ne h hother hne hslots

lemma slot_follow_eq_map {map : OffsetMap} (hmap : map.isEmpty = false) :
    (table.follow map n).2.slot id = (table.slot id).map (·.follow map n) := by
  rw [follow, if_neg (by simp [hmap]), AnchorTable.slot, AnchorTable.slot, Array.getElem?_map]
  cases table.slots[id.index.toNat]? with
  | none => rfl
  | some slot =>
    simp only [Option.map_some, follow_generation, ne_eq, slot.follow_free_iff map n]
    split <;> rfl

lemma slot_follow (hslot : table.slot id = .ok slot) {map : OffsetMap} (hmap : map.isEmpty = false) :
    (table.follow map n).2.slot id = .ok (slot.follow map n) := by
  rw [slot_follow_eq_map hmap, hslot]
  rfl

lemma live_of_slot (hslot : table.slot id = .ok slot) (hdeleted : decide (slot.state = .deleted) = false) :
    slot.state = .live := by
  have hfree := (slot_eq_ok hslot).2.2
  cases hstate : slot.state <;> simp [hstate] at hfree hdeleted ⊢

lemma get_release_of_ne {a : Anchor} (h : table.get id = .ok a) (hafter : table.release other = .ok after)
    (hne : other ≠ id) : after.get id = .ok a := by
  obtain ⟨slot, hslot, -⟩ := get_eq_ok h
  exact (get_congr ((slot_release_of_ne hslot hafter hne).trans hslot.symm)).trans h

lemma liveSlots_setIfInBounds (hslot : table.slot id = .ok slot) {fresh : AnchorSlot}
    (hslots : after.slots = table.slots.setIfInBounds id.index.toNat fresh) :
    after.liveSlots + [slot].countP (·.state = .live) = table.liveSlots + [fresh].countP (·.state = .live) := by
  obtain ⟨hlt, rfl⟩ := Array.getElem?_eq_some_iff.mp (slot_eq_ok hslot).1
  have hpos : table.slots[id.index.toNat].state = .live → 0 < table.slots.countP (·.state = .live) := fun hlive =>
    Array.countP_pos_iff.mpr ⟨_, Array.getElem_mem hlt, by simpa using hlive⟩
  rw [liveSlots, liveSlots, hslots, Array.setIfInBounds, dif_pos hlt, Array.countP_set, List.countP_singleton,
    List.countP_singleton]
  by_cases hlive : table.slots[id.index.toNat].state = .live
  · have hsome := hpos hlive
    simp [hlive]
    omega
  · simp [hlive]

lemma liveSlots_release (h : table.release id = .ok after) (hslot : table.slot id = .ok slot) :
    after.liveSlots + [slot].countP (·.state = .live) = table.liveSlots := by
  rw [release_of_slot hslot] at h
  exact liveSlots_setIfInBounds hslot (congrArg AnchorTable.slots (Except.ok.inj h)).symm

lemma liveCount_release (h : table.release id = .ok after) (hslot : table.slot id = .ok slot) :
    after.liveCount = table.liveCount - [slot].countP (·.state = .live) := by
  rw [release_of_slot hslot] at h
  rw [← Except.ok.inj h, List.countP_singleton]
  by_cases hlive : slot.state = .live <;> simp [hlive]

namespace Tidy

lemma empty : Tidy AnchorTable.empty := ⟨List.nodup_nil, by simp [AnchorTable.empty], rfl⟩

lemma slot_create (ht : table.Tidy) (h : table.slot id = .ok slot) :
    (table.create offset movement survives).2.slot id = .ok slot := by
  obtain ⟨hget, hrest⟩ := slot_eq_ok h
  refine slot_eq_ok_iff.mpr ⟨?_, hrest⟩
  rw [create]
  split
  case h_1 index released hreleased =>
    obtain ⟨freed, hfreed, hfree⟩ := ht.free index (by simp [hreleased])
    have hne : index ≠ id.index.toNat := by
      rintro rfl
      obtain rfl := Option.some.inj (hget.symm.trans hfreed)
      exact hrest.2 hfree
    exact (Array.getElem?_setIfInBounds_ne hne).trans hget
  case h_2 =>
    obtain ⟨hlt, -⟩ := Array.getElem?_eq_some_iff.mp hget
    exact ((Array.getElem?_push_lt hlt).trans (Array.getElem?_eq_getElem hlt).symm).trans hget

lemma get_create {a : Anchor} (ht : table.Tidy) (h : table.get id = .ok a) :
    (table.create offset movement survives).2.get id = .ok a := by
  obtain ⟨slot, hslot, -⟩ := get_eq_ok h
  exact (get_congr ((ht.slot_create hslot).trans hslot.symm)).trans h

lemma create (ht : table.Tidy) : (table.create offset movement survives).2.Tidy := by
  rw [AnchorTable.create]
  split
  case h_1 index released hreleased =>
    have hnodup := ht.nodup
    rw [hreleased, List.nodup_cons] at hnodup
    obtain ⟨freed, hfreed, hfree⟩ := ht.free index (by simp [hreleased])
    refine ⟨hnodup.2, fun i hi => ?_, ?_⟩
    · obtain ⟨freed, hfreed, hfree⟩ := ht.free i (by simp [hreleased, hi])
      have hne : index ≠ i := fun hne => hnodup.1 (hne ▸ hi)
      exact ⟨freed, (Array.getElem?_setIfInBounds_ne hne).trans hfreed, hfree⟩
    · obtain ⟨hlt, rfl⟩ := Array.getElem?_eq_some_iff.mp hfreed
      dsimp only
      rw [ht.counted, liveSlots, liveSlots, Array.setIfInBounds, dif_pos hlt, Array.countP_set]
      simp [hfree]
  case h_2 =>
    refine ⟨List.nodup_nil, by simp, ?_⟩
    dsimp only
    rw [ht.counted, liveSlots, liveSlots, Array.countP_push]
    rfl

lemma modify (ht : table.Tidy) {f : AnchorSlot → AnchorSlot} (hf : ∀ slot, (f slot).state = slot.state)
    (hafter : table.modify id f = .ok after) : after.Tidy := by
  obtain ⟨slot, hslot, rfl⟩ := modify_eq_ok hafter
  obtain ⟨hget, -, hnot⟩ := slot_eq_ok hslot
  refine ⟨ht.nodup, fun i hi => ?_, ?_⟩
  · obtain ⟨freed, hfreed, hfree⟩ := ht.free i hi
    have hne : id.index.toNat ≠ i := by
      rintro rfl
      obtain rfl := Option.some.inj (hget.symm.trans hfreed)
      exact hnot hfree
    exact ⟨freed, (Array.getElem?_setIfInBounds_ne hne).trans hfreed, hfree⟩
  · let after : AnchorTable := { table with slots := table.slots.setIfInBounds id.index.toNat (f slot) }
    have hsame : after.liveSlots + [slot].countP (·.state = .live) =
        table.liveSlots + [f slot].countP (·.state = .live) := liveSlots_setIfInBounds hslot rfl
    rw [List.countP_singleton, List.countP_singleton, hf] at hsame
    exact ht.counted.trans (Nat.add_right_cancel hsame).symm

lemma release (ht : table.Tidy) (hafter : table.release id = .ok after) : after.Tidy := by
  obtain ⟨slot, hslot, -⟩ := release_eq_ok hafter
  have hcounted : after.liveCount = after.liveSlots := by
    rw [liveCount_release hafter hslot, ht.counted, ← liveSlots_release hafter hslot, Nat.add_sub_cancel]
  obtain rfl := Except.ok.inj ((release_of_slot hslot).symm.trans hafter)
  obtain ⟨hget, -, hnot⟩ := slot_eq_ok hslot
  obtain ⟨hlt, -⟩ := Array.getElem?_eq_some_iff.mp hget
  have hunlisted : id.index.toNat ∉ table.released := fun hmem => by
    obtain ⟨other, hother, hfree⟩ := ht.free _ hmem
    obtain rfl := Option.some.inj (hget.symm.trans hother)
    exact hnot hfree
  refine ⟨List.nodup_cons.mpr ⟨hunlisted, ht.nodup⟩, fun i hi => ?_, hcounted⟩
  rcases List.mem_cons.mp hi with rfl | hold
  · exact ⟨_, Array.getElem?_setIfInBounds_self_of_lt hlt, rfl⟩
  · obtain ⟨freed, hfreed, hfree⟩ := ht.free i hold
    have hne : id.index.toNat ≠ i := fun heq => hunlisted (heq ▸ hold)
    exact ⟨freed, (Array.getElem?_setIfInBounds_ne hne).trans hfreed, hfree⟩

lemma follow (ht : table.Tidy) (map : OffsetMap) (textLength : Nat) : (table.follow map textLength).2.Tidy := by
  refine ⟨(follow_released table map textLength).symm ▸ ht.nodup, fun i hi => ?_, ?_⟩
  · obtain ⟨freed, hfreed, hfree⟩ := ht.free i (follow_released table map textLength ▸ hi)
    rw [AnchorTable.follow]
    split
    · exact ⟨freed, hfreed, hfree⟩
    · refine ⟨freed.follow map textLength, ?_, (freed.follow_free_iff map textLength).mpr hfree⟩
      rw [Array.getElem?_map, hfreed]
      rfl
  · rw [AnchorTable.liveCount_follow, ht.counted, ← liveSlots_follow table map textLength, Nat.add_sub_cancel]

lemma liveCount_follow (ht : table.Tidy) (map : OffsetMap) (textLength : Nat) :
    (table.follow map textLength).2.liveCount + (table.follow map textLength).1.length = table.liveCount := by
  rw [(ht.follow map textLength).counted, ht.counted, liveSlots_follow]

end Tidy

lemma create_spec (ht : table.Tidy) (offset : Nat) (movement : AnchorMovement) (survives : Bool) :
    ∃ index generation, (table.create offset movement survives).1 = ⟨index.toUInt32, generation⟩ ∧
      (∀ i, (table.create offset movement survives).2.slots[i]? =
        if i = index then some ⟨offset, movement, survives, generation, .live⟩ else table.slots[i]?) ∧
      (∀ i, i ∈ (table.create offset movement survives).2.released ↔ i ∈ table.released ∧ i ≠ index) ∧
      (((table.create offset movement survives).2.slots.size = table.slots.size ∧
          ∃ freed, table.slots[index]? = some freed ∧ freed.state = .free ∧ freed.generation = generation) ∨
        (table.create offset movement survives).2.slots.size = table.slots.size + 1 ∧
          index = table.slots.size ∧ generation = 0 ∧ table.released = []) := by
  rw [create]
  split
  case h_1 index released hreleased =>
    obtain ⟨freed, hfreed, hfree⟩ := ht.free index (by simp [hreleased])
    have hnodup := ht.nodup
    rw [hreleased, List.nodup_cons] at hnodup
    have hlt := (Array.getElem?_eq_some_iff.mp hfreed).1
    refine ⟨index, freed.generation, by simp [idAt, hfreed], fun i => ?_, fun i => ?_,
      .inl ⟨by simp, freed, hfreed, hfree, rfl⟩⟩
    · simp only [hfreed, Array.getElem?_setIfInBounds, hlt, eq_comm, if_true, Option.map_some, Option.getD_some]
    · simp only [List.mem_cons, hreleased]
      constructor
      · intro hi
        exact ⟨.inr hi, fun heq => hnodup.1 (heq ▸ hi)⟩
      · rintro ⟨rfl | hi, hne⟩
        · exact absurd rfl hne
        · exact hi
  case h_2 hreleased =>
    refine ⟨table.slots.size, 0, rfl, fun i => ?_, by simp [hreleased], .inr ⟨by simp, rfl, rfl, hreleased⟩⟩
    rw [Array.getElem?_push]

lemma capacity_create_le (table : AnchorTable) (offset : Nat) (movement : AnchorMovement) (survives : Bool) :
    table.capacity ≤ (table.create offset movement survives).2.capacity := by
  obtain ⟨index, slot, -, -, -, hset | ⟨-, hpush⟩⟩ := create_eq table offset movement survives
  · exact Nat.le_of_eq ((congrArg Array.size hset).trans Array.size_setIfInBounds).symm
  · rw [capacity, capacity, hpush, Array.size_push]
    exact Nat.le_succ _

lemma get_create_self (ht : table.Tidy) (offset : Nat) (movement : AnchorMovement) (survives : Bool)
    (hsize : (table.create offset movement survives).2.capacity ≤ UInt32.size) :
    (table.create offset movement survives).2.get (table.create offset movement survives).1 =
      .ok ⟨(table.create offset movement survives).1, offset, movement, survives, false⟩ := by
  obtain ⟨index, generation, hid, hslots, -⟩ := create_spec ht offset movement survives
  have hget := (hslots index).trans (if_pos rfl)
  have hlt : index < UInt32.size := Nat.lt_of_lt_of_le (Array.getElem?_eq_some_iff.mp hget).1 hsize
  have hslot : (table.create offset movement survives).2.slot (table.create offset movement survives).1 =
      .ok ⟨offset, movement, survives, generation, .live⟩ := by
    rw [slot_eq_ok_iff, hid]
    refine ⟨?_, rfl, by simp⟩
    rw [show (Nat.toUInt32 index).toNat = index from UInt32.toNat_ofNat_of_lt hlt]
    exact hget
  exact get_of_slot hslot

end AnchorTable

end EditableText
