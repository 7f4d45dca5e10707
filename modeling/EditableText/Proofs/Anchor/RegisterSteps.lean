import EditableText.Proofs.Anchor.Register

namespace EditableText

structure AnchorTable.Gains (table after : AnchorTable) (index : Nat) (slot : AnchorSlot) : Prop where
  tidy : after.Tidy
  size_le : after.slots.size ≤ UInt32.size
  grows : table.slots.size ≤ after.slots.size
  slots : ∀ i, after.slots[i]? = if i = index then some slot else table.slots[i]?
  released : ∀ i, i ∈ after.released ↔ i ∈ table.released ∧ i ≠ index
  live : slot.state = .live
  vacant : ∀ old, table.slots[index]? = some old → old.state = .free

namespace AnchorTable.Gains

variable {table after : AnchorTable} {index : Nat} {slot old : AnchorSlot} {id : AnchorId}

lemma getElem?_self (h : table.Gains after index slot) : after.slots[index]? = some slot := by
  rw [h.slots, if_pos rfl]

lemma index_lt (h : table.Gains after index slot) : index < after.slots.size :=
  (Array.getElem?_eq_some_iff.mp h.getElem?_self).1

lemma index_toNat (h : table.Gains after index slot) : (idAt index slot).index.toNat = index :=
  UInt32.toNat_ofNat_of_lt (Nat.lt_of_lt_of_le h.index_lt h.size_le)

lemma slot_self (h : table.Gains after index slot) : after.slot (idAt index slot) = .ok slot := by
  rw [slot_eq_ok_iff, h.index_toNat]
  exact ⟨h.getElem?_self, rfl, by simp [h.live]⟩

lemma slot_of_ne (h : table.Gains after index slot) (hslot : table.slot id = .ok old)
    (hne : id.index.toNat ≠ index) : after.slot id = .ok old := by
  rw [slot_eq_ok_iff, h.slots, if_neg hne]
  exact slot_eq_ok hslot

end AnchorTable.Gains

namespace AnchorRegister

open AnchorRecord AnchorTable

variable {r : AnchorRegister} {id : AnchorId} {x y : AnchorRecord} {slot : AnchorSlot} {i : Nat}

lemma ids_map {g : AnchorRecord → AnchorRecord} (hg : ∀ x, (g x).anchor.id = x.anchor.id)
    (records : List AnchorRecord) : (records.map g).map (·.anchor.id) = records.map (·.anchor.id) := by
  rw [List.map_map]
  exact List.map_congr_left fun x _ => hg x

lemma amend_eq_self (hnone : ∀ x ∈ r.unreleased, x.anchor.id ≠ id) (f : AnchorRecord → AnchorRecord) :
    amend id f r.records = r.records := by
  refine (List.map_congr_left fun x hx => if_neg fun heq => ?_).trans (List.map_id _)
  exact hnone x (mem_unreleased.mpr ⟨hx, heq.2⟩) heq.1

namespace InStep

section Gains

variable {after : AnchorTable} {index : Nat} (h : r.InStep) (hgains : r.table.Gains after index slot)

include h hgains

lemma listed_of_gains {other : AnchorSlot} (hother : after.slots[i]? = some other)
    (hfree : other.state = .free) : i ∈ after.released := by
  rw [hgains.slots] at hother
  split at hother
  case isTrue =>
    obtain rfl := Option.some.inj hother
    cases hgains.live.symm.trans hfree
  case isFalse hne => exact (hgains.released i).mpr ⟨h.listed i other hother hfree, hne⟩

lemma known_of_gains (hx : x ∈ r.unreleased) : after.get x.anchor.id = .ok x.anchor := by
  obtain ⟨old, hslot, -⟩ := h.slot_of_known hx
  have hkept := hgains.slot_of_ne hslot (h.index_ne_of_vacant hgains.vacant hx)
  obtain ⟨hmem, hnot⟩ := mem_unreleased.mp hx
  exact (get_congr (hkept.trans hslot.symm)).trans (h.known x hmem hnot)

lemma add (hgeneration : slot.generation.toNat = r.releasedAt index) :
    InStep ⟨after, r.records ++ [⟨slot.anchor (idAt index slot), false⟩]⟩ := by
  have hcount (i : Nat) :
      releasedAt ⟨after, r.records ++ [⟨slot.anchor (idAt index slot), false⟩]⟩ i = r.releasedAt i := by
    simp [releasedAt]
  have hindex := hgains.index_toNat
  constructor
  case tidy => exact hgains.tidy
  case listed => exact fun i other hother hfree => h.listed_of_gains hgains hother hfree
  case size_le => exact hgains.size_le
  case nodup =>
    rw [List.map_append, List.nodup_append]
    refine ⟨h.nodup, List.nodup_singleton _, fun id hold id' hnew heq => ?_⟩
    obtain ⟨x, hx, rfl⟩ := List.mem_map.mp hold
    obtain rfl := List.mem_singleton.mp hnew
    exact h.id_ne_of_vacant (hindex.symm ▸ hgains.vacant) (hindex.symm ▸ hgeneration) hx heq
  case placed =>
    intro x hx
    rcases List.mem_append.mp hx with hold | hnew
    · exact Nat.lt_of_lt_of_le (h.placed x hold) hgains.grows
    · obtain rfl := List.mem_singleton.mp hnew
      exact hindex.symm ▸ hgains.index_lt
  case counted =>
    intro i other hother
    rw [hcount]
    rw [hgains.slots] at hother
    split at hother
    case isTrue hi =>
      obtain rfl := Option.some.inj hother
      exact hi ▸ hgeneration
    case isFalse => exact h.counted i other hother
  case outdated =>
    intro x hx hkind
    rw [hcount]
    rcases List.mem_append.mp hx with hold | hnew
    · exact h.outdated x hold hkind
    · obtain rfl := List.mem_singleton.mp hnew
      cases hkind
  case known =>
    intro x hx hkept
    rcases List.mem_append.mp hx with hold | hnew
    · exact h.known_of_gains hgains (mem_unreleased.mpr ⟨hold, hkept⟩)
    · obtain rfl := List.mem_singleton.mp hnew
      exact get_of_slot hgains.slot_self
  case owned =>
    intro i other hother hstate
    rw [hgains.slots] at hother
    split at hother
    case isTrue hi =>
      obtain rfl := Option.some.inj hother
      exact ⟨_, List.mem_append_right _ (List.mem_singleton_self _), rfl, hi ▸ rfl⟩
    case isFalse =>
      obtain ⟨x, hx, hown⟩ := h.owned i other hother hstate
      exact ⟨x, List.mem_append_left _ hx, hown⟩

end Gains

lemma length_unreleased_of_full (h : r.InStep) (hnone : r.table.released = []) :
    r.unreleased.length = r.table.slots.size := by
  rw [h.length_unreleased, Array.countP_eq_size]
  intro slot hslot
  obtain ⟨i, hi, rfl⟩ := Array.mem_iff_getElem.mp hslot
  by_contra hfree
  have hmem := h.listed i _ (Array.getElem?_eq_getElem hi) (by simpa using hfree)
  simp [hnone] at hmem

lemma create (h : r.InStep) (offset : Nat) (movement : AnchorMovement) (survives : Bool)
    (hroom : (r.perform (.create offset movement survives)).unreleased.length < UInt32.size) :
    (r.perform (.create offset movement survives)).InStep := by
  obtain ⟨index, generation, hid, hslots, hreleased, hplace⟩ := create_spec h.tidy offset movement survives
  rw [perform, hid]
  have hgains : r.table.Gains (r.table.create offset movement survives).2 index
      ⟨offset, movement, survives, generation, .live⟩ := by
    refine ⟨h.tidy.create, ?_, ?_, hslots, hreleased, rfl, fun old hold => ?_⟩
    · rcases hplace with ⟨hsize, -⟩ | ⟨hsize, -, -, hnone⟩
      · exact hsize ▸ h.size_le
      · have hfull := h.length_unreleased_of_full hnone
        simp only [perform, unreleased, List.filter_append, List.length_append] at hroom hfull
        simp at hroom
        omega
    · rcases hplace with ⟨hsize, -⟩ | ⟨hsize, -⟩ <;> omega
    · rcases hplace with ⟨-, freed, hfreed, hfree, -⟩ | ⟨-, rfl, -⟩
      · obtain rfl := Option.some.inj (hfreed.symm.trans hold)
        exact hfree
      · simp at hold
  refine h.add hgains ?_
  rcases hplace with ⟨-, freed, hfreed, -, rfl⟩ | ⟨-, rfl, rfl, -⟩
  · exact h.counted index freed hfreed
  · -- no anchor was there before
    symm
    refine List.countP_eq_zero.mpr fun x hx => ?_
    have := h.placed x hx
    simp
    omega

lemma map (h : r.InStep) {after : AnchorTable} {f : Nat → AnchorSlot → AnchorSlot}
    {g : AnchorRecord → AnchorRecord} (htidy : after.Tidy) (hreleased : after.released = r.table.released)
    (hslots : ∀ i, after.slots[i]? = r.table.slots[i]?.map (f i))
    (hsize : after.slots.size = r.table.slots.size)
    (hf : ∀ i slot, (f i slot).generation = slot.generation ∧ ((f i slot).state = .free ↔ slot.state = .free))
    (hg : ∀ x, (g x).anchor.id = x.anchor.id ∧ (g x).isReleased = x.isReleased)
    (hknown : ∀ x ∈ r.unreleased, after.get x.anchor.id = .ok (g x).anchor) :
    InStep ⟨after, r.records.map g⟩ := by
  have hcount (i : Nat) : releasedAt ⟨after, r.records.map g⟩ i = r.releasedAt i := by
    rw [releasedAt, List.countP_map, releasedAt]
    refine List.countP_congr fun x _ => ?_
    rw [Function.comp, (hg x).1, (hg x).2]
  -- each slot was there before, in use or free as it is now
  have hback {i : Nat} {slot : AnchorSlot} (hslot : after.slots[i]? = some slot) :
      ∃ old, r.table.slots[i]? = some old ∧ slot.generation = old.generation ∧
        (slot.state = .free ↔ old.state = .free) := by
    rw [hslots] at hslot
    obtain ⟨old, hold, rfl⟩ := Option.map_eq_some_iff.mp hslot
    exact ⟨old, hold, hf i old⟩
  constructor
  case tidy => exact htidy
  case listed =>
    intro i slot hslot hfree
    obtain ⟨old, hold, -, hstate⟩ := hback hslot
    exact hreleased ▸ h.listed i old hold (hstate.mp hfree)
  case size_le => exact hsize ▸ h.size_le
  case nodup =>
    rw [ids_map fun x => (hg x).1]
    exact h.nodup
  case placed =>
    intro y hy
    obtain ⟨x, hx, rfl⟩ := List.mem_map.mp hy
    rw [(hg x).1, hsize]
    exact h.placed x hx
  case counted =>
    intro i slot hslot
    obtain ⟨old, hold, hgeneration, -⟩ := hback hslot
    rw [hcount, hgeneration]
    exact h.counted i old hold
  case outdated =>
    intro y hy hkind
    obtain ⟨x, hx, rfl⟩ := List.mem_map.mp hy
    rw [(hg x).2] at hkind
    rw [hcount, (hg x).1]
    exact h.outdated x hx hkind
  case known =>
    intro y hy hkept
    obtain ⟨x, hx, rfl⟩ := List.mem_map.mp hy
    rw [(hg x).2] at hkept
    rw [(hg x).1]
    exact hknown x (mem_unreleased.mpr ⟨hx, hkept⟩)
  case owned =>
    intro i slot hslot hstate
    obtain ⟨old, hold, hgeneration, hfree⟩ := hback hslot
    obtain ⟨x, hx, hkept, hid⟩ := h.owned i old hold (mt hfree.mpr hstate)
    refine ⟨g x, List.mem_map_of_mem hx, (hg x).2.trans hkept, (hg x).1.trans (hid.trans ?_)⟩
    rw [idAt, idAt, hgeneration]

lemma adjusted (h : r.InStep) (hx : x ∈ r.unreleased) {f : AnchorSlot → AnchorSlot}
    {g : AnchorRecord → AnchorRecord}
    (hf : ∀ slot, (f slot).generation = slot.generation ∧ (f slot).state = slot.state)
    (hg : ∀ x, (g x).anchor.id = x.anchor.id ∧ (g x).isReleased = x.isReleased)
    (hfg : ∀ slot : AnchorSlot, x.anchor = slot.anchor x.anchor.id → (g x).anchor = (f slot).anchor x.anchor.id)
    {after : AnchorTable} (hok : r.table.modify x.anchor.id f = .ok after) :
    InStep ⟨after, amend x.anchor.id g r.records⟩ := by
  obtain ⟨slot, hslot, hanchor⟩ := h.slot_of_known hx
  obtain ⟨hget, hgeneration, hstate⟩ := slot_eq_ok hslot
  have hlt := (Array.getElem?_eq_some_iff.mp hget).1
  have htidy := h.tidy.modify (fun slot => (hf slot).2) hok
  obtain rfl := Except.ok.inj ((modify_of_slot hslot f).symm.trans hok)
  refine h.map (f := fun i slot => if i = x.anchor.id.index.toNat then f slot else slot) htidy rfl (fun i => ?_)
    Array.size_setIfInBounds (fun i old => ?_) (fun y => ?_) fun y hy => ?_
  · by_cases hi : i = x.anchor.id.index.toNat
    · subst hi
      refine (Array.getElem?_setIfInBounds_self_of_lt hlt).trans ?_
      rw [hget, Option.map_some, if_pos rfl]
    · simp [hi, Ne.symm hi]
  · split
    · rw [(hf old).1, (hf old).2]
      exact ⟨rfl, Iff.rfl⟩
    · exact ⟨rfl, Iff.rfl⟩
  · split
    · exact hg y
    · exact ⟨rfl, rfl⟩
  · obtain ⟨hmem, hkept⟩ := mem_unreleased.mp hy
    by_cases hid : y.anchor.id = x.anchor.id
    · obtain rfl := h.eq_of_id hmem (mem_unreleased.mp hx).1 hid
      rw [if_pos ⟨rfl, hkept⟩, hfg slot hanchor]
      refine get_of_slot (slot_eq_ok_iff.mpr ⟨Array.getElem?_setIfInBounds_self_of_lt hlt, ?_⟩)
      rw [(hf slot).1, (hf slot).2]
      exact ⟨hgeneration, hstate⟩
    · rw [if_neg fun heq => hid heq.1]
      exact get_modify (h.known y hmem hkept) hok fun heq => absurd heq.symm hid

lemma adjust (h : r.InStep) (id : AnchorId) {f : AnchorSlot → AnchorSlot} {g : AnchorRecord → AnchorRecord}
    (hf : ∀ slot, (f slot).generation = slot.generation ∧ (f slot).state = slot.state)
    (hg : ∀ x, (g x).anchor.id = x.anchor.id ∧ (g x).isReleased = x.isReleased)
    (hfg : ∀ (x : AnchorRecord) (slot : AnchorSlot), x.anchor = slot.anchor id →
      (g x).anchor = (f slot).anchor id) :
    InStep ⟨(r.table.modify id f).toOption.getD r.table, amend id g r.records⟩ := by
  by_cases hnone : ∀ x ∈ r.unreleased, x.anchor.id ≠ id
  · rw [modify_of_refused (h.refused hnone) f, amend_eq_self hnone]
    exact h
  · push Not at hnone
    obtain ⟨x, hx, rfl⟩ := hnone
    obtain ⟨slot, hslot, -⟩ := h.slot_of_known hx
    have hok : r.table.modify x.anchor.id f = .ok _ := modify_of_slot hslot f
    rw [hok]
    exact h.adjusted hx hf hg (hfg x) hok

lemma follow (h : r.InStep) (map : OffsetMap) (textLength : Nat) :
    (r.perform (.follow map textLength)).InStep := by
  rw [perform]
  have hg (x : AnchorRecord) := x.follow_keeps map textLength
  cases hmap : map.isEmpty with
  | true =>
    rw [AnchorTable.follow, if_pos hmap]
    refine h.map (f := fun _ slot => slot) h.tidy rfl (fun _ => Option.map_id'.symm) rfl (by simp) hg
      fun x hx => ?_
    rw [AnchorRecord.follow, if_pos (.inl hmap)]
    exact h.known x (mem_unreleased.mp hx).1 (mem_unreleased.mp hx).2
  | false =>
    refine h.map (f := fun _ slot => slot.follow map textLength) (h.tidy.follow _ _) (follow_released _ _ _)
      (fun i => ?_) (size_follow _ _ _)
      (fun _ slot => ⟨follow_generation slot map textLength, slot.follow_free_iff map textLength⟩) hg
      fun x hx => ?_
    · rw [AnchorTable.follow, if_neg (by simp [hmap])]
      exact Array.getElem?_map
    · obtain ⟨slot, hslot, hanchor⟩ := h.slot_of_known hx
      refine (get_of_slot (slot_follow hslot hmap)).trans (congrArg Except.ok ?_)
      rw [AnchorRecord.follow_anchor hmap (mem_unreleased.mp hx).2 hanchor (slot_eq_ok hslot).2.2]
      rfl

end InStep

lemma exists_split_of_mem (h : r.InStep) (hx : x ∈ r.unreleased) (f : AnchorRecord → AnchorRecord) :
    ∃ before behind, r.records = before ++ x :: behind ∧
      amend x.anchor.id f r.records = before ++ f x :: behind := by
  obtain ⟨hmem, hkept⟩ := mem_unreleased.mp hx
  obtain ⟨before, behind, hsplit⟩ := List.append_of_mem hmem
  have hnodup := h.nodup
  rw [hsplit, List.map_append, List.map_cons, List.nodup_append, List.nodup_cons] at hnodup
  have hothers : ∀ others : List AnchorRecord, (∀ y ∈ others, y.anchor.id ≠ x.anchor.id) →
      amend x.anchor.id f others = others := by
    intro others hne
    refine (List.map_congr_left fun y hy => ?_).trans (List.map_id _)
    exact if_neg fun heq => hne y hy heq.1
  refine ⟨before, behind, hsplit, ?_⟩
  have hcons : amend x.anchor.id f r.records =
      amend x.anchor.id f before ++ f x :: amend x.anchor.id f behind := by
    rw [hsplit, amend, List.map_append, List.map_cons, if_pos ⟨rfl, hkept⟩]
    rfl
  rw [hcons, hothers before fun y hy heq => ?_, hothers behind fun y hy heq => ?_]
  · exact hnodup.2.1.1 (List.mem_map.mpr ⟨y, hy, heq⟩)
  · exact hnodup.2.2 _ (List.mem_map_of_mem hy) _ (List.mem_cons_self) heq

lemma releasedAt_release (h : r.InStep) (hx : x ∈ r.unreleased) (table : AnchorTable) (i : Nat) :
    releasedAt ⟨table, amend x.anchor.id (·.release) r.records⟩ i =
      r.releasedAt i + if x.anchor.id.index.toNat = i then 1 else 0 := by
  obtain ⟨before, behind, hrecords, hamended⟩ := exists_split_of_mem h hx (·.release)
  rw [releasedAt, hamended, releasedAt, hrecords]
  simp only [List.countP_append, List.countP_cons]
  simp [AnchorRecord.release, (mem_unreleased.mp hx).2]
  omega

namespace InStep

lemma mem_release (h : r.InStep) (hx : x ∈ r.unreleased) (hy : y ∈ amend x.anchor.id (·.release) r.records) :
    y = x.release ∨ y ∈ r.records ∧ y.anchor.id ≠ x.anchor.id := by
  obtain ⟨hmem, hkept⟩ := mem_unreleased.mp hx
  obtain ⟨z, hz, rfl⟩ := List.mem_map.mp hy
  by_cases hid : z.anchor.id = x.anchor.id
  · obtain rfl := h.eq_of_id hz hmem hid
    exact .inl (if_pos ⟨rfl, hkept⟩)
  · rw [if_neg fun heq => hid heq.1]
    exact .inr ⟨hz, hid⟩

section Release

variable {after : AnchorTable} (h : r.InStep) (hx : x ∈ r.unreleased)
  (hok : r.table.release x.anchor.id = .ok after)

include h hx hok

lemma slots_released : ∃ slot, r.table.slot x.anchor.id = .ok slot ∧
    after.released = x.anchor.id.index.toNat :: r.table.released ∧ after.slots.size = r.table.slots.size ∧
    ∀ i, after.slots[i]? = if x.anchor.id.index.toNat = i then
      some { slot with state := .free, generation := slot.generation + 1 } else r.table.slots[i]? := by
  obtain ⟨slot, hslot, -⟩ := h.slot_of_known hx
  obtain ⟨hget, -, -⟩ := slot_eq_ok hslot
  have hlt := (Array.getElem?_eq_some_iff.mp hget).1
  obtain rfl := Except.ok.inj ((release_of_slot hslot).symm.trans hok)
  refine ⟨slot, hslot, rfl, Array.size_setIfInBounds, fun i => ?_⟩
  rw [Array.getElem?_setIfInBounds]
  simp [hlt]

lemma released (hmax : r.releasedAt x.anchor.id.index.toNat + 1 < UInt32.size) :
    InStep ⟨after, amend x.anchor.id (·.release) r.records⟩ := by
  obtain ⟨slot, hslot, hreleased, hsize, hslots⟩ := h.slots_released hx hok
  obtain ⟨hget, hgeneration, -⟩ := slot_eq_ok hslot
  have hnow := h.counted _ slot hget
  constructor
  case tidy => exact h.tidy.release hok
  case listed =>
    intro i other hother hfree
    rw [hslots] at hother
    rw [hreleased]
    split at hother
    case isTrue hi => exact hi ▸ List.mem_cons_self
    case isFalse => exact List.mem_cons_of_mem _ (h.listed i other hother hfree)
  case size_le => exact hsize ▸ h.size_le
  case nodup =>
    rw [amend, ids_map fun y => by split <;> rfl]
    exact h.nodup
  case placed =>
    intro y hy
    rw [hsize]
    rcases h.mem_release hx hy with rfl | ⟨hold, -⟩
    · exact h.placed x (mem_unreleased.mp hx).1
    · exact h.placed y hold
  case counted =>
    intro i other hother
    rw [hslots] at hother
    rw [releasedAt_release h hx]
    split at hother
    case isTrue hi =>
      obtain rfl := Option.some.inj hother
      subst hi
      -- the generation counts the releases as long as it does not wrap
      rw [if_pos rfl, UInt32.toNat_add, hnow]
      exact Nat.mod_eq_of_lt hmax
    case isFalse hi =>
      rw [if_neg hi]
      exact h.counted i other hother
  case outdated =>
    intro y hy hkind
    rw [releasedAt_release h hx]
    rcases h.mem_release hx hy with rfl | ⟨hold, -⟩
    · have hsame : x.release.anchor.id = x.anchor.id := rfl
      rw [hsame, if_pos rfl, ← hnow, hgeneration]
      exact Nat.lt_succ_self _
    · exact Nat.lt_of_lt_of_le (h.outdated y hold hkind) (Nat.le_add_right _ _)
  case known =>
    intro y hy hkept
    rcases h.mem_release hx hy with rfl | ⟨hold, hne⟩
    · cases hkept
    · exact get_release_of_ne (h.known y hold hkept) hok hne.symm
  case owned =>
    intro i other hother hstate
    rw [hslots] at hother
    split at hother
    case isTrue =>
      obtain rfl := Option.some.inj hother
      exact absurd rfl hstate
    case isFalse hi =>
      obtain ⟨y, hy, hown, hindex, -⟩ := h.exists_owner hother hstate
      obtain ⟨hmem, hkept⟩ := mem_unreleased.mp hy
      refine ⟨y, List.mem_map.mpr ⟨y, hmem, if_neg fun heq => hi ?_⟩, hkept, hown⟩
      rw [← heq.1, hindex]

end Release

lemma release (h : r.InStep) (id : AnchorId)
    (hcount : ∀ i, (r.perform (.release id)).releasedAt i < UInt32.size) : (r.perform (.release id)).InStep := by
  by_cases hnone : ∀ x ∈ r.unreleased, x.anchor.id ≠ id
  · obtain ⟨-, -, -, hrefused, -⟩ := refuses_of_slot (h.refused hnone)
    rw [perform, hrefused, amend_eq_self hnone]
    exact h
  · push Not at hnone
    obtain ⟨x, hx, rfl⟩ := hnone
    obtain ⟨slot, hslot, -⟩ := h.slot_of_known hx
    have hok : r.table.release x.anchor.id = .ok _ := release_of_slot hslot
    have hmax := hcount x.anchor.id.index.toNat
    rw [perform, hok] at hmax ⊢
    rw [releasedAt_release h hx, if_pos rfl] at hmax
    exact h.released hx hok hmax

lemma perform (h : r.InStep) (call : AnchorCall) (hroom : (r.perform call).unreleased.length < UInt32.size)
    (hcount : ∀ i, (r.perform call).releasedAt i < UInt32.size) : (r.perform call).InStep := by
  cases call with
  | create offset movement survives => exact h.create offset movement survives hroom
  | release id => exact h.release id hcount
  | setMovement id movement =>
    refine h.adjust id (f := fun slot => { slot with movement }) (fun _ => ⟨rfl, rfl⟩) (fun _ => ⟨rfl, rfl⟩) ?_
    intro x slot hanchor
    rw [AnchorRecord.setMovement, hanchor]
    rfl
  | setSurvivesDeletion id survivesDeletion =>
    refine h.adjust id (f := fun slot => { slot with survivesDeletion }) (fun _ => ⟨rfl, rfl⟩)
      (fun _ => ⟨rfl, rfl⟩) ?_
    intro x slot hanchor
    rw [AnchorRecord.setSurvivesDeletion, hanchor]
    rfl
  | follow map textLength => exact h.follow map textLength

lemma empty : InStep empty where
  tidy := .empty
  listed := by simp [AnchorRegister.empty, AnchorTable.empty]
  size_le := Nat.zero_le _
  nodup := List.nodup_nil
  placed := by simp [AnchorRegister.empty]
  counted := by simp [AnchorRegister.empty, AnchorTable.empty]
  outdated := by simp [AnchorRegister.empty]
  known := by simp [AnchorRegister.empty]
  owned := by simp [AnchorRegister.empty, AnchorTable.empty]

lemma length_unreleased_le (h : r.InStep) : r.unreleased.length ≤ r.table.capacity := by
  rw [h.length_unreleased]
  exact Array.countP_le_size

lemma capacity_perform (h : r.InStep) {call : AnchorCall} (hafter : (r.perform call).InStep) :
    (r.perform call).table.capacity = max r.table.capacity (r.perform call).unreleased.length := by
  have hle := hafter.length_unreleased_le
  have hsame : (r.perform call).table.capacity = r.table.capacity →
      (r.perform call).table.capacity = max r.table.capacity (r.perform call).unreleased.length := by omega
  cases call with
  | create offset movement survives =>
    obtain ⟨-, -, -, -, -, ⟨hsize, -⟩ | ⟨hsize, -, -, hnone⟩⟩ := create_spec h.tidy offset movement survives
    · exact hsame hsize
    · have hfull := h.length_unreleased_of_full hnone
      have hmore : (r.perform (.create offset movement survives)).unreleased.length =
          r.unreleased.length + 1 := by
        simp [AnchorRegister.perform, unreleased]
      have hcapacity : (r.perform (.create offset movement survives)).table.capacity = r.table.capacity + 1 :=
        hsize
      rw [hcapacity, hmore, hfull]
      exact (Nat.max_eq_right (Nat.le_succ _)).symm
  | release id =>
    refine hsame ?_
    rw [AnchorRegister.perform]
    cases hok : r.table.release id with
    | error e => rfl
    | ok after =>
      obtain ⟨slot, -, hslots⟩ := release_eq_ok hok
      exact (congrArg Array.size hslots).trans Array.size_setIfInBounds
  | setMovement id | setSurvivesDeletion id => exact hsame (size_modify _ _ _)
  | follow map textLength => exact hsame (size_follow _ _ _)

end InStep

end AnchorRegister

end EditableText
