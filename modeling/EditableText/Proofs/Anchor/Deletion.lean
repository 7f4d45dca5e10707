import EditableText.Proofs.Anchor.Table
import Mathlib.Data.List.Basic

namespace EditableText

lemma countP_add_countP_le {α : Type} {p q r : α → Bool} (hp : ∀ x, p x → r x ∧ q x = false)
    (hq : ∀ x, q x → r x) (l : List α) : l.countP p + l.countP q ≤ l.countP r := by
  induction l with
  | nil => simp
  | cons x rest ih =>
    have hpx := hp x
    have hqx := hq x
    simp only [List.countP_cons]
    cases hx : p x with
    | true =>
      obtain ⟨hr, hnq⟩ := hpx hx
      simp only [hr, hnq, if_true]
      simp
      omega
    | false =>
      cases hx' : q x with
      | true =>
        simp only [hqx hx', if_true]
        simp
        omega
      | false =>
        simp
        omega

lemma countP_zipIdx_set_le {α : Type} (p : α × Nat → Bool) (l : List α) (i : Nat) (x : α) (first : Nat) :
    ((l.set i x).zipIdx first).countP p ≤
      (l.zipIdx first).countP p + if p (x, first + i) then 1 else 0 := by
  induction l generalizing i first with
  | nil => simp
  | cons y rest ih =>
    cases i with
    | zero =>
      simp only [List.set_cons_zero, List.zipIdx_cons, List.countP_cons, Nat.add_zero]
      omega
    | succ i =>
      have hrest := ih i (first + 1)
      rw [Nat.add_right_comm, Nat.add_assoc] at hrest
      simp only [List.set_cons_succ, List.zipIdx_cons, List.countP_cons]
      omega

lemma countP_zipIdx_set_le_of_imp {α : Type} {p : α × Nat → Bool} {l : List α} {i : Nat} {x y : α}
    (hy : l[i]? = some y) (first : Nat) (h : p (x, first + i) → p (y, first + i)) :
    ((l.set i x).zipIdx first).countP p ≤ (l.zipIdx first).countP p := by
  induction l generalizing i first with
  | nil => simp
  | cons z rest ih =>
    cases i with
    | zero =>
      obtain rfl : z = y := by simpa using hy
      simp only [List.set_cons_zero, List.zipIdx_cons, List.countP_cons, Nat.add_zero] at h ⊢
      split_ifs <;> simp_all
    | succ i =>
      have hrest := ih (i := i) (by simpa using hy) (first + 1)
        (by rwa [Nat.add_right_comm, Nat.add_assoc])
      simp only [List.set_cons_succ, List.zipIdx_cons, List.countP_cons]
      omega

namespace AnchorTable

def lost (before after : AnchorTable) : List AnchorId :=
  before.slots.toList.zipIdx.filterMap fun (slot, index) =>
    if slot.state = .live ∧ (after.slots[index]?.map (·.state)) = some .deleted then
      some (idAt index slot)
    else none

lemma lost_follow (table : AnchorTable) (map : OffsetMap) (textLength : Nat) :
    (table.follow map textLength).1 = table.lost (table.follow map textLength).2 := by
  rw [follow, lost]
  split
  case isTrue =>
    -- a map without steps leaves the table alone, and no anchor is both live and deleted in it
    symm
    rw [List.filterMap_eq_nil_iff]
    rintro ⟨slot, index⟩ hmem
    have hslot : table.slots[index]? = some slot := by
      rw [← Array.getElem?_toList]
      exact List.mem_zipIdx_iff_getElem?.mp hmem
    simp +contextual [hslot]
  case isFalse =>
    refine List.filterMap_congr ?_
    rintro ⟨slot, index⟩ hmem
    have hslot : table.slots[index]? = some slot := by
      rw [← Array.getElem?_toList]
      exact List.mem_zipIdx_iff_getElem?.mp hmem
    simp [hslot]

variable (table : AnchorTable) (id : AnchorId)

def liveAt : Nat :=
  table.slots.toList.zipIdx.countP fun (slot, index) => slot.state = .live ∧ idAt index slot = id

lemma follow_generation (slot : AnchorSlot) (map : OffsetMap) (textLength : Nat) :
    (slot.follow map textLength).generation = slot.generation := by
  rw [AnchorSlot.follow]
  split <;> rfl

lemma live_of_follow {slot : AnchorSlot} {map : OffsetMap} {textLength : Nat}
    (h : (slot.follow map textLength).state = .live) : slot.state = .live := by
  rw [AnchorSlot.follow] at h
  split at h
  case isTrue hlive => exact hlive
  case isFalse => exact h

lemma count_deleted_add_liveAt_le (map : OffsetMap) (textLength : Nat) :
    (table.follow map textLength).1.count id + (table.follow map textLength).2.liveAt id ≤
      table.liveAt id := by
  rw [follow]
  split
  case isTrue => simp
  case isFalse =>
    simp only [deletedBy, liveAt, Array.toList_map, List.count, List.countP_filterMap, List.zipIdx_map,
      List.countP_map]
    refine countP_add_countP_le ?_ ?_ _
    · rintro ⟨slot, index⟩ h
      by_cases hlost : slot.state = .live ∧ (slot.follow map textLength).state = .deleted
      · have hid : idAt index slot = id := by simpa [hlost] using h
        simp [hlost, hid]
      · simp [hlost] at h
    · rintro ⟨slot, index⟩ h
      have hkept : (slot.follow map textLength).state = .live ∧
          idAt index (slot.follow map textLength) = id := by simpa using h
      rw [idAt, follow_generation] at hkept
      simpa using ⟨live_of_follow hkept.1, hkept.2⟩

variable {table : AnchorTable} {after : AnchorTable}

lemma liveAt_create_le (offset : Nat) (movement : AnchorMovement) (survives : Bool) :
    (table.create offset movement survives).2.liveAt id ≤
      table.liveAt id + [(table.create offset movement survives).1].count id := by
  obtain ⟨index, slot, hid, -, hlive, hset | ⟨rfl, hpush⟩⟩ := create_eq table offset movement survives
  · have hle := countP_zipIdx_set_le (fun (slot, index) => decide (slot.state = .live ∧ idAt index slot = id))
      table.slots.toList index slot 0
    rw [liveAt, liveAt, hset, Array.toList_setIfInBounds, hid]
    simpa [hlive, List.count_singleton] using hle
  · rw [liveAt, liveAt, hpush, Array.toList_push, List.zipIdx_append, List.countP_append, hid]
    simp [hlive, List.count_singleton]

lemma liveAt_set_le {other : AnchorId} {slot : AnchorSlot} (hslot : table.slot other = .ok slot)
    {fresh : AnchorSlot} (hafter : after.slots = table.slots.setIfInBounds other.index.toNat fresh)
    (hfresh : fresh.state = .live → slot.state = .live ∧ fresh.generation = slot.generation) :
    after.liveAt id ≤ table.liveAt id := by
  obtain ⟨hget, -⟩ := slot_eq_ok hslot
  rw [liveAt, liveAt, hafter, Array.toList_setIfInBounds]
  rw [← Array.getElem?_toList] at hget
  refine countP_zipIdx_set_le_of_imp hget 0 fun hp => ?_
  simp only [decide_eq_true_eq] at hp ⊢
  obtain ⟨hlive, hgeneration⟩ := hfresh hp.1
  rw [idAt, hgeneration] at hp
  exact ⟨hlive, hp.2⟩

lemma liveAt_modify_le {other : AnchorId} {f : AnchorSlot → AnchorSlot}
    (hstate : ∀ slot, (f slot).state = slot.state)
    (hgeneration : ∀ slot, (f slot).generation = slot.generation)
    (hafter : table.modify other f = .ok after) : after.liveAt id ≤ table.liveAt id := by
  obtain ⟨slot, hslot, rfl⟩ := modify_eq_ok hafter
  exact liveAt_set_le id hslot rfl fun hlive => ⟨hstate slot ▸ hlive, hgeneration slot⟩

lemma liveAt_release_le {other : AnchorId} (hafter : table.release other = .ok after) :
    after.liveAt id ≤ table.liveAt id := by
  obtain ⟨slot, hslot, hslots⟩ := release_eq_ok hafter
  exact liveAt_set_le id hslot hslots fun hlive => by cases hlive

lemma liveAt_createSegment_le (s : Segment) (survives : Bool) :
    (AnchorSegment.create table s survives).2.liveAt id ≤
      table.liveAt id + [(AnchorSegment.create table s survives).1.start,
        (AnchorSegment.create table s survives).1.stop].count id := by
  have hstart := table.liveAt_create_le id s.offset .beforeInsertion survives
  have hstop := (table.create s.offset .beforeInsertion survives).2.liveAt_create_le id
    s.endOffset .afterInsertion survives
  have hcount (a b : AnchorId) : [a, b].count id = [a].count id + [b].count id := by
    rw [← List.singleton_append, List.count_append]
  rw [hcount]
  simp only [AnchorSegment.create] at hstop hstart ⊢
  omega

lemma liveAt_releaseSegment_le (s : AnchorSegment) : (s.release table).2.liveAt id ≤ table.liveAt id := by
  rw [AnchorSegment.release]
  cases hstart : table.release s.start with
  | error e => exact Nat.le_refl _
  | ok started =>
    have hstarted := liveAt_release_le id hstart
    cases hstop : started.release s.stop with
    | error e => simpa [hstop] using hstarted
    | ok released => simpa [hstop] using Nat.le_trans (liveAt_release_le id hstop) hstarted

end AnchorTable

end EditableText
