import EditableText.Document.Anchors
import EditableText.Proofs.Anchor.Lifetime

namespace EditableText

namespace AnchorTable

variable {table mid after : AnchorTable} {id other : AnchorId} {ids : List AnchorId} {slot : AnchorSlot}

def Reaches (table : AnchorTable) (id : AnchorId) : Prop := ∃ slot, table.slot id = .ok slot

def isLive (table : AnchorTable) (id : AnchorId) : Bool := (table.slot id).toOption.any (·.state = .live)

/-- The anchors with these handles are gone, the latest of them is the next slot to use, and all else is as it
was. -/
structure Releases (table : AnchorTable) (ids : List AnchorId) (after : AnchorTable) : Prop where
  gone : ∀ id ∈ ids, after.Refuses id
  kept : ∀ id, id ∉ ids → after.slot id = table.slot id
  capacity : after.capacity = table.capacity
  released : after.released = (ids.map (·.index.toNat)).reverse ++ table.released
  liveSlots : after.liveSlots + ids.countP table.isLive = table.liveSlots
  liveCount : after.liveCount = table.liveCount - ids.countP table.isLive

lemma Refuses.not_reaches (h : table.Refuses id) : ¬ table.Reaches id := by
  rintro ⟨slot, hslot⟩
  cases (get_of_slot hslot).symm.trans h.1

lemma slot_of_not_reaches (h : ¬ table.Reaches id) : table.slot id = .error (.staleAnchor id) := by
  cases hslot : table.slot id with
  | ok slot => exact absurd ⟨slot, hslot⟩ h
  | error e =>
    rw [AnchorTable.slot] at hslot
    split at hslot
    case h_1 =>
      split at hslot
      · cases hslot
      · exact hslot.symm
    case h_2 => exact hslot.symm

lemma release_of_not_reaches (h : ¬ table.Reaches id) : table.release id = .error (.staleAnchor id) :=
  (refuses_of_slot (slot_of_not_reaches h)).2.2.2.1

lemma exists_release (h : table.Reaches id) : ∃ after, table.release id = .ok after :=
  let ⟨_, hslot⟩ := h
  ⟨_, release_of_slot hslot⟩

lemma slot_release_self (h : table.release id = .ok after) : after.slot id = .error (.staleAnchor id) := by
  obtain ⟨slot, hslot, hslots⟩ := release_eq_ok h
  have hlt := (Array.getElem?_eq_some_iff.mp (slot_eq_ok hslot).1).1
  rw [AnchorTable.slot, hslots, Array.getElem?_setIfInBounds_self_of_lt hlt]
  exact if_neg fun hfree => hfree.2 rfl

lemma slot_release_other (h : table.release id = .ok after) (hne : other ≠ id) :
    after.slot other = table.slot other := by
  obtain ⟨slot, hslot, hslots⟩ := release_eq_ok h
  obtain ⟨hget, hgeneration, -⟩ := slot_eq_ok hslot
  rw [AnchorTable.slot, AnchorTable.slot, hslots]
  by_cases hindex : id.index.toNat = other.index.toNat
  · -- a handle of the same slot, from before or after the anchor, reaches nothing on either side
    have hold : slot.generation ≠ other.generation := by
      intro heq
      obtain ⟨index, generation⟩ := id
      obtain ⟨index', generation'⟩ := other
      obtain rfl : index = index' := UInt32.toNat_inj.mp hindex
      exact hne (congrArg (AnchorId.mk index) (heq.symm.trans hgeneration))
    rw [hindex] at hget
    have hlt := (Array.getElem?_eq_some_iff.mp hget).1
    rw [hindex, Array.getElem?_setIfInBounds_self_of_lt hlt, hget]
    simp [hold]
  · rw [Array.getElem?_setIfInBounds_ne hindex]

lemma isLive_of_slot (h : table.slot id = .ok slot) : table.isLive id = decide (slot.state = .live) := by
  rw [isLive, h]
  rfl

lemma countP_isLive (h : table.slot id = .ok slot) :
    [id].countP table.isLive = [slot].countP (·.state = .live) := by
  rw [List.countP_singleton, List.countP_singleton, isLive_of_slot h]

namespace Releases

lemma refl (table : AnchorTable) : table.Releases [] table := ⟨by simp, by simp, rfl, rfl, rfl, rfl⟩

lemma release (h : table.Releases ids mid) (hafter : mid.release id = .ok after) :
    table.Releases (ids ++ [id]) after := by
  obtain ⟨slot, hslot, hslots⟩ := release_eq_ok hafter
  have hnew : id ∉ ids := fun hmem => (h.gone id hmem).not_reaches ⟨slot, hslot⟩
  have hreleased : after.released = id.index.toNat :: mid.released := by
    rw [release_of_slot hslot] at hafter
    rw [← Except.ok.inj hafter]
  have hone : [id].countP table.isLive = [slot].countP (·.state = .live) := countP_isLive (h.kept id hnew ▸ hslot)
  refine ⟨?_, ?_, ?_, ?_, ?_, ?_⟩
  · intro other hother
    rcases List.mem_append.mp hother with hold | hlast
    · have hne : other ≠ id := fun heq => hnew (heq ▸ hold)
      refine refuses_of_slot ((slot_release_other hafter hne).trans ?_)
      exact slot_of_not_reaches (h.gone other hold).not_reaches
    · obtain rfl := List.mem_singleton.mp hlast
      exact refuses_of_slot (slot_release_self hafter)
  · intro other hother
    rw [List.mem_append, List.mem_singleton, not_or] at hother
    exact (slot_release_other hafter hother.2).trans (h.kept other hother.1)
  · rw [← h.capacity, AnchorTable.capacity, hslots, Array.size_setIfInBounds]
    rfl
  · rw [hreleased, h.released, List.map_append, List.reverse_append]
    rfl
  · rw [List.countP_append, hone, ← h.liveSlots, ← liveSlots_release hafter hslot]
    omega
  · rw [List.countP_append, hone, liveCount_release hafter hslot, h.liveCount, Nat.sub_sub]

lemma reaches_iff (h : table.Releases ids after) : after.Reaches id ↔ table.Reaches id ∧ id ∉ ids := by
  by_cases hmem : id ∈ ids
  · exact ⟨fun hreaches => absurd hreaches (h.gone id hmem).not_reaches, fun hreaches => absurd hmem hreaches.2⟩
  · rw [Reaches, Reaches, h.kept id hmem]
    exact ⟨fun hreaches => ⟨hreaches, hmem⟩, fun hreaches => hreaches.1⟩

end Releases

end AnchorTable

open AnchorTable

/-- Both anchors go, or neither, or the start alone, and it is the end that is refused then. -/
theorem AnchorSegment.release_outcomes (s : AnchorSegment) :
    (∀ table : AnchorTable,
      ((table.Reaches s.start ∧ table.Reaches s.stop ∧ s.start ≠ s.stop) ∧
        ∃ after, s.release table = (.ok (), after) ∧ table.Releases [s.start, s.stop] after) ∨
      (¬ table.Reaches s.start ∧ s.release table = (.error (.staleAnchor s.start), table)) ∨
      ((table.Reaches s.start ∧ (¬ table.Reaches s.stop ∨ s.start = s.stop)) ∧
        ∃ after, s.release table = (.error (.staleAnchor s.stop), after) ∧ table.Releases [s.start] after)) ∧
    ∀ doc : Document, Document.releaseAnchorSegment s doc =
      ⟨match (s.release doc.anchors).1 with
        | .ok () => .ok ()
        | .error e => .refused (.text e),
        { doc with anchors := (s.release doc.anchors).2 }, []⟩ := by
  constructor
  · intro table
    by_cases hstart : table.Reaches s.start
    · obtain ⟨started, hstarted⟩ := exists_release hstart
      have hfirst : table.Releases [s.start] started := (Releases.refl table).release hstarted
      have hreaches : started.Reaches s.stop ↔ table.Reaches s.stop ∧ s.start ≠ s.stop := by
        rw [hfirst.reaches_iff, List.mem_singleton, eq_comm]
      by_cases hstop : started.Reaches s.stop
      · obtain ⟨after, hafter⟩ := exists_release hstop
        refine .inl ⟨⟨hstart, hreaches.mp hstop⟩, after, ?_, hfirst.release hafter⟩
        rw [AnchorSegment.release, hstarted]
        simp only [hafter]
      · have hrefused := release_of_not_reaches hstop
        rw [hreaches, not_and_or, not_not] at hstop
        refine .inr (.inr ⟨⟨hstart, hstop⟩, started, ?_, hfirst⟩)
        rw [AnchorSegment.release, hstarted]
        simp only [hrefused]
    · refine .inr (.inl ⟨hstart, ?_⟩)
      rw [AnchorSegment.release, release_of_not_reaches hstart]
  · intro doc
    change Action.lift (s.release doc.anchors).1 { doc with anchors := (s.release doc.anchors).2 } = _
    cases (s.release doc.anchors).1 <;> rfl

/-- The end is released on its own, and then the segment: this is refused, and the start is gone. -/
theorem AnchorSegment.release_takes_start_if_end_is_stale :
    ∃ (s : AnchorSegment) (made table : AnchorTable), AnchorSegment.create .empty ⟨0, 1⟩ true = (s, made) ∧
      made.release s.stop = .ok table ∧
      (table.live.map (·.id) = [s.start] ∧ table.liveCount = 1 ∧ table.released = [1]) ∧
      (s.release table).1 = .error (.staleAnchor s.stop) ∧
      (s.release table).2.live = [] ∧ (s.release table).2.liveCount = 0 ∧
        (s.release table).2.released = [0, 1] := by
  let start : AnchorSlot := ⟨0, .beforeInsertion, true, 0, .live⟩
  let stop : AnchorSlot := ⟨1, .afterInsertion, true, 0, .live⟩
  refine ⟨⟨⟨0, 0⟩, ⟨1, 0⟩⟩, ⟨#[start, stop], [], 2⟩,
    ⟨#[start, { stop with generation := 1, state := .free }], [1], 1⟩, ?_⟩
  decide +kernel

end EditableText
