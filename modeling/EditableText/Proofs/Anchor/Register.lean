import EditableText.Proofs.Anchor.Lifetime
import Mathlib.Data.List.Nodup

namespace EditableText

inductive AnchorCall where
  | create (offset : Nat) (movement : AnchorMovement) (survivesDeletion : Bool)
  | release (id : AnchorId)
  | setMovement (id : AnchorId) (movement : AnchorMovement)
  | setSurvivesDeletion (id : AnchorId) (survivesDeletion : Bool)
  | follow (map : OffsetMap) (textLength : Nat)

def AnchorSlot.anchor (slot : AnchorSlot) (id : AnchorId) : Anchor :=
  ⟨id, slot.offset, slot.movement, slot.survivesDeletion, slot.state = .deleted⟩

structure AnchorRecord where
  anchor : Anchor
  isReleased : Bool
  deriving DecidableEq

namespace AnchorRecord

variable (record : AnchorRecord)

def follow (map : OffsetMap) (textLength : Nat) : AnchorRecord :=
  let a := record.anchor
  if map.isEmpty ∨ record.isReleased ∨ a.isDeleted then record
  else
    let (offset, isDeleted) := AnchorSlot.carry a.movement a.survivesDeletion a.offset map
    { record with anchor := { a with offset := min offset textLength, isDeleted } }

lemma follow_anchor {record : AnchorRecord} {slot : AnchorSlot} {id : AnchorId} {map : OffsetMap}
    {textLength : Nat} (hmap : map.isEmpty = false) (hkept : record.isReleased = false)
    (hanchor : record.anchor = slot.anchor id)
    (hstate : slot.state ≠ .free) :
    (record.follow map textLength).anchor = (slot.follow map textLength).anchor id := by
  rw [follow, AnchorSlot.follow]
  by_cases hlive : slot.state = .live
  · have hdeleted : record.anchor.isDeleted = false := by simp [hanchor, AnchorSlot.anchor, hlive]
    rw [if_neg (by simp [hkept, hdeleted, hmap]), if_pos hlive, hanchor]
    cases hlost : (AnchorSlot.carry slot.movement slot.survivesDeletion slot.offset map).2 <;>
      simp [AnchorSlot.anchor, hlost]
  · have hdeleted : record.anchor.isDeleted = true := by
      cases hkind : slot.state <;> simp [hkind, hanchor, AnchorSlot.anchor] at hlive hstate ⊢
    rw [if_pos (.inr (.inr hdeleted)), if_neg hlive, hanchor]

lemma follow_keeps (map : OffsetMap) (textLength : Nat) :
    (record.follow map textLength).anchor.id = record.anchor.id ∧
      (record.follow map textLength).isReleased = record.isReleased := by
  rw [follow]
  dsimp only
  split <;> exact ⟨rfl, rfl⟩

def release : AnchorRecord := { record with isReleased := true }

def setMovement (movement : AnchorMovement) : AnchorRecord :=
  { record with anchor := { record.anchor with movement } }

def setSurvivesDeletion (survivesDeletion : Bool) : AnchorRecord :=
  { record with anchor := { record.anchor with survivesDeletion } }

def amend (id : AnchorId) (f : AnchorRecord → AnchorRecord) (records : List AnchorRecord) : List AnchorRecord :=
  records.map fun record => if record.anchor.id = id ∧ record.isReleased = false then f record else record

end AnchorRecord

/-- A table with a record of every anchor that was created in it, the oldest first. -/
structure AnchorRegister where
  table : AnchorTable
  records : List AnchorRecord

namespace AnchorTable

variable (table : AnchorTable)

def places (p : AnchorSlot → Bool) : List Nat :=
  (table.slots.toList.zipIdx.filter fun (slot, _) => p slot).map Prod.snd

lemma mem_places {p : AnchorSlot → Bool} {i : Nat} :
    i ∈ table.places p ↔ ∃ slot, table.slots[i]? = some slot ∧ p slot = true := by
  simp [places, List.mem_zipIdx_iff_getElem?]

lemma nodup_places (p : AnchorSlot → Bool) : (table.places p).Nodup := by
  have hsublist : (table.places p).Sublist (table.slots.toList.zipIdx.map Prod.snd) :=
    List.filter_sublist.map Prod.snd
  rw [List.zipIdx_map_snd] at hsublist
  exact hsublist.nodup List.nodup_range'

lemma length_places (p : AnchorSlot → Bool) : (table.places p).length = table.slots.countP p := by
  rw [places, List.length_map, ← List.countP_eq_length_filter, ← Array.countP_toList]
  conv_rhs => rw [← List.zipIdx_map_fst 0 table.slots.toList, List.countP_map]
  rfl

end AnchorTable

namespace AnchorRegister

open AnchorRecord AnchorTable

def empty : AnchorRegister := ⟨.empty, []⟩

def unreleased (r : AnchorRegister) : List AnchorRecord := r.records.filter fun record => !record.isReleased

def live (r : AnchorRegister) : List AnchorRecord := r.unreleased.filter fun record => !record.anchor.isDeleted

def releasedAt (r : AnchorRegister) (index : Nat) : Nat :=
  r.records.countP fun record => record.isReleased && record.anchor.id.index.toNat == index

def perform (r : AnchorRegister) : AnchorCall → AnchorRegister
  | .create offset movement survives =>
    let created := r.table.create offset movement survives
    ⟨created.2, r.records ++ [⟨⟨created.1, offset, movement, survives, false⟩, false⟩]⟩
  | .release id => ⟨(r.table.release id).toOption.getD r.table, amend id (·.release) r.records⟩
  | .setMovement id movement =>
    ⟨(r.table.setMovement id movement).toOption.getD r.table, amend id (·.setMovement movement) r.records⟩
  | .setSurvivesDeletion id survives =>
    ⟨(r.table.setSurvivesDeletion id survives).toOption.getD r.table,
      amend id (·.setSurvivesDeletion survives) r.records⟩
  | .follow map textLength => ⟨(r.table.follow map textLength).2, r.records.map (·.follow map textLength)⟩

def run (calls : List AnchorCall) : AnchorRegister := calls.foldl perform empty

/-- No slot is released 2^32 times, and never are there 2^32 anchors at once. -/
def Bounded (calls : List AnchorCall) : Prop :=
  ∀ earlier, earlier <+: calls →
    (run earlier).unreleased.length < UInt32.size ∧ ∀ index, (run earlier).releasedAt index < UInt32.size

structure InStep (r : AnchorRegister) : Prop where
  tidy : r.table.Tidy
  listed : ∀ i slot, r.table.slots[i]? = some slot → slot.state = .free → i ∈ r.table.released
  size_le : r.table.slots.size ≤ UInt32.size
  nodup : (r.records.map (·.anchor.id)).Nodup
  placed : ∀ x ∈ r.records, x.anchor.id.index.toNat < r.table.slots.size
  counted : ∀ i slot, r.table.slots[i]? = some slot → slot.generation.toNat = r.releasedAt i
  outdated : ∀ x ∈ r.records, x.isReleased = true →
    x.anchor.id.generation.toNat < r.releasedAt x.anchor.id.index.toNat
  known : ∀ x ∈ r.records, x.isReleased = false → r.table.get x.anchor.id = .ok x.anchor
  owned : ∀ i slot, r.table.slots[i]? = some slot → slot.state ≠ .free →
    ∃ x ∈ r.records, x.isReleased = false ∧ x.anchor.id = idAt i slot

variable {r : AnchorRegister} {id : AnchorId} {x y : AnchorRecord} {slot : AnchorSlot} {i : Nat}

lemma mem_unreleased : x ∈ r.unreleased ↔ x ∈ r.records ∧ x.isReleased = false := by
  simp [unreleased]

namespace InStep

lemma eq_of_id (h : r.InStep) (hx : x ∈ r.records) (hy : y ∈ r.records) (hid : x.anchor.id = y.anchor.id) :
    x = y :=
  List.inj_on_of_nodup_map h.nodup hx hy hid

lemma slot_of_known (h : r.InStep) (hx : x ∈ r.unreleased) : ∃ slot, r.table.slot x.anchor.id = .ok slot ∧
    x.anchor = ⟨x.anchor.id, slot.offset, slot.movement, slot.survivesDeletion, slot.state = .deleted⟩ := by
  obtain ⟨hmem, hkept⟩ := mem_unreleased.mp hx
  exact get_eq_ok (h.known x hmem hkept)

lemma exists_owner (h : r.InStep) (hslot : r.table.slots[i]? = some slot) (hstate : slot.state ≠ .free) :
    ∃ x ∈ r.unreleased, x.anchor.id = idAt i slot ∧ x.anchor.id.index.toNat = i ∧
      r.table.slot x.anchor.id = .ok slot := by
  obtain ⟨x, hx, hkept, hid⟩ := h.owned i slot hslot hstate
  have hlt : i < UInt32.size := Nat.lt_of_lt_of_le (Array.getElem?_eq_some_iff.mp hslot).1 h.size_le
  have hindex : x.anchor.id.index.toNat = i := by
    rw [hid]
    exact UInt32.toNat_ofNat_of_lt hlt
  refine ⟨x, mem_unreleased.mpr ⟨hx, hkept⟩, hid, hindex, slot_eq_ok_iff.mpr ?_⟩
  rw [hindex, hid]
  exact ⟨hslot, rfl, hstate⟩

lemma eq_of_index (h : r.InStep) (hx : x ∈ r.unreleased) (hy : y ∈ r.unreleased)
    (hindex : x.anchor.id.index.toNat = y.anchor.id.index.toNat) : x = y := by
  obtain ⟨slot, hslot, -⟩ := h.slot_of_known hx
  obtain ⟨other, hother, -⟩ := h.slot_of_known hy
  exact h.eq_of_id (mem_unreleased.mp hx).1 (mem_unreleased.mp hy).1 (id_eq_of_slot hother hslot hindex)

lemma refused (h : r.InStep) (hid : ∀ x ∈ r.unreleased, x.anchor.id ≠ id) :
    r.table.slot id = .error (.staleAnchor id) := by
  cases hslot : r.table.slot id with
  | error e =>
    rw [AnchorTable.slot] at hslot
    split at hslot
    case h_1 =>
      split at hslot
      case isTrue => cases hslot
      case isFalse => exact hslot.symm ▸ rfl
    case h_2 => exact hslot.symm ▸ rfl
  | ok slot =>
    obtain ⟨hget, hgeneration, hstate⟩ := slot_eq_ok hslot
    obtain ⟨x, hx, hown, hindex, -⟩ := h.exists_owner hget hstate
    refine absurd ?_ (hid x hx)
    rw [hown, idAt, hgeneration]
    exact congrArg (AnchorId.mk · id.generation) (UInt32.ofNat_toNat)

lemma length_filter_eq_countP (h : r.InStep) {p : AnchorSlot → Bool} {q : AnchorRecord → Bool}
    (hp : ∀ slot, p slot = true → slot.state ≠ .free)
    (hpq : ∀ x ∈ r.unreleased, ∀ slot, r.table.slot x.anchor.id = .ok slot → q x = p slot) :
    (r.unreleased.filter q).length = r.table.slots.countP p := by
  have hnodup : ((r.unreleased.filter q).map (·.anchor.id.index.toNat)).Nodup := by
    refine List.Nodup.map_on (fun x hx y hy => ?_) (((h.nodup.of_map _).filter _).filter _)
    exact h.eq_of_index (List.mem_filter.mp hx).1 (List.mem_filter.mp hy).1
  have hplaces : ((r.unreleased.filter q).map (·.anchor.id.index.toNat)).Perm (r.table.places p) := by
    refine (List.perm_ext_iff_of_nodup hnodup (r.table.nodup_places p)).mpr fun i => ?_
    rw [mem_places]
    constructor
    · intro hi
      obtain ⟨x, hx, rfl⟩ := List.mem_map.mp hi
      obtain ⟨hx, hq⟩ := List.mem_filter.mp hx
      obtain ⟨slot, hslot, -⟩ := h.slot_of_known hx
      exact ⟨slot, (slot_eq_ok hslot).1, (hpq x hx slot hslot).symm.trans hq⟩
    · rintro ⟨slot, hslot, hkind⟩
      obtain ⟨x, hx, -, hindex, hown⟩ := h.exists_owner hslot (hp slot hkind)
      exact List.mem_map.mpr ⟨x, List.mem_filter.mpr ⟨hx, (hpq x hx slot hown).trans hkind⟩, hindex⟩
  rw [← r.table.length_places p, ← hplaces.length_eq, List.length_map]

lemma length_unreleased (h : r.InStep) :
    r.unreleased.length = r.table.slots.countP (·.state ≠ .free) := by
  have heq := h.length_filter_eq_countP (p := fun slot => slot.state ≠ .free) (q := fun _ => true)
    (fun slot hstate => by simpa using hstate) fun x _ slot hslot => by simpa using (slot_eq_ok hslot).2.2
  rwa [List.filter_true] at heq

lemma length_live (h : r.InStep) : r.live.length = r.table.liveCount := by
  rw [h.tidy.counted]
  refine h.length_filter_eq_countP (fun slot hstate => ?_) fun x hx slot hslot => ?_
  · simp [of_decide_eq_true hstate]
  · obtain ⟨found, hfound, hanchor⟩ := h.slot_of_known hx
    obtain rfl := Except.ok.inj (hfound.symm.trans hslot)
    have hstate := (slot_eq_ok hslot).2.2
    rw [hanchor]
    cases hkind : found.state <;> simp [hkind] at hstate ⊢

lemma index_ne_of_vacant (h : r.InStep) (hvacant : ∀ slot, r.table.slots[i]? = some slot → slot.state = .free)
    (hx : x ∈ r.unreleased) : x.anchor.id.index.toNat ≠ i := by
  rintro rfl
  obtain ⟨slot, hslot, -⟩ := h.slot_of_known hx
  obtain ⟨hget, -, hstate⟩ := slot_eq_ok hslot
  exact hstate (hvacant slot hget)

lemma id_ne_of_vacant (h : r.InStep)
    (hvacant : ∀ slot, r.table.slots[id.index.toNat]? = some slot → slot.state = .free)
    (hgeneration : id.generation.toNat = r.releasedAt id.index.toNat) (hx : x ∈ r.records) :
    x.anchor.id ≠ id := by
  rintro rfl
  cases hkind : x.isReleased with
  | true =>
    have hlt := h.outdated x hx hkind
    rw [hgeneration] at hlt
    exact Nat.lt_irrefl _ hlt
  | false => exact h.index_ne_of_vacant hvacant (mem_unreleased.mpr ⟨hx, hkind⟩) rfl

end InStep

end AnchorRegister

end EditableText
