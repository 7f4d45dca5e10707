import EditableText.Segment
import Mathlib.Order.Interval.Set.Basic
import Mathlib.Order.Lattice.Nat

namespace EditableText.Segment

variable {a b c s t : Segment} {position : Nat}

def Addressable (s : Segment) : Prop := s.offset + s.length < UInt64.size

def offsets (s : Segment) : Set Nat := Set.Icc s.offset s.endOffset

def shared (overlap : Option Segment) : Set Nat := overlap.elim ∅ offsets

lemma mem_offsets : position ∈ s.offsets ↔ s.containsOffset position = true := by
  rw [containsOffset, Bool.and_eq_true, decide_eq_true_iff, decide_eq_true_iff]
  rfl

lemma Addressable.endOffset_eq (h : s.Addressable) : s.endOffset = s.offset + s.length := Word.add_eq h

lemma Addressable.offset_le (h : s.Addressable) : s.offset ≤ s.endOffset := by
  rw [h.endOffset_eq]
  exact Nat.le_add_right _ _

lemma Addressable.nonempty (h : s.Addressable) : s.offsets.Nonempty := Set.nonempty_Icc.mpr h.offset_le

lemma Addressable.ext (hs : s.Addressable) (ht : t.Addressable) (h : s.offsets = t.offsets) : s = t := by
  obtain ⟨hlow, hhigh⟩ := (Set.Icc_subset_Icc_iff hs.offset_le).mp h.le
  obtain ⟨hlow', hhigh'⟩ := (Set.Icc_subset_Icc_iff ht.offset_le).mp h.ge
  rw [hs.endOffset_eq, ht.endOffset_eq] at hhigh hhigh'
  obtain ⟨offset, length⟩ := s
  obtain rfl : offset = t.offset := Nat.le_antisymm hlow' hlow
  exact congrArg (mk t.offset) (by dsimp only at hhigh hhigh'; omega)

lemma endOffset_lt (s : Segment) : s.endOffset < UInt64.size := Nat.mod_lt _ (by decide)

lemma addressable_of_overlap? (h : a.overlap? b = some s) : s.Addressable := by
  rw [overlap?] at h
  split at h
  case isTrue hmeets =>
    obtain rfl := Option.some.inj h
    have hend := b.endOffset_lt
    rw [Addressable]
    dsimp only
    omega
  case isFalse => cases h

lemma shared_overlap? (a b : Segment) : shared (a.overlap? b) = a.offsets ∩ b.offsets := by
  rw [offsets, offsets, Set.Icc_inter_Icc]
  by_cases hmeets : max a.offset b.offset ≤ min a.endOffset b.endOffset
  · have hoverlap : a.overlap? b = some _ := if_pos hmeets
    rw [hoverlap, shared, Option.elim_some, offsets, (addressable_of_overlap? hoverlap).endOffset_eq]
    exact congrArg (Set.Icc _) (Nat.add_sub_cancel' hmeets)
  · have hoverlap : a.overlap? b = none := if_neg hmeets
    rw [hoverlap, shared, Option.elim_none]
    exact (Set.Icc_eq_empty hmeets).symm

lemma overlap?_eq_some_iff : a.overlap? b = some s ↔ s.Addressable ∧ s.offsets = a.offsets ∩ b.offsets := by
  constructor
  · intro h
    exact ⟨addressable_of_overlap? h, by rw [← shared_overlap?, h]; rfl⟩
  · rintro ⟨hs, hoffsets⟩
    cases h : a.overlap? b with
    | none =>
      rw [← shared_overlap?, h] at hoffsets
      exact absurd hoffsets hs.nonempty.ne_empty
    | some t =>
      rw [← shared_overlap?, h] at hoffsets
      rw [(addressable_of_overlap? h).ext hs hoffsets.symm]

lemma bind_overlap?_eq_some_iff {overlap : Option Segment} :
    overlap.bind (·.overlap? c) = some s ↔ s.Addressable ∧ s.offsets = shared overlap ∩ c.offsets := by
  cases overlap with
  | none =>
    refine ⟨nofun, fun ⟨hs, hoffsets⟩ => ?_⟩
    rw [shared, Option.elim_none, Set.empty_inter] at hoffsets
    exact absurd hoffsets hs.nonempty.ne_empty
  | some t => exact overlap?_eq_some_iff

lemma overlap?_assoc (a b c : Segment) :
    (a.overlap? b).bind (·.overlap? c) = (b.overlap? c).bind (a.overlap? ·) := by
  refine Option.ext fun s => ?_
  calc
    (a.overlap? b).bind (·.overlap? c) = some s ↔ s.Addressable ∧
      s.offsets = a.offsets ∩ b.offsets ∩ c.offsets := by
      rw [bind_overlap?_eq_some_iff, shared_overlap?]
    _ ↔ s.Addressable ∧ s.offsets = b.offsets ∩ c.offsets ∩ a.offsets := by
      rw [Set.inter_assoc, Set.inter_comm a.offsets]
    _ ↔ (b.overlap? c).bind (a.overlap? ·) = some s := by
      simp only [overlap?_comm a, bind_overlap?_eq_some_iff, shared_overlap?]

lemma contains_iff : a.contains b = true ↔ b.Addressable ∧ b.offsets ⊆ a.offsets := by
  rw [contains, beq_iff_eq, overlap?_eq_some_iff, eq_comm (a := b.offsets), Set.inter_eq_right]

lemma contains_both_iff :
    (a.contains t = true ∧ b.contains t = true) ↔ t.Addressable ∧ t.offsets ⊆ shared (a.overlap? b) := by
  rw [contains_iff, contains_iff, shared_overlap?, Set.subset_inter_iff]
  tauto

lemma mem_shared_iff {overlap : Option Segment} :
    position ∈ shared overlap ↔ ∃ s, overlap = some s ∧ s.containsOffset position = true := by
  cases overlap with
  | none => simp [shared]
  | some s => simp [shared, mem_offsets]

lemma containsOffset_both_iff : (a.containsOffset position = true ∧ b.containsOffset position = true) ↔
    ∃ s, a.overlap? b = some s ∧ s.containsOffset position = true := by
  rw [← mem_shared_iff, shared_overlap?, Set.mem_inter_iff, mem_offsets, mem_offsets]

end EditableText.Segment
