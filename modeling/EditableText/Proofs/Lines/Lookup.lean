import EditableText.Lines.Table
import EditableText.Lines.Tree.Lemmas
import EditableText.Proofs.Lines.Scan

namespace EditableText

namespace LineTree

def extents (tree : LineTree) : List LineExtent := tree.entries.map (·.extent)

@[simp] lemma length_extents (tree : LineTree) : tree.extents.length = tree.entries.length := by
  simp [extents]

@[simp] lemma extents_leaf : leaf.extents = [] := rfl

@[simp] lemma extents_node (left right : LineTree) (entry : LineEntry) (total count : Nat) :
    (node left entry right total count).extents = left.extents ++ entry.extent :: right.extents := by
  simp [extents]

lemma Summed.total_eq_size {tree : LineTree} (h : tree.Summed) :
    tree.total = LineExtent.size tree.extents := by
  induction tree with
  | leaf => rfl
  | node left entry right total count ihl ihr =>
    obtain ⟨hl, hr, ht, -⟩ := h
    change total = _
    rw [ht, ihl hl, ihr hr, extents_node, LineExtent.size_append, LineExtent.size_cons]
    omega

@[simp] lemma extents_append (a b : LineTree) : (a.append b).extents = a.extents ++ b.extents := by
  simp [extents]

def startOf (tree : LineTree) (index : Nat) : Nat := LineExtent.size (tree.extents.take index)

lemma startOf_node_left {left : LineTree} {index : Nat} (h : index ≤ left.entries.length)
    (entry : LineEntry) (right : LineTree) (total count : Nat) :
    (node left entry right total count).startOf index = left.startOf index := by
  rw [startOf, extents_node, List.take_append_of_le_length (by simpa using h), startOf]

lemma startOf_node_right (left : LineTree) (entry : LineEntry) (right : LineTree)
    (total count k : Nat) :
    (node left entry right total count).startOf (left.entries.length + k + 1) =
      LineExtent.size left.extents + entry.extent.total + right.startOf k := by
  have htake : left.extents.take (left.entries.length + (k + 1)) = left.extents :=
    List.take_of_length_le (by simp)
  simp [startOf, List.take_append, Nat.add_assoc, htake]

lemma Summed.startOf_length {tree : LineTree} (h : tree.Summed) :
    tree.startOf tree.entries.length = tree.total := by
  rw [startOf, h.total_eq_size, List.take_of_length_le (by simp)]

lemma startOf_succ {tree : LineTree} {index : Nat} {entry : LineEntry}
    (h : tree.entries[index]? = some entry) :
    tree.startOf (index + 1) = tree.startOf index + entry.extent.total := by
  have he : tree.extents[index]? = some entry.extent := by simp [extents, h]
  simp [startOf, List.take_add_one, he]

lemma startOf_mono (tree : LineTree) {i j : Nat} (h : i ≤ j) : tree.startOf i ≤ tree.startOf j := by
  have htake := List.take_append_drop i (tree.extents.take j)
  rw [List.take_take, Nat.min_eq_left h] at htake
  rw [startOf, startOf, ← htake, LineExtent.size_append]
  exact Nat.le_add_right _ _

lemma summed_single (entry : LineEntry) : (single entry).Summed := ⟨trivial, trivial, rfl, rfl⟩

lemma Summed.atIndex?_eq {tree : LineTree} (h : tree.Summed) (index base : Nat) :
    tree.atIndex? index base =
      tree.entries[index]?.map fun entry => (entry, base + tree.startOf index) := by
  induction tree generalizing index base with
  | leaf => simp [atIndex?]
  | node left entry right total count ihl ihr =>
    obtain ⟨hl, hr, -, -⟩ := h
    have hcount : left.count = left.entries.length := hl.count_eq
    rw [atIndex?, entries_node]
    rcases Nat.lt_trichotomy index left.count with hlt | rfl | hgt
    · rw [if_pos hlt, ihl hl, List.getElem?_append_left (by omega),
        startOf_node_left (by omega)]
    · rw [if_neg (Nat.lt_irrefl _), if_pos rfl, hcount, startOf_node_left (Nat.le_refl _),
        hl.startOf_length]
      simp
    · obtain ⟨k, rfl⟩ := Nat.exists_eq_add_of_lt hgt
      rw [if_neg (by omega), if_neg (by omega), ihr hr, hcount, startOf_node_right, ← hl.total_eq_size,
        List.getElem?_append_right (by omega)]
      simp [Nat.add_assoc, Nat.add_sub_add_left]

lemma Summed.holding?_eq {tree : LineTree} (h : tree.Summed) {offset base : Nat} (index : Nat)
    (hbase : base ≤ offset) (hoffset : offset < base + tree.total) :
    ∃ k entry, tree.entries[k]? = some entry ∧
      tree.holding? offset index base = some ⟨entry, index + k, base + tree.startOf k⟩ ∧
      base + tree.startOf k ≤ offset ∧ offset < base + tree.startOf k + entry.extent.total := by
  induction tree generalizing index base with
  | leaf => simp [total] at hoffset; omega
  | node left entry right total count ihl ihr =>
    obtain ⟨hl, hr, ht, -⟩ := h
    have hcount : left.count = left.entries.length := hl.count_eq
    rw [holding?]
    by_cases hleft : offset < base + left.total
    · obtain ⟨k, found, hk, hh, hle, hlt⟩ := ihl hl index hbase hleft
      have hlen : k < left.entries.length := (List.getElem?_eq_some_iff.mp hk).1
      refine ⟨k, found, ?_, ?_⟩
      · rw [entries_node, List.getElem?_append_left hlen, hk]
      · rw [if_pos hleft, startOf_node_left (Nat.le_of_lt hlen)]
        exact ⟨hh, hle, hlt⟩
    · rw [if_neg hleft]
      by_cases hentry : offset < base + left.total + entry.extent.total
      · refine ⟨left.entries.length, entry, by simp, ?_⟩
        rw [if_pos hentry, startOf_node_left (Nat.le_refl _), hl.startOf_length, hcount]
        exact ⟨rfl, by omega, hentry⟩
      · have hright : offset < base + left.total + entry.extent.total + right.total := by
          simp only [LineTree.total] at hoffset
          omega
        obtain ⟨k, found, hk, hh, hle, hlt⟩ := ihr hr (index + left.count + 1)
          (Nat.le_of_not_lt hentry) hright
        refine ⟨left.entries.length + k + 1, found, ?_, ?_⟩
        · rw [entries_node, List.getElem?_append_right (by omega)]
          simpa [Nat.add_assoc, Nat.add_sub_add_left] using hk
        · rw [if_neg hentry, hh, startOf_node_right, ← hl.total_eq_size, hcount]
          refine ⟨?_, by omega, by omega⟩
          simp [Nat.add_comm, Nat.add_left_comm]

lemma Summed.extents_split {tree : LineTree} (h : tree.Summed) {k : Nat}
    (hk : k ≤ tree.entries.length) :
    (tree.split k).1.extents = tree.extents.take k ∧
      (tree.split k).2.extents = tree.extents.drop k := by
  have hlen := length_split (k := k) h
  rw [Nat.min_eq_left hk] at hlen
  have heq : (tree.split k).1.extents ++ (tree.split k).2.extents = tree.extents := by
    simp only [extents, ← List.map_append, entries_split]
  rw [← heq]
  exact ⟨by rw [List.take_left' (by simpa using hlen)], by rw [List.drop_left' (by simpa using hlen)]⟩

end LineTree

end EditableText
