import EditableText.Lines.Tree

namespace EditableText.LineTree

def Summed : LineTree → Prop
  | leaf => True
  | node left entry right total count =>
    left.Summed ∧ right.Summed ∧ total = left.total + right.total + entry.extent.total ∧
      count = left.count + right.count + 1

theorem entriesBefore_eq (tree : LineTree) (rest : List LineEntry) :
    tree.entriesBefore rest = tree.entries ++ rest := by
  induction tree generalizing rest with
  | leaf => rfl
  | node left entry right total count ihl ihr =>
    simp only [entries, entriesBefore]
    rw [ihl, ihr, ihl (entry :: right.entriesBefore []), ihr []]
    simp

@[simp] theorem entries_leaf : leaf.entries = [] := rfl

@[simp] theorem entries_node (left right : LineTree) (entry : LineEntry) (total count : Nat) :
    (node left entry right total count).entries = left.entries ++ entry :: right.entries := by
  simp only [entries, entriesBefore]
  rw [entriesBefore_eq]
  rfl

@[simp] theorem entries_join (left right : LineTree) (entry : LineEntry) :
    (join left entry right).entries = left.entries ++ entry :: right.entries := by
  simp [join]

@[simp] theorem entries_append (a b : LineTree) :
    (a.append b).entries = a.entries ++ b.entries := by
  fun_induction append a b with
  | case1 => simp
  | case2 => simp
  | case3 al ae ar at_ ac bl be br bt bc h ih => simp [ih]
  | case4 al ae ar at_ ac bl be br bt bc h ih => simp [ih]

theorem entries_split (k : Nat) (tree : LineTree) :
    (tree.split k).1.entries ++ (tree.split k).2.entries = tree.entries := by
  fun_induction split k tree with
  | case1 => rfl
  | case2 k left entry right total count h front back hs ih =>
    rw [hs] at ih
    simp [← ih]
  | case3 k left entry right total count h front back hs ih =>
    rw [hs] at ih
    simp [← ih]

theorem Summed.count_eq {tree : LineTree} (h : tree.Summed) :
    tree.count = tree.entries.length := by
  induction tree with
  | leaf => rfl
  | node left entry right total count ihl ihr =>
    obtain ⟨hl, hr, _, hc⟩ := h
    change count = _
    rw [hc, ihl hl, ihr hr, entries_node, List.length_append, List.length_cons]
    omega

theorem summed_join {left right : LineTree} (entry : LineEntry) (hl : left.Summed)
    (hr : right.Summed) : (join left entry right).Summed :=
  ⟨hl, hr, rfl, rfl⟩

theorem summed_append {a b : LineTree} (ha : a.Summed) (hb : b.Summed) :
    (a.append b).Summed := by
  fun_induction append a b with
  | case1 => exact hb
  | case2 => exact ha
  | case3 al ae ar at_ ac bl be br bt bc h ih => exact summed_join ae ha.1 (ih ha.2.1 hb)
  | case4 al ae ar at_ ac bl be br bt bc h ih => exact summed_join be (ih ha hb.1) hb.2.1

theorem summed_split (k : Nat) {tree : LineTree} (h : tree.Summed) :
    (tree.split k).1.Summed ∧ (tree.split k).2.Summed := by
  fun_induction split k tree with
  | case1 => exact ⟨trivial, trivial⟩
  | case2 k left entry right total count hk front back hs ih =>
    rw [hs] at ih
    exact ⟨(ih h.1).1, summed_join entry (ih h.1).2 h.2.1⟩
  | case3 k left entry right total count hk front back hs ih =>
    rw [hs] at ih
    exact ⟨summed_join entry h.1 (ih h.2.1).1, (ih h.2.1).2⟩

theorem length_split {k : Nat} {tree : LineTree} (h : tree.Summed) :
    (tree.split k).1.entries.length = min k tree.entries.length := by
  fun_induction split k tree with
  | case1 => simp
  | case2 k left entry right total count hk front back hs ih =>
    rw [hs] at ih
    rw [h.1.count_eq] at hk
    simp [ih h.1]
    omega
  | case3 k left entry right total count hk front back hs ih =>
    rw [hs] at ih
    rw [h.1.count_eq] at hk ih
    simp [ih h.2.1]
    omega

end EditableText.LineTree
