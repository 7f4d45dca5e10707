import EditableText.Proofs.Except
import EditableText.Proofs.Lines.Rescan
import Mathlib.Data.List.Nodup

namespace EditableText

namespace LineTree

def slots (tree : LineTree) : List Nat := tree.entries.map (·.slot)

@[simp] lemma slots_leaf : leaf.slots = [] := rfl

@[simp] lemma slots_node (left right : LineTree) (entry : LineEntry) (total count : Nat) :
    (node left entry right total count).slots = left.slots ++ entry.slot :: right.slots := by
  simp [slots]

@[simp] lemma slots_append (a b : LineTree) : (a.append b).slots = a.slots ++ b.slots := by
  simp [slots]

@[simp] lemma slots_single (entry : LineEntry) : (single entry).slots = [entry.slot] := rfl

lemma slots_split (k : Nat) (tree : LineTree) :
    (tree.split k).1.slots ++ (tree.split k).2.slots = tree.slots := by
  simp only [slots, ← List.map_append, entries_split]

lemma slotsBefore_perm (tree : LineTree) (rest : List Nat) :
    (tree.slotsBefore rest).Perm (tree.slots ++ rest) := by
  induction tree generalizing rest with
  | leaf => exact .refl _
  | node left entry right total count ihl ihr =>
    have hboth : (right.slotsBefore (left.slotsBefore rest)).Perm (right.slots ++ (left.slots ++ rest)) :=
      (ihr _).trans ((ihl rest).append_left _)
    have hswap : (right.slots ++ (left.slots ++ rest)).Perm (left.slots ++ (right.slots ++ rest)) := by
      simp only [← List.append_assoc]
      exact List.perm_append_comm.append_right rest
    rw [slotsBefore, slots_node, List.append_assoc, List.cons_append]
    exact ((hboth.trans hswap).cons _).trans List.perm_middle.symm

def Under (bound : UInt32) : LineTree → Prop
  | leaf => True
  | node _ entry _ _ _ => entry.priority ≤ bound

def Heaped : LineTree → Prop
  | leaf => True
  | node left entry right _ _ =>
    left.Heaped ∧ right.Heaped ∧ left.Under entry.priority ∧ right.Under entry.priority

lemma Under.mono {tree : LineTree} {bound bound' : UInt32} (h : tree.Under bound) (hle : bound ≤ bound') :
    tree.Under bound' := by
  cases tree with
  | leaf => trivial
  | node left entry right total count => exact UInt32.le_trans h hle

lemma under_append {a b : LineTree} {bound : UInt32} (ha : a.Under bound) (hb : b.Under bound) :
    (a.append b).Under bound := by
  fun_cases append a b with
  | case1 => exact hb
  | case2 => exact ha
  | case3 => exact ha
  | case4 => exact hb

lemma heaped_append {a b : LineTree} (ha : a.Heaped) (hb : b.Heaped) : (a.append b).Heaped := by
  fun_induction append a b with
  | case1 => exact hb
  | case2 => exact ha
  | case3 al ae ar atotal ac bl be br bt bc h ih =>
    obtain ⟨hal, har, hul, hur⟩ := ha
    exact ⟨hal, ih har hb, hul, under_append hur (UInt32.le_of_lt h)⟩
  | case4 al ae ar atotal ac bl be br bt bc h ih =>
    obtain ⟨hbl, hbr, hul, hur⟩ := hb
    exact ⟨ih ha hbl, hbr, under_append (UInt32.not_lt.mp h) hul, hur⟩

lemma under_split (k : Nat) {tree : LineTree} {bound : UInt32} (h : tree.Heaped) (hu : tree.Under bound) :
    (tree.split k).1.Under bound ∧ (tree.split k).2.Under bound := by
  fun_induction split k tree with
  | case1 => exact ⟨trivial, trivial⟩
  | case2 k left entry right total count hk front back hs ih =>
    rw [hs] at ih
    exact ⟨(ih h.1 (h.2.2.1.mono hu)).1, hu⟩
  | case3 k left entry right total count hk front back hs ih =>
    rw [hs] at ih
    exact ⟨hu, (ih h.2.1 (h.2.2.2.mono hu)).2⟩

lemma heaped_split (k : Nat) {tree : LineTree} (h : tree.Heaped) :
    (tree.split k).1.Heaped ∧ (tree.split k).2.Heaped := by
  fun_induction split k tree with
  | case1 => exact ⟨trivial, trivial⟩
  | case2 k left entry right total count hk front back hs ih =>
    have hu := under_split k h.1 h.2.2.1
    rw [hs] at ih hu
    exact ⟨(ih h.1).1, (ih h.1).2, h.2.1, hu.2, h.2.2.2⟩
  | case3 k left entry right total count hk front back hs ih =>
    have hu := under_split (k - left.count - 1) h.2.1 h.2.2.2
    rw [hs] at ih hu
    exact ⟨⟨h.1, (ih h.2.1).1, h.2.2.1, hu.1⟩, (ih h.2.1).2⟩

lemma extents_of_split (k : Nat) (tree : LineTree) :
    (tree.split k).1.extents ++ (tree.split k).2.extents = tree.extents := by
  simp only [extents, ← List.map_append, entries_split]

@[simp] lemma leaf_append (tree : LineTree) : leaf.append tree = tree := by
  rw [append]

@[simp] lemma append_leaf (tree : LineTree) : tree.append leaf = tree := by
  cases tree <;> simp [append]

structure Treap (tree : LineTree) : Prop where
  summed : tree.Summed
  heaped : tree.Heaped

lemma Treap.append {a b : LineTree} (ha : a.Treap) (hb : b.Treap) : (a.append b).Treap :=
  ⟨summed_append ha.summed hb.summed, heaped_append ha.heaped hb.heaped⟩

lemma Treap.split {tree : LineTree} (h : tree.Treap) (k : Nat) :
    (tree.split k).1.Treap ∧ (tree.split k).2.Treap :=
  ⟨⟨(summed_split k h.summed).1, (heaped_split k h.heaped).1⟩,
    ⟨(summed_split k h.summed).2, (heaped_split k h.heaped).2⟩⟩

lemma treap_leaf : leaf.Treap := ⟨trivial, trivial⟩

lemma treap_single (entry : LineEntry) : (single entry).Treap :=
  ⟨summed_single entry, trivial, trivial, trivial, trivial⟩

end LineTree

namespace NodeSupply

def Parts (supply : NodeSupply) (used : List Nat) : Prop :=
  (used ++ supply.released).Perm (List.range supply.slotCount)

variable {supply : NodeSupply} {used : List Nat}

namespace Parts

lemma congr (h : supply.Parts used) {used' : List Nat} (hp : used'.Perm used) : supply.Parts used' :=
  (hp.append_right _).trans h

lemma nodup (h : supply.Parts used) : (used ++ supply.released).Nodup :=
  (List.Perm.nodup_iff h).mpr List.nodup_range

lemma mem_iff (h : supply.Parts used) {slot : Nat} :
    slot ∈ used ∨ slot ∈ supply.released ↔ slot < supply.slotCount := by
  rw [← List.mem_append, List.Perm.mem_iff h, List.mem_range]

lemma length_eq (h : supply.Parts used) : used.length + supply.released.length = supply.slotCount := by
  simpa using List.Perm.length_eq h

lemma take (h : supply.Parts used) (extent : LineExtent) :
    (supply.take extent).2.Parts ((supply.take extent).1.slot :: used) ∧
      (supply.take extent).2.slotCount = max supply.slotCount (used.length + 1) := by
  have hlength := h.length_eq
  rw [NodeSupply.take]
  cases hreleased : supply.released with
  | nil =>
    rw [hreleased, List.length_nil, Nat.add_zero] at hlength
    simp only [Parts, hreleased, List.append_nil] at h ⊢
    refine ⟨?_, by omega⟩
    rw [List.range_succ]
    exact (h.cons _).trans (List.perm_append_singleton _ _).symm
  | cons slot released =>
    rw [hreleased, List.length_cons] at hlength
    simp only [Parts, hreleased] at h ⊢
    exact ⟨List.perm_middle.symm.trans h, by omega⟩

lemma append_take {tree : LineTree} {others : List Nat} (h : supply.Parts (tree.slots ++ others))
    (extent : LineExtent) :
    (supply.take extent).2.Parts ((tree.append (.single (supply.take extent).1)).slots ++ others) := by
  apply (h.take extent).1.congr
  rw [LineTree.slots_append, List.append_assoc]
  exact List.perm_middle

lemma grow {tree : LineTree} {others : List Nat} (h : supply.Parts (tree.slots ++ others))
    (extents : List LineExtent) :
    (NodeSupply.grow tree supply extents).2.Parts ((NodeSupply.grow tree supply extents).1.slots ++ others) ∧
      (NodeSupply.grow tree supply extents).2.slotCount =
        max supply.slotCount (tree.slots.length + extents.length + others.length) := by
  induction extents generalizing tree supply with
  | nil =>
    have hlength := h.length_eq
    rw [List.length_append] at hlength
    exact ⟨h, by simp only [NodeSupply.grow, List.length_nil]; omega⟩
  | cons extent rest ih =>
    obtain ⟨hgrown, hmax⟩ := ih (h.append_take extent)
    refine ⟨hgrown, ?_⟩
    rw [NodeSupply.grow, hmax, (h.take extent).2]
    simp only [List.length_append, List.length_cons, LineTree.slots_append, LineTree.slots_single, List.length_nil]
    omega

lemma build {front back : LineTree} (h : supply.Parts (front.slots ++ back.slots)) (extents : List LineExtent) :
    (supply.build extents).2.Parts ((front.append (supply.build extents).1).append back).slots := by
  have hleaf : supply.Parts (LineTree.leaf.slots ++ (front.slots ++ back.slots)) := h
  refine (hleaf.grow extents).1.congr ?_
  rw [LineTree.slots_append, LineTree.slots_append, ← List.append_assoc]
  exact List.perm_append_comm.append_right _

lemma release {old : LineTree} (h : supply.Parts (old.slots ++ used)) : (supply.release old).Parts used := by
  have hfreed : ((old.slotsBefore []).reverse).Perm old.slots := by
    simpa using (List.reverse_perm _).trans (old.slotsBefore_perm [])
  have hswap : (used ++ (old.slots ++ supply.released)).Perm (old.slots ++ used ++ supply.released) := by
    rw [List.append_assoc]
    simp only [← List.append_assoc]
    exact List.perm_append_comm.append_right _
  exact (((hfreed.append_right _).append_left _).trans hswap).trans h

end Parts

lemma treap_grow {tree : LineTree} (h : tree.Treap) (supply : NodeSupply) (extents : List LineExtent) :
    (grow tree supply extents).1.Treap := by
  induction extents generalizing tree supply with
  | nil => exact h
  | cons extent rest ih => exact ih (h.append (LineTree.treap_single _)) _

end NodeSupply

lemma LineExtent.delimiter_le_total {breaks : LineBreaks} {current : Nat} {t : Text} {extent : LineExtent}
    (h : extent ∈ scanFrom breaks current t) : extent.delimiter ≤ extent.total := by
  fun_induction scanFrom breaks current t with
  | case1 current => simp_all
  | case2 current t ih => rcases List.mem_cons.mp h with rfl | h <;> grind
  | case3 current t ih => rcases List.mem_cons.mp h with rfl | h <;> grind
  | case4 current c t hlf hcrlf hc ih => rcases List.mem_cons.mp h with rfl | h <;> grind
  | case5 current c t hlf hcrlf hc ih => exact ih h

namespace LineTable

structure Kept (table : LineTable) : Prop where
  treap : table.tree.Treap
  delimiter_le : ∀ extent ∈ table.extents, extent.delimiter ≤ extent.total
  parts : table.supply.Parts table.tree.slots

variable {table after : LineTable} {counts : List Nat}

lemma Kept.nodup_slots (h : table.Kept) : table.tree.slots.Nodup := (List.nodup_append.mp h.parts.nodup).1

lemma Kept.length_slots (h : table.Kept) : table.tree.slots.length = table.lineCount := by
  rw [LineTree.slots, List.length_map, lineCount, h.treap.summed.count_eq]

lemma kept_between {front back : LineTree} {supply : NodeSupply} {fresh : List LineExtent}
    (hfront : front.Treap) (hback : back.Treap)
    (hparts : supply.Parts (front.slots ++ back.slots))
    (hextents : ∀ extent ∈ front.extents ++ (fresh ++ back.extents), extent.delimiter ≤ extent.total)
    (breaks : LineBreaks) {table : LineTable}
    (htable : table = ⟨(front.append (supply.build fresh).1).append back, (supply.build fresh).2, breaks⟩) :
    table.Kept ∧ table.supply.slotCount = max supply.slotCount table.lineCount := by
  have hothers : supply.Parts (LineTree.leaf.slots ++ (front.slots ++ back.slots)) := hparts
  have hcount := (hothers.grow fresh).2
  have hbuilt : (supply.build fresh).1.extents = fresh := NodeSupply.extents_grow .leaf supply fresh
  have hlength : (supply.build fresh).1.slots.length = fresh.length := by
    rw [LineTree.slots, List.length_map, ← LineTree.length_extents, hbuilt]
  have htreap : (supply.build fresh).1.Treap := NodeSupply.treap_grow LineTree.treap_leaf _ _
  have hkept : table.Kept := by
    subst htable
    refine ⟨(hfront.append htreap).append hback, fun extent hmem => hextents extent ?_, hparts.build fresh⟩
    change extent ∈ LineTree.extents _ at hmem
    rwa [LineTree.extents_append, LineTree.extents_append, hbuilt, List.append_assoc] at hmem
  refine ⟨hkept, ?_⟩
  rw [← hkept.length_slots]
  subst htable
  change (NodeSupply.grow .leaf supply fresh).2.slotCount = _
  rw [hcount, LineTree.slots_append, LineTree.slots_append, LineTree.slots_leaf]
  simp only [List.length_append, List.length_nil, hlength]
  omega

lemma kept_built {supply : NodeSupply} (hempty : supply.released = [] ∧ supply.slotCount = 0)
    {fresh : List LineExtent} (hextents : ∀ extent ∈ fresh, extent.delimiter ≤ extent.total)
    (breaks : LineBreaks) {table : LineTable}
    (htable : table = ⟨(supply.build fresh).1, (supply.build fresh).2, breaks⟩) :
    table.Kept ∧ table.supply.slotCount = table.lineCount := by
  have hparts : supply.Parts (LineTree.leaf.slots ++ LineTree.leaf.slots) := by
    simp [NodeSupply.Parts, hempty]
  rw [← LineTree.leaf_append (supply.build fresh).1, ← LineTree.append_leaf (LineTree.append _ _)] at htable
  obtain ⟨hkept, hcount⟩ := kept_between LineTree.treap_leaf LineTree.treap_leaf hparts (by simpa using hextents)
    breaks htable
  rw [hempty.2, Nat.zero_max] at hcount
  exact ⟨hkept, hcount⟩

lemma kept_empty (breaks : LineBreaks) :
    (empty breaks).Kept ∧ (empty breaks).supply.slotCount = (empty breaks).lineCount := by
  have hextents : ∀ extent ∈ [(⟨0, 0⟩ : LineExtent)], extent.delimiter ≤ extent.total := by simp
  have hsupply : NodeSupply.initial.released = [] ∧ NodeSupply.initial.slotCount = 0 := ⟨rfl, rfl⟩
  exact kept_built hsupply hextents breaks rfl

lemma kept_rebuild (table : LineTable) (t : Text) :
    (table.rebuild t).Kept ∧ (table.rebuild t).supply.slotCount = (table.rebuild t).lineCount := by
  have hsupply : table.supply.restart.released = [] ∧ table.supply.restart.slotCount = 0 := ⟨rfl, rfl⟩
  exact kept_built hsupply (fun _ => LineExtent.delimiter_le_total) table.breaks rfl

namespace Kept

lemma parts_release (h : table.Kept) (first count : Nat) :
    (table.supply.release ((table.tree.split first).2.split count).1).Parts
      ((table.tree.split first).1.slots ++ ((table.tree.split first).2.split count).2.slots) := by
  refine NodeSupply.Parts.release (h.parts.congr ?_)
  rw [← LineTree.slots_split first table.tree, ← LineTree.slots_split count (table.tree.split first).2,
    ← List.append_assoc, ← List.append_assoc]
  exact List.perm_append_comm.append_right _

lemma replaceRegion (h : table.Kept) (region : Region) {fresh : List LineExtent}
    (hfresh : ∀ extent ∈ fresh, extent.delimiter ≤ extent.total) :
    (table.replaceRegion region fresh).Kept ∧
      (table.replaceRegion region fresh).supply.slotCount =
        max table.supply.slotCount (table.replaceRegion region fresh).lineCount := by
  have hfront := h.treap.split region.first
  have hback := hfront.2.split (region.last - region.first + 1)
  have hextents := LineTree.extents_of_split region.first table.tree
  have hcut := LineTree.extents_of_split (region.last - region.first + 1) (table.tree.split region.first).2
  refine kept_between hfront.1 hback.2 (h.parts_release _ _) ?_ table.breaks rfl
  intro extent hmem
  have hold := h.delimiter_le extent
  rw [LineTable.extents, ← LineTree.extents, ← hextents, ← hcut] at hold
  simp only [List.mem_append] at hmem hold
  rcases hmem with hmem | hmem | hmem
  · exact hold (.inl hmem)
  · exact hfresh extent hmem
  · exact hold (.inr (.inr hmem))

lemma applyEdit (h : table.Kept) {σ : Type} [TextSource σ] {source : σ} {offset removed inserted : Nat}
    (hafter : table.applyEdit source offset removed inserted = .ok after) :
    after.Kept ∧ after.supply.slotCount = max table.supply.slotCount after.lineCount := by
  obtain ⟨-, -, hafter⟩ := exists_of_bind_eq_ok hafter
  cases hregion : table.regionOf? offset removed with
  | none => simp [hregion] at hafter
  | some region =>
    rw [hregion] at hafter
    obtain rfl := Except.ok.inj hafter
    refine h.replaceRegion region fun extent hmem => ?_
    rw [rescan] at hmem
    split at hmem
    · exact LineExtent.delimiter_le_total hmem
    · exact LineExtent.delimiter_le_total (List.dropLast_subset _ hmem)

end Kept

end LineTable

end EditableText
