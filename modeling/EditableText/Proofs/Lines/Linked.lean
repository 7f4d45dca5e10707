import EditableText.Proofs.Lines.Arena
import Mathlib.Data.List.Perm.Subperm

/-!
The nodes of a line table as they stand in their slots, linked by the slots of their children, and worked on
in place. There is no outcome where a link leads to no slot, or where links lead further down than they may.
-/

namespace EditableText

structure LineNode where
  left : Option Nat
  right : Option Nat
  priority : UInt32
  extent : LineExtent
  total : Nat
  count : Nat
  deriving Repr, DecidableEq

namespace LineTree

lemma length_slots_node (left right : LineTree) (entry : LineEntry) (total count : Nat) :
    (node left entry right total count).slots.length = left.slots.length + right.slots.length + 1 := by
  rw [slots_node, List.length_append, List.length_cons]
  omega

lemma nodup_slots_node {left right : LineTree} {entry : LineEntry} {total count : Nat} :
    (node left entry right total count).slots.Nodup ↔ left.slots.Nodup ∧ right.slots.Nodup ∧
      entry.slot ∉ left.slots ∧ entry.slot ∉ right.slots ∧ ∀ slot ∈ left.slots, slot ∉ right.slots := by
  rw [slots_node, List.nodup_append, List.nodup_cons]
  grind

lemma nodup_slots_left {left right : LineTree} {entry : LineEntry} {total count : Nat} {slots : List Nat}
    (h : ((node left entry right total count).slots ++ slots).Nodup) :
    (right.slots ++ slots).Nodup ∧ entry.slot ∉ left.slots ∧ entry.slot ∉ right.slots ++ slots ∧
      ∀ slot ∈ left.slots, slot ∉ right.slots ++ slots := by
  rw [slots_node, List.append_assoc, List.cons_append, List.nodup_append, List.nodup_cons] at h
  grind

lemma nodup_slots_right {left right : LineTree} {entry : LineEntry} {total count : Nat} {slots : List Nat}
    (h : (slots ++ (node left entry right total count).slots).Nodup) :
    (slots ++ left.slots).Nodup ∧ entry.slot ∉ slots ++ left.slots ∧ entry.slot ∉ right.slots ∧
      ∀ slot ∈ right.slots, slot ∉ slots ++ left.slots := by
  rw [slots_node, ← List.append_assoc, List.nodup_append, List.nodup_cons] at h
  grind

lemma slotsBefore_eq (tree : LineTree) (rest : List Nat) :
    tree.slotsBefore rest = tree.slotsBefore [] ++ rest := by
  induction tree generalizing rest with
  | leaf => rfl
  | node left entry right total count ihl ihr =>
    rw [slotsBefore, slotsBefore, ihr, ihl, ihr (left.slotsBefore [])]
    simp

lemma mem_slots_split (k : Nat) (tree : LineTree) :
    (∀ slot ∈ (tree.split k).1.slots, slot ∈ tree.slots) ∧
      ∀ slot ∈ (tree.split k).2.slots, slot ∈ tree.slots := by
  rw [← slots_split k tree]
  exact ⟨fun _ => List.mem_append_left _, fun _ => List.mem_append_right _⟩

lemma mem_of_atIndex? {tree : LineTree} {index base start : Nat} {entry : LineEntry}
    (h : tree.atIndex? index base = some (entry, start)) : entry ∈ tree.entries := by
  fun_induction atIndex? index base tree with grind [entries_node]

lemma mem_of_holding? {tree : LineTree} {offset index base : Nat} {place : Place}
    (h : tree.holding? offset index base = some place) : place.entry ∈ tree.entries := by
  fun_induction holding? offset index base tree with grind [entries_node]

end LineTree

section Operations

variable (nodes : Array LineNode)

def totalAt? : Option Nat → Option Nat
  | none => some 0
  | some slot => do return (← nodes[slot]?).total

def countAt? : Option Nat → Option Nat
  | none => some 0
  | some slot => do return (← nodes[slot]?).count

def put? (slot : Nat) (node : LineNode) : Option (Array LineNode) :=
  if h : slot < nodes.size then some (nodes.set slot node h) else none

def relink? (slot : Nat) (change : LineNode → LineNode) : Option (Array LineNode) := do
  let node := change (← nodes[slot]?)
  let nodes ← put? nodes slot node
  let total := (← totalAt? nodes node.left) + (← totalAt? nodes node.right) + node.extent.total
  let count := (← countAt? nodes node.left) + (← countAt? nodes node.right) + 1
  put? nodes slot { node with total, count }

end Operations

def splitAt? (nodes : Array LineNode) (depth : Nat) (link : Option Nat) (k : Nat) :
    Option (Array LineNode × Option Nat × Option Nat) :=
  match depth, link with
  | _, none => some (nodes, none, none)
  | 0, some _ => none
  | depth + 1, some slot => do
    let node ← nodes[slot]?
    let before ← countAt? nodes node.left
    if k ≤ before then
      let (nodes, front, back) ← splitAt? nodes depth node.left k
      return (← relink? nodes slot ({ · with left := back }), front, some slot)
    else
      let (nodes, front, back) ← splitAt? nodes depth node.right (k - before - 1)
      return (← relink? nodes slot ({ · with right := front }), some slot, back)

def merge? (nodes : Array LineNode) (depth : Nat) (a b : Option Nat) : Option (Array LineNode × Option Nat) :=
  match depth, a, b with
  | _, none, b => some (nodes, b)
  | _, some a, none => some (nodes, some a)
  | 0, some _, some _ => none
  | depth + 1, some a, some b => do
    let first ← nodes[a]?
    let second ← nodes[b]?
    if second.priority < first.priority then
      let (nodes, merged) ← merge? nodes depth first.right (some b)
      return (← relink? nodes a ({ · with right := merged }), some a)
    else
      let (nodes, merged) ← merge? nodes depth (some a) second.left
      return (← relink? nodes b ({ · with left := merged }), some b)

/-- Frees what the links of a stack lead to; of two children the right one goes first. -/
def free? (nodes : Array LineNode) (steps : Nat) (released : List Nat) (stack : List (Option Nat)) :
    Option (List Nat) :=
  match steps, stack with
  | _, [] => some released
  | 0, _ :: _ => none
  | steps + 1, none :: stack => free? nodes steps released stack
  | steps + 1, some slot :: stack => do
    let node ← nodes[slot]?
    free? nodes steps (slot :: released) (node.right :: node.left :: stack)

def seekIndex? (nodes : Array LineNode) (depth : Nat) (link : Option Nat) (index base : Nat) :
    Option (Nat × Nat) :=
  match depth, link with
  | depth + 1, some slot => do
    let node ← nodes[slot]?
    let before ← countAt? nodes node.left
    if index < before then seekIndex? nodes depth node.left index base
    else
      let start := base + (← totalAt? nodes node.left)
      if index = before then return (slot, start)
      else seekIndex? nodes depth node.right (index - (before + 1)) (start + node.extent.total)
  | _, _ => none

def seekOffset? (nodes : Array LineNode) (depth : Nat) (link : Option Nat) (offset index base : Nat) :
    Option (Nat × Nat × Nat) :=
  match depth, link with
  | depth + 1, some slot => do
    let node ← nodes[slot]?
    let start := base + (← totalAt? nodes node.left)
    if offset < start then seekOffset? nodes depth node.left offset index base
    else
      let before ← countAt? nodes node.left
      if offset < start + node.extent.total then return (slot, index + before, start)
      else seekOffset? nodes depth node.right offset (index + before + 1) (start + node.extent.total)
  | _, _ => none

/-- The links that start at a slot lead to the nodes of a tree and end there. -/
inductive Links (nodes : Array LineNode) : Option Nat → LineTree → Prop
  | leaf : Links nodes none .leaf
  | node {l r : Option Nat} {left right : LineTree} {entry : LineEntry} {total count : Nat}
    (hnode : nodes[entry.slot]? = some ⟨l, r, entry.priority, entry.extent, total, count⟩)
    (hl : Links nodes l left) (hr : Links nodes r right) :
    Links nodes (some entry.slot) (.node left entry right total count)

namespace Links

variable {nodes after : Array LineNode} {link link' : Option Nat} {tree a b : LineTree}

lemma congr (h : Links nodes link tree) (hsame : ∀ slot ∈ tree.slots, after[slot]? = nodes[slot]?) :
    Links after link tree := by
  induction h with
  | leaf => exact .leaf
  | @node l r left right entry total count hnode hl hr ihl ihr =>
    simp only [LineTree.slots_node, List.mem_append, List.mem_cons] at hsame
    rw [← hsame entry.slot (.inr (.inl rfl))] at hnode
    exact .node hnode (ihl fun slot hs => hsame slot (.inl hs)) (ihr fun slot hs => hsame slot (.inr (.inr hs)))

lemma lt_size (h : Links nodes link tree) : ∀ slot ∈ tree.slots, slot < nodes.size := by
  induction h with
  | leaf => simp
  | node hnode hl hr ihl ihr =>
    intro slot hs
    rw [LineTree.slots_node, List.mem_append, List.mem_cons] at hs
    rcases hs with hleft | rfl | hright
    · exact ihl slot hleft
    · exact (Array.getElem?_eq_some_iff.mp hnode).1
    · exact ihr slot hright

lemma length_le (ha : Links nodes link a) (hb : Links nodes link' b) (hnodup : (a.slots ++ b.slots).Nodup) :
    a.slots.length + b.slots.length ≤ nodes.size := by
  have hsub : a.slots ++ b.slots ⊆ List.range nodes.size := by
    intro slot hs
    exact List.mem_range.mpr ((List.mem_append.mp hs).elim (ha.lt_size slot) (hb.lt_size slot))
  simpa using (hnodup.subperm hsub).length_le

lemma length_slots_le (h : Links nodes link tree) (hnodup : tree.slots.Nodup) :
    tree.slots.length ≤ nodes.size := by
  simpa using h.length_le .leaf (by simpa using hnodup)

lemma totalAt?_eq (h : Links nodes link tree) : totalAt? nodes link = some tree.total := by
  cases h with
  | leaf => rfl
  | node hnode => simp [totalAt?, hnode, LineTree.total]

lemma countAt?_eq (h : Links nodes link tree) : countAt? nodes link = some tree.count := by
  cases h with
  | leaf => rfl
  | node hnode => simp [countAt?, hnode, LineTree.count]

lemma single {entry : LineEntry}
    (hnode : nodes[entry.slot]? = some ⟨none, none, entry.priority, entry.extent, entry.extent.total, 1⟩) :
    Links nodes (some entry.slot) (.single entry) := by
  rw [← Nat.zero_add entry.extent.total] at hnode
  exact .node hnode .leaf .leaf

lemma extent_of_mem (h : Links nodes link tree) {entry : LineEntry} (hmem : entry ∈ tree.entries) :
    ∃ node, nodes[entry.slot]? = some node ∧ node.extent = entry.extent := by
  induction h with
  | leaf => simp at hmem
  | node hnode hl hr ihl ihr =>
    rw [LineTree.entries_node, List.mem_append, List.mem_cons] at hmem
    rcases hmem with hleft | rfl | hright
    · exact ihl hleft
    · exact ⟨_, hnode, rfl⟩
    · exact ihr hright

end Links

structure WritesIn (slots : List Nat) (nodes after : Array LineNode) : Prop where
  size : after.size = nodes.size
  same : ∀ slot ∉ slots, after[slot]? = nodes[slot]?

namespace WritesIn

variable {nodes mid after : Array LineNode} {slots slots' : List Nat}

lemma refl (slots : List Nat) (nodes : Array LineNode) : WritesIn slots nodes nodes := ⟨rfl, fun _ _ => rfl⟩

lemma trans (h : WritesIn slots nodes mid) (h' : WritesIn slots mid after) : WritesIn slots nodes after :=
  ⟨h'.size.trans h.size, fun slot hs => (h'.same slot hs).trans (h.same slot hs)⟩

lemma mono (h : WritesIn slots nodes after) (hsub : ∀ slot ∈ slots, slot ∈ slots') :
    WritesIn slots' nodes after :=
  ⟨h.size, fun slot hs => h.same slot fun hin => hs (hsub slot hin)⟩

lemma links (h : WritesIn slots nodes after) {link : Option Nat} {tree : LineTree} (hlinks : Links nodes link tree)
    (hapart : ∀ slot ∈ tree.slots, slot ∉ slots) : Links after link tree :=
  hlinks.congr fun slot hs => h.same slot (hapart slot hs)

end WritesIn

lemma put?_eq {nodes : Array LineNode} {slot : Nat} (h : slot < nodes.size) (node : LineNode) :
    ∃ after, put? nodes slot node = some after ∧ after[slot]? = some node ∧ WritesIn [slot] nodes after := by
  refine ⟨nodes.set slot node h, dif_pos h, by simp, by simp, fun other hne => ?_⟩
  rw [Array.getElem?_set_ne h (by simpa [eq_comm] using hne)]

namespace Links

variable {nodes : Array LineNode} {link link' l r : Option Nat} {tree a b left right : LineTree}

lemma relink? {entry : LineEntry} {node : LineNode} {total count : Nat} (change : LineNode → LineNode)
    (hnode : nodes[entry.slot]? = some node)
    (hchange : change node = ⟨l, r, entry.priority, entry.extent, total, count⟩)
    (hl : Links nodes l left) (hr : Links nodes r right) (hleft : entry.slot ∉ left.slots)
    (hright : entry.slot ∉ right.slots) :
    ∃ after, EditableText.relink? nodes entry.slot change = some after ∧
      Links after (some entry.slot) (.join left entry right) ∧ WritesIn [entry.slot] nodes after := by
  have hslot : entry.slot < nodes.size := (Array.getElem?_eq_some_iff.mp hnode).1
  have apart {tree : LineTree} (h : entry.slot ∉ tree.slots) : ∀ slot ∈ tree.slots, slot ∉ [entry.slot] := by
    intro slot hs hin
    obtain rfl := List.mem_singleton.mp hin
    exact h hs
  obtain ⟨mid, hmid, -, hwrote⟩ := put?_eq hslot (change node)
  have hlmid := hwrote.links hl (apart hleft)
  have hrmid := hwrote.links hr (apart hright)
  obtain ⟨after, hafter, hstands, hwrote'⟩ := put?_eq (hwrote.size ▸ hslot)
    ⟨l, r, entry.priority, entry.extent, left.total + right.total + entry.extent.total,
      left.count + right.count + 1⟩
  refine ⟨after, ?_, .node hstands (hwrote'.links hlmid (apart hleft)) (hwrote'.links hrmid (apart hright)),
    hwrote.trans hwrote'⟩
  rw [EditableText.relink?, hnode]
  simp only [Option.bind_eq_bind, Option.bind_some]
  rw [hmid]
  simp only [Option.bind_some, hchange, hlmid.totalAt?_eq, hrmid.totalAt?_eq, hlmid.countAt?_eq, hrmid.countAt?_eq]
  exact hafter

lemma splitAt? (h : Links nodes link tree) (hnodup : tree.slots.Nodup) {depth : Nat}
    (hdepth : tree.slots.length ≤ depth) (k : Nat) :
    ∃ after front back, EditableText.splitAt? nodes depth link k = some (after, front, back) ∧
      Links after front (tree.split k).1 ∧ Links after back (tree.split k).2 ∧
      WritesIn tree.slots nodes after := by
  induction h generalizing k depth with
  | leaf => exact ⟨nodes, none, none, by cases depth <;> rfl, .leaf, .leaf, .refl _ _⟩
  | @node l r left right entry total count hnode hl hr ihl ihr =>
    rw [LineTree.length_slots_node] at hdepth
    obtain ⟨depth, rfl⟩ := Nat.exists_eq_add_one.mpr (show 0 < depth by omega)
    have hdepthLeft : left.slots.length ≤ depth := by omega
    have hdepthRight : right.slots.length ≤ depth := by omega
    obtain ⟨hleft, hright, hentryLeft, hentryRight, hapart⟩ := LineTree.nodup_slots_node.mp hnodup
    rw [EditableText.splitAt?, hnode]
    simp only [Option.bind_eq_bind, Option.bind_some, hl.countAt?_eq, LineTree.split]
    split
    case isTrue hk =>
      obtain ⟨mid, front, back, hmid, hfront, hback, hwrote⟩ := ihl hleft hdepthLeft k
      have hkept := (hwrote.same _ hentryLeft).trans hnode
      have hrest := hwrote.links hr fun slot hs hin => hapart slot hin hs
      have hin := LineTree.mem_slots_split k left
      obtain ⟨after, hafter, hjoined, hwrote'⟩ := relink? ({ · with left := back }) hkept rfl hback hrest
        (fun hs => hentryLeft (hin.2 _ hs)) hentryRight
      refine ⟨after, front, some entry.slot, ?_, ?_, hjoined, ?_⟩
      · rw [hmid]
        simp only [Option.bind_some, hafter]
        rfl
      · exact hwrote'.links hfront fun slot hs heq => hentryLeft (List.mem_singleton.mp heq ▸ hin.1 _ hs)
      · exact (hwrote.mono (by simp +contextual)).trans (hwrote'.mono (by simp))
    case isFalse hk =>
      obtain ⟨mid, front, back, hmid, hfront, hback, hwrote⟩ :=
        ihr hright hdepthRight (k - left.count - 1)
      have hkept := (hwrote.same _ hentryRight).trans hnode
      have hrest := hwrote.links hl hapart
      have hin := LineTree.mem_slots_split (k - left.count - 1) right
      obtain ⟨after, hafter, hjoined, hwrote'⟩ := relink? ({ · with right := front }) hkept rfl hrest hfront
        hentryLeft (fun hs => hentryRight (hin.1 _ hs))
      refine ⟨after, some entry.slot, back, ?_, hjoined, ?_, ?_⟩
      · rw [hmid]
        simp only [Option.bind_some, hafter]
        rfl
      · exact hwrote'.links hback fun slot hs heq => hentryRight (List.mem_singleton.mp heq ▸ hin.2 _ hs)
      · exact (hwrote.mono (by simp +contextual)).trans (hwrote'.mono (by simp))

lemma merge? (ha : Links nodes link a) (hb : Links nodes link' b) (hnodup : (a.slots ++ b.slots).Nodup)
    {depth : Nat} (hdepth : a.slots.length + b.slots.length ≤ depth) :
    ∃ after merged, EditableText.merge? nodes depth link link' = some (after, merged) ∧
      Links after merged (a.append b) ∧ WritesIn (a.slots ++ b.slots) nodes after := by
  fun_induction LineTree.append a b generalizing link link' depth with
  | case1 b =>
    cases ha
    exact ⟨nodes, link', by cases depth <;> rfl, hb, .refl _ _⟩
  | case2 a hne =>
    cases hb
    cases ha with
    | leaf => exact absurd rfl hne
    | node hnode hl hr => exact ⟨nodes, _, by cases depth <;> rfl, .node hnode hl hr, .refl _ _⟩
  | case3 al ae ar atotal ac bl be br bt bc h ih =>
    cases ha with | @node al' ar' _ _ _ _ _ hroot hal har =>
    rw [LineTree.length_slots_node al] at hdepth
    obtain ⟨depth, rfl⟩ := Nat.exists_eq_add_one.mpr (show 0 < depth by omega)
    have hdepthRest : ar.slots.length + (LineTree.node bl be br bt bc).slots.length ≤ depth := by omega
    obtain ⟨hrest, hleft, hright, hapart⟩ := LineTree.nodup_slots_left hnodup
    obtain ⟨mid, merged, hmid, hmerged, hwrote⟩ := ih har hb hrest hdepthRest
    have hkept := (hwrote.same _ hright).trans hroot
    obtain ⟨after, hafter, hjoined, hwrote'⟩ := relink? ({ · with right := merged }) hkept rfl
      (hwrote.links hal hapart) hmerged hleft (by rwa [LineTree.slots_append])
    cases hb with | node hbroot hbl hbr =>
    refine ⟨after, some ae.slot, ?_, hjoined, (hwrote.mono ?_).trans (hwrote'.mono ?_)⟩
    · rw [EditableText.merge?, hroot, hbroot]
      simp only [Option.bind_eq_bind, Option.bind_some, if_pos h, hmid, hafter]
      rfl
    · grind [LineTree.slots_node]
    · simp
  | case4 al ae ar atotal ac bl be br bt bc h ih =>
    cases hb with | @node bl' br' _ _ _ _ _ hroot hbl hbr =>
    rw [LineTree.length_slots_node bl] at hdepth
    obtain ⟨depth, rfl⟩ := Nat.exists_eq_add_one.mpr (show 0 < depth by omega)
    have hdepthRest : (LineTree.node al ae ar atotal ac).slots.length + bl.slots.length ≤ depth := by omega
    obtain ⟨hrest, hleft, hright, hapart⟩ := LineTree.nodup_slots_right hnodup
    obtain ⟨mid, merged, hmid, hmerged, hwrote⟩ := ih ha hbl hrest hdepthRest
    have hkept := (hwrote.same _ hleft).trans hroot
    obtain ⟨after, hafter, hjoined, hwrote'⟩ := relink? ({ · with left := merged }) hkept rfl hmerged
      (hwrote.links hbr hapart) (by rwa [LineTree.slots_append]) hright
    cases ha with | node haroot hal har =>
    refine ⟨after, some be.slot, ?_, hjoined, (hwrote.mono ?_).trans (hwrote'.mono ?_)⟩
    · rw [EditableText.merge?, haroot, hroot]
      simp only [Option.bind_eq_bind, Option.bind_some, if_neg h, hmid, hafter]
      rfl
    · grind [LineTree.slots_node]
    · simp

lemma free?_eq (h : Links nodes link tree) (steps : Nat) (released : List Nat) (stack : List (Option Nat)) :
    free? nodes (steps + (2 * tree.slots.length + 1)) released (link :: stack) =
      free? nodes steps ((tree.slotsBefore []).reverse ++ released) stack := by
  induction h generalizing steps released stack with
  | leaf => rfl
  | @node l r left right entry total count hnode hl hr ihl ihr =>
    rw [LineTree.length_slots_node, show steps + (2 * (left.slots.length + right.slots.length + 1) + 1) =
      steps + (2 * left.slots.length + 1) + (2 * right.slots.length + 1) + 1 by omega, free?, hnode]
    simp only [Option.bind_eq_bind, Option.bind_some]
    rw [ihr, ihl, LineTree.slotsBefore, right.slotsBefore_eq (left.slotsBefore [])]
    simp

lemma free?_all (h : Links nodes link tree) (hnodup : tree.slots.Nodup) (released : List Nat) :
    free? nodes (2 * nodes.size + 1) released [link] = some ((tree.slotsBefore []).reverse ++ released) := by
  obtain ⟨spare, hspare⟩ := Nat.exists_eq_add_of_le (h.length_slots_le hnodup)
  rw [show 2 * nodes.size + 1 = 2 * spare + (2 * tree.slots.length + 1) by omega, h.free?_eq, free?]

lemma seekIndex?_eq (h : Links nodes link tree) {depth : Nat} (hdepth : tree.slots.length ≤ depth)
    (index base : Nat) :
    seekIndex? nodes depth link index base =
      (tree.atIndex? index base).map fun found => (found.1.slot, found.2) := by
  induction h generalizing depth index base with
  | leaf => cases depth <;> rfl
  | @node l r left right entry total count hnode hl hr ihl ihr =>
    rw [LineTree.length_slots_node] at hdepth
    obtain ⟨depth, rfl⟩ := Nat.exists_eq_add_one.mpr (show 0 < depth by omega)
    rw [seekIndex?, LineTree.atIndex?]
    simp only [Option.bind_eq_bind, Option.bind_some, hnode, hl.countAt?_eq, hl.totalAt?_eq]
    split
    · exact ihl (by omega) index base
    · split
      · rfl
      · exact ihr (by omega) _ _

lemma seekOffset?_eq (h : Links nodes link tree) {depth : Nat} (hdepth : tree.slots.length ≤ depth)
    (offset index base : Nat) :
    seekOffset? nodes depth link offset index base =
      (tree.holding? offset index base).map fun place => (place.entry.slot, place.index, place.start) := by
  induction h generalizing depth index base with
  | leaf => cases depth <;> rfl
  | @node l r left right entry total count hnode hl hr ihl ihr =>
    rw [LineTree.length_slots_node] at hdepth
    obtain ⟨depth, rfl⟩ := Nat.exists_eq_add_one.mpr (show 0 < depth by omega)
    rw [seekOffset?, LineTree.holding?]
    simp only [Option.bind_eq_bind, Option.bind_some, hnode, hl.countAt?_eq, hl.totalAt?_eq]
    split
    · exact ihl (by omega) index base
    · split
      · rfl
      · exact ihr (by omega) _ _

end Links

end EditableText
