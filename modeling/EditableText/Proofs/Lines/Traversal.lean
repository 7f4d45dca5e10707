import EditableText.Proofs.Lines.Linked

namespace EditableText

structure LineCursor where
  stack : List Nat
  number : Nat
  offset : Nat

def pushLeft? (nodes : Array LineNode) (depth : Nat) (stack : List Nat) (link : Option Nat) : Option (List Nat) :=
  match depth, link with
  | _, none => some stack
  | 0, some _ => none
  | depth + 1, some slot => do pushLeft? nodes depth (slot :: stack) (← nodes[slot]?).left

namespace LineCursor

def start? (nodes : Array LineNode) (root : Option Nat) : Option LineCursor := do
  return ⟨← pushLeft? nodes nodes.size [] root, 0, 0⟩

def next? (nodes : Array LineNode) (cursor : LineCursor) : Option (Option (Line × LineCursor)) :=
  match cursor.stack with
  | [] => some none
  | slot :: stack => do
    let node ← nodes[slot]?
    let line := node.extent.toLine (cursor.number + 1) cursor.offset
    let stack ← pushLeft? nodes nodes.size stack node.right
    return some (line, ⟨stack, cursor.number + 1, cursor.offset + line.totalLength⟩)

/-- Asked again and again, the iterator gives these lines, and then comes to its end. -/
inductive Yields (nodes : Array LineNode) : LineCursor → List Line → Prop
  | done {cursor : LineCursor} (h : cursor.next? nodes = some none) : Yields nodes cursor []
  | line {cursor after : LineCursor} {line : Line} {lines : List Line}
    (h : cursor.next? nodes = some (some (line, after))) (hrest : Yields nodes after lines) :
    Yields nodes cursor (line :: lines)

inductive Awaits (nodes : Array LineNode) : List Nat → List LineEntry → Prop
  | nil : Awaits nodes [] []
  | cons {l r : Option Nat} {right : LineTree} {entry : LineEntry} {total count : Nat} {stack : List Nat}
    {rest : List LineEntry} (hnode : nodes[entry.slot]? = some ⟨l, r, entry.priority, entry.extent, total, count⟩)
    (hright : Links nodes r right) (hsize : right.slots.length ≤ nodes.size) (hrest : Awaits nodes stack rest) :
    Awaits nodes (entry.slot :: stack) (entry :: (right.entries ++ rest))

variable {nodes : Array LineNode} {stack : List Nat} {rest : List LineEntry}

lemma Awaits.pushLeft? (h : Awaits nodes stack rest) {link : Option Nat} {tree : LineTree}
    (hlinks : Links nodes link tree) {depth : Nat} (hdepth : tree.slots.length ≤ depth)
    (hle : depth ≤ nodes.size) :
    ∃ pushed, EditableText.pushLeft? nodes depth stack link = some pushed ∧
      Awaits nodes pushed (tree.entries ++ rest) := by
  induction hlinks generalizing depth stack rest with
  | leaf => exact ⟨stack, by cases depth <;> rfl, h⟩
  | @node l r left right entry total count hnode hl hr ihl ihr =>
    rw [LineTree.length_slots_node] at hdepth
    obtain ⟨depth, rfl⟩ := Nat.exists_eq_add_one.mpr (show 0 < depth by omega)
    have hleft : left.slots.length ≤ depth := by omega
    obtain ⟨pushed, hpushed, hawaits⟩ := ihl (h.cons hnode hr (by omega)) hleft (by omega)
    refine ⟨pushed, ?_, by simpa using hawaits⟩
    rw [EditableText.pushLeft?, hnode]
    exact hpushed

lemma Awaits.yields (h : Awaits nodes stack rest)
    (hdelimiter : ∀ entry ∈ rest, entry.extent.delimiter ≤ entry.extent.total) (number offset : Nat) :
    Yields nodes ⟨stack, number, offset⟩ (LineExtent.linesFrom (number + 1) offset (rest.map (·.extent))) := by
  -- on the entries, since the stack shrinks and grows on the way
  induction rest generalizing stack number offset with
  | nil =>
    cases h
    exact .done rfl
  | cons entry rest ih =>
    obtain ⟨hentry, hrest⟩ := List.forall_mem_cons.mp hdelimiter
    cases h with
    | @cons l r right _ total count stack rest hnode hright hsize hawaits =>
      obtain ⟨pushed, hpushed, hpending⟩ := hawaits.pushLeft? hright hsize (Nat.le_refl _)
      have hlength : (entry.extent.toLine (number + 1) offset).totalLength = entry.extent.total :=
        Nat.sub_add_cancel hentry
      have hnext : next? nodes ⟨entry.slot :: stack, number, offset⟩ = some (some
          (entry.extent.toLine (number + 1) offset, ⟨pushed, number + 1, offset + entry.extent.total⟩)) := by
        simp only [next?, hnode, hpushed, Option.bind_eq_bind, Option.bind_some, hlength]
        rfl
      exact .line hnext (ih hpending hrest _ _)

end LineCursor

lemma Links.start?_yields {nodes : Array LineNode} {root : Option Nat} {tree : LineTree}
    (h : Links nodes root tree) (hnodup : tree.slots.Nodup)
    (hdelimiter : ∀ entry ∈ tree.entries, entry.extent.delimiter ≤ entry.extent.total) :
    ∃ cursor, LineCursor.start? nodes root = some cursor ∧
      cursor.Yields nodes (LineExtent.linesFrom 1 0 (tree.entries.map (·.extent))) := by
  obtain ⟨pushed, hpushed, hawaits⟩ :=
    LineCursor.Awaits.nil.pushLeft? h (h.length_slots_le hnodup) (Nat.le_refl _)
  rw [List.append_nil] at hawaits
  refine ⟨⟨pushed, 0, 0⟩, ?_, hawaits.yields hdelimiter 0 0⟩
  rw [LineCursor.start?, hpushed]
  rfl

end EditableText
