import EditableText.Lines.Line

/-!
A treap of lines in the order of the text. A node holds the extent of its line and no offset; every
subtree knows how many lines and how many characters it has, which gives the offsets on the way
down.
-/

namespace EditableText

structure LineEntry where
  slot : Nat
  priority : UInt32
  extent : LineExtent
  deriving Repr, DecidableEq, Inhabited

inductive LineTree where
  | leaf
  | node (left : LineTree) (entry : LineEntry) (right : LineTree) (total count : Nat)
  deriving Repr, DecidableEq

namespace LineTree

def total : LineTree → Nat
  | leaf => 0
  | node _ _ _ total _ => total

def count : LineTree → Nat
  | leaf => 0
  | node _ _ _ _ count => count

def join (left : LineTree) (entry : LineEntry) (right : LineTree) : LineTree :=
  node left entry right (left.total + right.total + entry.extent.total)
    (left.count + right.count + 1)

def single (entry : LineEntry) : LineTree := join leaf entry leaf

def entriesBefore (rest : List LineEntry) : LineTree → List LineEntry
  | leaf => rest
  | node left entry right _ _ => left.entriesBefore (entry :: right.entriesBefore rest)

def entries (tree : LineTree) : List LineEntry := tree.entriesBefore []

def slotsBefore (rest : List Nat) : LineTree → List Nat
  | leaf => rest
  | node left entry right _ _ => entry.slot :: right.slotsBefore (left.slotsBefore rest)

def split (k : Nat) : LineTree → LineTree × LineTree
  | leaf => (leaf, leaf)
  | node left entry right _ _ =>
    if k ≤ left.count then
      let (front, back) := left.split k
      (front, join back entry right)
    else
      let (front, back) := right.split (k - left.count - 1)
      (join left entry front, back)

/-- The lines of `a`, then those of `b`. The root of greater priority stays on top, and of two
roots of equal priority that of `b`. -/
def append (a b : LineTree) : LineTree :=
  match a, b with
  | leaf, b => b
  | a, leaf => a
  | node al ae ar at_ ac, node bl be br bt bc =>
    if be.priority < ae.priority then join al ae (ar.append (node bl be br bt bc))
    else join ((node al ae ar at_ ac).append bl) be br
termination_by sizeOf a + sizeOf b

def atIndex? (index base : Nat) : LineTree → Option (LineEntry × Nat)
  | leaf => none
  | node left entry right _ _ =>
    if index < left.count then left.atIndex? index base
    else if index = left.count then some (entry, base + left.total)
    else right.atIndex? (index - (left.count + 1)) (base + left.total + entry.extent.total)

structure Place where
  entry : LineEntry
  index : Nat
  start : Nat
  deriving Repr, DecidableEq

def holding? (offset index base : Nat) : LineTree → Option Place
  | leaf => none
  | node left entry right _ _ =>
    if offset < base + left.total then left.holding? offset index base
    else if offset < base + left.total + entry.extent.total then
      some ⟨entry, index + left.count, base + left.total⟩
    else
      right.holding? offset (index + left.count + 1) (base + left.total + entry.extent.total)

end LineTree

end EditableText
