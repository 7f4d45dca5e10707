import EditableText.Word

/-!
Segments: a run of characters given by its offset and its length. The end of a segment belongs to
it, so two segments that only touch overlap in an empty one.
-/

namespace EditableText

structure Segment where
  offset : Nat
  length : Nat
  deriving Repr, DecidableEq, Inhabited

namespace Segment

def emptyAt (offset : Nat) : Segment := ⟨offset, 0⟩

def ofRange (first last : Nat) : Segment := ⟨first, last - first⟩

variable (s : Segment)

def endOffset : Nat := Word.add s.offset s.length

def isEmpty : Bool := s.length == 0

def containsOffset (offset : Nat) : Bool := s.offset ≤ offset && offset ≤ s.endOffset

def toRange : Nat × Nat := (s.offset, s.endOffset)

def toText : String := s!"[{s.offset}, {s.endOffset})"

def overlap? (a b : Segment) : Option Segment :=
  let first := max a.offset b.offset
  let last := min a.endOffset b.endOffset
  if first ≤ last then some ⟨first, last - first⟩ else none

theorem overlap?_comm (a b : Segment) : a.overlap? b = b.overlap? a := by
  simp only [overlap?, Nat.max_comm a.offset, Nat.min_comm a.endOffset]

def contains (a b : Segment) : Bool := a.overlap? b == some b

end Segment

end EditableText
