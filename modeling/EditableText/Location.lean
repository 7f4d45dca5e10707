namespace EditableText

structure Location where
  line : Nat
  column : Nat
  deriving Repr, DecidableEq, Inhabited

namespace Location

def empty : Location := ⟨0, 0⟩

variable (a b : Location)

def isEmpty : Bool := a == empty

def isBefore : Bool := a.line < b.line || (a.line == b.line && a.column < b.column)

def order : Ordering := (Ord.compare a.line b.line).then (Ord.compare a.column b.column)

instance : Ord Location := ⟨order⟩

def latest : Location := if order a b = .gt then a else b

def earliest : Location := if order a b = .gt then b else a

def toText : String := s!"{a.line}:{a.column}"

end Location

end EditableText
