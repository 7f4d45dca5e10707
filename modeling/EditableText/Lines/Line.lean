import EditableText.Segment
import EditableText.Text.Newline

namespace EditableText

structure Line where
  number : Nat
  offset : Nat
  length : Nat
  delimiter : Nat
  deriving Repr, DecidableEq, Inhabited

namespace Line

variable (line : Line)

def endOffset : Nat := line.offset + line.length

def totalLength : Nat := line.length + line.delimiter

def segment : Segment := ⟨line.offset, line.length⟩

def delimiterSegment : Segment := ⟨line.endOffset, line.delimiter⟩

end Line

structure LineExtent where
  total : Nat
  delimiter : Nat
  deriving Repr, DecidableEq, Inhabited

namespace LineExtent

def toLine (extent : LineExtent) (number offset : Nat) : Line :=
  ⟨number, offset, extent.total - extent.delimiter, extent.delimiter⟩

def scanFrom (breaks : LineBreaks) (current : Nat) : Text → List LineExtent
  | [] => [⟨current, 0⟩]
  | '\n' :: rest => ⟨current + 1, 1⟩ :: scanFrom breaks 0 rest
  | '\r' :: '\n' :: rest => ⟨current + 2, 2⟩ :: scanFrom breaks 0 rest
  | c :: rest =>
    if c = '\r' ∧ breaks = .standard then ⟨current + 1, 1⟩ :: scanFrom breaks 0 rest
    else scanFrom breaks (current + 1) rest

def scan (breaks : LineBreaks) (t : Text) : List LineExtent := scanFrom breaks 0 t

def linesFrom (number offset : Nat) : List LineExtent → List Line
  | [] => []
  | extent :: rest =>
    extent.toLine number offset :: linesFrom (number + 1) (offset + extent.total) rest

end LineExtent

end EditableText
