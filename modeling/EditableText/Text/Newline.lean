import EditableText.Segment
import EditableText.Text.Source

namespace EditableText

inductive LineEnding where
  | lf
  | crlf
  | cr
  deriving Repr, DecidableEq, Inhabited

namespace LineEnding

def all : List LineEnding := [lf, crlf, cr]

def name : LineEnding → String
  | lf => "lf"
  | crlf => "crlf"
  | cr => "cr"

def toText : LineEnding → Text
  | lf => ['\n']
  | crlf => ['\r', '\n']
  | cr => ['\r']

def ofText? (t : Text) : Option LineEnding := all.find? fun ending => ending.toText == t

def length (ending : LineEnding) : Nat := ending.toText.length

end LineEnding

/-- Which delimiters end a line; a lone carriage return does only under `standard`. -/
inductive LineBreaks where
  | standard
  | crlfOrLf
  deriving Repr, DecidableEq, Inhabited

namespace LineBreaks

def all : List LineBreaks := [standard, crlfOrLf]

def name : LineBreaks → String
  | standard => "standard"
  | crlfOrLf => "cr-lf-or-lf"

end LineBreaks

def isNewlineChar (c : Char) : Bool := c == '\r' || c == '\n'

namespace Text

def findNewline (breaks : LineBreaks) (pos : Nat) : Text → Option Segment
  | [] => none
  | c :: rest =>
    if c = '\n' then some ⟨pos, 1⟩
    else if c = '\r' ∧ rest.head? = some '\n' then some ⟨pos, 2⟩
    else if c = '\r' ∧ breaks = .standard then some ⟨pos, 1⟩
    else findNewline breaks (pos + 1) rest

def unifyNewlines (ending : Text) : Text → Text
  | [] => []
  | '\r' :: '\n' :: rest => ending ++ unifyNewlines ending rest
  | c :: rest =>
    if isNewlineChar c then ending ++ unifyNewlines ending rest
    else c :: unifyNewlines ending rest

def normalizeNewlines (t target : Text) : Except TextError Text :=
  match LineEnding.ofText? target with
  | some ending => .ok (unifyNewlines ending.toText t)
  | none => .error (.notADelimiter target)

end Text

namespace TextSource

def findNewline {σ : Type} [TextSource σ] (source : σ) (offset : Nat) (breaks : LineBreaks) :
    Option Segment :=
  Text.findNewline breaks offset (charsFrom source offset)

end TextSource

def LineEnding.detect (t : Text) : Option LineEnding := do
  let newline ← t.findNewline .standard 0
  if newline.length = 2 then return .crlf
  else if t[newline.offset]? = some '\r' then return .cr
  else return .lf

end EditableText
