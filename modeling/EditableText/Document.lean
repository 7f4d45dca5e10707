import EditableText.Anchor.Segment
import EditableText.Event
import EditableText.Lines.Table
import EditableText.Options

namespace EditableText

structure Document where
  id : DocumentId
  storage : Storage
  lines : LineTable
  anchors : AnchorTable
  history : History
  options : DocumentOptions
  listeners : List Listener
  nextToken : Nat
  bus : Bus Notification
  version : Nat
  updateDepth : Nat
  inChange : Bool
  updateChangedText : Bool
  lineCountAtUpdate : Nat

namespace Document

/-- Fails if the options ask for more events to be kept than a bus can keep. -/
def ofText? (t : Text) (options : DocumentOptions) : Option Document := do
  let bus ← Bus.create? options.eventCapacity
  let lines := LineTable.ofText t options.lineBreaks
  return {
    id := .first
    storage := .ofText t options.buffer
    lines
    anchors := .empty
    history := .withLimit options.undoLimit
    options
    listeners := []
    nextToken := 0
    bus
    version := 0
    updateDepth := 0
    inChange := false
    updateChangedText := false
    lineCountAtUpdate := lines.lineCount }

variable (doc : Document)

instance : TextSource Document where
  length doc := TextSource.length doc.storage
  charAt doc := TextSource.charAt doc.storage
  slice doc := TextSource.slice doc.storage
  charsFrom doc := TextSource.charsFrom doc.storage
  charsBefore doc := TextSource.charsBefore doc.storage

def text : Text := TextSource.text doc.storage

def textLength : Nat := TextSource.length doc.storage

def lineCount : Nat := doc.lines.lineCount

def isModified : Bool := !doc.history.isSaved

def isInUpdate : Bool := 0 < doc.updateDepth

def snapshot : Snapshot := doc.storage.snapshot.withVersion doc.version

def slice (offset length : Nat) : Except TextError Text :=
  TextSource.slice doc.storage offset length

def lineText (number : Nat) : Except TextError Text := do
  let line ← doc.lines.line number
  doc.slice line.offset line.length

def delimiterOf (line : Line) : LineEnding :=
  if line.delimiter = 2 then .crlf
  else
    match TextSource.charAt doc.storage line.endOffset with
    | .ok '\r' => .cr
    | _ => .lf

/-- The ending to use when a line is cut: its own, for the last line that of the line before it,
and for a single line the one the options name. -/
def newlineForLine (number : Nat) : Except TextError LineEnding := do
  let line ← doc.lines.line number
  if 0 < line.delimiter then return doc.delimiterOf line
  else if 1 < number then return doc.delimiterOf (← doc.lines.line (number - 1))
  else return doc.options.lineEnding

def anchorLocation (id : AnchorId) : Except TextError Location := do
  doc.lines.locationOf (← doc.anchors.offset id)

def describe (idText : String) : String :=
  let strategy := match doc.storage.strategy with
    | .rope => "Rope"
    | .gap => "Gap"
  "Document \x7b " ++ String.intercalate ", " [
    s!"id: DocumentId({idText})",
    s!"strategy: {strategy}",
    s!"text_length: {doc.textLength}",
    s!"line_count: {doc.lineCount}",
    s!"version: {doc.version}",
    s!"anchors: {doc.anchors.liveCount}",
    s!"listeners: {doc.listeners.length}"] ++ " \x7d"

end Document

end EditableText
