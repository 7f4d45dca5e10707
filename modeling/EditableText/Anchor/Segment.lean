import EditableText.Anchor.Table
import EditableText.Segment

namespace EditableText

structure AnchorSegment where
  start : AnchorId
  stop : AnchorId
  deriving Repr, DecidableEq, Inhabited

namespace AnchorSegment

def create (table : AnchorTable) (s : Segment) (survivesDeletion : Bool) :
    AnchorSegment × AnchorTable :=
  let (start, table) := table.create s.offset .beforeInsertion survivesDeletion
  let (stop, table) := table.create s.endOffset .afterInsertion survivesDeletion
  (⟨start, stop⟩, table)

variable (s : AnchorSegment) (table : AnchorTable)

def segment : Except TextError Segment := do
  let start ← table.offset s.start
  let stop ← table.offset s.stop
  return .ofRange start stop

def isDeleted : Except TextError Bool := do
  if ← table.isDeleted s.start then return true
  table.isDeleted s.stop

/-- Releases the start, then the end. If the end is stale, the start is released all the same. -/
def release : Except TextError Unit × AnchorTable :=
  match table.release s.start with
  | .error e => (.error e, table)
  | .ok started =>
    match started.release s.stop with
    | .error e => (.error e, started)
    | .ok released => (.ok (), released)

end AnchorSegment

end EditableText
