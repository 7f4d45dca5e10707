import EditableText.Anchor.Id
import EditableText.Text.Quoted

namespace EditableText

inductive TextError where
  | offsetOutOfRange (offset textLength : Nat)
  | rangeOutOfRange (offset length textLength : Nat)
  | lineOutOfRange (line lineCount : Nat)
  | mapMismatch (offset removal insertion : Nat)
  | notADelimiter (target : Text)
  | noOpenGroup
  | changedDuringPlayback
  | playbackInGroup
  | playbackInProgress
  | clearedInGroup
  | staleAnchor (id : AnchorId)
  deriving Repr, DecidableEq

namespace TextError

def isOutOfRange : TextError → Bool
  | offsetOutOfRange .. | rangeOutOfRange .. | lineOutOfRange .. => true
  | _ => false

def isInvalidArgument : TextError → Bool
  | mapMismatch .. | notADelimiter _ => true
  | _ => false

def isInvalidOperation : TextError → Bool
  | noOpenGroup | changedDuringPlayback | playbackInGroup | playbackInProgress
  | clearedInGroup => true
  | _ => false

def cause : TextError → String
  | offsetOutOfRange offset textLength =>
    s!"Offset {offset} is outside the text (length {textLength})"
  | rangeOutOfRange offset length textLength =>
    s!"Range {offset}+{length} is outside the text (length {textLength})"
  | lineOutOfRange line lineCount => s!"Line {line} does not exist (line count {lineCount})"
  | mapMismatch offset removal insertion =>
    s!"offset change map does not match change at {offset} (-{removal} +{insertion})"
  | notADelimiter target =>
    Text.toString (Text.Quoted.encode target) ++ " is not a line delimiter"
  | noOpenGroup => "end_undo_group called without an open group"
  | changedDuringPlayback => "document changed during undo/redo playback"
  | playbackInGroup => "cannot undo or redo while an undo group is open"
  | playbackInProgress => "undo/redo already in progress"
  | clearedInGroup => "cannot clear history while an undo group is open"
  | staleAnchor id => id.toText ++ " was released"

def message (e : TextError) : String :=
  if e.isInvalidArgument then "Invalid argument: " ++ e.cause
  else if e.isInvalidOperation then "Invalid operation: " ++ e.cause
  else e.cause

end TextError

inductive DocumentError where
  | text (e : TextError)
  | changeInProgress
  | replacedInUpdate
  | noOpenUpdate
  deriving Repr, DecidableEq

namespace DocumentError

def isOutOfRange : DocumentError → Bool
  | text e => e.isOutOfRange
  | _ => false

def isInvalidOperation : DocumentError → Bool
  | text e => e.isInvalidOperation
  | _ => true

def message : DocumentError → String
  | text e => "Buffer error: " ++ e.message
  | changeInProgress =>
    "Invalid operation: the document cannot be modified while a change is being applied"
  | replacedInUpdate => "Invalid operation: set_text cannot be called inside an update group"
  | noOpenUpdate => "Invalid operation: end_update called without a matching begin_update"

end DocumentError

end EditableText
