import EditableText.Change

namespace EditableText

structure DocumentId where
  value : Nat
  deriving Repr, DecidableEq, Inhabited

namespace DocumentId

def first : DocumentId := ⟨0⟩

def next (id : DocumentId) : DocumentId := ⟨id.value + 1⟩

end DocumentId

inductive DocumentEvent where
  | updateStarted
  | changing (c : Change)
  | changed (c : Change)
  | anchorDeleted (id : AnchorId)
  | lineCountChanged (old new : Nat)
  | updateFinished
  | changeCompleted
  | textReplaced
  deriving Repr, DecidableEq

namespace DocumentEvent

def name : DocumentEvent → String
  | updateStarted => "update-started"
  | changing _ => "changing"
  | changed _ => "changed"
  | anchorDeleted _ => "anchor-deleted"
  | lineCountChanged .. => "line-count-changed"
  | updateFinished => "update-finished"
  | changeCompleted => "change-completed"
  | textReplaced => "text-replaced"

end DocumentEvent

structure Notification where
  document : DocumentId
  event : DocumentEvent
  deriving Repr, DecidableEq

/-- An observer that is called at once. It may fail at any event; whether it does is a function of
what it has heard, the event at hand first. -/
structure Listener where
  token : Nat
  label : String
  heard : List DocumentEvent
  fails : List DocumentEvent → Bool

namespace Listener

def hear (l : Listener) (event : DocumentEvent) : Listener :=
  { l with heard := event :: l.heard }

def hasFailed (l : Listener) : Bool := l.fails l.heard

end Listener

end EditableText
