import EditableText.Document.Edit

namespace EditableText.Document

def onHistory (f : History → History) (doc : Document) : Document :=
  { doc with history := f doc.history }

def replay (c : Change) : Action Document Unit := do
  .alter (onHistory .enterModify)
  let applied ← (applyChange c).attempt
  .alter (onHistory .exitModify)
  .ofExcept applied

def replayAll : List Change → Action Document Unit
  | [] => pure ()
  | c :: rest => do
    replay c
    replayAll rest

def undo : Action Document Bool := do
  checkNotInChange
  let doc ← .state
  let (group, history) ← .lift doc.history.beginUndo
  match group with
  | none => return false
  | some group =>
    .alter fun doc => { doc with history }
    (runUpdate (replayAll group.undoChanges)).ensuring (onHistory .endUndo)
    return true

def redo : Action Document Bool := do
  checkNotInChange
  let doc ← .state
  let (group, history) ← .lift doc.history.beginRedo
  match group with
  | none => return false
  | some group =>
    .alter fun doc => { doc with history }
    (runUpdate (replayAll group.redoChanges)).ensuring (onHistory .endRedo)
    return true

end EditableText.Document
