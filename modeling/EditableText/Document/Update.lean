import EditableText.Document.Listening

namespace EditableText.Document

def checkNotInChange : Action Document Unit := do
  if (← .state).inChange then .refuse .changeInProgress

def beginUpdate : Action Document Unit := do
  checkNotInChange
  let doc ← .state
  .alter fun doc =>
    { doc with history := doc.history.startGroup, updateDepth := doc.updateDepth + 1 }
  if doc.updateDepth = 0 then
    .alter fun doc =>
      { doc with updateChangedText := false, lineCountAtUpdate := doc.lineCount }
    emit .updateStarted

def leaveUpdate (doc : Document) : Except DocumentError Document :=
  match doc.updateDepth with
  | 0 => .error .noOpenUpdate
  | updateDepth + 1 => do
    let history ← doc.history.endGroup.mapError .text
    return { doc with history, updateDepth }

def closeUpdate : Action Document Unit := do
  .alterExcept leaveUpdate
  let doc ← .state
  if doc.updateDepth = 0 then
    if doc.lineCountAtUpdate ≠ doc.lineCount then
      emit (.lineCountChanged doc.lineCountAtUpdate doc.lineCount)
    emit .updateFinished
    .alter fun doc => { doc with updateChangedText := false }
    if doc.updateChangedText then emit .changeCompleted

def endUpdate : Action Document Unit := do
  checkNotInChange
  closeUpdate

/-- How an update ends whose call was abandoned. -/
def closeSilently (doc : Document) : Document :=
  let doc := { doc with inChange := false }
  match doc.leaveUpdate with
  | .ok doc => if doc.updateDepth = 0 then { doc with updateChangedText := false } else doc
  | .error _ => doc

/-- Runs `body` in an update of its own. A refusal of `body` comes before one of the closing. -/
def runUpdate {σ α : Type} [HasDocument σ] (body : Action σ α) : Action σ α := do
  .onDocument beginUpdate
  let result ← (body.onAbandoned (Action.inDocument closeSilently)).attempt
  let closed ← (Action.onDocument endUpdate).attempt
  let a ← .ofExcept result
  .ofExcept closed
  return a

end EditableText.Document
