import EditableText.Document.Update

namespace EditableText.Document

def mutate (c : Change) (doc : Document) : Except TextError (List AnchorId × Document) := do
  let (_, storage) ← doc.storage.remove c.offset c.removed.length
  let storage ← storage.insert c.offset c.inserted
  let lines ← doc.lines.applyEdit storage c.offset c.removed.length c.inserted.length
  let (deleted, anchors) := doc.anchors.follow c.map (TextSource.length storage)
  return (deleted, { doc with storage, lines, anchors, version := doc.version + 1 })

def record (c : Change) (doc : Document) : Except TextError Unit × Document :=
  match doc.history.push c with
  | .ok history => (.ok (), { doc with history })
  | .error e => (.error e, doc)

/-- Applies a change that fits the text, in an open update. It is recorded before anyone hears of
it, so the history goes with the text even if a listener fails. -/
def applyChange (c : Change) : Action Document Unit := do
  .alter fun doc => { doc with inChange := true }
  emit (.changing c)
  match (← .state).mutate c with
  | .error e =>
    .alter fun doc => { doc with inChange := false }
    .refuse (.text e)
  | .ok (deleted, doc) =>
    let (recorded, doc) := { doc with updateChangedText := true }.record c
    .alter fun _ => doc
    emit (.changed c)
    emitAll (deleted.map .anchorDeleted)
    .alter fun doc => { doc with inChange := false }
    .lift recorded

def runChange (c : Change) : Action Document Unit := runUpdate (applyChange c)

def replaceWithMap (offset length : Nat) (t : Text) (map : OffsetMap) : Action Document Unit := do
  checkNotInChange
  let doc ← .state
  .lift (checkRange offset length doc.textLength)
  if length = 0 ∧ t = [] then return
  let removed ← .lift (doc.slice offset length)
  let c ← .lift (Change.withMap offset removed t map)
  runChange c

def replaceWithMapping (offset length : Nat) (t : Text) (mapping : ChangeMapping) :
    Action Document Unit :=
  replaceWithMap offset length t (mapping.offsetMap offset length t.length)

def replace (offset length : Nat) (t : Text) : Action Document Unit :=
  replaceWithMapping offset length t .normal

def insert (offset : Nat) (t : Text) : Action Document Unit := replace offset 0 t

def insertWithMovement (offset : Nat) (t : Text) (movement : AnchorMovement) :
    Action Document Unit :=
  replaceWithMapping offset 0 t
    (if movement = .beforeInsertion then .keepAnchorBeforeInsertion else .normal)

def remove (offset length : Nat) : Action Document Unit := replace offset length []

def setAcceptsChanges (acceptsChanges : Bool) (doc : Document) : Document :=
  { doc with history := doc.history.setAcceptsChanges acceptsChanges }

def setText (t : Text) : Action Document Unit := do
  checkNotInChange
  let doc ← .state
  if doc.isInUpdate then .refuse .replacedInUpdate
  .alter (setAcceptsChanges false)
  let replaced ← (runUpdate do
    let doc ← .state
    remove 0 doc.textLength
    insert 0 t : Action Document Unit).attempt
  .alter (setAcceptsChanges doc.history.acceptsChanges)
  .ofExcept replaced
  let doc ← .state
  let history ← .lift doc.history.clear
  .alter fun doc => { doc with history := history.markSaved }
  emit .textReplaced

end EditableText.Document
