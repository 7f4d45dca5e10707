import EditableText.Document.Anchors
import EditableText.Document.Playback
import EditableText.History.Call
import EditableText.Text.Query

/-!
Calls on a document, as data, so that whole runs of them can be spoken of. A call that holds other
calls runs them inside one update.
-/

namespace EditableText

inductive GroupEnding where
  | close
  /-- As `close`, but a refusal to close is not reported. -/
  | drop
  | fail
  deriving Repr, DecidableEq

inductive Call where
  | insert (offset : Nat) (t : Text)
  | insertWithMovement (offset : Nat) (t : Text) (movement : AnchorMovement)
  | remove (offset length : Nat)
  | replace (offset length : Nat) (t : Text) (mapping : ChangeMapping)
  | replaceWithMap (offset length : Nat) (t : Text) (map : OffsetMap)
  | setText (t : Text)
  | beginUpdate
  | endUpdate
  | runUpdate (calls : List Call)
  | group (calls : List Call) (ending : GroupEnding)
  | undo
  | redo
  | canPlayBack
  | history (call : HistoryCall)
  | query (q : Query)
  | textLength
  | slice (offset length : Nat)
  | charAt (offset : Nat)
  | line (number : Nat)
  | lineAt (offset : Nat)
  | lineText (number : Nat)
  | location (offset : Nat)
  | offsetOf (line column : Nat)
  | newlineForLine (number : Nat)
  | options
  | identities
  | describe (idText : String)
  | createAnchor (offset : Nat) (movement : AnchorMovement) (survivesDeletion : Bool)
  | releaseAnchor (id : AnchorId)
  | anchor (id : AnchorId)
  | anchorOffset (id : AnchorId)
  | anchorLocation (id : AnchorId)
  | isAnchorDeleted (id : AnchorId)
  | setAnchorMovement (id : AnchorId) (movement : AnchorMovement)
  | setAnchorSurvivesDeletion (id : AnchorId) (survivesDeletion : Bool)
  | createAnchorSegment (offset length : Nat)
  | anchorSegment (s : AnchorSegment)
  | releaseAnchorSegment (s : AnchorSegment)
  | subscribe (label : String) (fails : List DocumentEvent → Bool)
  | unsubscribe (token : Nat)
  | addReceiver
  | receive (handler count : Nat)
  | takeSnapshot
  | querySnapshot (index : Nat) (q : Query)
  | snapshotVersion (index : Nat)

inductive Reply where
  | nothing
  | flag (b : Bool)
  | flags (a b : Bool)
  | count (n : Nat)
  | char (c : Char)
  | text (t : Text)
  | description (s : String)
  | line (line : Line)
  | location (location : Location)
  | lineEnding (ending : LineEnding)
  | options (options : DocumentOptions)
  | anchorId (id : AnchorId)
  | anchor (a : Anchor)
  | anchorSegment (s : AnchorSegment)
  | segment (s : Segment)
  | received (notifications : List (Received Notification))
  | history (reply : Except TextError HistoryReply)
  | found (finding : Except TextError Finding)

/-- A document in use: the snapshots taken of it and the replies to calls inside other calls, in
the order in which these were finished. -/
structure Session where
  document : Document
  snapshots : Array Snapshot
  replies : List (Except DocumentError Reply)

instance : HasDocument Session := ⟨Session.document, fun s document => { s with document }⟩

namespace Session

def start (document : Document) : Session := ⟨document, #[], []⟩

def addReply (reply : Except DocumentError Reply) (s : Session) : Session :=
  { s with replies := s.replies ++ [reply] }

end Session

namespace Call

def acting {α : Type} (x : Action Document α) (reply : α → Reply) :
    Action Session Reply := do
  return reply (← .onDocument x)

def doing (x : Action Document Unit) : Action Session Reply := acting x fun _ => .nothing

def reading {α : Type} (f : Document → Except TextError α) (reply : α → Reply) :
    Action Session Reply := do
  return reply (← .lift (f (← .state).document))

def telling (f : Document → Reply) : Action Session Reply :=
  reading (fun doc => .ok (f doc)) id

def ofSnapshot (index : Nat) (f : Snapshot → Reply) : Action Session Reply := do
  match (← .state).snapshots[index]? with
  | some snapshot => return f snapshot
  | none => return .nothing

def performHistory (call : HistoryCall) : Action Session Reply := do
  match call.perform (← .state).document.history with
  | .ok (reply, after) =>
    .alter (Action.inDocument fun doc => { doc with history := after })
    return .history (.ok reply)
  | .error e => return .history (.error e)

def holding (body : Action Session Unit) : GroupEnding → Action Session Unit
  | .close => do
    .onDocument Document.beginUpdate
    let result ← (body.onAbandoned (Action.inDocument Document.closeSilently)).attempt
    .onDocument Document.endUpdate
    .ofExcept result
  | .drop => do
    .onDocument Document.beginUpdate
    let result ← (body.onAbandoned (Action.inDocument Document.closeSilently)).attempt
    let _ ← (Action.onDocument Document.closeUpdate : Action Session Unit).attempt
    .ofExcept result
  | .fail => do
    .onDocument Document.beginUpdate
    (do
      let _ ← body.attempt
      .abandon : Action Session Unit).onAbandoned (Action.inDocument Document.closeSilently)

mutual

/-- A refusal of a call that stands inside another one stops the calls behind it. -/
def perform : Call → Action Session Reply
  | insert offset t => doing (Document.insert offset t)
  | insertWithMovement offset t movement => doing (Document.insertWithMovement offset t movement)
  | remove offset length => doing (Document.remove offset length)
  | replace offset length t mapping => doing (Document.replaceWithMapping offset length t mapping)
  | replaceWithMap offset length t map => doing (Document.replaceWithMap offset length t map)
  | setText t => doing (Document.setText t)
  | beginUpdate => doing Document.beginUpdate
  | endUpdate => doing Document.endUpdate
  | runUpdate calls => do
    Document.runUpdate (performAll calls)
    return .nothing
  | group calls ending => do
    holding (performAll calls) ending
    return .nothing
  | undo => acting Document.undo .flag
  | redo => acting Document.redo .flag
  | canPlayBack => telling fun doc => .flags doc.history.canUndo doc.history.canRedo
  | history call => performHistory call
  | query q => telling fun doc => .found (q.answer doc)
  | textLength => telling fun doc => .count doc.textLength
  | slice offset length => reading (·.slice offset length) .text
  | charAt offset => reading (TextSource.charAt · offset) .char
  | line number => reading (·.lines.line number) .line
  | lineAt offset => reading (·.lines.lineAt offset) .line
  | lineText number => reading (·.lineText number) .text
  | location offset => reading (·.lines.locationOf offset) .location
  | offsetOf number column => reading (·.lines.offsetOf number column) .count
  | newlineForLine number => reading (·.newlineForLine number) .lineEnding
  | options => telling fun doc => .options doc.options
  | identities => telling fun doc => .flags (doc.id == doc.id) (doc.id == doc.id.next)
  | describe idText => telling fun doc => .description (doc.describe idText)
  | createAnchor offset movement survivesDeletion =>
    acting (Document.createAnchor offset movement survivesDeletion) .anchorId
  | releaseAnchor id => doing (Document.releaseAnchor id)
  | anchor id => reading (·.anchors.get id) .anchor
  | anchorOffset id => reading (·.anchors.offset id) .count
  | anchorLocation id => reading (·.anchorLocation id) .location
  | isAnchorDeleted id => reading (·.anchors.isDeleted id) .flag
  | setAnchorMovement id movement => doing (Document.setAnchorMovement id movement)
  | setAnchorSurvivesDeletion id survivesDeletion =>
    doing (Document.setAnchorSurvivesDeletion id survivesDeletion)
  | createAnchorSegment offset length =>
    acting (Document.createAnchorSegment offset length) .anchorSegment
  | anchorSegment s => reading (fun doc => s.segment doc.anchors) .segment
  | releaseAnchorSegment s => doing (Document.releaseAnchorSegment s)
  | subscribe label fails => acting (Document.subscribe label fails) fun _ => .nothing
  | unsubscribe token => acting (Document.unsubscribe token) .flag
  | addReceiver => acting Document.addReceiver .count
  | receive handler count => acting (Document.receive handler count) .received
  | takeSnapshot => do
    let snapshot := (← .state).document.snapshot
    .alter fun s => { s with snapshots := s.snapshots.push snapshot }
    return .count snapshot.version
  | querySnapshot index q => ofSnapshot index fun snapshot => .found (q.answer snapshot)
  | snapshotVersion index => ofSnapshot index fun snapshot => .count snapshot.version

def performAll : List Call → Action Session Unit
  | [] => pure ()
  | call :: rest => do
    let reply ← (perform call).attempt
    .alter (Session.addReply reply)
    let _ ← .ofExcept reply
    performAll rest

end

end Call

end EditableText
