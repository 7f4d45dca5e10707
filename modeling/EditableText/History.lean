import EditableText.Change

/-!
The undo history: two stacks of change groups. It records changes and hands groups out for
playback; the text itself is not its business.
-/

namespace EditableText

abbrev ChangeGroup := List Change

namespace ChangeGroup

def undoChanges (group : ChangeGroup) : List Change := group.reverse.map Change.inverse

def redoChanges (group : ChangeGroup) : List Change := group

theorem undoChanges_append (a b : ChangeGroup) :
    undoChanges (a ++ b) = undoChanges b ++ undoChanges a := by
  simp [undoChanges]

end ChangeGroup

inductive Phase where
  | idle
  | playback (group : ChangeGroup)
  | modifying (group : ChangeGroup)
  deriving Repr, DecidableEq

namespace Phase

def name : Phase → String
  | idle => "Idle"
  | playback _ => "Playback"
  | modifying _ => "PlaybackModifyDocument"

def group : Phase → ChangeGroup
  | idle => []
  | playback group | modifying group => group

end Phase

structure History where
  /-- The groups to undo, the latest first. -/
  undo : List ChangeGroup
  redo : List ChangeGroup
  phase : Phase
  limit : Nat
  acceptsChanges : Bool
  depth : Nat
  pending : List Change
  continuesTop : Bool
  /-- Steps to undo to the state marked as saved, or to redo if negative. -/
  stepsFromSaved : Option Int
  deriving Repr, DecidableEq

namespace History

def defaultLimit : Nat := 1000

def withLimit (limit : Nat) : History :=
  { undo := [], redo := [], phase := .idle, limit, acceptsChanges := true, depth := 0
    pending := [], continuesTop := false, stepsFromSaved := some 0 }

variable (h : History)

def canUndo : Bool := !h.undo.isEmpty

def canRedo : Bool := !h.redo.isEmpty

def isSaved : Bool := h.stepsFromSaved == some 0

def markSaved : History := { h with stepsFromSaved := some 0 }

def discardSaved : History := { h with stepsFromSaved := none }

def shiftSaved (steps : Int) : History :=
  { h with stepsFromSaved := h.stepsFromSaved.map (· + steps) }

def enforceLimit : History :=
  let undo := h.undo.take h.limit
  { h with undo, stepsFromSaved := h.stepsFromSaved.filter (· ≤ undo.length) }

def setLimit (limit : Nat) : History := { h with limit }.enforceLimit

def setAcceptsChanges (acceptsChanges : Bool) : History := { h with acceptsChanges }

/-- Drops what could be redone, and the saved state if it lies there. -/
def clearRedo : History :=
  { h with redo := [], stepsFromSaved := h.stepsFromSaved.filter (0 ≤ ·) }

def pushGroup (group : ChangeGroup) : History :=
  let h := h.clearRedo
  ({ h with undo := group :: h.undo }.shiftSaved 1).enforceLimit

def startGroup : History :=
  { h with depth := h.depth + 1, continuesTop := h.continuesTop && h.depth != 0 }

def startContinuedGroup : History :=
  { h with
    depth := h.depth + 1
    continuesTop := if h.depth = 0 then h.canUndo else h.continuesTop }

def commit : History :=
  let pending := h.pending
  let h := { h with pending := [] }
  match h.undo, h.continuesTop with
  | top :: rest, true =>
    { h with
      undo := (top ++ pending) :: rest
      stepsFromSaved := h.stepsFromSaved.filter (· ≠ 0) }.clearRedo
  | _, _ => h.pushGroup pending

def endGroup : Except TextError History :=
  match h.depth with
  | 0 => .error .noOpenGroup
  | depth + 1 =>
    let h := { h with depth }
    .ok (if depth = 0 ∧ h.pending ≠ [] then h.commit else h)

def push (c : Change) : Except TextError History :=
  match h.phase with
  | .modifying _ => .ok h
  | .playback _ => .error .changedDuringPlayback
  | .idle =>
    if !h.acceptsChanges then .ok h
    else if 0 < h.depth then .ok { h with pending := h.pending ++ [c] }
    else .ok (h.pushGroup [c])

def checkPlayback : Except TextError Unit :=
  if 0 < h.depth then .error .playbackInGroup
  else if h.phase ≠ .idle then .error .playbackInProgress
  else .ok ()

def beginUndo : Except TextError (Option ChangeGroup × History) := do
  h.checkPlayback
  match h.undo with
  | [] => return (none, h)
  | group :: undo => return (some group, { h with undo, phase := .playback group })

def endUndo : History :=
  { h with redo := h.phase.group :: h.redo, phase := .idle }.shiftSaved (-1)

def beginRedo : Except TextError (Option ChangeGroup × History) := do
  h.checkPlayback
  match h.redo with
  | [] => return (none, h)
  | group :: redo => return (some group, { h with redo, phase := .playback group })

def endRedo : History :=
  ({ h with undo := h.phase.group :: h.undo, phase := .idle }.shiftSaved 1).enforceLimit

def enterModify : History :=
  match h.phase with
  | .playback group => { h with phase := .modifying group }
  | _ => h

def exitModify : History :=
  match h.phase with
  | .modifying group => { h with phase := .playback group }
  | _ => h

def clear : Except TextError History :=
  if 0 < h.depth then .error .clearedInGroup
  else
    .ok { h with
      undo := []
      redo := []
      stepsFromSaved := h.stepsFromSaved.filter (· = 0) }

end History

end EditableText
