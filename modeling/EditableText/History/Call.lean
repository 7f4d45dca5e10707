import EditableText.History

namespace EditableText

inductive HistoryCall where
  | push (offset : Nat) (removed inserted : Text)
  | startGroup
  | startContinuedGroup
  | endGroup
  | beginUndo
  | endUndo
  | beginRedo
  | endRedo
  | enterModify
  | exitModify
  | setLimit (limit : Nat)
  | setAcceptsChanges (acceptsChanges : Bool)
  | markSaved
  | discardSaved
  | clear
  | clearRedo
  deriving Repr, DecidableEq

inductive HistoryReply where
  | done
  | undoing (group : Option ChangeGroup)
  | redoing (group : Option ChangeGroup)
  deriving Repr, DecidableEq

namespace HistoryCall

def quiet (h : History) : Except TextError (HistoryReply × History) := .ok (.done, h)

def perform (h : History) : HistoryCall → Except TextError (HistoryReply × History)
  | push offset removed inserted => do quiet (← h.push (.ofEdit offset removed inserted))
  | startGroup => quiet h.startGroup
  | startContinuedGroup => quiet h.startContinuedGroup
  | endGroup => do quiet (← h.endGroup)
  | beginUndo => do
    let (group, h) ← h.beginUndo
    return (.undoing group, h)
  | endUndo => quiet h.endUndo
  | beginRedo => do
    let (group, h) ← h.beginRedo
    return (.redoing group, h)
  | endRedo => quiet h.endRedo
  | enterModify => quiet h.enterModify
  | exitModify => quiet h.exitModify
  | setLimit limit => quiet (h.setLimit limit)
  | setAcceptsChanges acceptsChanges => quiet (h.setAcceptsChanges acceptsChanges)
  | markSaved => quiet h.markSaved
  | discardSaved => quiet h.discardSaved
  | clear => do quiet (← h.clear)
  | clearRedo => quiet h.clearRedo

end HistoryCall

end EditableText
