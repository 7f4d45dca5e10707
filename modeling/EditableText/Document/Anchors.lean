import EditableText.Document.Action

namespace EditableText.Document

def createAnchor (offset : Nat) (movement : AnchorMovement) (survivesDeletion : Bool) :
    Action Document AnchorId := do
  let doc ← .state
  .lift (checkOffset offset doc.textLength)
  let (id, anchors) := doc.anchors.create offset movement survivesDeletion
  .alter fun doc => { doc with anchors }
  return id

def changeAnchors (f : AnchorTable → Except TextError AnchorTable) : Action Document Unit := do
  let anchors ← .lift (f (← .state).anchors)
  .alter fun doc => { doc with anchors }

def releaseAnchor (id : AnchorId) : Action Document Unit := changeAnchors (·.release id)

def setAnchorMovement (id : AnchorId) (movement : AnchorMovement) : Action Document Unit :=
  changeAnchors (·.setMovement id movement)

def setAnchorSurvivesDeletion (id : AnchorId) (survivesDeletion : Bool) :
    Action Document Unit :=
  changeAnchors (·.setSurvivesDeletion id survivesDeletion)

def createAnchorSegment (offset length : Nat) : Action Document AnchorSegment := do
  let doc ← .state
  .lift (checkRange offset length doc.textLength)
  let (s, anchors) := AnchorSegment.create doc.anchors ⟨offset, length⟩ true
  .alter fun doc => { doc with anchors }
  return s

def releaseAnchorSegment (s : AnchorSegment) : Action Document Unit := do
  let doc ← .state
  let (released, anchors) := s.release doc.anchors
  .alter fun doc => { doc with anchors }
  .lift released

end EditableText.Document
