namespace EditableText

inductive AnchorMovement where
  | byEdit
  | beforeInsertion
  | afterInsertion
  deriving Repr, DecidableEq, Inhabited

namespace AnchorMovement

def all : List AnchorMovement := [byEdit, beforeInsertion, afterInsertion]

def name : AnchorMovement → String
  | byEdit => "default"
  | beforeInsertion => "before-insertion"
  | afterInsertion => "after-insertion"

end AnchorMovement

end EditableText
