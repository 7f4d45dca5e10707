import EditableText.Change.Mapping
import EditableText.Error

namespace EditableText

structure Change where
  offset : Nat
  removed : Text
  inserted : Text
  map : OffsetMap
  deriving Repr, DecidableEq

namespace Change

def ofEdit (offset : Nat) (removed inserted : Text) : Change :=
  ⟨offset, removed, inserted,
    ChangeMapping.offsetMap .normal offset removed.length inserted.length⟩

def withMap (offset : Nat) (removed inserted : Text) (map : OffsetMap) :
    Except TextError Change :=
  if map.fits offset removed.length inserted.length then .ok ⟨offset, removed, inserted, map⟩
  else .error (.mapMismatch offset removed.length inserted.length)

variable (c : Change)

def isEmpty : Bool := c.removed.isEmpty && c.inserted.isEmpty

def newOffset (movement : AnchorMovement) (offset : Nat) : Nat := c.map.move movement offset

def inverse : Change :=
  { c with removed := c.inserted, inserted := c.removed, map := c.map.inverse }

theorem inverse_inverse : c.inverse.inverse = c := by
  simp [inverse, OffsetMap.inverse_inverse]

end Change

end EditableText
