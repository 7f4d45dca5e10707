import EditableText.Anchor.Movement
import EditableText.Word

/-!
How positions move through a change: a list of steps, each of which removes and inserts characters
at one offset. Positions are carried through the steps in order.
-/

namespace EditableText

structure OffsetStep where
  offset : Nat
  removal : Nat
  insertion : Nat
  keepsAnchors : Bool
  /-- Anchors that leave their movement to the edit stay before the insertion. -/
  movesBefore : Bool
  deriving Repr, DecidableEq, Inhabited

namespace OffsetStep

def plain (offset removal insertion : Nat) : OffsetStep :=
  ⟨offset, removal, insertion, false, false⟩

variable (step : OffsetStep)

def removalEnd : Nat := Word.add step.offset step.removal

def inverse : OffsetStep :=
  { step with removal := step.insertion, insertion := step.removal }

theorem inverse_inverse : step.inverse.inverse = step := rfl

def removesAround (offset : Nat) : Bool :=
  step.offset < offset && offset < step.removalEnd

def resolve : AnchorMovement → AnchorMovement
  | .byEdit => if step.movesBefore then .beforeInsertion else .afterInsertion
  | movement => movement

def move (movement : AnchorMovement) (offset : Nat) : Nat :=
  if offset < step.offset then offset
  else if step.offset < offset ∧ step.removalEnd ≤ offset then
    Word.add (Word.sub offset step.removal) step.insertion
  else if step.resolve movement = .beforeInsertion then step.offset
  else Word.add step.offset step.insertion

end OffsetStep

abbrev OffsetMap := List OffsetStep

namespace OffsetMap

def move (map : OffsetMap) (movement : AnchorMovement) (offset : Nat) : Nat :=
  map.foldl (fun position step => step.move movement position) offset

def inverse (map : OffsetMap) : OffsetMap := map.reverse.map OffsetStep.inverse

theorem inverse_inverse (map : OffsetMap) : map.inverse.inverse = map := by
  simp [inverse, ← List.map_reverse, Function.comp_def, OffsetStep.inverse_inverse]

/-- Where the region that the steps work on, now ending at `stop`, ends after all of them, if each
step stays inside it. -/
def regionEnd? (offset stop : Nat) : OffsetMap → Option Nat
  | [] => some stop
  | step :: rest =>
    if offset ≤ step.offset ∧ step.removalEnd ≤ stop then
      regionEnd? offset (Word.add (Word.sub stop step.removal) step.insertion) rest
    else none

def fits (map : OffsetMap) (offset removal insertion : Nat) : Bool :=
  if map.isEmpty then removal == insertion
  else map.regionEnd? offset (Word.add offset removal) == some (Word.add offset insertion)

end OffsetMap

end EditableText
