import EditableText.Change.OffsetMap
import EditableText.Error

/-!
Anchors: positions that follow the text around them. An anchor is reached through its handle only,
and a handle is worth nothing once its anchor is released.
-/

namespace EditableText

inductive SlotState where
  | live
  | deleted
  | free
  deriving Repr, DecidableEq, Inhabited

structure AnchorSlot where
  offset : Nat
  movement : AnchorMovement
  survivesDeletion : Bool
  generation : UInt32
  state : SlotState
  deriving Repr, DecidableEq, Inhabited

structure Anchor where
  id : AnchorId
  offset : Nat
  movement : AnchorMovement
  survivesDeletion : Bool
  isDeleted : Bool
  deriving Repr, DecidableEq

namespace AnchorSlot

variable (slot : AnchorSlot)

/-- Carries an offset through the steps of a map; the flag tells whether a step deleted it, and
then the offset is the one before that step. -/
def carry (movement : AnchorMovement) (survives : Bool) (offset : Nat) : OffsetMap → Nat × Bool
  | [] => (offset, false)
  | step :: rest =>
    if step.removesAround offset && !survives && !step.keepsAnchors then (offset, true)
    else carry movement survives (step.move movement offset) rest

def follow (map : OffsetMap) (textLength : Nat) : AnchorSlot :=
  if slot.state = .live then
    let (offset, isDeleted) := carry slot.movement slot.survivesDeletion slot.offset map
    { slot with
      offset := min offset textLength
      state := if isDeleted then .deleted else .live }
  else slot

end AnchorSlot

structure AnchorTable where
  slots : Array AnchorSlot
  /-- Indices of released slots, the next one to use first. -/
  released : List Nat
  liveCount : Nat
  deriving Repr, DecidableEq

namespace AnchorTable

def empty : AnchorTable := ⟨#[], [], 0⟩

variable (table : AnchorTable)

def idAt (index : Nat) (slot : AnchorSlot) : AnchorId := ⟨index.toUInt32, slot.generation⟩

def create (offset : Nat) (movement : AnchorMovement) (survivesDeletion : Bool) :
    AnchorId × AnchorTable :=
  match table.released with
  | index :: released =>
    let slot : AnchorSlot :=
      { offset, movement, survivesDeletion, state := .live
        generation := (table.slots[index]?.map (·.generation)).getD 0 }
    (idAt index slot, ⟨table.slots.setIfInBounds index slot, released, table.liveCount + 1⟩)
  | [] =>
    let slot : AnchorSlot := { offset, movement, survivesDeletion, generation := 0, state := .live }
    (idAt table.slots.size slot, ⟨table.slots.push slot, [], table.liveCount + 1⟩)

def slot (id : AnchorId) : Except TextError AnchorSlot :=
  match table.slots[id.index.toNat]? with
  | some slot =>
    if slot.generation = id.generation ∧ slot.state ≠ .free then .ok slot
    else .error (.staleAnchor id)
  | none => .error (.staleAnchor id)

def modify (id : AnchorId) (f : AnchorSlot → AnchorSlot) : Except TextError AnchorTable := do
  let slot ← table.slot id
  return { table with slots := table.slots.setIfInBounds id.index.toNat (f slot) }

def release (id : AnchorId) : Except TextError AnchorTable := do
  let slot ← table.slot id
  let freed : AnchorSlot := { slot with state := .free, generation := slot.generation + 1 }
  return {
    slots := table.slots.setIfInBounds id.index.toNat freed
    released := id.index.toNat :: table.released
    liveCount := if slot.state = .live then table.liveCount - 1 else table.liveCount }

def get (id : AnchorId) : Except TextError Anchor := do
  let slot ← table.slot id
  return ⟨id, slot.offset, slot.movement, slot.survivesDeletion, slot.state = .deleted⟩

def offset (id : AnchorId) : Except TextError Nat := do
  return (← table.slot id).offset

def isDeleted (id : AnchorId) : Except TextError Bool := do
  return (← table.slot id).state = .deleted

def setMovement (id : AnchorId) (movement : AnchorMovement) : Except TextError AnchorTable :=
  table.modify id fun slot => { slot with movement }

def setSurvivesDeletion (id : AnchorId) (survivesDeletion : Bool) :
    Except TextError AnchorTable :=
  table.modify id fun slot => { slot with survivesDeletion }

def live : List Anchor :=
  table.slots.toList.zipIdx.filterMap fun (slot, index) =>
    if slot.state = .live then
      some ⟨idAt index slot, slot.offset, slot.movement, slot.survivesDeletion, false⟩
    else none

def isEmpty : Bool := table.liveCount == 0

def capacity : Nat := table.slots.size

def deletedBy (map : OffsetMap) (textLength : Nat) : List AnchorId :=
  table.slots.toList.zipIdx.filterMap fun (slot, index) =>
    if slot.state = .live ∧ (slot.follow map textLength).state = .deleted then
      some (idAt index slot)
    else none

def follow (map : OffsetMap) (textLength : Nat) : List AnchorId × AnchorTable :=
  if map.isEmpty then ([], table)
  else
    let deleted := table.deletedBy map textLength
    (deleted, { table with
      slots := table.slots.map (·.follow map textLength)
      liveCount := table.liveCount - deleted.length })

end AnchorTable

end EditableText
