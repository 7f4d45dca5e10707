import EditableText.Text.Source

/-!
A gap buffer: an array of slots with a run of unused slots, the gap, kept where the last edit was.
The characters are those before the gap and those behind it.
-/

namespace EditableText

structure GapBuffer where
  slots : Array Char
  gapStart : Nat
  gapEnd : Nat
  deriving Repr

namespace GapBuffer

def initialGap : Nat := 64

def growthFactor : Nat := 2

def empty : GapBuffer := ⟨Array.replicate initialGap '\x00', 0, initialGap⟩

def ofText (t : Text) : GapBuffer :=
  ⟨t.toArray ++ Array.replicate initialGap '\x00', t.length, t.length + initialGap⟩

variable (b : GapBuffer)

def gapLength : Nat := b.gapEnd - b.gapStart

def length : Nat := b.slots.size - b.gapLength

def beforeGap : Text := (b.slots.extract 0 b.gapStart).toList

def afterGap : Text := (b.slots.extract b.gapEnd b.slots.size).toList

def slotOf (offset : Nat) : Nat :=
  if offset < b.gapStart then offset else offset + b.gapLength

def charAt (offset : Nat) : Except TextError Char :=
  if offset < b.length then
    match b.slots[b.slotOf offset]? with
    | some c => .ok c
    | none => .error (.offsetOutOfRange offset b.length)
  else .error (.offsetOutOfRange offset b.length)

def charsFrom (offset : Nat) : Text :=
  let offset := min offset b.length
  if offset < b.gapStart then (b.slots.extract offset b.gapStart).toList ++ b.afterGap
  else (b.slots.extract (b.slotOf offset) b.slots.size).toList

def charsBefore (offset : Nat) : Text :=
  let offset := min offset b.length
  if offset ≤ b.gapStart then (b.slots.extract 0 offset).toList.reverse
  else (b.slots.extract b.gapEnd (b.slotOf offset)).toList.reverse ++ b.beforeGap.reverse

def slice (offset length : Nat) : Except TextError Text := do
  checkRange offset length b.length
  return (b.charsFrom offset).take length

instance : TextSource GapBuffer := ⟨length, charAt, slice, charsFrom, charsBefore⟩

def overwrite (slots : Array Char) (first : Nat) (run : Array Char) : Array Char :=
  slots.extract 0 first ++ run ++ slots.extract (first + run.size) slots.size

def moveGap (offset : Nat) : GapBuffer :=
  if offset < b.gapStart then
    let run := b.slots.extract offset b.gapStart
    ⟨overwrite b.slots (b.gapEnd - run.size) run, offset, b.gapEnd - run.size⟩
  else if b.gapStart < offset then
    let run := b.slots.extract b.gapEnd (b.gapEnd + (offset - b.gapStart))
    ⟨overwrite b.slots b.gapStart run, offset, b.gapEnd + run.size⟩
  else b

def widenGap (needed : Nat) : GapBuffer :=
  if needed ≤ b.gapLength then b
  else
    let growth := max (needed - b.gapLength) (b.slots.size * growthFactor)
    let tail := b.slots.extract b.gapEnd b.slots.size
    let slots := b.slots ++ Array.replicate growth '\x00'
    ⟨overwrite slots (slots.size - tail.size) tail, b.gapStart, slots.size - tail.size⟩

def fillGap (t : Text) : GapBuffer :=
  { b with slots := overwrite b.slots b.gapStart t.toArray, gapStart := b.gapStart + t.length }

def insert (offset : Nat) (t : Text) : Except TextError GapBuffer := do
  checkOffset offset b.length
  if t.isEmpty then return b
  return ((b.moveGap offset).widenGap t.length).fillGap t

def remove (offset length : Nat) : Except TextError (Text × GapBuffer) := do
  let removed ← b.slice offset length
  let moved := b.moveGap offset
  return (removed, { moved with gapEnd := moved.gapEnd + length })

end GapBuffer

end EditableText
