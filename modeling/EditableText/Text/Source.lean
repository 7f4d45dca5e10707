import EditableText.Error

namespace EditableText

def checkOffset (offset textLength : Nat) : Except TextError Unit :=
  if offset ≤ textLength then .ok () else .error (.offsetOutOfRange offset textLength)

def checkRange (offset length textLength : Nat) : Except TextError Unit :=
  if offset + length ≤ textLength then .ok ()
  else .error (.rangeOutOfRange offset length textLength)

theorem checkOffset_eq_ok {offset textLength : Nat} :
    checkOffset offset textLength = .ok () ↔ offset ≤ textLength := by
  simp [checkOffset]

theorem checkRange_eq_ok {offset length textLength : Nat} :
    checkRange offset length textLength = .ok () ↔ offset + length ≤ textLength := by
  simp [checkRange]

/-- Reading from an offset beyond the text reads from its end. -/
class TextSource (σ : Type) where
  length : σ → Nat
  charAt : σ → Nat → Except TextError Char
  slice : σ → Nat → Nat → Except TextError Text
  charsFrom : σ → Nat → Text
  charsBefore : σ → Nat → Text

namespace Text

def charAt (t : Text) (offset : Nat) : Except TextError Char :=
  match t[offset]? with
  | some c => .ok c
  | none => .error (.offsetOutOfRange offset t.length)

def slice (t : Text) (offset length : Nat) : Except TextError Text := do
  checkRange offset length t.length
  return (t.drop offset).take length

instance : TextSource Text where
  length := List.length
  charAt := charAt
  slice := slice
  charsFrom t offset := t.drop offset
  charsBefore t offset := (t.take offset).reverse

def firstIndex (needle : Text) : Text → Option Nat
  | [] => if needle.isEmpty then some 0 else none
  | c :: rest =>
    if needle.isPrefixOf (c :: rest) then some 0 else (firstIndex needle rest).map (· + 1)

def lastIndex (needle : Text) : Text → Option Nat
  | [] => if needle.isEmpty then some 0 else none
  | c :: rest =>
    match lastIndex needle rest with
    | some i => some (i + 1)
    | none => if needle.isPrefixOf (c :: rest) then some 0 else none

end Text

namespace TextSource

variable {σ : Type} [TextSource σ] (source : σ)

def text : Text := charsFrom source 0

def isEmpty : Bool := length source == 0

def indexOf (needle : Text) (start count : Nat) : Except TextError (Option Nat) := do
  checkRange start count (length source)
  let window := (charsFrom source start).take count
  return (Text.firstIndex needle window).map (start + ·)

def lastIndexOf (needle : Text) (start count : Nat) : Except TextError (Option Nat) := do
  checkRange start count (length source)
  let window := (charsFrom source start).take count
  return (Text.lastIndex needle window).map (start + ·)

def indexOfAny (set : List Char) (start count : Nat) : Except TextError (Option Nat) := do
  checkRange start count (length source)
  let window := (charsFrom source start).take count
  return (window.findIdx? set.contains).map (start + ·)

end TextSource

end EditableText
