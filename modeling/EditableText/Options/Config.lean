import EditableText.Stored.Forms
import EditableText.Toml.Document

namespace EditableText

inductive ConfigError where
  | unreadable
  | malformed
  | unwritable
  deriving Repr, DecidableEq

namespace Toml

mutual

def toStored : Toml → StoredValue
  | string t => .text t
  | integer n => .integer n
  | float _ => .fraction
  | boolean b => .flag b
  | dateTime _ => .fraction
  | array [] => .null
  | array (item :: items) => .list (item.toStored :: allToStored items)
  | table _ [] => .null
  | table _ (entry :: entries) => .record (entriesToStored (entry :: entries))
  | tables elements => .list (elementsToStored elements)

def allToStored : List Toml → List StoredValue
  | [] => []
  | item :: items => item.toStored :: allToStored items

def entriesToStored : List (Text × Toml) → List (String × StoredValue)
  | [] => []
  | (key, value) :: rest => (key.toString, value.toStored) :: entriesToStored rest

def elementsToStored : List (List (Text × Toml)) → List StoredValue
  | [] => []
  | element :: rest => .record (entriesToStored element) :: elementsToStored rest

end

end Toml

namespace DocumentOptions

def ofToml? (t : Text) : Except ConfigError DocumentOptions :=
  match Toml.Document.parse? t with
  | none => .error .malformed
  | some root =>
    match codec.decode? (.record (Toml.entriesToStored root)) with
    | some options => .ok options
    | none => .error .malformed

def ofFile? (content : Option ByteArray) : Except ConfigError DocumentOptions :=
  match content.bind String.fromUTF8? with
  | some s => ofToml? (.ofString s)
  | none => .error .unreadable

def maxInteger : Nat := 1 <<< 63 - 1

def quotedLine (name value : String) : String := name ++ " = \"" ++ value ++ "\"\n"

def numberLine? (name : String) (n : Nat) : Except ConfigError String :=
  if n ≤ maxInteger then .ok (name ++ " = " ++ n.repr ++ "\n") else .error .unwritable

def toToml? (options : DocumentOptions) : Except ConfigError String := do
  let undoLimit ← numberLine? "undo_limit" options.undoLimit
  let eventCapacity ← numberLine? "event_capacity" options.eventCapacity
  return quotedLine "buffer" options.buffer.name ++
    quotedLine "line_ending" options.lineEnding.name ++
    quotedLine "line_breaks" options.lineBreaks.name ++
    undoLimit ++ eventCapacity

end DocumentOptions

end EditableText
