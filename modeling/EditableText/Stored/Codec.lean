import EditableText.Text

namespace EditableText

inductive StoredValue where
  | null
  | flag (b : Bool)
  | integer (n : Int)
  | fraction
  | text (t : Text)
  | list (items : List StoredValue)
  | record (entries : List (String × StoredValue))
  deriving Repr, Inhabited

namespace StoredValue

/-- The fields of these names, by name from a record and by position from a list. Fields of other
names do not matter. -/
def fields? (names : List String) : StoredValue → Option (List StoredValue)
  | record entries => names.mapM fun name => entries.lookup name
  | list items => if items.length = names.length then some items else none
  | _ => none

def presentFields? (names : List String) : StoredValue → Option (List (Option StoredValue))
  | record entries => some (names.map fun name => entries.lookup name)
  | list items =>
    if items.length ≤ names.length then
      some (items.map some ++ List.replicate (names.length - items.length) none)
    else none
  | _ => none

def alternative? : StoredValue → Option String
  | text t => some t.toString
  | record [(name, null)] => some name
  | _ => none

end StoredValue

structure Codec (α : Type) where
  encode : α → StoredValue
  decode? : StoredValue → Option α

namespace Codec

variable {α : Type}

def word (bits : Nat) : Codec Nat where
  encode n := .integer n
  decode?
    | .integer n => if 0 ≤ n ∧ n.toNat < 1 <<< bits then some n.toNat else none
    | _ => none

def nat : Codec Nat := word 64

def word32 : Codec UInt32 where
  encode n := (word 32).encode n.toNat
  decode? v := (·.toUInt32) <$> (word 32).decode? v

def flag : Codec Bool where
  encode b := .flag b
  decode?
    | .flag b => some b
    | _ => none

def text : Codec Text where
  encode t := .text t
  decode?
    | .text t => some t
    | _ => none

def list (items : Codec α) : Codec (List α) where
  encode xs := .list (xs.map items.encode)
  decode?
    | .list values => values.mapM items.decode?
    | _ => none

def named (all : List α) (name : α → String) : Codec α where
  encode a := .text (.ofString (name a))
  decode? v := do
    let found ← v.alternative?
    all.find? fun a => name a == found

def fields (names : List String) (split : α → List StoredValue)
    (build : List StoredValue → Option α) : Codec α where
  encode a := .record (names.zip (split a))
  decode? v := (v.fields? names).bind build

end Codec

end EditableText
