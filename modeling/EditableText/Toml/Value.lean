import EditableText.Text

namespace EditableText

inductive TomlTableKind where
  | header
  /-- On the way to the table of a header. -/
  | implied
  /-- On the way to the last part of a dotted key. -/
  | dotted
  | inline
  deriving Repr, DecidableEq

inductive Toml where
  | string (t : Text)
  | integer (n : Int)
  | float (lexeme : Text)
  | boolean (b : Bool)
  | dateTime (lexeme : Text)
  | array (items : List Toml)
  | table (kind : TomlTableKind) (entries : List (Text × Toml))
  | tables (elements : List (List (Text × Toml)))
  deriving Repr

abbrev TomlEntries := List (Text × Toml)

end EditableText
