import EditableText.Toml.Value

namespace EditableText.Toml

def set (key : Text) (value : Toml) : TomlEntries → TomlEntries
  | [] => [(key, value)]
  | (k, v) :: rest => if k = key then (k, value) :: rest else (k, v) :: set key value rest

/-- Applies `f` to the table at the end of a path. Tables that are missing are made on the way; of
an array of tables the last one is meant. The path of a dotted key does not go through tables
that have a header of their own. -/
def within (isDotted : Bool) (f : TomlTableKind → TomlEntries → Option TomlEntries) :
    List Text → TomlTableKind → TomlEntries → Option TomlEntries
  | [], kind, entries => f kind entries
  | key :: path, _, entries =>
    match entries.lookup key with
    | none => do
      let kind := if isDotted then .dotted else .implied
      return set key (.table kind (← within isDotted f path kind [])) entries
    | some (.table kind inner) =>
      if kind = .inline ∨ (isDotted ∧ kind = .header) then none
      else do return set key (.table kind (← within isDotted f path kind inner)) entries
    | some (.tables elements) =>
      match elements.getLast? with
      | some last => do
        return set key (.tables (elements.dropLast ++ [← within isDotted f path .header last]))
          entries
      | none => none
    | some _ => none

structure Assignment where
  path : List Text
  key : Text
  value : Toml
  deriving Repr

namespace Assignment

def apply (a : Assignment) (entries : TomlEntries) : Option TomlEntries :=
  within true
    (fun kind inner =>
      if (inner.lookup a.key).isSome ∨ (a.path ≠ [] ∧ kind ≠ .dotted) then none
      else some (set a.key a.value inner))
    a.path .header entries

def applyAll : List Assignment → TomlEntries → Option TomlEntries
  | [], entries => some entries
  | a :: rest, entries => do applyAll rest (← a.apply entries)

end Assignment

inductive Header where
  | table (path : List Text) (key : Text)
  | element (path : List Text) (key : Text)
  deriving Repr

structure Section where
  header : Header
  assignments : List Assignment
  deriving Repr

namespace Section

def apply (s : Section) (root : TomlEntries) : Option TomlEntries :=
  match s.header with
  | .table path key =>
    within false
      (fun _ entries => do
        let inner ← match entries.lookup key with
          | none => some []
          | some (.table .implied inner) => some inner
          | some _ => none
        return set key (.table .header (← Assignment.applyAll s.assignments inner)) entries)
      path .header root
  | .element path key =>
    within false
      (fun _ entries => do
        let elements ← match entries.lookup key with
          | none => some []
          | some (.tables elements) => some elements
          | some _ => none
        return set key (.tables (elements ++ [← Assignment.applyAll s.assignments []])) entries)
      path .header root

def applyAll : List Section → TomlEntries → Option TomlEntries
  | [], root => some root
  | s :: rest, root => do applyAll rest (← s.apply root)

end Section

end EditableText.Toml
