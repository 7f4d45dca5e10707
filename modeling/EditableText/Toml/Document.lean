import EditableText.Toml.Number
import EditableText.Toml.Quoted
import EditableText.Toml.Table
import EditableText.Toml.Time

namespace EditableText.Toml.Document

open Scan Quoted

def maxDepth : Nat := 79

def isBareKeyChar (c : Char) : Bool := c.isAlphanum || c == '_' || c == '-'

def keyPart : Scan Text := do
  blanks
  let part ← orElse (takeSome isBareKeyChar) (orElse basic literal)
  blanks
  return part

def key : Scan (List Text × Text) := do
  let first ← keyPart
  let others ← many (do char '.'; keyPart)
  let parts := first :: others
  check (parts.length ≤ maxDepth)
  return (parts.dropLast, others.getLast?.getD first)

def isLexemeChar (c : Char) : Bool := c.isAlphanum || ['+', '-', '_', '.', ':'].contains c

def ofLexeme? (t : Text) : Option Toml :=
  match Number.integer? t with
  | some n => some (.integer n)
  | none =>
    if t = ['t', 'r', 'u', 'e'] then some (.boolean true)
    else if t = ['f', 'a', 'l', 's', 'e'] then some (.boolean false)
    else if Number.isFloat t then some (.float t)
    else if Time.isDateTime t then some (.dateTime t)
    else none

def timeOfDay : Scan Text := do
  char ' '
  let t ← takeSome isLexemeChar
  return ' ' :: t

def lexeme : Scan Toml := do
  let t ← takeSome isLexemeChar
  if Time.isDate t then
    match ← optional timeOfDay with
    | none => return .dateTime t
    | some time =>
      check (Time.isTimeWithOffset (time.drop 1))
      return .dateTime (t ++ time)
  else ofOption (ofLexeme? t)

def simple : Scan Toml := do
  match (← ahead).head? with
  | some '"' | some '\'' => return .string (← Quoted.string)
  | _ => lexeme

def comment : Scan Unit := do
  char '#'
  let _ ← takeWhile isPlain

def gap : Scan Unit := do
  let _ ← many (orElse (do let _ ← takeSome isBlank)
    (orElse newline (do comment; newline)))

def array (value : Scan Toml) : Scan Toml := do
  char '['
  let items ← separated (char ',') (do
    gap
    let item ← value
    gap
    return item)
  unless items.isEmpty do
    let _ ← optional (char ',')
  gap
  char ']'
  return .array items

def assignment (value : Scan Toml) : Scan Assignment := do
  let (path, key) ← key
  char '='
  blanks
  let value ← value
  return ⟨path, key, value⟩

def inlineTable (value : Scan Toml) : Scan Toml := do
  char '\x7b'
  let assignments ← separated (char ',') (do
    let a ← assignment value
    blanks
    return a)
  blanks
  char '\x7d'
  let entries ← ofOption (Assignment.applyAll assignments [])
  return .table .inline entries

def value : Nat → Scan Toml
  | 0 => simple
  | depth + 1 => do
    match (← ahead).head? with
    | some '[' => array (value depth)
    | some '\x7b' => inlineTable (value depth)
    | _ => simple

def lineEnd : Scan Unit := do
  blanks
  let _ ← optional comment
  orElse newline stop

def emptyLine : Scan Unit := do
  blanks
  let _ ← optional comment
  newline

def entry : Scan Assignment := do
  let _ ← many emptyLine
  let a ← assignment (value maxDepth)
  lineEnd
  return a

def elementHeader : Scan Header := do
  word ['[', '[']
  let (path, key) ← key
  word [']', ']']
  return .element path key

def tableHeader : Scan Header := do
  char '['
  let (path, key) ← key
  char ']'
  return .table path key

def headed : Scan Section := do
  let _ ← many emptyLine
  blanks
  let header ← orElse elementHeader tableHeader
  lineEnd
  let assignments ← many entry
  return ⟨header, assignments⟩

def document : Scan TomlEntries := do
  let _ ← optional (char '\ufeff')
  let entries ← many entry
  let sections ← many headed
  let _ ← many emptyLine
  lineEnd
  let root ← ofOption (Assignment.applyAll entries [])
  ofOption (Section.applyAll sections root)

def parse? (t : Text) : Option TomlEntries := readAll? document t

end EditableText.Toml.Document
