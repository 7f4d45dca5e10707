import EditableText.Toml.Scan

namespace EditableText.Toml.Quoted

open Scan

def isPlain (c : Char) : Bool := c == '\t' || (0x20 ≤ c.toNat && c.toNat != 0x7f)

def isBlank (c : Char) : Bool := c == ' ' || c == '\t'

def blanks : Scan Unit := do
  let _ ← takeWhile isBlank

def newline : Scan Unit := orElse (char '\n') (word ['\r', '\n'])

def hexDigit : Scan Nat := do
  let c ← next
  if c.isDigit then return c.toNat - '0'.toNat
  else if 'a' ≤ c ∧ c ≤ 'f' then return c.toNat - 'a'.toNat + 10
  else if 'A' ≤ c ∧ c ≤ 'F' then return c.toNat - 'A'.toNat + 10
  else fail

def hexNumber (high : Nat) : Nat → Scan Nat
  | 0 => pure high
  | count + 1 => do hexNumber (high * 16 + (← hexDigit)) count

def codePoint (count : Nat) : Scan Char := do
  let n ← hexNumber 0 count
  check (decide n.isValidChar)
  return Char.ofNat n

def escape : Scan Char := do
  match ← next with
  | 'b' => return '\x08'
  | 't' => return '\t'
  | 'n' => return '\n'
  | 'f' => return '\x0c'
  | 'r' => return '\r'
  | '"' => return '"'
  | '\\' => return '\\'
  | 'u' => codePoint 4
  | 'U' => codePoint 8
  | _ => fail

def basicChar : Scan Char := do
  match ← next with
  | '\\' => escape
  | c =>
    check (isPlain c && c != '"')
    return c

def basic : Scan Text := do
  char '"'
  let t ← many basicChar
  char '"'
  return t

def literal : Scan Text := do
  char '\''
  let t ← takeWhile fun c => isPlain c && c != '\''
  char '\''
  return t

def continuation : Scan Text := do
  char '\\'
  blanks
  newline
  let _ ← many (orElse newline (do let _ ← takeSome isBlank))
  return []

def brokenLine : Scan Text := do
  newline
  return ['\n']

def innerQuote (quote : Char) : Scan Text := do
  char quote
  check !([quote, quote].isPrefixOf (← ahead))
  return [quote]

/-- Three quotes end the string; up to two quotes may stand before them. -/
def closing (quote : Char) : Scan Text := do
  let quotes ← takeWhile (· == quote)
  check (3 ≤ quotes.length && quotes.length ≤ 5)
  return quotes.drop 3

def multiline (quote : Char) (item : Scan Text) : Scan Text := do
  word [quote, quote, quote]
  let _ ← optional newline
  let items ← many (orElse item (orElse brokenLine (innerQuote quote)))
  let last ← closing quote
  return items.flatten ++ last

def multilineBasic : Scan Text :=
  multiline '"' (orElse continuation (do return [← basicChar]))

def multilineLiteral : Scan Text :=
  multiline '\'' (do
    let c ← next
    check (isPlain c && c != '\'')
    return [c])

def string : Scan Text :=
  orElse multilineBasic (orElse basic (orElse multilineLiteral literal))

end EditableText.Toml.Quoted
