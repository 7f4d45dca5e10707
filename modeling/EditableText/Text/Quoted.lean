import EditableText.Text
import EditableText.Text.DefaultIgnorable
import EditableText.Text.GraphemeExtend
import EditableText.Text.Unprintable

/-!
Text between double quotes, as error messages show it: a quote and a backslash are escaped, the
usual controls have letters, and a character that shows nothing is written by its code point.
-/

namespace EditableText.Text.Quoted

def inRanges (ranges : List (Nat × Nat)) (c : Char) : Bool :=
  ranges.any fun (first, last) => first ≤ c.toNat && c.toNat ≤ last

/-- The halfwidth sound marks attach to the character before them and still have a width. -/
def isSoundMark (c : Char) : Bool := c == '\uff9e' || c == '\uff9f'

def isVisible (c : Char) : Bool :=
  !inRanges Unprintable.ranges c && !inRanges DefaultIgnorable.ranges c &&
    (isSoundMark c || !inRanges GraphemeExtend.ranges c)

def codePoint (c : Char) : Text :=
  ['\\', 'u', '\x7b'] ++ Nat.toDigits 16 c.toNat ++ ['\x7d']

def encodeChar (c : Char) : Text :=
  match c with
  | '\x00' => ['\\', '0']
  | '\t' => ['\\', 't']
  | '\r' => ['\\', 'r']
  | '\n' => ['\\', 'n']
  | '"' => ['\\', '"']
  | '\\' => ['\\', '\\']
  | c => if isVisible c then [c] else codePoint c

def encode (t : Text) : Text :=
  ['"'] ++ t.flatMap encodeChar ++ ['"']

end EditableText.Text.Quoted
