/-!
Text as a list of characters. Every offset and length in this library counts characters.
-/

namespace EditableText

abbrev Text := List Char

namespace Text

def ofString (s : String) : Text := s.toList

def toString (t : Text) : String := String.ofList t

def splice (t : Text) (offset length : Nat) (fresh : Text) : Text :=
  t.take offset ++ (fresh ++ t.drop (offset + length))

theorem splice_nil (t : Text) (offset : Nat) : t.splice offset 0 [] = t := by
  simp [splice]

theorem length_splice {t : Text} {offset length : Nat} (h : offset + length ≤ t.length)
    (fresh : Text) :
    (t.splice offset length fresh).length = t.length - length + fresh.length := by
  simp [splice]
  omega

theorem length_take_drop {t : Text} {offset length : Nat} (h : offset + length ≤ t.length) :
    ((t.drop offset).take length).length = length := by
  simp
  omega

end Text

end EditableText
