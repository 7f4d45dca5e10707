import EditableText.Text.Newline
import EditableText.Text.Search

namespace EditableText

inductive Query where
  | length
  | isEmpty
  | text
  | charAt (offset : Nat)
  | slice (offset count : Nat)
  | charsFrom (offset count : Nat)
  | charsBefore (offset count : Nat)
  | indexOf (needle : Text) (start count : Nat)
  | lastIndexOf (needle : Text) (start count : Nat)
  | indexOfAny (set : List Char) (start count : Nat)
  | findNewline (offset : Nat) (breaks : LineBreaks)
  | findAnyChar (start stop : Int) (set : List Char)
  | findAnyCharBackward (start stop : Int) (set : List Char)
  | findAnyCharExceptBackward (start stop : Int) (set : List Char)
  | findCharSequence (start stop : Int) (chars : List Char)
  | matchTexts (start stop : Int) (needles : List Text)
  | blanksAfter (offset : Nat)
  | blanksBefore (offset : Nat)
  deriving Repr, DecidableEq

inductive Finding where
  | count (n : Nat)
  | flag (b : Bool)
  | char (c : Char)
  | text (t : Text)
  | offset (found : Option Nat)
  | newline (found : Option Segment)
  | offsets (found : List Nat)
  | segment (s : Segment)
  deriving Repr, DecidableEq

namespace Query

variable {σ : Type} [TextSource σ] (source : σ)

def answer : Query → Except TextError Finding
  | length => .ok (.count (TextSource.length source))
  | isEmpty => .ok (.flag (TextSource.isEmpty source))
  | text => .ok (.text (TextSource.text source))
  | charAt offset => .char <$> TextSource.charAt source offset
  | slice offset count => .text <$> TextSource.slice source offset count
  | charsFrom offset count => .ok (.text ((TextSource.charsFrom source offset).take count))
  | charsBefore offset count => .ok (.text ((TextSource.charsBefore source offset).take count))
  | indexOf needle start count => .offset <$> TextSource.indexOf source needle start count
  | lastIndexOf needle start count => .offset <$> TextSource.lastIndexOf source needle start count
  | indexOfAny set start count => .offset <$> TextSource.indexOfAny source set start count
  | findNewline offset breaks => .ok (.newline (TextSource.findNewline source offset breaks))
  | findAnyChar start stop set => .ok (.offset (TextSource.findAnyChar source start stop set))
  | findAnyCharBackward start stop set =>
    .ok (.offset (TextSource.findAnyCharBackward source start stop set))
  | findAnyCharExceptBackward start stop set =>
    .ok (.offset (TextSource.findAnyCharExceptBackward source start stop set))
  | findCharSequence start stop chars =>
    .ok (.offsets (TextSource.findCharSequence source start stop chars))
  | matchTexts start stop needles =>
    .ok (.offsets (TextSource.matchTexts source start stop needles))
  | blanksAfter offset => .ok (.segment (TextSource.blanksAfter source offset))
  | blanksBefore offset => .ok (.segment (TextSource.blanksBefore source offset))

end Query

end EditableText
