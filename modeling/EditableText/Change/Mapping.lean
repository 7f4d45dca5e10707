import EditableText.Change.OffsetMap

namespace EditableText

inductive ChangeMapping where
  | normal
  | removeAndInsert
  | characterReplace
  | keepAnchorBeforeInsertion
  deriving Repr, DecidableEq, Inhabited

namespace ChangeMapping

def all : List ChangeMapping :=
  [normal, removeAndInsert, characterReplace, keepAnchorBeforeInsertion]

def name : ChangeMapping → String
  | normal => "normal"
  | removeAndInsert => "remove-and-insert"
  | characterReplace => "character-replace"
  | keepAnchorBeforeInsertion => "keep-anchor-before-insertion"

def replaceCharacters (offset removal insertion : Nat) : OffsetMap :=
  if removal < insertion then [.plain (Word.add offset removal) 0 (insertion - removal)]
  else if insertion < removal then
    [⟨Word.add offset insertion, removal - insertion, 0, true, false⟩]
  else []

def offsetMap (mapping : ChangeMapping) (offset removal insertion : Nat) : OffsetMap :=
  match mapping with
  | normal => [.plain offset removal insertion]
  | keepAnchorBeforeInsertion => [⟨offset, removal, insertion, false, true⟩]
  | removeAndInsert =>
    if removal = 0 ∨ insertion = 0 then [.plain offset removal insertion]
    else [.plain offset removal 0, .plain offset 0 insertion]
  | characterReplace =>
    if removal = 0 ∨ insertion = 0 then [.plain offset removal insertion]
    else replaceCharacters offset removal insertion

end ChangeMapping

end EditableText
