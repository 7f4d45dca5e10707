namespace EditableText

structure AnchorId where
  index : UInt32
  generation : UInt32
  deriving Repr, DecidableEq, Inhabited

namespace AnchorId

def toText (id : AnchorId) : String :=
  s!"anchor#{id.index.toNat}.{id.generation.toNat}"

end AnchorId

end EditableText
