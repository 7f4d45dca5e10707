import EditableText.Bus
import EditableText.History
import EditableText.Storage
import EditableText.Text.Newline

namespace EditableText

structure DocumentOptions where
  buffer : BufferStrategy
  lineEnding : LineEnding
  lineBreaks : LineBreaks
  undoLimit : Nat
  eventCapacity : Nat
  deriving Repr, DecidableEq

namespace DocumentOptions

def default : DocumentOptions :=
  ⟨.rope, .lf, .standard, History.defaultLimit, Bus.defaultCapacity⟩

end DocumentOptions

end EditableText
