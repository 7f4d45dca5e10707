import EditableText.Storage.GapBuffer
import EditableText.Text.Search

/-!
Where a document keeps its characters. A rope is known by its characters alone.
-/

namespace EditableText

inductive BufferStrategy where
  | rope
  | gap
  deriving Repr, DecidableEq, Inhabited

namespace BufferStrategy

def all : List BufferStrategy := [rope, gap]

def name : BufferStrategy → String
  | rope => "rope"
  | gap => "gap"

end BufferStrategy

structure Snapshot where
  content : Text
  version : Nat
  deriving Repr, DecidableEq

namespace Snapshot

instance : TextSource Snapshot where
  length s := TextSource.length s.content
  charAt s := TextSource.charAt s.content
  slice s := TextSource.slice s.content
  charsFrom s := TextSource.charsFrom s.content
  charsBefore s := TextSource.charsBefore s.content

def withVersion (s : Snapshot) (version : Nat) : Snapshot := { s with version }

end Snapshot

inductive Storage where
  | rope (content : Text)
  | gap (buffer : GapBuffer)
  deriving Repr

namespace Storage

def empty : BufferStrategy → Storage
  | .rope => rope []
  | .gap => gap .empty

def ofText (t : Text) : BufferStrategy → Storage
  | .rope => rope t
  | .gap => gap (.ofText t)

def strategy : Storage → BufferStrategy
  | rope _ => .rope
  | gap _ => .gap

def gapPosition? : Storage → Option Nat
  | rope _ => none
  | gap buffer => some buffer.gapStart

instance : TextSource Storage where
  length
    | rope t => TextSource.length t
    | gap b => TextSource.length b
  charAt
    | rope t => TextSource.charAt t
    | gap b => TextSource.charAt b
  slice
    | rope t => TextSource.slice t
    | gap b => TextSource.slice b
  charsFrom
    | rope t => TextSource.charsFrom t
    | gap b => TextSource.charsFrom b
  charsBefore
    | rope t => TextSource.charsBefore t
    | gap b => TextSource.charsBefore b

def insert (s : Storage) (offset : Nat) (t : Text) : Except TextError Storage :=
  match s with
  | rope content => do
    checkOffset offset content.length
    return rope (content.splice offset 0 t)
  | gap buffer => gap <$> buffer.insert offset t

def remove (s : Storage) (offset length : Nat) : Except TextError (Text × Storage) :=
  match s with
  | rope content => do
    let removed ← content.slice offset length
    return (removed, rope (content.splice offset length []))
  | gap buffer => do
    let (removed, buffer) ← buffer.remove offset length
    return (removed, gap buffer)

def snapshot (s : Storage) : Snapshot := ⟨TextSource.text s, 0⟩

end Storage

end EditableText
