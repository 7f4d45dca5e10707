import EditableText.Anchor.Segment
import EditableText.History
import EditableText.Location
import EditableText.Options
import EditableText.Stored.Codec

namespace EditableText

def Segment.codec : Codec Segment :=
  .fields ["offset", "length"]
    (fun s => [Codec.nat.encode s.offset, Codec.nat.encode s.length])
    fun
      | [offset, length] => do return ⟨← Codec.nat.decode? offset, ← Codec.nat.decode? length⟩
      | _ => none

def Location.codec : Codec Location :=
  .fields ["line", "column"]
    (fun l => [Codec.nat.encode l.line, Codec.nat.encode l.column])
    fun
      | [line, column] => do return ⟨← Codec.nat.decode? line, ← Codec.nat.decode? column⟩
      | _ => none

def AnchorMovement.codec : Codec AnchorMovement := .named all name

def ChangeMapping.codec : Codec ChangeMapping := .named all name

def LineEnding.codec : Codec LineEnding := .named all name

def LineBreaks.codec : Codec LineBreaks := .named all name

def BufferStrategy.codec : Codec BufferStrategy := .named all name

def AnchorId.codec : Codec AnchorId :=
  .fields ["index", "generation"]
    (fun id => [Codec.word32.encode id.index, Codec.word32.encode id.generation])
    fun
      | [index, generation] => do
        return ⟨← Codec.word32.decode? index, ← Codec.word32.decode? generation⟩
      | _ => none

def AnchorSegment.codec : Codec AnchorSegment :=
  .fields ["start", "end"]
    (fun s => [AnchorId.codec.encode s.start, AnchorId.codec.encode s.stop])
    fun
      | [start, stop] => do
        return ⟨← AnchorId.codec.decode? start, ← AnchorId.codec.decode? stop⟩
      | _ => none

def OffsetStep.codec : Codec OffsetStep :=
  .fields
    ["offset", "removal_length", "insertion_length", "removal_never_causes_anchor_deletion",
      "default_anchor_movement_is_before_insertion"]
    (fun s =>
      [Codec.nat.encode s.offset, Codec.nat.encode s.removal, Codec.nat.encode s.insertion,
        Codec.flag.encode s.keepsAnchors, Codec.flag.encode s.movesBefore])
    fun
      | [offset, removal, insertion, keepsAnchors, movesBefore] => do
        return ⟨← Codec.nat.decode? offset, ← Codec.nat.decode? removal,
          ← Codec.nat.decode? insertion, ← Codec.flag.decode? keepsAnchors,
          ← Codec.flag.decode? movesBefore⟩
      | _ => none

def OffsetMap.codec : Codec OffsetMap :=
  .fields ["entries"] (fun map => [(Codec.list OffsetStep.codec).encode map])
    fun
      | [entries] => (Codec.list OffsetStep.codec).decode? entries
      | _ => none

structure StoredChange where
  offset : Nat
  removed : Text
  inserted : Text
  removal : Nat
  insertion : Nat
  map : OffsetMap
  deriving Repr, DecidableEq

namespace StoredChange

def ofChange (c : Change) : StoredChange :=
  ⟨c.offset, c.removed, c.inserted, c.removed.length, c.inserted.length, c.map⟩

def codec : Codec StoredChange :=
  .fields
    ["offset", "removed_text", "inserted_text", "removal_length", "insertion_length",
      "offset_change_map"]
    (fun c =>
      [Codec.nat.encode c.offset, Codec.text.encode c.removed, Codec.text.encode c.inserted,
        Codec.nat.encode c.removal, Codec.nat.encode c.insertion, OffsetMap.codec.encode c.map])
    fun
      | [offset, removed, inserted, removal, insertion, map] => do
        return ⟨← Codec.nat.decode? offset, ← Codec.text.decode? removed,
          ← Codec.text.decode? inserted, ← Codec.nat.decode? removal,
          ← Codec.nat.decode? insertion, ← OffsetMap.codec.decode? map⟩
      | _ => none

/-- An operation is stored under the name of its kind, and changes are the only kind. -/
def operationCodec : Codec StoredChange where
  encode c := .record [("DocumentEdit", codec.encode c)]
  decode?
    | .record [("DocumentEdit", v)] => codec.decode? v
    | _ => none

end StoredChange

abbrev StoredGroup := List StoredChange

namespace StoredGroup

def ofGroup (group : ChangeGroup) : StoredGroup := group.map .ofChange

def codec : Codec StoredGroup :=
  .fields ["operations"] (fun group => [(Codec.list StoredChange.operationCodec).encode group])
    fun
      | [operations] => (Codec.list StoredChange.operationCodec).decode? operations
      | _ => none

end StoredGroup

namespace DocumentOptions

def fieldNames : List String :=
  ["buffer", "line_ending", "line_breaks", "undo_limit", "event_capacity"]

def codec : Codec DocumentOptions where
  encode o := .record (fieldNames.zip
    [BufferStrategy.codec.encode o.buffer, LineEnding.codec.encode o.lineEnding,
      LineBreaks.codec.encode o.lineBreaks, Codec.nat.encode o.undoLimit,
      Codec.nat.encode o.eventCapacity])
  decode? v := do
    let present {α : Type} (c : Codec α) (absent : α) (field : Option StoredValue) : Option α :=
      match field with
      | none => some absent
      | some v => c.decode? v
    match ← v.presentFields? fieldNames with
    | [buffer, lineEnding, lineBreaks, undoLimit, eventCapacity] =>
      return {
        buffer := ← present BufferStrategy.codec default.buffer buffer
        lineEnding := ← present LineEnding.codec default.lineEnding lineEnding
        lineBreaks := ← present LineBreaks.codec default.lineBreaks lineBreaks
        undoLimit := ← present Codec.nat default.undoLimit undoLimit
        eventCapacity := ← present Codec.nat default.eventCapacity eventCapacity }
    | _ => none

end DocumentOptions

end EditableText
