import EditableText.Lines.Supply
import EditableText.Location

/-!
The line table of a text: line numbers to offsets and back, kept up to date by rescanning only the
lines that an edit touches.
-/

namespace EditableText

structure LineTable where
  tree : LineTree
  supply : NodeSupply
  breaks : LineBreaks
  deriving Repr, DecidableEq

namespace LineTable

def empty (breaks : LineBreaks) : LineTable :=
  let (tree, supply) := NodeSupply.initial.build [⟨0, 0⟩]
  ⟨tree, supply, breaks⟩

variable (table : LineTable)

def rebuild (t : Text) : LineTable :=
  let (tree, supply) := table.supply.restart.build (LineExtent.scan table.breaks t)
  { table with tree, supply }

def ofText (t : Text) (breaks : LineBreaks) : LineTable := (empty breaks).rebuild t

def lineCount : Nat := table.tree.count

def textLength : Nat := table.tree.total

def extents : List LineExtent := table.tree.entries.map (·.extent)

def lines : List Line := LineExtent.linesFrom 1 0 table.extents

def line (number : Nat) : Except TextError Line :=
  if number = 0 then .error (.lineOutOfRange number table.lineCount)
  else
    match table.tree.atIndex? (number - 1) 0 with
    | some (entry, offset) => .ok (entry.extent.toLine number offset)
    | none => .error (.lineOutOfRange number table.lineCount)

def place? (offset : Nat) : Option LineTree.Place :=
  if table.textLength ≤ offset then do
    let index := table.lineCount - 1
    let (entry, start) ← table.tree.atIndex? index 0
    return ⟨entry, index, start⟩
  else table.tree.holding? offset 0 0

def lineAt (offset : Nat) : Except TextError Line := do
  checkOffset offset table.textLength
  match table.place? offset with
  | some place => return place.entry.extent.toLine (place.index + 1) place.start
  | none => .error (.offsetOutOfRange offset table.textLength)

def locationOf (offset : Nat) : Except TextError Location := do
  let line ← table.lineAt offset
  return ⟨line.number, offset - line.offset + 1⟩

/-- A column before the line counts as its start, one behind its content as its end. -/
def offsetOf (number column : Nat) : Except TextError Nat := do
  let line ← table.line number
  return line.offset + min (max column 1 - 1) line.length

structure Region where
  first : Nat
  last : Nat
  start : Nat
  stop : Nat
  deriving Repr, DecidableEq

/-- The lines an edit can change. An edit at the start of a line can change the delimiter of the
line before it. -/
def regionOf? (offset removed : Nat) : Option Region := do
  let here ← table.place? offset
  let last ← table.place? (offset + removed)
  let stop := last.start + last.entry.extent.total
  if offset = here.start ∧ 0 < here.index then
    let (_, start) ← table.tree.atIndex? (here.index - 1) 0
    return ⟨here.index - 1, last.index, start, stop⟩
  return ⟨here.index, last.index, here.start, stop⟩

/-- The lines of the region after the edit. A region that stops before the last line ends with a
delimiter, so the empty line behind it is none of its lines. -/
def rescan {σ : Type} [TextSource σ] (source : σ) (region : Region) (removed inserted : Nat) :
    List LineExtent :=
  let length := region.stop + inserted - removed - region.start
  let extents :=
    LineExtent.scan table.breaks ((TextSource.charsFrom source region.start).take length)
  if region.last + 1 = table.lineCount then extents else extents.dropLast

def replaceRegion (region : Region) (extents : List LineExtent) : LineTable :=
  let (front, rest) := table.tree.split region.first
  let (old, back) := rest.split (region.last - region.first + 1)
  let (fresh, supply) := (table.supply.release old).build extents
  { table with tree := (front.append fresh).append back, supply }

def applyEdit {σ : Type} [TextSource σ] (source : σ) (offset removed inserted : Nat) :
    Except TextError LineTable := do
  checkRange offset removed table.textLength
  match table.regionOf? offset removed with
  | some region =>
    return table.replaceRegion region (table.rescan source region removed inserted)
  | none => .error (.rangeOutOfRange offset removed table.textLength)

end LineTable

end EditableText
