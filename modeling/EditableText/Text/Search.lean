import EditableText.Segment
import EditableText.Text.Source

/-!
Searches whose bounds may lie outside the text: a bound is a signed offset, moved to the nearest
end of the text before the search begins.
-/

namespace EditableText.TextSource

variable {σ : Type} [TextSource σ] (source : σ)

def clampOffset (offset : Int) (textLength : Nat) : Nat := min offset.toNat textLength

def findAnyChar (start stop : Int) (set : List Char) : Option Nat :=
  let first := clampOffset start (length source)
  let last := clampOffset stop (length source)
  let window := (charsFrom source first).take (last - first)
  (window.findIdx? set.contains).map (first + ·)

/-- Looks backward from `stop`, which is searched too, down to `start`. -/
def findCharBackward (start stop : Int) (hit : Char → Bool) : Option Nat :=
  if length source = 0 ∨ stop < 0 then none
  else
    let first := start.toNat
    let last := clampOffset stop (length source - 1)
    let window := (charsBefore source (last + 1)).take (last + 1 - first)
    (window.findIdx? hit).map (last - ·)

def findAnyCharBackward (start stop : Int) (set : List Char) : Option Nat :=
  findCharBackward source start stop set.contains

def findAnyCharExceptBackward (start stop : Int) (set : List Char) : Option Nat :=
  findCharBackward source start stop fun c => !set.contains c

def findCharSequence (start stop : Int) : List Char → List Nat
  | [] => []
  | c :: rest =>
    match findAnyChar source start stop [c] with
    | some offset => offset :: findCharSequence (offset + 1) stop rest
    | none => []

def matchFrom (first last : Nat) : List Text → List Nat
  | [] => []
  | needle :: rest =>
    if first ≤ last then
      match indexOf source needle first (last - first) with
      | .ok (some offset) => offset :: matchFrom (offset + needle.length) last rest
      | _ => []
    else []

def matchTexts (start stop : Int) (needles : List Text) : List Nat :=
  matchFrom source (clampOffset start (length source)) (clampOffset stop (length source)) needles

def isBlank (c : Char) : Bool := c == ' ' || c == '\t'

def blanksAfter (offset : Nat) : Segment :=
  ⟨min offset (length source), ((charsFrom source offset).takeWhile isBlank).length⟩

def blanksBefore (offset : Nat) : Segment :=
  let last := min offset (length source)
  let count := ((charsBefore source last).takeWhile isBlank).length
  ⟨last - count, count⟩

end EditableText.TextSource
