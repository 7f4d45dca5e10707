import EditableText.Proofs.Change.Region
import EditableText.Proofs.History.Timeline

namespace EditableText.ChangeGroup

open Change

variable {group : ChangeGroup} {movement : AnchorMovement} {position : Nat} {t : Text}

def newOffset (group : ChangeGroup) (movement : AnchorMovement) (position : Nat) : Nat :=
  group.foldl (fun position c => c.newOffset movement position) position

/-- Where each of the changes finds the position, it is strictly outside the removed text. -/
def Outside : ChangeGroup → AnchorMovement → Nat → Prop
  | [], _, _ => True
  | c :: rest, movement, position => c.Outside position ∧ Outside rest movement (c.newOffset movement position)

lemma newOffset_append (a b : ChangeGroup) (movement : AnchorMovement) (position : Nat) :
    newOffset (a ++ b) movement position = newOffset b movement (newOffset a movement position) :=
  List.foldl_append

lemma outside_append {a b : ChangeGroup} :
    Outside (a ++ b) movement position ↔
      Outside a movement position ∧ Outside b movement (newOffset a movement position) := by
  induction a generalizing position with
  | nil => simp [Outside, newOffset]
  | cons c rest ih =>
    simp only [List.cons_append, Outside, ih, and_assoc]
    rfl

lemma Outside.congr (h : Outside group movement position) (hrange : InRangeAll group t) (hexact : ExactAll group t)
    (hposition : position ≤ t.length) (movement' : AnchorMovement) :
    Outside group movement' position ∧ newOffset group movement' position = newOffset group movement position := by
  induction group generalizing position t with
  | nil => exact ⟨trivial, rfl⟩
  | cons c rest ih =>
    obtain ⟨ho, hrest⟩ := h
    obtain ⟨hc, hexact⟩ := hexact
    have hsame : c.newOffset movement' position = c.newOffset movement position := by
      rw [hc.newOffset_of_outside movement' ho hposition, hc.newOffset_of_outside movement ho hposition]
    have hle := length_apply hrange.1 ▸ Exact.newOffset_le hc movement hrange.1 hposition
    obtain ⟨hrest', hoffset⟩ := ih hrest hrange.2 hexact hle
    refine ⟨⟨ho, hsame ▸ hrest'⟩, ?_⟩
    change newOffset rest movement' (c.newOffset movement' position) = _
    rw [hsame, hoffset]
    rfl

lemma Outside.undo (h : Outside group movement position) (hrange : InRangeAll group t) (hexact : ExactAll group t)
    (hposition : position ≤ t.length) (movement' : AnchorMovement) :
    Outside group.undoChanges movement' (newOffset group movement position) ∧
      newOffset group.undoChanges movement' (newOffset group movement position) = position := by
  induction group generalizing position t with
  | nil => exact ⟨trivial, rfl⟩
  | cons c rest ih =>
    obtain ⟨ho, hrest⟩ := h
    obtain ⟨hc, hexact⟩ := hexact
    obtain ⟨hback, hreturn⟩ := hc.newOffset_inverse ho hposition movement movement'
    have hle := length_apply hrange.1 ▸ Exact.newOffset_le hc movement hrange.1 hposition
    obtain ⟨hundo, hoffset⟩ := ih hrest hrange.2 hexact hle
    have hforth : newOffset (c :: rest) movement position =
      newOffset rest movement (c.newOffset movement position) := rfl
    rw [undoChanges_cons, hforth, outside_append, newOffset_append, hoffset]
    exact ⟨⟨hundo, hback, trivial⟩, hreturn⟩

lemma inRange_undo (h : InRangeAll group t) :
    InRangeAll group.undoChanges (applyAll group t) ∧
      (applyAll group.undoChanges (applyAll group t)).length = t.length := by
  induction group generalizing t with
  | nil => exact ⟨trivial, rfl⟩
  | cons c rest ih =>
    obtain ⟨hc, hrest⟩ := h
    obtain ⟨hundo, hlength⟩ := ih hrest
    have hforth : applyAll (c :: rest) t = applyAll rest (c.apply t) := rfl
    have hback : c.inverse.offset + c.inverse.removed.length ≤ (c.apply t).length := by
      rw [length_apply hc]
      change c.offset + c.inserted.length ≤ _
      omega
    have hback' : c.inverse.offset + c.inverse.removed.length ≤
      (applyAll (undoChanges rest) (applyAll rest (c.apply t))).length := hlength.symm ▸ hback
    rw [undoChanges_cons, hforth, inRange_append, applyAll_append]
    refine ⟨⟨hundo, hback', trivial⟩, ?_⟩
    change (c.inverse.apply _).length = _
    rw [length_apply hback', hlength, length_apply hc]
    change _ - c.inserted.length + c.removed.length = _
    omega

lemma exactAll_undo (hrange : InRangeAll group t) (hexact : ExactAll group t) :
    ExactAll group.undoChanges (applyAll group t) := by
  induction group generalizing t with
  | nil => trivial
  | cons c rest ih =>
    obtain ⟨hc, hrest⟩ := hexact
    have hforth : applyAll (c :: rest) t = applyAll rest (c.apply t) := rfl
    have hback : ExactAll [c.inverse] (c.apply t) := ⟨hc.inverse hrange.1, trivial⟩
    rw [undoChanges_cons, hforth, exactAll_append]
    exact ⟨ih hrange.2 hrest, hback.congr (inRange_undo hrange.2).2.symm⟩

lemma newOffset_le (hrange : InRangeAll group t) (hexact : ExactAll group t) (movement : AnchorMovement)
    (hposition : position ≤ t.length) : newOffset group movement position ≤ (applyAll group t).length := by
  induction group generalizing position t with
  | nil => exact hposition
  | cons c rest ih =>
    exact ih hrange.2 hexact.2 (length_apply hrange.1 ▸ Exact.newOffset_le hexact.1 movement hrange.1 hposition)

end EditableText.ChangeGroup
