import EditableText.Proofs.Text.Reads
import EditableText.Text.Query

namespace EditableText.TextSource.Reads

variable {σ : Type} [TextSource σ] {source : σ} {t : Text}

lemma indexOf_eq (h : Reads source t) (needle : Text) (start count : Nat) :
    indexOf source needle start count = indexOf t needle start count := by
  rw [indexOf, indexOf, h.length_eq, h.charsFrom_eq]
  rfl

lemma findAnyChar_eq (h : Reads source t) (start stop : Int) (set : List Char) :
    findAnyChar source start stop set = findAnyChar t start stop set := by
  rw [findAnyChar, findAnyChar, h.length_eq, h.charsFrom_eq]
  rfl

lemma findCharBackward_eq (h : Reads source t) (start stop : Int) (hit : Char → Bool) :
    findCharBackward source start stop hit = findCharBackward t start stop hit := by
  simp only [findCharBackward, h.length_eq, h.charsBefore_eq]
  rfl

lemma findCharSequence_eq (h : Reads source t) (start stop : Int) (chars : List Char) :
    findCharSequence source start stop chars = findCharSequence t start stop chars := by
  induction chars generalizing start with
  | nil => rfl
  | cons c rest ih =>
    rw [findCharSequence, findCharSequence, h.findAnyChar_eq]
    cases findAnyChar t start stop [c] with
    | none => rfl
    | some offset => exact congrArg (offset :: ·) (ih _)

lemma matchFrom_eq (h : Reads source t) (first last : Nat) (needles : List Text) :
    matchFrom source first last needles = matchFrom t first last needles := by
  induction needles generalizing first with
  | nil => rfl
  | cons needle rest ih => simp only [matchFrom, h.indexOf_eq, ih]

theorem answer_eq (h : Reads source t) (q : Query) : q.answer source = q.answer t := by
  cases q with
  | length => rw [Query.answer, h.length_eq]; rfl
  | isEmpty => rw [Query.answer, isEmpty, h.length_eq]; rfl
  | text => rw [Query.answer, h.text_eq]; rfl
  | charAt => rw [Query.answer, h.charAt_eq]; rfl
  | slice => rw [Query.answer, h.slice_eq]; rfl
  | charsFrom => rw [Query.answer, h.charsFrom_eq]; rfl
  | charsBefore => rw [Query.answer, h.charsBefore_eq]; rfl
  | indexOf => rw [Query.answer, h.indexOf_eq]; rfl
  | lastIndexOf => rw [Query.answer, lastIndexOf, h.length_eq, h.charsFrom_eq]; rfl
  | indexOfAny => rw [Query.answer, indexOfAny, h.length_eq, h.charsFrom_eq]; rfl
  | findNewline => rw [Query.answer, findNewline, h.charsFrom_eq]; rfl
  | findAnyChar => rw [Query.answer, h.findAnyChar_eq]; rfl
  | findAnyCharBackward => rw [Query.answer, findAnyCharBackward, h.findCharBackward_eq]; rfl
  | findAnyCharExceptBackward => rw [Query.answer, findAnyCharExceptBackward, h.findCharBackward_eq]; rfl
  | findCharSequence => rw [Query.answer, h.findCharSequence_eq]; rfl
  | matchTexts => rw [Query.answer, matchTexts, h.length_eq, h.matchFrom_eq]; rfl
  | blanksAfter => rw [Query.answer, blanksAfter, h.length_eq, h.charsFrom_eq]; rfl
  | blanksBefore => rw [Query.answer, blanksBefore, h.length_eq, h.charsBefore_eq]; rfl

end EditableText.TextSource.Reads
