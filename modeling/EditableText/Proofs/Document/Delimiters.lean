import EditableText.Proofs.Document.Anchoring
import EditableText.Proofs.Lines.Finding

namespace EditableText

namespace Document

variable {t : Text} {options : DocumentOptions} {doc after : Document} {move : Move} {moves : List Move}
    {line : Line}

lemma options_eq_of_matter (h : after.matter = doc.matter) : after.options = doc.options := by
  simp only [matter, Prod.mk.injEq] at h
  exact h.2.2.1

lemma Link.options_eq (h : Link doc move after) : after.options = doc.options := by
  cases h with
  | change happlied =>
    obtain ⟨deleted, next, hok, hmatter, -⟩ := happlied.reported
    obtain ⟨storage, lines, anchors, rfl⟩ := exists_of_mutate hok
    exact (options_eq_of_matter hmatter).symm
  | create hmatter | release _ hmatter | adjust _ _ hmatter => exact (options_eq_of_matter hmatter).trans rfl

lemma Course.options_eq (h : Course doc moves after) : after.options = doc.options := by
  induction h with
  | refl => rfl
  | still _ hmatter ih => exact (options_eq_of_matter hmatter).trans ih
  | step _ hlink ih => exact hlink.options_eq.trans ih

lemma Reachable.options_eq (h : Reachable t options doc) : doc.options = options := by
  induction h with
  | start hstart =>
    obtain ⟨bus, -, hok⟩ := Option.bind_eq_some_iff.mp hstart
    obtain rfl := Option.some.inj hok
    rfl
  | @call s h call ih =>
    obtain ⟨-, moves, hcourse, -⟩ := Call.exists_course h.sturdy call.releases_any
    exact hcourse.options_eq.trans ih
  | @unwind doc h ih =>
    have halong : Along doc [] doc := ⟨h.sturdy, .refl⟩
    exact (inert_along.upkeep.closeSilently halong).course.options_eq.trans ih
  | drive _ _ ih => exact ih

lemma Coherent.delimiterOf_eq (h : doc.Coherent) {front : Text} {back : List WrittenLine}
    (hplaced : line.Placed doc.lines.breaks doc.text front back) (hpos : 0 < line.delimiter) :
    (doc.delimiterOf line).toText = line.delimiterIn doc.text := by
  obtain ⟨ending, hending, hlength, hread⟩ := hplaced.exists_ending hpos
  have hchar : TextSource.charAt doc.storage line.endOffset = doc.text.charAt line.endOffset := by
    rw [h.storage.reads.charAt_eq, h.text_eq]
  rw [hending, delimiterOf, hlength, hchar, Text.charAt, hread]
  cases ending <;> rfl

lemma Coherent.newlineForLine_eq_error (h : doc.Coherent) {number : Nat}
    (hnumber : number = 0 ∨ doc.lineCount < number) :
    doc.newlineForLine number = .error (.lineOutOfRange number doc.lineCount) := by
  rw [newlineForLine, LineTable.line_eq_error h.lines.summed hnumber]
  rfl

lemma newlineForLine_eq {number : Nat} (hat : doc.lines.line number = .ok line) :
    doc.newlineForLine number =
      if 0 < line.delimiter then .ok (doc.delimiterOf line)
      else if 1 < number then doc.delimiterOf <$> doc.lines.line (number - 1)
      else .ok doc.options.lineEnding := by
  rw [newlineForLine, hat]
  rfl

lemma Coherent.exists_delimiterOf (h : doc.Coherent) {number : Nat} (hpos : 0 < number)
    (hnumber : number < doc.lineCount) : ∃ line, doc.lines.line number = .ok line ∧ 0 < line.delimiter ∧
      line.delimiterIn doc.text = (doc.delimiterOf line).toText := by
  have hlines : doc.lines.Describes doc.text := h.text_eq ▸ h.lines
  obtain ⟨line, hline, rfl, hat⟩ := hlines.exists_line hpos (Nat.le_of_lt hnumber)
  obtain ⟨front, back, hplaced, -⟩ := hlines.exists_placed hline
  have hdelimiter := (hlines.delimiter_pos_iff hline).mpr hnumber
  exact ⟨line, hat, hdelimiter, (h.delimiterOf_eq hplaced hdelimiter).symm⟩

lemma Coherent.exists_last (h : doc.Coherent) (hpos : 0 < doc.lineCount) :
    ∃ last, doc.lines.line doc.lineCount = .ok last ∧ ¬ 0 < last.delimiter := by
  obtain ⟨last, hlast, hnumber, hat⟩ := h.lines.exists_line hpos (Nat.le_refl _)
  refine ⟨last, hat, ?_⟩
  rw [h.lines.delimiter_pos_iff hlast, hnumber]
  exact Nat.lt_irrefl _

lemma Coherent.exists_newlineForLine (h : doc.Coherent) {number : Nat} (hpos : 0 < number)
    (hnumber : number ≤ doc.lineCount) : ∃ ending, doc.newlineForLine number = .ok ending ∧
      (number < doc.lineCount → ∃ line, doc.lines.line number = .ok line ∧
        line.delimiterIn doc.text = ending.toText) ∧
      (number = doc.lineCount → 1 < number → ∃ line, doc.lines.line (number - 1) = .ok line ∧
        line.delimiterIn doc.text = ending.toText) ∧
      (doc.lineCount = 1 → ending = doc.options.lineEnding) := by
  rcases Nat.lt_or_eq_of_le hnumber with hlt | rfl
  · obtain ⟨line, hat, hdelimiter, hwritten⟩ := h.exists_delimiterOf hpos hlt
    refine ⟨doc.delimiterOf line, ?_, fun _ => ⟨line, hat, hwritten⟩, by omega, by omega⟩
    rw [newlineForLine_eq hat, if_pos hdelimiter]
  · obtain ⟨last, hat, hnone⟩ := h.exists_last hpos
    by_cases hmany : 1 < doc.lineCount
    · obtain ⟨before, hatBefore, -, hwritten⟩ :=
        h.exists_delimiterOf (Nat.sub_pos_of_lt hmany) (Nat.sub_lt hpos Nat.one_pos)
      refine ⟨doc.delimiterOf before, ?_, fun hlt => absurd hlt (Nat.lt_irrefl _),
        fun _ _ => ⟨before, hatBefore, hwritten⟩, by omega⟩
      rw [newlineForLine_eq hat, if_neg hnone, if_pos hmany, hatBefore]
      rfl
    · refine ⟨doc.options.lineEnding, ?_, fun hlt => absurd hlt (Nat.lt_irrefl _), fun _ hlt => absurd hlt hmany,
        fun _ => rfl⟩
      rw [newlineForLine_eq hat, if_neg hnone, if_neg hmany]

/-- The ending of a line is reported as it is written: that of the line itself, for the last line that of the line
in front of it, and for a single line the one that the options name. The ending of a text is that of its first
line. -/
theorem reported_endings_are_written (h : Reachable t options doc) :
    (∀ number, doc.newlineForLine number = .error (.lineOutOfRange number doc.lineCount) ↔
      number = 0 ∨ doc.lineCount < number) ∧
    (∀ number, 0 < number → number ≤ doc.lineCount → ∃ ending, doc.newlineForLine number = .ok ending ∧
      (number < doc.lineCount → ∃ line, doc.lines.line number = .ok line ∧
        line.delimiterIn doc.text = ending.toText) ∧
      (number = doc.lineCount → 1 < number → ∃ line, doc.lines.line (number - 1) = .ok line ∧
        line.delimiterIn doc.text = ending.toText) ∧
      (doc.lineCount = 1 → ending = options.lineEnding)) ∧
    ∀ t : Text, (∀ ending, LineEnding.detect t = some ending ↔
        ∃ first, (LineTable.ofText t .standard).line 1 = .ok first ∧ first.delimiterIn t = ending.toText) ∧
      (LineEnding.detect t = none ↔ (LineTable.ofText t .standard).lineCount = 1) := by
  have hcoherent := h.atRest.toCoherent
  refine ⟨fun number => ⟨fun herror => ?_, hcoherent.newlineForLine_eq_error⟩, fun number hpos hnumber => ?_,
    fun t => ⟨LineEnding.detect_eq_some_iff t, LineEnding.detect_eq_none_iff t⟩⟩
  · by_contra hinside
    rw [not_or, Nat.not_lt] at hinside
    obtain ⟨ending, hok, -⟩ := hcoherent.exists_newlineForLine (Nat.pos_of_ne_zero hinside.1) hinside.2
    rw [herror] at hok
    cases hok
  · rw [← h.options_eq]
    exact hcoherent.exists_newlineForLine hpos hnumber

theorem reported_endings_are_written_after_insert :
    ∃ start doc, ofText? ['a', '\n', 'b'] .default = some start ∧
      doc = ((Call.insert 1 ['\r']).perform (.start start)).state.document ∧
      Reachable ['a', '\n', 'b'] .default doc ∧ doc.lineCount = 2 ∧
      doc.newlineForLine 3 = .error (.lineOutOfRange 3 2) ∧
      ∃ ending line, doc.newlineForLine 2 = .ok ending ∧ doc.lines.line 1 = .ok line ∧
        line.delimiterIn doc.text = ending.toText ∧ ending = .crlf := by
  obtain ⟨start, hstart⟩ : ∃ start, ofText? ['a', '\n', 'b'] .default = some start := ⟨_, rfl⟩
  obtain ⟨doc, hdoc⟩ : ∃ doc, doc = ((Call.insert 1 ['\r']).perform (.start start)).state.document := ⟨_, rfl⟩
  have h : Reachable ['a', '\n', 'b'] .default doc :=
    hdoc ▸ Reachable.call (s := .start start) (.start hstart) (.insert 1 ['\r'])
  obtain ⟨hcount, htext, hfirst⟩ : doc.lineCount = 2 ∧ doc.text = ['a', '\r', '\n', 'b'] ∧
      doc.lines.line 1 = .ok ⟨1, 0, 1, 2⟩ := by
    obtain rfl := Option.some.inj hstart
    subst hdoc
    decide +kernel
  obtain ⟨hfails, hgives, -⟩ := reported_endings_are_written h
  obtain ⟨ending, hending, -, hbefore, -⟩ := hgives 2 (by decide) (Nat.le_of_eq hcount.symm)
  obtain ⟨line, hline, hwritten⟩ := hbefore hcount.symm (by decide)
  have houtside := (hfails 3).mpr (.inr (by omega))
  rw [hcount] at houtside
  refine ⟨start, doc, hstart, hdoc, h, hcount, houtside, ending, line, hending, hline, hwritten, ?_⟩
  obtain rfl := Except.ok.inj (hfirst.symm.trans hline)
  exact LineEnding.toText_injective (hwritten.symm.trans (by rw [htext]; rfl))

end Document

end EditableText
