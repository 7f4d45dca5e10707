import EditableText.Proofs.Lines.Places
import EditableText.Proofs.Storage.GapBuffer

namespace EditableText

namespace Text

variable {breaks : LineBreaks} {content rest : Text}

lemma Plain.drop (h : Plain breaks content) (k : Nat) : Plain breaks (content.drop k) :=
  fun c hc => h c (List.mem_of_mem_drop hc)

lemma Seam.drop (h : Seam content rest) (k : Nat) : Seam (content.drop k) rest := by
  intro hlast
  rw [List.getLast?_drop] at hlast
  split at hlast
  case isTrue => cases hlast
  case isFalse => exact h hlast

lemma findNewline_plain_append (hplain : Plain breaks content) (hseam : Seam content rest) (pos : Nat) :
    findNewline breaks pos (content ++ rest) = findNewline breaks (pos + content.length) rest := by
  induction content generalizing pos with
  | nil => rfl
  | cons c content ih =>
    obtain ⟨hlf, hcr⟩ := hplain c (by simp)
    have hcontent : Plain breaks content := fun d hd => hplain d (List.mem_cons_of_mem _ hd)
    have hpair : ¬ (c = '\r' ∧ (content ++ rest).head? = some '\n') := by
      rintro ⟨rfl, hhead⟩
      refine hseam.head? (fun rest' heq => ?_) hhead
      exact (hcontent '\n' (by simp [heq])).1 rfl
    have hlone : ¬ (c = '\r' ∧ breaks = .standard) := by
      rintro ⟨rfl, rfl⟩
      cases hcr rfl
    rw [List.cons_append, findNewline, if_neg hlf, if_neg hpair, if_neg hlone, ih hcontent hseam.tail,
      List.length_cons, Nat.add_right_comm, Nat.add_assoc]

lemma findNewline_delimiter_append {delimiter : Text} (hdelimiter : delimiter ∈ breaks.delimiters)
    (hlone : delimiter = ['\r'] → rest.head? ≠ some '\n') (pos : Nat) :
    findNewline breaks pos (delimiter ++ rest) = some ⟨pos, delimiter.length⟩ := by
  obtain ⟨ending, rfl⟩ := LineBreaks.exists_ending hdelimiter
  cases ending with
  | crlf => simp [LineEnding.toText, findNewline]
  | lf => simp [LineEnding.toText, findNewline]
  | cr =>
    have hbreaks : breaks = .standard := by
      cases breaks with
      | standard => rfl
      | crlfOrLf => simp [LineEnding.toText, LineBreaks.delimiters] at hdelimiter
    simp [LineEnding.toText, findNewline, hlone rfl, hbreaks]

end Text

namespace WrittenLine.Grammatical

variable {breaks : LineBreaks} {w : WrittenLine} {back : List WrittenLine}

lemma findNewline_join (h : Grammatical breaks (w :: back)) {k : Nat} (hk : k ≤ w.content.length) (pos : Nat) :
    Text.findNewline breaks pos (w.content.drop k ++ (w.delimiter ++ join back)) =
      if back = [] then none else some ⟨pos + (w.content.length - k), w.delimiter.length⟩ := by
  cases h with
  | @last content hplain =>
    have hseam : Text.Seam content [] := by simp [Text.Seam]
    have hfind := Text.findNewline_plain_append (hplain.drop k) (hseam.drop k) pos
    rw [Text.findNewline, List.append_nil] at hfind
    simpa using hfind
  | @line w v rest hplain hdelimiter hseam hlone hrest =>
    have hfollows : Text.Seam w.content (w.delimiter ++ join (v :: rest)) := by
      rw [Text.Seam, List.head?_append_of_ne_nil _ (delimiter_ne_nil hdelimiter)]
      exact hseam
    rw [Text.findNewline_plain_append (hplain.drop k) (hfollows.drop k),
      Text.findNewline_delimiter_append hdelimiter (fun hcr => hrest.head?_join ▸ hlone hcr), List.length_drop,
      if_neg (List.cons_ne_nil _ _)]

end WrittenLine.Grammatical

namespace Line.Placed

variable {line : Line} {breaks : LineBreaks} {t front : Text} {back : List WrittenLine} {offset : Nat}

lemma findNewline_eq (h : line.Placed breaks t front back) (hstart : line.offset ≤ offset)
    (hstop : offset ≤ line.endOffset) :
    Text.findNewline breaks offset (t.drop offset) = if back = [] then none else some line.delimiterSegment := by
  obtain ⟨k, rfl⟩ := Nat.exists_eq_add_of_le hstart
  have hk : k ≤ line.length := by
    rw [endOffset] at hstop
    omega
  have hlength := h.length_eq
  have hfind := h.grammatical.findNewline_join (hlength.symm ▸ hk) (line.offset + k)
  have hend : line.offset + k + (line.length - k) = line.endOffset := by
    rw [endOffset]
    omega
  dsimp only [writtenIn] at hfind
  rw [hlength, h.delimiter_eq, hend] at hfind
  rw [h.drop_content hk, hfind]
  rfl

lemma findNewline_of_partedAt (h : line.Placed breaks t front back) (hparted : line.PartedAt t offset) :
    Text.findNewline breaks offset (t.drop offset) = some ⟨offset, 1⟩ := by
  obtain ⟨hpair, rfl⟩ := hparted
  rw [← List.drop_drop, h.drop_endOffset, hpair]
  simp [Text.findNewline]

lemma detect_eq_some_iff (h : line.Placed .standard t front back)
    (hfirst : line.offset = 0) (ending : LineEnding) :
    LineEnding.detect t = some ending ↔ line.delimiterIn t = ending.toText := by
  have hfind := h.findNewline_eq (Nat.le_of_eq hfirst) (Nat.zero_le _)
  rw [List.drop_zero] at hfind
  by_cases hpos : 0 < line.delimiter
  · obtain ⟨found, hfound, hlength, hread⟩ := h.exists_ending hpos
    rw [if_neg fun hnil => Nat.ne_of_gt hpos (h.delimiter_eq_zero_iff.mpr hnil)] at hfind
    have hdetect : LineEnding.detect t = some found := by
      rw [LineEnding.detect, hfind]
      simp only [Option.bind_eq_bind, Option.bind_some, delimiterSegment, hlength, hread]
      cases found <;> rfl
    rw [hdetect, hfound, Option.some_inj, LineEnding.toText_injective.eq_iff]
  · rw [if_pos (h.delimiter_eq_zero_iff.mp (Nat.eq_zero_of_not_pos hpos))] at hfind
    have hdetect : LineEnding.detect t = none := by
      rw [LineEnding.detect, hfind]
      rfl
    rw [hdetect]
    exact iff_of_false (Option.some_ne_none _).symm fun hending => hpos (h.exists_ending_iff.mp ⟨ending, hending⟩)

end Line.Placed

namespace LineEnding

lemma detect_eq_some_iff (t : Text) (ending : LineEnding) :
    detect t = some ending ↔
      ∃ first, (LineTable.ofText t .standard).line 1 = .ok first ∧ first.delimiterIn t = ending.toText := by
  have h := LineTable.describes_ofText t .standard
  obtain ⟨first, hfirst, hline, -, hoffset⟩ := h.exists_first
  obtain ⟨front, back, hplaced, -⟩ := h.exists_placed hfirst
  rw [hplaced.detect_eq_some_iff hoffset, hline]
  simp

lemma detect_eq_none_iff (t : Text) : detect t = none ↔ (LineTable.ofText t .standard).lineCount = 1 := by
  have h := LineTable.describes_ofText t .standard
  obtain ⟨first, hfirst, hline, hnumber, hoffset⟩ := h.exists_first
  obtain ⟨front, back, hplaced, -⟩ := h.exists_placed hfirst
  have hle := h.number_le hfirst
  have hpos := h.delimiter_pos_iff hfirst
  rw [Option.eq_none_iff_forall_ne_some]
  simp only [ne_eq, hplaced.detect_eq_some_iff hoffset, ← not_exists, hplaced.exists_ending_iff]
  omega

end LineEnding

namespace TextSource

variable {σ : Type} [TextSource σ] {source : σ} {breaks : LineBreaks}

/-- Asked again and again, each time from the end of what it found last, the search finds these and then no more.
-/
inductive Finds (source : σ) (breaks : LineBreaks) : Nat → List Segment → Prop
  | done {offset : Nat} (h : findNewline source offset breaks = none) : Finds source breaks offset []
  | next {offset : Nat} {found : Segment} {rest : List Segment} (h : findNewline source offset breaks = some found)
    (hrest : Finds source breaks (found.offset + found.length) rest) : Finds source breaks offset (found :: rest)

lemma Finds.unique {offset : Nat} {as bs : List Segment} (ha : Finds source breaks offset as)
    (hb : Finds source breaks offset bs) : as = bs := by
  induction ha generalizing bs with
  | done h =>
    cases hb with
    | done => rfl
    | next h' => cases h.symm.trans h'
  | next h hrest ih =>
    cases hb with
    | done h' => cases h.symm.trans h'
    | next h' hrest' =>
      obtain rfl := Option.some.inj (h.symm.trans h')
      rw [ih hrest']

lemma Reads.findNewline_eq {t : Text} (h : Reads source t) (offset : Nat) :
    findNewline source offset breaks = Text.findNewline breaks offset (t.drop offset) := by
  rw [findNewline, h.charsFrom_eq]

end TextSource

namespace WrittenLine.Grammatical

variable {breaks : LineBreaks} {w : WrittenLine} {ws back : List WrittenLine} {σ : Type} [TextSource σ]
    {source : σ}

lemma findNewline_start (h : Grammatical breaks (w :: back)) {front : Text}
    (hsource : TextSource.Reads source (front ++ join (w :: back))) :
    TextSource.findNewline source front.length breaks =
      if back = [] then none else some ⟨front.length + w.content.length, w.delimiter.length⟩ := by
  have hfind := h.findNewline_join (Nat.zero_le _) front.length
  rw [List.drop_zero, ← List.append_assoc, Nat.sub_zero] at hfind
  rw [hsource.findNewline_eq, List.drop_left, join_cons, chars, hfind]

lemma finds (h : Grammatical breaks ws) (number : Nat) {front : Text}
    (hsource : TextSource.Reads source (front ++ join ws)) :
    TextSource.Finds source breaks front.length
      (((lines number front.length ws).filter (0 < ·.delimiter)).map (·.delimiterSegment)) := by
  induction h generalizing number front with
  | @last content hplain => exact .done ((Grammatical.last hplain).findNewline_start hsource)
  | @line w v rest hplain hdelimiter hseam hlone hrest ih =>
    have hfind := (Grammatical.line hplain hdelimiter hseam hlone hrest).findNewline_start hsource
    rw [if_neg (List.cons_ne_nil _ _)] at hfind
    have hpos : 0 < w.delimiter.length := List.length_pos_iff.mpr (delimiter_ne_nil hdelimiter)
    rw [join_cons, ← List.append_assoc] at hsource
    have hnext := ih (number + 1) hsource
    rw [List.length_append] at hnext
    rw [lines_cons, List.filter_cons_of_pos (by simpa using hpos), List.map_cons]
    have hend : front.length + w.content.length + w.delimiter.length = front.length + w.chars.length := by
      rw [chars, List.length_append, Nat.add_assoc]
    exact .next hfind (hend ▸ hnext)

end WrittenLine.Grammatical

/-- From an offset in the text the search finds nothing if the line there is the last, the delimiter of that line
from its content, and from between the characters of a pair the second of them; behind the text it finds nothing.
Asked again from the end of each delimiter it found, it finds the delimiters of all lines. -/
theorem TextSource.search_agrees_with_lines {table : LineTable} {t : Text} (h : table.Describes t) {σ : Type}
    [TextSource σ] {source : σ} (hsource : TextSource.Reads source t) :
    (∀ offset ≤ t.length, ∃ line ∈ table.lines, table.lineAt offset = .ok line ∧
      (line.number = table.lineCount ∧ findNewline source offset table.breaks = none ∨
        line.number < table.lineCount ∧
          (offset ≤ line.endOffset ∧ findNewline source offset table.breaks = some line.delimiterSegment ∨
            line.PartedAt t offset ∧ findNewline source offset table.breaks = some ⟨offset, 1⟩))) ∧
    (∀ offset, t.length < offset → findNewline source offset table.breaks = none) ∧
    ∀ found, Finds source table.breaks 0 found ↔
      found = (table.lines.filter (0 < ·.delimiter)).map (·.delimiterSegment) := by
  refine ⟨?_, ?_, ?_⟩
  · intro offset hoffset
    obtain ⟨line, hline, hat, hholds⟩ := h.exists_holding hoffset
    obtain ⟨front, back, hplaced, hnumber⟩ := h.exists_placed hline
    refine ⟨line, hline, hat, ?_⟩
    rw [hsource.findNewline_eq]
    by_cases hbehind : line.endOffset < offset
    · have hpos : 0 < line.delimiter := by
        have := hholds.2
        omega
      have hparted := hplaced.partedAt_of_holds hholds hbehind
      exact .inr ⟨(h.delimiter_pos_iff hline).mp hpos, .inr ⟨hparted, hplaced.findNewline_of_partedAt hparted⟩⟩
    · have hle := Nat.le_of_not_lt hbehind
      have hfind := hplaced.findNewline_eq hholds.1 hle
      cases back with
      | nil => exact .inl ⟨hnumber, hfind⟩
      | cons next back =>
        rw [List.length_cons] at hnumber
        exact .inr ⟨by omega, .inl ⟨hle, hfind⟩⟩
  · intro offset hoffset
    rw [hsource.findNewline_eq, List.drop_of_length_le (Nat.le_of_lt hoffset)]
    rfl
  · obtain ⟨ws, hws, rfl, hlines⟩ := h.exists_grammatical
    have hfinds : Finds source table.breaks ([] : Text).length _ := hws.finds 1 hsource
    rw [hlines]
    exact fun found => ⟨fun hfound => hfound.unique hfinds, fun heq => heq ▸ hfinds⟩

theorem TextSource.search_agrees_with_lines_across_gap :
    (LineTable.ofText ['a', '\r', '\r', '\n', 'b'] .crlfOrLf).Describes ['a', '\r', '\r', '\n', 'b'] ∧
      Reads (⟨#['a', '\r', '\r', 'x', '\n', 'b'], 3, 4⟩ : GapBuffer) ['a', '\r', '\r', '\n', 'b'] ∧
      findNewline (⟨#['a', '\r', '\r', 'x', '\n', 'b'], 3, 4⟩ : GapBuffer) 3 .crlfOrLf = some ⟨3, 1⟩ ∧
      findNewline (⟨#['a', '\r', '\r', 'x', '\n', 'b'], 3, 4⟩ : GapBuffer) 6 .crlfOrLf = none ∧
      Finds (⟨#['a', '\r', '\r', 'x', '\n', 'b'], 3, 4⟩ : GapBuffer) .crlfOrLf 0 [⟨2, 2⟩] := by
  have hdescribes := LineTable.describes_ofText ['a', '\r', '\r', '\n', 'b'] .crlfOrLf
  have hreads : Reads (⟨#['a', '\r', '\r', 'x', '\n', 'b'], 3, 4⟩ : GapBuffer) ['a', '\r', '\r', '\n', 'b'] :=
    GapBuffer.WellFormed.reads ⟨by decide, by decide⟩
  obtain ⟨hinside, hbehind, hall⟩ := search_agrees_with_lines hdescribes hreads
  refine ⟨hdescribes, hreads, ?_, hbehind 6 (by decide), (hall _).mpr (by decide +kernel)⟩
  obtain ⟨line, -, hat, hfind⟩ := hinside 3 (by decide)
  have hline : (LineTable.ofText ['a', '\r', '\r', '\n', 'b'] .crlfOrLf).lineAt 3 = .ok ⟨1, 0, 2, 2⟩ := by
    decide +kernel
  obtain rfl := Except.ok.inj (hline.symm.trans hat)
  obtain ⟨hlast, -⟩ | ⟨-, ⟨hle, -⟩ | ⟨-, hfound⟩⟩ := hfind
  · exact absurd hlast (by decide +kernel)
  · exact absurd hle (by decide)
  · exact hfound

end EditableText
