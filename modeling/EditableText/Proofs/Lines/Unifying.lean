import EditableText.Proofs.Lines.Places

namespace EditableText

namespace LineEnding

lemma mem_delimiters (ending : LineEnding) : ending.toText ∈ LineBreaks.standard.delimiters := by
  cases ending <;> simp [toText, LineBreaks.delimiters]

lemma ofText?_eq_none_iff {target : Text} :
    ofText? target = none ↔ ∀ ending : LineEnding, target ≠ ending.toText := by
  rw [ofText?, List.find?_eq_none]
  constructor
  · rintro hnone ending rfl
    exact hnone ending (by cases ending <;> simp [all]) (beq_self_eq_true _)
  · intro hother ending _ hsame
    exact hother ending (eq_of_beq hsame).symm

end LineEnding

namespace Text

variable {ending content rest : Text}

lemma unifyNewlines_plain_append (hplain : Plain .standard content) (rest : Text) :
    unifyNewlines ending (content ++ rest) = content ++ unifyNewlines ending rest := by
  induction content with
  | nil => rfl
  | cons c content ih =>
    obtain ⟨hlf, hcr⟩ := hplain c (by simp)
    have hc : c ≠ '\r' := fun hc => by cases hcr hc
    have hnext := ih fun d hd => hplain d (List.mem_cons_of_mem _ hd)
    rw [List.cons_append, unifyNewlines, hnext, if_neg (by simp [isNewlineChar, hc, hlf]), List.cons_append]
    exact fun _ hpair => absurd hpair hc

lemma unifyNewlines_delimiter_append {delimiter : Text} (hdelimiter : delimiter ∈ LineBreaks.standard.delimiters)
    (hlone : delimiter = ['\r'] → rest.head? ≠ some '\n') :
    unifyNewlines ending (delimiter ++ rest) = ending ++ unifyNewlines ending rest := by
  obtain ⟨found, rfl⟩ := LineBreaks.exists_ending hdelimiter
  cases found with
  | crlf => simp [LineEnding.toText, unifyNewlines]
  | lf => simp [LineEnding.toText, unifyNewlines, isNewlineChar]
  | cr =>
    rw [LineEnding.toText, List.singleton_append, unifyNewlines, if_pos (by simp [isNewlineChar])]
    rintro next - rfl
    exact hlone rfl rfl

end Text

namespace WrittenLine

def delimited (delimiter : Text) : List Text → List WrittenLine
  | [] => []
  | [content] => [⟨content, []⟩]
  | content :: next :: rest => ⟨content, delimiter⟩ :: delimited delimiter (next :: rest)

variable {delimiter : Text} {contents : List Text} {ws : List WrittenLine}

lemma join_delimited (delimiter : Text) (contents : List Text) :
    join (delimited delimiter contents) = delimiter.intercalate contents := by
  fun_induction delimited delimiter contents with
  | case1 => rfl
  | case2 content => simp [chars]
  | case3 content next rest ih => rw [join_cons, ih, List.intercalate_cons_cons, chars]

lemma map_content_delimited (delimiter : Text) (contents : List Text) :
    (delimited delimiter contents).map content = contents := by
  fun_induction delimited delimiter contents with
  | case1 => rfl
  | case2 content => rfl
  | case3 content next rest ih => rw [List.map_cons, ih]

lemma map_delimiter_delimited (hne : contents ≠ []) :
    (delimited delimiter contents).map (·.delimiter) = List.replicate (contents.length - 1) delimiter ++ [[]] := by
  fun_induction delimited delimiter contents with
  | case1 => exact absurd rfl hne
  | case2 content => rfl
  | case3 content next rest ih =>
    rw [List.map_cons, ih (List.cons_ne_nil _ _)]
    rfl

lemma exists_cons_delimited (delimiter content : Text) (rest : List Text) :
    ∃ found lines, delimited delimiter (content :: rest) = ⟨content, found⟩ :: lines ∧
      (found = [] ∨ found = delimiter) := by
  cases rest with
  | nil => exact ⟨[], [], rfl, .inl rfl⟩
  | cons next rest => exact ⟨delimiter, delimited delimiter (next :: rest), rfl, .inr rfl⟩

lemma grammatical_delimited (ending : LineEnding) (hne : contents ≠ [])
    (hplain : ∀ content ∈ contents, Text.Plain .standard content) :
    Grammatical .standard (delimited ending.toText contents) := by
  fun_induction delimited ending.toText contents with
  | case1 => exact absurd rfl hne
  | case2 content => exact .last (hplain content (by simp))
  | case3 content next rest ih =>
    obtain ⟨hcontent, hrest⟩ := List.forall_mem_cons.mp hplain
    obtain ⟨found, lines, hlines, hfound⟩ := exists_cons_delimited ending.toText next rest
    have hnext := ih (List.cons_ne_nil _ _) hrest
    rw [hlines] at hnext ⊢
    refine .line hcontent ending.mem_delimiters ?seam ?lone hnext
    case seam =>
      intro hcr
      cases (hcontent '\r' (List.mem_of_getLast? hcr)).2 rfl
    case lone =>
      intro hcr hlf
      dsimp only at hcr
      cases hhead : next with
      | nil =>
        rw [chars, hhead, List.nil_append] at hlf
        rcases hfound with rfl | rfl
        · simp at hlf
        · simp [hcr] at hlf
      | cons c next =>
        obtain rfl : c = '\n' := by simpa [chars, hhead] using hlf
        exact (hrest _ (List.mem_cons_self) '\n' (by simp [hhead])).1 rfl

lemma Grammatical.unifyNewlines_join (h : Grammatical .standard ws) (ending : Text) :
    Text.unifyNewlines ending (join ws) = ending.intercalate (ws.map content) := by
  induction h with
  | @last content hplain =>
    have hunify : Text.unifyNewlines ending (content ++ []) = _ := Text.unifyNewlines_plain_append hplain []
    simpa [chars, Text.unifyNewlines] using hunify
  | @line w v rest hplain hdelimiter hseam hlone hrest ih =>
    rw [join_cons, chars, List.append_assoc, Text.unifyNewlines_plain_append hplain,
      Text.unifyNewlines_delimiter_append hdelimiter (fun hcr => hrest.head?_join ▸ hlone hcr), ih]
    rfl

end WrittenLine

namespace Text

def lineContents (t : Text) : List Text := (LineTable.ofText t .standard).lines.map (·.contentIn t)

def lineDelimiters (t : Text) : List Text := (LineTable.ofText t .standard).lines.map (·.delimiterIn t)

lemma length_lineContents (t : Text) : t.lineContents.length = (LineTable.ofText t .standard).lineCount := by
  rw [lineContents, List.length_map, (LineTable.describes_ofText t .standard).length_lines]

end Text

namespace WrittenLine.Grammatical

variable {ws : List WrittenLine}

lemma map_writtenIn (h : Grammatical .standard ws) :
    (LineTable.ofText (join ws) .standard).lines.map (·.writtenIn (join ws)) = ws := by
  rw [(LineTable.describes_ofText (join ws) .standard).lines_eq_scan, LineTable.breaks_ofText, h.scan_join]
  exact map_writtenIn_lines 1 [] ws

lemma lineContents_join (h : Grammatical .standard ws) : (join ws).lineContents = ws.map content := by
  conv_rhs => rw [← h.map_writtenIn]
  rw [List.map_map]
  rfl

lemma lineDelimiters_join (h : Grammatical .standard ws) : (join ws).lineDelimiters = ws.map delimiter := by
  conv_rhs => rw [← h.map_writtenIn]
  rw [List.map_map]
  rfl

end WrittenLine.Grammatical

namespace Text

lemma unifyNewlines_eq (t ending : Text) : unifyNewlines ending t = ending.intercalate t.lineContents := by
  obtain ⟨w, ws, hws, rfl⟩ := WrittenLine.exists_grammatical .standard 0 t
  rw [hws.unifyNewlines_join, hws.lineContents_join]

lemma plain_of_mem_lineContents {t content : Text} (h : content ∈ t.lineContents) : Plain .standard content := by
  obtain ⟨w, ws, hws, rfl⟩ := WrittenLine.exists_grammatical .standard 0 t
  rw [hws.lineContents_join] at h
  exact List.forall_mem_map.mpr (WrittenLine.grammatical_iff.mp hws).2.1 content h

lemma lineContents_ne_nil (t : Text) : t.lineContents ≠ [] := by
  obtain ⟨w, ws, hws, rfl⟩ := WrittenLine.exists_grammatical .standard 0 t
  rw [hws.lineContents_join]
  exact List.cons_ne_nil _ _

lemma lineContents_unifyNewlines (t : Text) (ending : LineEnding) :
    (unifyNewlines ending.toText t).lineContents = t.lineContents := by
  have hlines := WrittenLine.grammatical_delimited ending t.lineContents_ne_nil fun _ => plain_of_mem_lineContents
  rw [unifyNewlines_eq, ← WrittenLine.join_delimited, hlines.lineContents_join, WrittenLine.map_content_delimited]

lemma lineDelimiters_unifyNewlines (t : Text) (ending : LineEnding) :
    (unifyNewlines ending.toText t).lineDelimiters =
      List.replicate (t.lineContents.length - 1) ending.toText ++ [[]] := by
  have hlines := WrittenLine.grammatical_delimited ending t.lineContents_ne_nil fun _ => plain_of_mem_lineContents
  rw [unifyNewlines_eq, ← WrittenLine.join_delimited, hlines.lineDelimiters_join,
    WrittenLine.map_delimiter_delimited t.lineContents_ne_nil]

lemma normalizeNewlines_toText (t : Text) (ending : LineEnding) :
    t.normalizeNewlines ending.toText = .ok (unifyNewlines ending.toText t) := by
  cases ending <;> rfl

/-- Unifying its delimiters cuts a text into lines and joins their contents with the new delimiter. That one
delimiter then ends all lines but the last, and the contents are the same, so that unifying once more is unifying
the text itself. Nothing but a delimiter is taken for one. -/
theorem normalizing_splits_and_joins (t : Text) :
    (∀ ending : LineEnding, ∃ result, t.normalizeNewlines ending.toText = .ok result ∧
      result = ending.toText.intercalate t.lineContents ∧
      (LineTable.ofText result .standard).lineCount = (LineTable.ofText t .standard).lineCount ∧
      result.lineContents = t.lineContents ∧
      result.lineDelimiters =
        List.replicate ((LineTable.ofText t .standard).lineCount - 1) ending.toText ++ [[]] ∧
      ∀ other : LineEnding, result.normalizeNewlines other.toText = t.normalizeNewlines other.toText) ∧
    ∀ target : Text, (∀ ending : LineEnding, target ≠ ending.toText) ↔
      ∃ e, t.normalizeNewlines target = .error e ∧ e.isInvalidArgument = true := by
  refine ⟨fun ending => ?_, fun target => ?_⟩
  · have hcontents := t.lineContents_unifyNewlines ending
    refine ⟨_, t.normalizeNewlines_toText ending, t.unifyNewlines_eq _, ?_, hcontents, ?_, fun other => ?_⟩
    · rw [← length_lineContents, ← length_lineContents, hcontents]
    · rw [← length_lineContents, t.lineDelimiters_unifyNewlines]
    · rw [normalizeNewlines_toText, normalizeNewlines_toText, unifyNewlines_eq, hcontents, ← unifyNewlines_eq]
  · rw [← LineEnding.ofText?_eq_none_iff, normalizeNewlines]
    cases LineEnding.ofText? target with
    | none => simp [TextError.isInvalidArgument]
    | some ending => simp

example : normalizeNewlines ['a', '\r', '\r', '\n', '\n', 'b'] ['\r'] = .ok ['a', '\r', '\r', '\r', 'b'] := rfl

end Text

end EditableText
