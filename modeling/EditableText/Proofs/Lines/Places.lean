import EditableText.Proofs.Lines.Grammar
import EditableText.Proofs.Lines.Queries

namespace EditableText

lemma LineBreaks.exists_ending {breaks : LineBreaks} {delimiter : Text} (h : delimiter ∈ breaks.delimiters) :
    ∃ ending : LineEnding, ending.toText = delimiter := by
  have hcases : delimiter = ['\r', '\n'] ∨ delimiter = ['\n'] ∨ delimiter = ['\r'] := by
    cases breaks with
    | standard => simpa [delimiters] using h
    | crlfOrLf => exact Or.imp_right .inl (by simpa [delimiters] using h)
  rcases hcases with rfl | rfl | rfl
  · exact ⟨.crlf, rfl⟩
  · exact ⟨.lf, rfl⟩
  · exact ⟨.cr, rfl⟩

lemma LineEnding.toText_injective : Function.Injective LineEnding.toText := by
  intro a b h
  cases a <;> cases b <;> first | rfl | cases h

namespace WrittenLine

variable {breaks : LineBreaks} {w : WrittenLine} {ws front back : List WrittenLine}

lemma join_append (ws vs : List WrittenLine) : join (ws ++ vs) = join ws ++ join vs := List.flatMap_append

lemma Grammatical.suffix (h : Grammatical breaks (front ++ w :: back)) : Grammatical breaks (w :: back) := by
  induction front with
  | nil => exact h
  | cons v front ih =>
    obtain ⟨u, rest, hu⟩ := List.exists_cons_of_ne_nil (l := front ++ w :: back) (by simp)
    rw [hu] at ih
    rw [List.cons_append, hu] at h
    cases h with
    | line _ _ _ _ hrest => exact ih hrest

lemma Grammatical.delimiter_eq_nil_iff (h : Grammatical breaks (w :: back)) : w.delimiter = [] ↔ back = [] := by
  cases h with
  | last => simp
  | line _ hdelimiter => simp [delimiter_ne_nil hdelimiter]

lemma Grammatical.delimiter_mem (h : Grammatical breaks (w :: back)) (hback : back ≠ []) :
    w.delimiter ∈ breaks.delimiters := by
  cases h with
  | last => exact absurd rfl hback
  | line _ hdelimiter => exact hdelimiter

lemma exists_of_mem_lines {line : Line} {number offset : Nat} (h : line ∈ lines number offset ws) :
    ∃ front w back, ws = front ++ w :: back ∧
      line = ⟨number + front.length, offset + (join front).length, w.content.length, w.delimiter.length⟩ := by
  induction ws generalizing number offset with
  | nil => simp [lines, LineExtent.linesFrom] at h
  | cons w ws ih =>
    rw [lines_cons] at h
    rcases List.mem_cons.mp h with rfl | h
    · exact ⟨[], w, ws, rfl, rfl⟩
    · obtain ⟨front, v, back, rfl, rfl⟩ := ih h
      refine ⟨w :: front, v, back, rfl, ?_⟩
      simp only [join_cons, List.length_append, List.length_cons, Line.mk.injEq, and_true]
      omega

end WrittenLine

namespace Line

structure Placed (line : Line) (breaks : LineBreaks) (t front : Text) (back : List WrittenLine) : Prop where
  text_eq : t = front ++ WrittenLine.join (line.writtenIn t :: back)
  offset_eq : front.length = line.offset
  length_eq : (line.contentIn t).length = line.length
  delimiter_eq : (line.delimiterIn t).length = line.delimiter
  grammatical : WrittenLine.Grammatical breaks (line.writtenIn t :: back)

def Holds (line : Line) (offset : Nat) : Prop :=
  line.offset ≤ offset ∧ offset ≤ line.endOffset + (line.delimiter - 1)

/-- The offset is between the two characters of the line's delimiter. -/
def PartedAt (line : Line) (t : Text) (offset : Nat) : Prop :=
  line.delimiterIn t = ['\r', '\n'] ∧ offset = line.endOffset + 1

variable {line : Line} {breaks : LineBreaks} {t front : Text} {back : List WrittenLine} {offset : Nat}

namespace Placed

lemma drop_content (h : line.Placed breaks t front back) {k : Nat} (hk : k ≤ line.length) :
    t.drop (line.offset + k) = (line.contentIn t).drop k ++ (line.delimiterIn t ++ WrittenLine.join back) := by
  have hle : k ≤ (line.contentIn t).length := h.length_eq.symm ▸ hk
  conv_lhs => rw [h.text_eq, ← h.offset_eq]
  rw [List.drop_append, List.drop_of_length_le (Nat.le_add_right _ _), Nat.add_sub_cancel_left, List.nil_append,
    WrittenLine.join_cons, WrittenLine.chars, List.append_assoc]
  exact List.drop_append_of_le_length hle

lemma drop_endOffset (h : line.Placed breaks t front back) :
    t.drop line.endOffset = line.delimiterIn t ++ WrittenLine.join back := by
  rw [endOffset, h.drop_content (Nat.le_refl _), ← h.length_eq, List.drop_length, List.nil_append]

lemma delimiter_eq_zero_iff (h : line.Placed breaks t front back) : line.delimiter = 0 ↔ back = [] := by
  rw [← h.delimiter_eq, List.length_eq_zero_iff]
  exact h.grammatical.delimiter_eq_nil_iff

lemma delimiter_mem (h : line.Placed breaks t front back) (hpos : 0 < line.delimiter) :
    line.delimiterIn t ∈ breaks.delimiters :=
  h.grammatical.delimiter_mem fun hback => Nat.ne_of_gt hpos (h.delimiter_eq_zero_iff.mpr hback)

lemma exists_ending (h : line.Placed breaks t front back) (hpos : 0 < line.delimiter) :
    ∃ ending : LineEnding, line.delimiterIn t = ending.toText ∧ line.delimiter = ending.length ∧
      t[line.endOffset]? = ending.toText.head? := by
  obtain ⟨ending, hending⟩ := LineBreaks.exists_ending (h.delimiter_mem hpos)
  refine ⟨ending, hending.symm, ?_, ?_⟩
  · rw [LineEnding.length, hending, h.delimiter_eq]
  · have hread := Line.getElem?_delimiterIn (t := t) hpos
    rw [← hending, Nat.add_zero] at hread
    rw [← hread, List.head?_eq_getElem?]

lemma exists_ending_iff (h : line.Placed breaks t front back) :
    (∃ ending : LineEnding, line.delimiterIn t = ending.toText) ↔ 0 < line.delimiter := by
  refine ⟨?_, fun hpos => (h.exists_ending hpos).imp fun _ hending => hending.1⟩
  rintro ⟨ending, hending⟩
  rw [← h.delimiter_eq, hending]
  cases ending <;> exact Nat.succ_pos _

lemma partedAt_of_holds (h : line.Placed breaks t front back) (hholds : line.Holds offset)
    (hbehind : line.endOffset < offset) : line.PartedAt t offset := by
  obtain ⟨-, hstop⟩ := hholds
  obtain ⟨ending, hending, hlength, -⟩ := h.exists_ending (by omega)
  cases ending with
  | crlf =>
    change line.delimiter = 2 at hlength
    exact ⟨hending, by omega⟩
  | lf | cr =>
    change line.delimiter = 1 at hlength
    omega

lemma holds_of_partedAt (h : line.Placed breaks t front back) (hparted : line.PartedAt t offset) :
    line.Holds offset := by
  obtain ⟨hpair, rfl⟩ := hparted
  have hlength := h.delimiter_eq
  rw [hpair] at hlength
  simp only [List.length_cons, List.length_nil] at hlength
  simp only [Holds, endOffset]
  omega

end Placed

end Line

namespace LineTable.Describes

variable {table : LineTable} {t : Text} {line a b : Line} {offset : Nat}

lemma exists_grammatical (h : table.Describes t) :
    ∃ ws, WrittenLine.Grammatical table.breaks ws ∧ WrittenLine.join ws = t ∧
      table.lines = WrittenLine.lines 1 0 ws := by
  obtain ⟨w, ws, hws, hjoin⟩ := WrittenLine.exists_grammatical table.breaks 0 t
  refine ⟨w :: ws, hws, hjoin, ?_⟩
  rw [h.lines_eq_scan, ← hjoin, hws.scan_join]
  rfl

lemma length_lines (h : table.Describes t) : table.lines.length = table.lineCount := by
  rw [h.lineCount_eq, LineTable.lines, LineExtent.length_linesFrom, LineTable.extents, List.length_map]

lemma exists_placed (h : table.Describes t) (hline : line ∈ table.lines) :
    ∃ front back, line.Placed table.breaks t front back ∧ line.number + back.length = table.lineCount := by
  obtain ⟨ws, hws, rfl, hlines⟩ := h.exists_grammatical
  have hcount := h.length_lines
  rw [hlines] at hline hcount
  obtain ⟨front, w, back, rfl, rfl⟩ := WrittenLine.exists_of_mem_lines hline
  have hjoin : WrittenLine.join (front ++ w :: back) =
      WrittenLine.join front ++ (w.chars ++ WrittenLine.join back) := by
    rw [WrittenLine.join_append, WrittenLine.join_cons]
  have hwritten :=
    WrittenLine.writtenIn_between (1 + front.length) (WrittenLine.join front) w (WrittenLine.join back)
  rw [← hjoin] at hwritten
  rw [Nat.zero_add]
  refine ⟨WrittenLine.join front, back, ⟨?_, rfl, ?_, ?_, ?_⟩, ?_⟩
  · rw [hwritten, hjoin, WrittenLine.join_cons]
  · exact congrArg (fun w => w.content.length) hwritten
  · exact congrArg (fun w => w.delimiter.length) hwritten
  · rw [hwritten]
    exact hws.suffix
  · rw [WrittenLine.lines, LineExtent.length_linesFrom, List.length_map, List.length_append,
      List.length_cons] at hcount
    dsimp only
    omega

lemma line_eq_of_mem (h : table.Describes t) (hline : line ∈ table.lines) : table.line line.number = .ok line := by
  obtain ⟨index, entry, hentry, rfl⟩ := LineTable.exists_entry_of_mem_lines hline
  exact LineTable.line_eq h.summed hentry

lemma exists_line (h : table.Describes t) {number : Nat} (hpos : 0 < number) (hnumber : number ≤ table.lineCount) :
    ∃ line ∈ table.lines, line.number = number ∧ table.line number = .ok line := by
  obtain ⟨index, rfl⟩ := Nat.exists_eq_add_one.mpr hpos
  rw [h.lineCount_eq] at hnumber
  have hentry := List.getElem?_eq_getElem (Nat.lt_of_succ_le hnumber)
  exact ⟨_, List.mem_of_getElem? (LineTable.getElem?_lines hentry), rfl, LineTable.line_eq h.summed hentry⟩

lemma exists_first (h : table.Describes t) :
    ∃ first ∈ table.lines, table.line 1 = .ok first ∧ first.number = 1 ∧ first.offset = 0 := by
  have hne : LineExtent.scan table.breaks t ≠ [] := LineExtent.scanFrom_ne_nil t
  obtain ⟨extent, rest, hscan⟩ := List.exists_cons_of_ne_nil hne
  have hlines : table.lines = extent.toLine 1 0 :: LineExtent.linesFrom 2 (0 + extent.total) rest := by
    rw [h.lines_eq_scan, hscan]
    rfl
  have hfirst : extent.toLine 1 0 ∈ table.lines := hlines ▸ List.mem_cons_self
  exact ⟨_, hfirst, h.line_eq_of_mem hfirst, rfl, rfl⟩

lemma number_le (h : table.Describes t) (hline : line ∈ table.lines) : line.number ≤ table.lineCount := by
  obtain ⟨front, back, -, hnumber⟩ := h.exists_placed hline
  exact Nat.le.intro hnumber

lemma delimiter_pos_iff (h : table.Describes t) (hline : line ∈ table.lines) :
    0 < line.delimiter ↔ line.number < table.lineCount := by
  obtain ⟨front, back, hplaced, hnumber⟩ := h.exists_placed hline
  rw [Nat.pos_iff_ne_zero, ne_eq, hplaced.delimiter_eq_zero_iff, ← List.length_eq_zero_iff]
  omega

lemma delimiter_le (h : table.Describes t) : ∀ extent ∈ table.extents, extent.delimiter ≤ extent.total := by
  obtain ⟨w, ws, hws, rfl⟩ := WrittenLine.exists_grammatical table.breaks 0 t
  rw [h.extents_eq, hws.scan_join]
  exact List.forall_mem_map.mpr fun w _ => Nat.le_add_left _ _

lemma stop_le_of_number_lt (h : table.Describes t) (ha : a ∈ table.lines) (hb : b ∈ table.lines)
    (hlt : a.number < b.number) : a.offset + a.totalLength ≤ b.offset := by
  obtain ⟨i, entry, hentry, rfl⟩ := LineTable.exists_entry_of_mem_lines ha
  obtain ⟨j, other, hother, rfl⟩ := LineTable.exists_entry_of_mem_lines hb
  have hlength : (entry.extent.toLine (i + 1) (table.tree.startOf i)).totalLength = entry.extent.total :=
    Nat.sub_add_cancel (h.delimiter_le _ (List.mem_map_of_mem (List.mem_of_getElem? hentry)))
  rw [hlength]
  change table.tree.startOf i + entry.extent.total ≤ table.tree.startOf j
  rw [← LineTree.startOf_succ hentry]
  exact table.tree.startOf_mono (Nat.lt_of_succ_lt_succ hlt)

lemma lt_of_number_lt (h : table.Describes t) (ha : a ∈ table.lines) (hb : b ∈ table.lines) {offset' : Nat}
    (hholds : a.Holds offset) (hholds' : b.Holds offset') (hlt : a.number < b.number) : offset < offset' := by
  have hstop := h.stop_le_of_number_lt ha hb hlt
  have hpos := (h.delimiter_pos_iff ha).mpr (Nat.lt_of_lt_of_le hlt (h.number_le hb))
  have hle := hholds.2
  have hstart := hholds'.1
  rw [Line.endOffset] at hle
  rw [Line.totalLength] at hstop
  omega

lemma exists_holding (h : table.Describes t) (hoffset : offset ≤ t.length) :
    ∃ line ∈ table.lines, table.lineAt offset = .ok line ∧ line.Holds offset := by
  obtain ⟨index, entry, hentry, hplace, hstart, hstop, hnext⟩ := h.place?_eq hoffset
  have hline := List.mem_of_getElem? (LineTable.getElem?_lines hentry)
  refine ⟨_, hline, LineTable.lineAt_eq (h.textLength_eq ▸ hoffset) hplace, hstart, ?_⟩
  have hdelimiter := h.delimiter_le _ (List.mem_map_of_mem (List.mem_of_getElem? hentry))
  have hpos : 0 < entry.extent.delimiter ↔ index + 1 < table.lineCount := h.delimiter_pos_iff hline
  have hnumber : index + 1 ≤ table.lineCount := h.number_le hline
  rw [LineTree.startOf_succ hentry] at hstop hnext
  simp only [Line.endOffset, LineExtent.toLine]
  omega

lemma length_le_of_holds (h : table.Describes t) (hline : line ∈ table.lines) (hholds : line.Holds offset) :
    offset ≤ t.length := by
  obtain ⟨ws, -, rfl, hlines⟩ := h.exists_grammatical
  rw [hlines] at hline
  have hstop := WrittenLine.stop_le_of_mem_lines hline
  obtain ⟨-, hle⟩ := hholds
  rw [Line.endOffset] at hle
  rw [Line.totalLength] at hstop
  omega

lemma lineAt_eq_ok_iff (h : table.Describes t) :
    table.lineAt offset = .ok line ↔ line ∈ table.lines ∧ line.Holds offset := by
  constructor
  · intro hat
    have hoffset : offset ≤ t.length := by
      by_contra hbeyond
      rw [LineTable.lineAt_eq_error (h.textLength_eq ▸ Nat.lt_of_not_le hbeyond)] at hat
      cases hat
    obtain ⟨found, hfound, hatFound, hholds⟩ := h.exists_holding hoffset
    obtain rfl := Except.ok.inj (hat.symm.trans hatFound)
    exact ⟨hfound, hholds⟩
  · rintro ⟨hline, hholds⟩
    obtain ⟨found, hfound, hat, hholdsFound⟩ := h.exists_holding (h.length_le_of_holds hline hholds)
    have hnumber : found.number = line.number := by
      rcases Nat.lt_trichotomy found.number line.number with hlt | heq | hgt
      · exact absurd (h.lt_of_number_lt hfound hline hholdsFound hholds hlt) (Nat.lt_irrefl _)
      · exact heq
      · exact absurd (h.lt_of_number_lt hline hfound hholds hholdsFound hgt) (Nat.lt_irrefl _)
    have hsame := h.line_eq_of_mem hfound
    rw [hnumber, h.line_eq_of_mem hline] at hsame
    rw [hat, Except.ok.inj hsame]

end LineTable.Describes

end EditableText
