import EditableText.Proofs.Lines.Rescan
import Mathlib.Data.List.Chain

namespace EditableText

def LineBreaks.delimiters : LineBreaks → List Text
  | standard => [['\r', '\n'], ['\n'], ['\r']]
  | crlfOrLf => [['\r', '\n'], ['\n']]

namespace LineBreaks

variable (breaks : LineBreaks)

@[simp] lemma lf_mem_delimiters : ['\n'] ∈ breaks.delimiters := by cases breaks <;> simp [delimiters]

@[simp] lemma crlf_mem_delimiters : ['\r', '\n'] ∈ breaks.delimiters := by cases breaks <;> simp [delimiters]

end LineBreaks

def Text.Plain (breaks : LineBreaks) (t : Text) : Prop :=
  ∀ c ∈ t, c ≠ '\n' ∧ (c = '\r' → breaks = .crlfOrLf)

structure WrittenLine where
  content : Text
  delimiter : Text
  deriving Repr, DecidableEq

namespace WrittenLine

def chars (w : WrittenLine) : Text := w.content ++ w.delimiter

def extent (w : WrittenLine) : LineExtent :=
  ⟨w.content.length + w.delimiter.length, w.delimiter.length⟩

def join (ws : List WrittenLine) : Text := ws.flatMap chars

@[simp] lemma join_nil : join [] = [] := rfl

@[simp] lemma join_cons (w : WrittenLine) (ws : List WrittenLine) : join (w :: ws) = w.chars ++ join ws := rfl

inductive Grammatical (breaks : LineBreaks) : List WrittenLine → Prop
  | last {content : Text} (hplain : Text.Plain breaks content) : Grammatical breaks [⟨content, []⟩]
  | line {w v : WrittenLine} {rest : List WrittenLine} (hplain : Text.Plain breaks w.content)
      (hdelimiter : w.delimiter ∈ breaks.delimiters) (hseam : Text.Seam w.content w.delimiter)
      (hlone : w.delimiter = ['\r'] → v.chars.head? ≠ some '\n') (hrest : Grammatical breaks (v :: rest)) :
    Grammatical breaks (w :: v :: rest)

end WrittenLine

namespace LineExtent

variable {breaks : LineBreaks}

lemma scanFrom_plain_append {content rest : Text} (hplain : Text.Plain breaks content)
    (hseam : Text.Seam content rest) (current : Nat) :
    scanFrom breaks current (content ++ rest) = scanFrom breaks (current + content.length) rest := by
  induction content generalizing current with
  | nil => rfl
  | cons c content ih =>
    obtain ⟨hlf, hcr⟩ := hplain c (by simp)
    have hcontent : Text.Plain breaks content := fun d hd => hplain d (List.mem_cons_of_mem _ hd)
    have hnext := ih hcontent hseam.tail (current + 1)
    rw [Nat.add_right_comm] at hnext
    by_cases hc : c = '\r'
    · subst hc
      have hhead := hseam.head? fun rest' heq => by
        have := (hcontent '\n' (by simp [heq])).1
        contradiction
      rw [List.cons_append, scanFrom_cr hhead, if_neg (by simp [hcr rfl]), hnext]
      rfl
    · rw [List.cons_append, scanFrom_content _ hlf hc, hnext]
      rfl

lemma scanFrom_delimiter_append {delimiter rest : Text} (hd : delimiter ∈ breaks.delimiters)
    (hlone : delimiter = ['\r'] → rest.head? ≠ some '\n') (current : Nat) :
    scanFrom breaks current (delimiter ++ rest) =
      ⟨current + delimiter.length, delimiter.length⟩ :: scanFrom breaks 0 rest := by
  cases breaks with
  | standard =>
    simp only [LineBreaks.delimiters, List.mem_cons, List.not_mem_nil, or_false] at hd
    rcases hd with rfl | rfl | rfl
    · exact scanFrom_crlf rest
    · exact scanFrom_lf rest
    · exact (scanFrom_cr (hlone rfl)).trans (if_pos rfl)
  | crlfOrLf =>
    simp only [LineBreaks.delimiters, List.mem_cons, List.not_mem_nil, or_false] at hd
    rcases hd with rfl | rfl
    · exact scanFrom_crlf rest
    · exact scanFrom_lf rest

end LineExtent

namespace WrittenLine

variable {breaks : LineBreaks} {w v : WrittenLine} {ws : List WrittenLine}

lemma delimiter_ne_nil {delimiter : Text} (hd : delimiter ∈ breaks.delimiters) : delimiter ≠ [] := by
  rintro rfl
  cases breaks <;> simp [LineBreaks.delimiters] at hd

namespace Grammatical

lemma head?_join (h : Grammatical breaks (v :: ws)) : (join (v :: ws)).head? = v.chars.head? := by
  cases h with
  | last => simp
  | line _ hdelimiter =>
    have hne := delimiter_ne_nil hdelimiter
    rw [join_cons, List.head?_append_of_ne_nil _ (by simp [chars, hne])]

lemma scan_join (h : Grammatical breaks ws) : LineExtent.scan breaks (join ws) = ws.map extent := by
  induction h with
  | @last content hplain =>
    have hseam : Text.Seam content [] := by simp [Text.Seam]
    have hscan := LineExtent.scanFrom_plain_append hplain hseam 0
    rw [List.append_nil, Nat.zero_add, LineExtent.scanFrom] at hscan
    simpa [LineExtent.scan, chars, extent] using hscan
  | @line w v rest hplain hdelimiter hseam hlone hrest ih =>
    have hne := delimiter_ne_nil hdelimiter
    have hfollows : Text.Seam w.content (w.delimiter ++ join (v :: rest)) := by
      rw [Text.Seam, List.head?_append_of_ne_nil _ hne]
      exact hseam
    have hdelimited := LineExtent.scanFrom_delimiter_append hdelimiter
      (fun hcr => hrest.head?_join ▸ hlone hcr) w.content.length
    rw [LineExtent.scan] at ih ⊢
    rw [join_cons, chars, List.append_assoc, LineExtent.scanFrom_plain_append hplain hfollows, Nat.zero_add,
      hdelimited, ih]
    rfl

lemma cons_char (h : Grammatical breaks (w :: ws)) {c : Char} (hlf : c ≠ '\n')
    (hcr : c = '\r' → breaks = .crlfOrLf ∧ (join (w :: ws)).head? ≠ some '\n') :
    Grammatical breaks (⟨c :: w.content, w.delimiter⟩ :: ws) := by
  have plain {content : Text} (hplain : Text.Plain breaks content) : Text.Plain breaks (c :: content) := by
    intro d hd
    rcases List.mem_cons.mp hd with rfl | hd
    · exact ⟨hlf, fun heq => (hcr heq).1⟩
    · exact hplain d hd
  have hhead := h.head?_join
  cases h with
  | last hplain => exact .last (plain hplain)
  | line hplain hdelimiter hseam hlone hrest =>
    refine .line (plain hplain) hdelimiter ?_ hlone hrest
    cases hcontent : w.content with
    | nil =>
      intro hlast
      obtain rfl : c = '\r' := by simpa using hlast
      have hne := (hcr rfl).2
      rw [hhead, chars, hcontent] at hne
      exact hne
    | cons d content =>
      intro hlast
      exact hseam (by simpa [hcontent] using hlast)

lemma cons_delimiter (h : Grammatical breaks (v :: ws)) {delimiter : Text} (hd : delimiter ∈ breaks.delimiters)
    (hlone : delimiter = ['\r'] → (join (v :: ws)).head? ≠ some '\n') :
    Grammatical breaks (⟨[], delimiter⟩ :: v :: ws) :=
  .line (by simp [Text.Plain]) hd (by simp [Text.Seam]) (fun hcr => h.head?_join ▸ hlone hcr) h

end Grammatical

lemma exists_grammatical (breaks : LineBreaks) (current : Nat) (t : Text) :
    ∃ w ws, Grammatical breaks (w :: ws) ∧ join (w :: ws) = t := by
  fun_induction LineExtent.scanFrom breaks current t with
  | case1 current => exact ⟨⟨[], []⟩, [], .last (by simp [Text.Plain]), rfl⟩
  | case2 current t ih =>
    obtain ⟨w, ws, hw, rfl⟩ := ih
    exact ⟨⟨[], ['\n']⟩, w :: ws, hw.cons_delimiter (by simp) (by simp), rfl⟩
  | case3 current t ih =>
    obtain ⟨w, ws, hw, rfl⟩ := ih
    exact ⟨⟨[], ['\r', '\n']⟩, w :: ws, hw.cons_delimiter (by simp) (by simp), rfl⟩
  | case4 current c t hlf hcrlf hc ih =>
    obtain ⟨w, ws, hw, rfl⟩ := ih
    obtain ⟨rfl, rfl⟩ := hc
    refine ⟨⟨[], ['\r']⟩, w :: ws, hw.cons_delimiter (by simp [LineBreaks.delimiters]) fun _ hhead => ?_, rfl⟩
    obtain ⟨rest, hrest⟩ := List.head?_eq_some_iff.mp hhead
    exact hcrlf rest rfl hrest
  | case5 current c t hlf hcrlf hc ih =>
    obtain ⟨w, ws, hw, rfl⟩ := ih
    refine ⟨⟨c :: w.content, w.delimiter⟩, ws, hw.cons_char hlf fun hcr => ⟨?_, fun hhead => ?_⟩, rfl⟩
    · cases breaks with
      | standard => exact (hc ⟨hcr, rfl⟩).elim
      | crlfOrLf => rfl
    · obtain ⟨rest, hrest⟩ := List.head?_eq_some_iff.mp hhead
      exact hcrlf rest hcr hrest

lemma grammatical_iff :
    Grammatical breaks ws ↔
      (∃ front last, ws = front ++ [last] ∧ last.delimiter = [] ∧
        ∀ w ∈ front, w.delimiter ∈ breaks.delimiters) ∧
      (∀ w ∈ ws, Text.Plain breaks w.content) ∧
      (∀ w ∈ ws, Text.Seam w.content w.delimiter) ∧
      ws.IsChain fun a b => a.delimiter = ['\r'] → b.chars.head? ≠ some '\n' := by
  constructor
  · intro h
    induction h with
    | @last content hplain => exact ⟨⟨[], _, rfl, rfl, by simp⟩, by simpa, by simp [Text.Seam], by simp⟩
    | @line w v rest hplain hdelimiter hseam hlone hrest ih =>
      obtain ⟨⟨front, last, heq, hlast, hfront⟩, hp, hs, hc⟩ := ih
      refine ⟨⟨w :: front, last, by rw [heq, List.cons_append], hlast, ?_⟩, ?_, ?_, hc.cons_cons hlone⟩
      · exact List.forall_mem_cons.mpr ⟨hdelimiter, hfront⟩
      · exact List.forall_mem_cons.mpr ⟨hplain, hp⟩
      · exact List.forall_mem_cons.mpr ⟨hseam, hs⟩
  · rintro ⟨⟨front, last, rfl, hlast, hfront⟩, hplain, hseam, hlone⟩
    induction front with
    | nil =>
      obtain ⟨content, delimiter⟩ := last
      obtain rfl : delimiter = [] := hlast
      exact .last (hplain ⟨content, []⟩ (by simp))
    | cons w front ih =>
      obtain ⟨hw, hfront⟩ := List.forall_mem_cons.mp hfront
      obtain ⟨hp, hplain⟩ := List.forall_mem_cons.mp hplain
      obtain ⟨hs, hseam⟩ := List.forall_mem_cons.mp hseam
      obtain ⟨v, rest, hv⟩ := List.exists_cons_of_ne_nil (l := front ++ [last]) (by simp)
      rw [List.cons_append, hv] at hlone
      have hrest := ih hfront hplain hseam (hv ▸ hlone.tail)
      rw [hv] at hrest
      rw [List.cons_append, hv]
      exact .line hp hw hs (List.isChain_cons_cons.mp hlone).1 hrest

end WrittenLine

namespace Line

def contentIn (line : Line) (t : Text) : Text := (t.drop line.offset).take line.length

def delimiterIn (line : Line) (t : Text) : Text := (t.drop line.endOffset).take line.delimiter

def writtenIn (line : Line) (t : Text) : WrittenLine := ⟨line.contentIn t, line.delimiterIn t⟩

variable {line : Line} {t : Text}

lemma getElem?_contentIn {i : Nat} (h : i < line.length) : (line.contentIn t)[i]? = t[line.offset + i]? := by
  rw [contentIn, List.getElem?_take_of_lt h, List.getElem?_drop]

lemma getElem?_delimiterIn {i : Nat} (h : i < line.delimiter) :
    (line.delimiterIn t)[i]? = t[line.endOffset + i]? := by
  rw [delimiterIn, List.getElem?_take_of_lt h, List.getElem?_drop]

lemma extent_writtenIn (h : line.offset + line.totalLength ≤ t.length) :
    (line.writtenIn t).extent = ⟨line.totalLength, line.delimiter⟩ := by
  simp only [writtenIn, WrittenLine.extent, contentIn, delimiterIn, endOffset, totalLength, List.length_take,
    List.length_drop, LineExtent.mk.injEq] at h ⊢
  omega

end Line

namespace WrittenLine

def lines (number offset : Nat) (ws : List WrittenLine) : List Line :=
  LineExtent.linesFrom number offset (ws.map extent)

variable {w : WrittenLine} {ws : List WrittenLine} {number offset : Nat}

lemma lines_cons :
    lines number offset (w :: ws) =
      ⟨number, offset, w.content.length, w.delimiter.length⟩ ::
        lines (number + 1) (offset + w.chars.length) ws := by
  simp [lines, LineExtent.linesFrom, LineExtent.toLine, extent, chars]

lemma isChain_lines (number offset : Nat) (ws : List WrittenLine) :
    (lines number offset ws).IsChain fun a b => b.number = a.number + 1 ∧ b.offset = a.offset + a.totalLength := by
  induction ws generalizing number offset with
  | nil => exact .nil
  | cons w ws ih =>
    cases ws with
    | nil => exact .singleton _
    | cons v ws =>
      have hrest := ih (number + 1) (offset + w.chars.length)
      rw [lines_cons] at hrest
      rw [lines_cons, lines_cons]
      exact hrest.cons_cons ⟨rfl, by simp [chars, Line.totalLength]⟩

lemma stop_le_of_mem_lines {line : Line} (h : line ∈ lines number offset ws) :
    line.offset + line.totalLength ≤ offset + (join ws).length := by
  induction ws generalizing number offset with
  | nil => simp [lines, LineExtent.linesFrom] at h
  | cons w ws ih =>
    rw [lines_cons] at h
    rw [join_cons, List.length_append]
    rcases List.mem_cons.mp h with rfl | h
    · simp [Line.totalLength, chars]
    · have := ih h
      omega

lemma writtenIn_between (number : Nat) (front : Text) (w : WrittenLine) (back : Text) :
    Line.writtenIn ⟨number, front.length, w.content.length, w.delimiter.length⟩
      (front ++ (w.chars ++ back)) = w := by
  have hcontent : Line.contentIn ⟨number, front.length, w.content.length, w.delimiter.length⟩
      (front ++ (w.chars ++ back)) = w.content := by
    simp [Line.contentIn, chars]
  have hdelimiter : Line.delimiterIn ⟨number, front.length, w.content.length, w.delimiter.length⟩
      (front ++ (w.chars ++ back)) = w.delimiter := by
    rw [Line.delimiterIn, Line.endOffset, chars, List.append_assoc, ← List.append_assoc front,
      ← List.length_append, List.drop_left, List.take_left]
  rw [Line.writtenIn, hcontent, hdelimiter]

lemma map_writtenIn_lines (number : Nat) (front : Text) (ws : List WrittenLine) :
    (lines number front.length ws).map (·.writtenIn (front ++ join ws)) = ws := by
  induction ws generalizing number front with
  | nil => rfl
  | cons w ws ih =>
    have hrest := ih (number + 1) (front ++ w.chars)
    rw [List.length_append, List.append_assoc, ← join_cons] at hrest
    rw [lines_cons, List.map_cons, hrest, join_cons, writtenIn_between]

lemma Grammatical.endOffset_eq (h : Grammatical breaks ws) {line : Line} (hline : line ∈ lines number offset ws)
    (hnone : line.delimiter = 0) : line.endOffset = offset + (join ws).length := by
  induction h generalizing number offset with
  | last =>
    obtain rfl := List.mem_singleton.mp hline
    simp [Line.endOffset, LineExtent.toLine, extent, chars]
  | @line w v rest hplain hdelimiter hseam hlone hrest ih =>
    rw [lines_cons] at hline
    rcases List.mem_cons.mp hline with rfl | hline
    · exact absurd (List.length_eq_zero_iff.mp hnone) (delimiter_ne_nil hdelimiter)
    · rw [ih hline, join_cons w, List.length_append, Nat.add_assoc]

lemma eq_lines {lines : List Line} {t : Text}
    (hstart : ∀ line ∈ lines.head?, line.number = number ∧ line.offset = offset)
    (hnext : lines.IsChain fun a b => b.number = a.number + 1 ∧ b.offset = a.offset + a.totalLength)
    (hinside : ∀ line ∈ lines, line.offset + line.totalLength ≤ t.length) :
    lines = WrittenLine.lines number offset (lines.map (·.writtenIn t)) := by
  induction lines generalizing number offset with
  | nil => rfl
  | cons line rest ih =>
    obtain ⟨hline, hinside⟩ := List.forall_mem_cons.mp hinside
    obtain ⟨rfl, rfl⟩ := hstart line (by simp)
    have hfirst : ∀ next ∈ rest.head?,
        next.number = line.number + 1 ∧ next.offset = line.offset + line.totalLength := by
      cases rest with
      | nil => simp
      | cons next rest => simpa using (List.isChain_cons_cons.mp hnext).1
    have hrest := ih hfirst hnext.tail hinside
    have hextent := Line.extent_writtenIn hline
    rw [WrittenLine.lines] at hrest
    rw [List.map_cons, WrittenLine.lines, List.map_cons, hextent, LineExtent.linesFrom, ← hrest]
    simp [LineExtent.toLine, Line.totalLength]

end WrittenLine

namespace Text

/-- The lines are what the grammar allows as a cut of the text. -/
structure CutInto (breaks : LineBreaks) (t : Text) (lines : List Line) : Prop where
  start : ∀ line ∈ lines.head?, line.number = 1 ∧ line.offset = 0
  next : lines.IsChain fun a b => b.number = a.number + 1 ∧ b.offset = a.offset + a.totalLength
  inside : ∀ line ∈ lines, line.offset + line.totalLength ≤ t.length
  joined : (lines.flatMap fun line => line.contentIn t ++ line.delimiterIn t) = t
  ended : ∃ front last, lines = front ++ [last] ∧ last.delimiterIn t = [] ∧
    ∀ line ∈ front, line.delimiterIn t ∈ breaks.delimiters
  plain : ∀ line ∈ lines, Text.Plain breaks (line.contentIn t)
  unpaired : ∀ line ∈ lines, ∀ i, line.offset ≤ i → i < line.endOffset →
    t[i]? = some '\r' → t[i + 1]? ≠ some '\n'
  lone : lines.IsChain fun a b =>
    a.delimiterIn t = ['\r'] → (b.contentIn t ++ b.delimiterIn t).head? ≠ some '\n'

variable {breaks : LineBreaks} {t : Text} {lines : List Line} {line : Line}

lemma CutInto.seam (h : t.CutInto breaks lines) (hline : line ∈ lines) :
    Text.Seam (line.contentIn t) (line.delimiterIn t) := by
  intro hcr hlf
  have hinside := h.inside line hline
  rw [Line.totalLength] at hinside
  have hlength : (line.contentIn t).length = line.length := by
    rw [Line.contentIn, List.length_take, List.length_drop]
    omega
  have hpos : 0 < line.length := by
    rw [← hlength, List.length_pos_iff]
    rintro hnil
    simp [hnil] at hcr
  have hdelimiter : 0 < line.delimiter := by
    by_contra hnone
    simp [Line.delimiterIn, Nat.eq_zero_of_not_pos hnone] at hlf
  rw [List.getLast?_eq_getElem?, hlength, Line.getElem?_contentIn (by omega)] at hcr
  rw [List.head?_eq_getElem?, Line.getElem?_delimiterIn hdelimiter] at hlf
  refine h.unpaired line hline _ (by omega) ?_ hcr ?_
  · rw [Line.endOffset]
    omega
  · rw [← hlf, Line.endOffset]
    congr 1
    omega

lemma unpaired_of_seam (hplain : Text.Plain breaks (line.contentIn t))
    (hseam : Text.Seam (line.contentIn t) (line.delimiterIn t))
    (hnone : line.delimiter = 0 → line.endOffset = t.length) {i : Nat} (hstart : line.offset ≤ i)
    (hstop : i < line.endOffset) (hcr : t[i]? = some '\r') : t[i + 1]? ≠ some '\n' := by
  intro hlf
  obtain ⟨k, rfl⟩ := Nat.exists_eq_add_of_le hstart
  have hk : k < line.length := by
    rw [Line.endOffset] at hstop
    omega
  rw [← Line.getElem?_contentIn hk] at hcr
  rcases Nat.lt_or_eq_of_le (Nat.succ_le_of_lt hk) with hinner | hlast
  · -- both are in the content
    rw [Nat.add_assoc, ← Line.getElem?_contentIn hinner] at hlf
    exact (hplain '\n' (List.mem_of_getElem? hlf)).1 rfl
  · -- the second would be the first character of the delimiter, or stand behind the text
    have hend : line.offset + k + 1 = line.endOffset := by
      rw [Line.endOffset]
      omega
    rw [hend] at hlf
    have hdelimiter : 0 < line.delimiter := by
      refine Nat.pos_of_ne_zero fun hzero => ?_
      rw [hnone hzero] at hlf
      simp at hlf
    refine hseam ?_ ?_
    · have hlength : (line.contentIn t).length = k + 1 := by
        have := (List.getElem?_eq_some_iff.mp hcr).1
        rw [Line.contentIn, List.length_take] at this ⊢
        omega
      rw [List.getLast?_eq_getElem?, hlength]
      exact hcr
    · rw [List.head?_eq_getElem?, Line.getElem?_delimiterIn hdelimiter]
      exact hlf

lemma CutInto.grammatical (h : t.CutInto breaks lines) :
    WrittenLine.Grammatical breaks (lines.map (·.writtenIn t)) := by
  obtain ⟨front, last, hlines, hlast, hfront⟩ := h.ended
  refine WrittenLine.grammatical_iff.mpr
    ⟨⟨front.map (·.writtenIn t), last.writtenIn t, ?_, hlast, ?_⟩, ?_, ?_, ?_⟩
  · rw [hlines, List.map_append, List.map_singleton]
  · exact List.forall_mem_map.mpr hfront
  · exact List.forall_mem_map.mpr h.plain
  · exact List.forall_mem_map.mpr fun line hline => h.seam hline
  · exact (List.isChain_map _).mpr h.lone

lemma cutInto_lines {ws : List WrittenLine} (h : WrittenLine.Grammatical breaks ws)
    (hjoin : WrittenLine.join ws = t) : t.CutInto breaks (WrittenLine.lines 1 0 ws) := by
  have hmap : (WrittenLine.lines 1 0 ws).map (·.writtenIn t) = ws := by
    rw [← hjoin]
    exact WrittenLine.map_writtenIn_lines 1 [] ws
  obtain ⟨⟨front, last, hlines, hlast, hfront⟩, hplain, hseam, hlone⟩ :=
    WrittenLine.grammatical_iff.mp (hmap.symm ▸ h)
  refine ⟨?start, WrittenLine.isChain_lines 1 0 ws, ?inside, ?joined, ?ended, ?plain, ?unpaired, ?lone⟩
  case start =>
    cases h <;> simp [WrittenLine.lines_cons]
  case inside =>
    intro line hline
    have := WrittenLine.stop_le_of_mem_lines hline
    rwa [hjoin, Nat.zero_add] at this
  case joined =>
    rw [← hmap, WrittenLine.join, List.flatMap_map] at hjoin
    exact hjoin
  case ended =>
    obtain ⟨front, rest, heq, rfl, hrest⟩ := List.map_eq_append_iff.mp hlines
    obtain ⟨last, rfl, rfl⟩ := List.map_eq_singleton_iff.mp hrest
    exact ⟨front, last, heq, hlast, fun line hline => hfront _ (List.mem_map_of_mem hline)⟩
  case plain => exact fun line hline => hplain _ (List.mem_map_of_mem hline)
  case unpaired =>
    intro line hline i
    refine unpaired_of_seam (List.forall_mem_map.mp hplain line hline) (List.forall_mem_map.mp hseam line hline) ?_
    intro hnone
    rw [h.endOffset_eq hline hnone, hjoin, Nat.zero_add]
  case lone => exact (List.isChain_map _).mp hlone

/-- Of all ways to cut a text the line table has the only one that the grammar allows. -/
theorem cutInto_iff_lines_ofText : t.CutInto breaks lines ↔ lines = (LineTable.ofText t breaks).lines := by
  have hscan : (LineTable.ofText t breaks).lines = LineExtent.linesFrom 1 0 (LineExtent.scan breaks t) :=
    (LineTable.describes_ofText t breaks).lines_eq_scan
  rw [hscan]
  constructor
  · intro h
    have hjoin : WrittenLine.join (lines.map (·.writtenIn t)) = t := by
      rw [WrittenLine.join, List.flatMap_map]
      exact h.joined
    have hfound := h.grammatical.scan_join
    rw [hjoin] at hfound
    rw [hfound]
    exact WrittenLine.eq_lines h.start h.next h.inside
  · rintro rfl
    obtain ⟨w, ws, hws, rfl⟩ := WrittenLine.exists_grammatical breaks 0 t
    rw [hws.scan_join]
    exact cutInto_lines hws rfl

example : (LineTable.ofText ['\r', '\r', '\n', 'a'] .standard).lines =
    [⟨1, 0, 0, 1⟩, ⟨2, 1, 0, 2⟩, ⟨3, 3, 1, 0⟩] := by
  decide +kernel

end Text

end EditableText
