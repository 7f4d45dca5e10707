import EditableText.Proofs.Lines.LinkedTable
import EditableText.Proofs.Lines.Traversal

namespace EditableText

namespace LineExtent

variable {extent : LineExtent} {extents : List LineExtent}

lemma length_linesFrom (number offset : Nat) (extents : List LineExtent) :
    (linesFrom number offset extents).length = extents.length := by
  induction extents generalizing number offset with
  | nil => rfl
  | cons extent rest ih => simp [linesFrom, ih]

lemma getElem?_linesFrom (number offset index : Nat) (extents : List LineExtent) :
    (linesFrom number offset extents)[index]? =
      extents[index]?.map fun extent => extent.toLine (number + index) (offset + size (extents.take index)) := by
  induction extents generalizing number offset index with
  | nil => rfl
  | cons extent rest ih =>
    cases index with
    | zero => rfl
    | succ index =>
      simp only [linesFrom, List.getElem?_cons_succ, ih, List.take_succ_cons, size_cons]
      rw [Nat.add_right_comm number, Nat.add_assoc number, Nat.add_assoc offset]

end LineExtent

namespace LinkedTable

variable (linked : LinkedTable)

def lineCount? : Option Nat := countAt? linked.nodes linked.root

def textLength? : Option Nat := totalAt? linked.nodes linked.root

def makeLine? (slot index start : Nat) : Option Line := do
  return (← linked.nodes[slot]?).extent.toLine (index + 1) start

def line? (number : Nat) : Option (Except TextError Line) := do
  let count ← linked.lineCount?
  if number = 0 ∨ count < number then return .error (.lineOutOfRange number count)
  let (slot, start) ← seekIndex? linked.nodes linked.nodes.size linked.root (number - 1) 0
  return .ok (← linked.makeLine? slot (number - 1) start)

def lineAt? (offset : Nat) : Option (Except TextError Line) := do
  match checkOffset offset (← linked.textLength?) with
  | .error e => return .error e
  | .ok () =>
    let (slot, index, start) ← linked.place? offset
    return .ok (← linked.makeLine? slot index start)

end LinkedTable

namespace LineTable

structure Answers (table : LineTable) (extents : List LineExtent) : Prop where
  lines : table.lines = LineExtent.linesFrom 1 0 extents
  lineCount : table.lineCount = extents.length
  textLength : table.textLength = LineExtent.size extents
  line : ∀ index < extents.length, ∃ line, table.lines[index]? = some line ∧ table.line (index + 1) = .ok line
  no_line : ∀ number, number = 0 ∨ extents.length < number →
    table.line number = .error (.lineOutOfRange number extents.length)
  lineAt : ∀ offset < LineExtent.size extents, ∃ found ∈ table.lines, table.lineAt offset = .ok found ∧
    ∀ line ∈ table.lines, line.offset ≤ offset ∧ offset < line.offset + line.totalLength ↔ line = found
  lineAt_end : ∃ last, table.lines.getLast? = some last ∧ table.lineAt (LineExtent.size extents) = .ok last
  no_lineAt : ∀ offset, LineExtent.size extents < offset →
    table.lineAt offset = .error (.offsetOutOfRange offset (LineExtent.size extents))

end LineTable

structure LinkedTable.Answers (linked : LinkedTable) (table : LineTable) : Prop where
  lines : ∃ cursor, LineCursor.start? linked.nodes linked.root = some cursor ∧
    cursor.Yields linked.nodes table.lines
  lineCount : linked.lineCount? = some table.lineCount
  textLength : linked.textLength? = some table.textLength
  line : ∀ number, linked.line? number = some (table.line number)
  lineAt : ∀ offset, linked.lineAt? offset = some (table.lineAt offset)
  seekIndex : ∀ index < table.lineCount,
    (seekIndex? linked.nodes linked.nodes.size linked.root index 0).isSome
  seekOffset : ∀ offset < table.textLength,
    (seekOffset? linked.nodes linked.nodes.size linked.root offset 0 0).isSome

namespace LineTable

variable {table after : LineTable} {index offset : Nat} {entry : LineEntry}

lemma getElem?_lines (hentry : table.tree.entries[index]? = some entry) :
    table.lines[index]? = some (entry.extent.toLine (index + 1) (table.tree.startOf index)) := by
  rw [lines, LineExtent.getElem?_linesFrom, extents, List.getElem?_map, hentry, Nat.add_comm 1, Nat.zero_add]
  rfl

lemma exists_entry_of_mem_lines {line : Line} (h : line ∈ table.lines) :
    ∃ (index : Nat) (entry : LineEntry), table.tree.entries[index]? = some entry ∧
      line = entry.extent.toLine (index + 1) (table.tree.startOf index) := by
  obtain ⟨index, hindex⟩ := List.getElem?_of_mem h
  cases hentry : table.tree.entries[index]? with
  | none => simp [lines, LineExtent.getElem?_linesFrom, extents, hentry] at hindex
  | some entry =>
    rw [getElem?_lines hentry] at hindex
    exact ⟨index, entry, hentry, (Option.some.inj hindex).symm⟩

lemma line_eq (h : table.tree.Summed) (hentry : table.tree.entries[index]? = some entry) :
    table.line (index + 1) = .ok (entry.extent.toLine (index + 1) (table.tree.startOf index)) := by
  rw [line, if_neg (Nat.succ_ne_zero index), Nat.add_sub_cancel, h.atIndex?_eq, hentry, Nat.zero_add]
  rfl

lemma line_eq_error (h : table.tree.Summed) {number : Nat} (hnumber : number = 0 ∨ table.lineCount < number) :
    table.line number = .error (.lineOutOfRange number table.lineCount) := by
  rw [line]
  split
  case isTrue => rfl
  case isFalse hpos =>
    have hcount : table.lineCount = table.tree.entries.length := h.count_eq
    have hnone : table.tree.entries[number - 1]? = none := List.getElem?_eq_none (by omega)
    rw [h.atIndex?_eq, hnone]
    rfl

lemma lineAt_eq (hoffset : offset ≤ table.textLength)
    (hplace : table.place? offset = some ⟨entry, index, table.tree.startOf index⟩) :
    table.lineAt offset = .ok (entry.extent.toLine (index + 1) (table.tree.startOf index)) := by
  rw [lineAt, checkOffset_eq_ok.mpr hoffset, hplace]
  rfl

lemma lineAt_eq_error (hoffset : table.textLength < offset) :
    table.lineAt offset = .error (.offsetOutOfRange offset table.textLength) := by
  rw [lineAt, checkOffset, if_neg (Nat.not_le.mpr hoffset)]
  rfl

lemma le_of_startOf_le {tree : LineTree} {i j : Nat} (hi : tree.startOf i ≤ offset)
    (hj : offset < tree.startOf (j + 1)) : i ≤ j := by
  by_contra hlt
  have hmono : tree.startOf (j + 1) ≤ tree.startOf i := tree.startOf_mono (Nat.lt_of_not_le hlt)
  omega

lemma exists_lineAt (h : table.tree.Summed) (hpos : 0 < table.tree.entries.length)
    (hdelimiter : ∀ extent ∈ table.extents, extent.delimiter ≤ extent.total)
    (hoffset : offset < table.textLength) :
    ∃ found ∈ table.lines, table.lineAt offset = .ok found ∧
      ∀ line ∈ table.lines, line.offset ≤ offset ∧ offset < line.offset + line.totalLength ↔ line = found := by
  obtain ⟨index, entry, hentry, hplace, hle, -, hnext⟩ := place?_eq_of_summed h hpos (Nat.le_of_lt hoffset)
  have hlt : offset < table.tree.startOf (index + 1) := by
    by_cases hlast : index + 1 = table.lineCount
    · rwa [hlast, LineTable.lineCount, h.count_eq, h.startOf_length]
    · exact hnext hlast
  refine ⟨_, List.mem_of_getElem? (getElem?_lines hentry), lineAt_eq (Nat.le_of_lt hoffset) hplace, ?_⟩
  intro line hline
  obtain ⟨other, found, hfound, rfl⟩ := exists_entry_of_mem_lines hline
  have hlength : (found.extent.toLine (other + 1) (table.tree.startOf other)).totalLength = found.extent.total :=
    Nat.sub_add_cancel (hdelimiter _ (List.mem_map_of_mem (List.mem_of_getElem? hfound)))
  rw [hlength]
  change table.tree.startOf other ≤ offset ∧ offset < table.tree.startOf other + found.extent.total ↔ _
  rw [← LineTree.startOf_succ hfound]
  constructor
  · rintro ⟨hother, hother'⟩
    obtain rfl : other = index :=
      Nat.le_antisymm (le_of_startOf_le hother hlt) (le_of_startOf_le hle hother')
    obtain rfl := Option.some.inj (hfound.symm.trans hentry)
    rfl
  · intro heq
    obtain rfl : other = index := Nat.succ.inj (congrArg Line.number heq)
    exact ⟨hle, hlt⟩

lemma lineAt_textLength (h : table.tree.Summed) (hpos : 0 < table.tree.entries.length) :
    ∃ last, table.lines.getLast? = some last ∧ table.lineAt table.textLength = .ok last := by
  have hcount : table.lineCount = table.tree.entries.length := h.count_eq
  obtain ⟨index, entry, hentry, hplace, -, -, hnext⟩ := place?_eq_of_summed h hpos (Nat.le_refl table.textLength)
  have hindex := (List.getElem?_eq_some_iff.mp hentry).1
  have hlast : index + 1 = table.tree.entries.length := by
    by_contra hne
    have hlt := hnext (hcount ▸ hne)
    have hmono : table.tree.startOf (index + 1) ≤ _ := table.tree.startOf_mono hindex
    rw [h.startOf_length] at hmono
    exact Nat.not_lt.mpr hmono hlt
  refine ⟨_, ?_, lineAt_eq (Nat.le_refl _) hplace⟩
  rw [List.getLast?_eq_getElem?, lines, LineExtent.length_linesFrom, extents, List.length_map, ← hlast]
  exact getElem?_lines hentry

lemma answers (h : table.tree.Summed) (hpos : 0 < table.tree.entries.length)
    (hdelimiter : ∀ extent ∈ table.extents, extent.delimiter ≤ extent.total) : table.Answers table.extents := by
  have hcount : table.lineCount = table.extents.length := h.count_eq.trans (List.length_map _).symm
  have hsize : table.textLength = LineExtent.size table.extents := h.total_eq_size
  refine ⟨rfl, hcount, hsize, ?_, ?_, ?_, ?_, ?_⟩
  · intro index hindex
    have hentry := List.getElem?_eq_getElem (List.length_map _ ▸ hindex)
    exact ⟨_, getElem?_lines hentry, line_eq h hentry⟩
  · rw [← hcount]
    exact fun _ => line_eq_error h
  · rw [← hsize]
    exact fun _ => exists_lineAt h hpos hdelimiter
  · rw [← hsize]
    exact lineAt_textLength h hpos
  · rw [← hsize]
    exact fun _ => lineAt_eq_error

lemma last_lt_of_regionOf? (h : table.tree.Summed) (hpos : 0 < table.tree.entries.length) {removed : Nat}
    (hrange : offset + removed ≤ table.textLength) {region : Region}
    (hregion : table.regionOf? offset removed = some region) : region.last < table.tree.entries.length := by
  obtain ⟨here, -, hregion⟩ := Option.bind_eq_some_iff.mp hregion
  obtain ⟨last, hlast, hregion⟩ := Option.bind_eq_some_iff.mp hregion
  obtain ⟨index, entry, hentry, hplace, -⟩ := place?_eq_of_summed h hpos hrange
  obtain rfl := Option.some.inj (hlast.symm.trans hplace)
  have hregionLast : region.last = index := by
    split at hregion
    · obtain ⟨before, -, hregion⟩ := Option.bind_eq_some_iff.mp hregion
      exact congrArg Region.last (Option.some.inj hregion).symm
    · exact congrArg Region.last (Option.some.inj hregion).symm
  exact hregionLast ▸ (List.getElem?_eq_some_iff.mp hentry).1

lemma length_replaceRegion (h : table.tree.Summed) (region : Region) (fresh : List LineExtent) :
    (table.replaceRegion region fresh).tree.entries.length =
      min region.first table.tree.entries.length + fresh.length +
        (table.tree.entries.length - region.first - (region.last - region.first + 1)) := by
  have hfront := LineTree.length_split (k := region.first) h
  have hrest := congrArg List.length (LineTree.entries_split region.first table.tree)
  have hold := LineTree.length_split (k := region.last - region.first + 1) (LineTree.summed_split region.first h).2
  have hback := congrArg List.length
    (LineTree.entries_split (region.last - region.first + 1) (table.tree.split region.first).2)
  have hfresh := congrArg List.length (NodeSupply.extents_grow .leaf
    (table.supply.release ((table.tree.split region.first).2.split (region.last - region.first + 1)).1) fresh)
  rw [LineTree.length_extents] at hfresh
  simp only [List.length_append, LineTree.extents_leaf, List.nil_append] at hrest hback hfresh
  rw [replaceRegion]
  simp only [NodeSupply.build, LineTree.entries_append, List.length_append]
  omega

lemma length_pos_of_applyEdit (h : table.tree.Summed) (hpos : 0 < table.tree.entries.length) {σ : Type}
    [TextSource σ] {source : σ} {removed inserted : Nat}
    (hafter : table.applyEdit source offset removed inserted = .ok after) : 0 < after.tree.entries.length := by
  obtain ⟨_, hrange, hafter⟩ := exists_of_bind_eq_ok hafter
  cases hregion : table.regionOf? offset removed with
  | none => simp [hregion] at hafter
  | some region =>
    rw [hregion] at hafter
    obtain rfl := Except.ok.inj hafter
    have hlast := last_lt_of_regionOf? h hpos (checkRange_eq_ok.mp hrange) hregion
    rw [length_replaceRegion h]
    by_cases hend : region.last + 1 = table.lineCount
    · have hfresh : 0 < (table.rescan source region removed inserted).length := by
        rw [rescan, if_pos hend]
        exact List.length_pos_iff.mpr (LineExtent.scanFrom_ne_nil _)
      omega
    · rw [LineTable.lineCount, h.count_eq] at hend
      omega

end LineTable

namespace LinkedTable.Holds

variable {linked : LinkedTable} {table : LineTable}

lemma makeLine?_eq (h : linked.Holds table) {entry : LineEntry} (hentry : entry ∈ table.tree.entries)
    (index start : Nat) :
    linked.makeLine? entry.slot index start = some (entry.extent.toLine (index + 1) start) := by
  obtain ⟨node, hnode, hextent⟩ := h.links.extent_of_mem hentry
  rw [makeLine?, hnode, ← hextent]
  rfl

lemma line?_eq (h : linked.Holds table) (hkept : table.Kept) (number : Nat) :
    linked.line? number = some (table.line number) := by
  have hcount : table.lineCount = table.tree.entries.length := hkept.treap.summed.count_eq
  have hlineCount : linked.lineCount? = some table.lineCount := h.links.countAt?_eq
  rw [line?, hlineCount]
  by_cases hnumber : number = 0 ∨ table.lineCount < number
  · rw [LineTable.line_eq_error hkept.treap.summed hnumber]
    simp [hnumber]
  · obtain ⟨index, rfl⟩ : ∃ index, number = index + 1 := Nat.exists_eq_succ_of_ne_zero (by omega)
    have hentry := List.getElem?_eq_getElem (l := table.tree.entries) (i := index) (by omega)
    rw [LineTable.line_eq hkept.treap.summed hentry]
    simp only [Option.bind_eq_bind, Option.bind_some, if_neg hnumber, Nat.add_sub_cancel, h.seekIndex?_eq hkept,
      hkept.treap.summed.atIndex?_eq, hentry, Option.map_some, h.makeLine?_eq (List.mem_of_getElem? hentry),
      Nat.zero_add]
    rfl

lemma lineAt?_eq (h : linked.Holds table) (hkept : table.Kept)
    (hpos : 0 < table.tree.entries.length) (offset : Nat) :
    linked.lineAt? offset = some (table.lineAt offset) := by
  have htextLength : linked.textLength? = some table.textLength := h.links.totalAt?_eq
  rw [lineAt?, htextLength]
  by_cases hoffset : offset ≤ table.textLength
  · obtain ⟨index, entry, hentry, hplace, -⟩ :=
      LineTable.place?_eq_of_summed hkept.treap.summed hpos hoffset
    rw [LineTable.lineAt_eq hoffset hplace]
    simp only [Option.bind_eq_bind, Option.bind_some, checkOffset_eq_ok.mpr hoffset, h.place?_eq hkept, hplace,
      Option.map_some, h.makeLine?_eq (List.mem_of_getElem? hentry)]
    rfl
  · rw [LineTable.lineAt_eq_error (Nat.lt_of_not_le hoffset)]
    simp [checkOffset, hoffset]

lemma answers (h : linked.Holds table) (hkept : table.Kept) (hpos : 0 < table.tree.entries.length) :
    linked.Answers table := by
  have hsummed := hkept.treap.summed
  have hcount : table.lineCount = table.tree.entries.length := hsummed.count_eq
  have hlineCount : linked.lineCount? = some table.lineCount := h.links.countAt?_eq
  have htextLength : linked.textLength? = some table.textLength := h.links.totalAt?_eq
  refine ⟨?_, hlineCount, htextLength, ?_, ?_, ?_, ?_⟩
  · exact h.links.start?_yields hkept.nodup_slots fun entry hentry =>
      hkept.delimiter_le _ (List.mem_map_of_mem hentry)
  · exact h.line?_eq hkept
  · exact h.lineAt?_eq hkept hpos
  · intro index hindex
    rw [h.seekIndex?_eq hkept, hsummed.atIndex?_eq, List.getElem?_eq_getElem (hcount ▸ hindex)]
    rfl
  · intro offset hoffset
    have hdepth := h.links.length_slots_le hkept.nodup_slots
    have htree : offset < 0 + table.tree.total := by rwa [Nat.zero_add]
    obtain ⟨index, entry, -, hholding, -, -⟩ := hsummed.holding?_eq 0 (Nat.zero_le offset) htree
    rw [h.links.seekOffset?_eq hdepth, hholding]
    rfl

end LinkedTable.Holds

namespace LineTable

variable {table : LineTable} {linked : LinkedTable} {counts : List Nat}

lemma Reached.length_pos (h : Reached table linked counts) : 0 < table.tree.entries.length := by
  induction h with
  | @empty breaks linked hlinked =>
    have hextents := congrArg List.length (NodeSupply.extents_grow .leaf NodeSupply.initial [⟨0, 0⟩])
    rw [LineTree.length_extents] at hextents
    exact hextents ▸ Nat.one_pos
  | @rebuild table linked rebuilt counts h t hrebuilt ih => exact (describes_rebuild table t).lineCount_pos
  | edit h hafter hedited ih => exact length_pos_of_applyEdit h.kept.1.treap.summed ih hafter

/-- Every way to ask for lines reads the same list, in the table and in the slots that its nodes stand in. -/
theorem queries_read_one_list (h : Reached table linked counts) :
    ∃ extents : List LineExtent, (∀ extent ∈ extents, extent.delimiter ≤ extent.total) ∧
      (∀ (index : Nat) (extent : LineExtent), extents[index]? = some extent →
        table.lines[index]? = some (extent.toLine (index + 1) (LineExtent.size (extents.take index)))) ∧
      table.Answers extents ∧ linked.Answers table := by
  obtain ⟨hkept, -, -⟩ := h.kept
  refine ⟨table.extents, hkept.delimiter_le, ?_, answers hkept.treap.summed h.length_pos hkept.delimiter_le,
    h.holds.answers hkept h.length_pos⟩
  intro index extent hextent
  rw [lines, LineExtent.getElem?_linesFrom, hextent, Nat.add_comm 1]
  simp

theorem queries_read_one_list_after_edit :
    ∃ after linked, (ofText ['a'] .standard).applyEdit ['a', '\n'] 1 0 1 = .ok after ∧
      Reached after linked [2, 1] ∧ linked.Answers after ∧ after.lines = [⟨1, 0, 1, 1⟩, ⟨2, 2, 0, 0⟩] ∧
      after.lineAt 1 = .ok ⟨1, 0, 1, 1⟩ ∧ after.lineAt 2 = .ok ⟨2, 2, 0, 0⟩ := by
  let after : LineTable :=
    ⟨.node .leaf ⟨0, 2823156546, ⟨2, 1⟩⟩ (.node .leaf ⟨1, 2104363911, ⟨0, 0⟩⟩ .leaf 0 1) 2 2,
      ⟨[], 2, 12912965123806966029⟩, .standard⟩
  have hafter : (ofText ['a'] .standard).applyEdit ['a', '\n'] 1 0 1 = .ok after := by decide +kernel
  have hcount : ((empty .standard).rebuild ['a']).lineCount = 1 := by decide +kernel
  obtain ⟨started, -, hstarted⟩ := Reached.exists_empty .standard
  obtain ⟨built, -, hbuilt⟩ := hstarted.exists_rebuild ['a']
  obtain ⟨linked, -, hreached⟩ := hbuilt.exists_edit hafter
  rw [hcount] at hreached
  obtain ⟨extents, -, -, -, hanswers⟩ := queries_read_one_list hreached
  exact ⟨after, linked, hafter, hreached, hanswers, rfl, rfl, rfl⟩

end LineTable

end EditableText
