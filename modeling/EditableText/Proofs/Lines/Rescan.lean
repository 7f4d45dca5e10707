import EditableText.Proofs.Lines.Lookup
import EditableText.Proofs.Text.Reads

namespace EditableText

namespace NodeSupply

lemma summed_grow {tree : LineTree} (h : tree.Summed) (supply : NodeSupply)
    (extents : List LineExtent) : (grow tree supply extents).1.Summed := by
  induction extents generalizing tree supply with
  | nil => exact h
  | cons extent rest ih =>
    exact ih (LineTree.summed_append h (LineTree.summed_single _)) _

lemma extent_take (supply : NodeSupply) (extent : LineExtent) :
    (supply.take extent).1.extent = extent := by
  rw [take]
  cases supply.released <;> rfl

lemma extents_grow (tree : LineTree) (supply : NodeSupply) (extents : List LineExtent) :
    (grow tree supply extents).1.extents = tree.extents ++ extents := by
  induction extents generalizing tree supply with
  | nil => simp [grow]
  | cons extent rest ih =>
    rw [grow, ih, LineTree.extents_append]
    simp [LineTree.single, LineTree.extents, extent_take]

end NodeSupply

namespace LineTable

lemma place?_eq_of_summed {table : LineTable} (h : table.tree.Summed) (hpos : 0 < table.tree.entries.length)
    {offset : Nat} (ho : offset ≤ table.textLength) :
    ∃ k entry, table.tree.entries[k]? = some entry ∧
      table.place? offset = some ⟨entry, k, table.tree.startOf k⟩ ∧
      table.tree.startOf k ≤ offset ∧ offset ≤ table.tree.startOf (k + 1) ∧
      (k + 1 ≠ table.lineCount → offset < table.tree.startOf (k + 1)) := by
  have hcount : table.lineCount = table.tree.entries.length := h.count_eq
  have htotal : table.tree.total = table.textLength := rfl
  rw [place?]
  split
  case isTrue hle =>
    obtain rfl : offset = table.textLength := Nat.le_antisymm ho hle
    obtain ⟨entry, hentry⟩ : ∃ entry, table.tree.entries[table.lineCount - 1]? = some entry :=
      ⟨_, List.getElem?_eq_getElem (by omega)⟩
    have hend : table.tree.startOf (table.lineCount - 1 + 1) = table.textLength := by
      rw [show table.lineCount - 1 + 1 = table.tree.entries.length by omega, h.startOf_length, htotal]
    refine ⟨table.lineCount - 1, entry, hentry, ?_, ?_, Nat.le_of_eq hend.symm, by omega⟩
    · simp [h.atIndex?_eq, hentry]
    · rw [← hend]
      exact table.tree.startOf_mono (by omega)
  case isFalse hlt =>
    obtain ⟨k, entry, hentry, hk, hle, hend⟩ := h.holding?_eq 0 (Nat.zero_le offset)
      (by rw [htotal]; omega)
    rw [Nat.zero_add] at hle hend
    rw [← LineTree.startOf_succ hentry] at hend
    exact ⟨k, entry, hentry, by simpa using hk, hle, Nat.le_of_lt hend, fun _ => hend⟩

structure Describes (table : LineTable) (t : Text) : Prop where
  summed : table.tree.Summed
  extents_eq : table.extents = LineExtent.scan table.breaks t

lemma describes_rebuild (table : LineTable) (t : Text) : (table.rebuild t).Describes t where
  summed := NodeSupply.summed_grow (show LineTree.leaf.Summed from trivial) _ _
  extents_eq := NodeSupply.extents_grow .leaf _ _

lemma describes_ofText (t : Text) (breaks : LineBreaks) : (ofText t breaks).Describes t :=
  describes_rebuild _ t

@[simp] lemma breaks_ofText (t : Text) (breaks : LineBreaks) : (ofText t breaks).breaks = breaks := rfl

namespace Describes

variable {table : LineTable} {t : Text}

lemma lines_eq_scan (h : table.Describes t) :
    table.lines = LineExtent.linesFrom 1 0 (LineExtent.scan table.breaks t) := by
  rw [lines, h.extents_eq]

lemma lines_eq (h : table.Describes t) : table.lines = (ofText t table.breaks).lines := by
  rw [h.lines_eq_scan, (describes_ofText t table.breaks).lines_eq_scan, breaks_ofText]

lemma textLength_eq (h : table.Describes t) : table.textLength = t.length := by
  have hsize := LineExtent.size_scan table.breaks t
  rw [← h.extents_eq] at hsize
  exact h.summed.total_eq_size.trans hsize

lemma lineCount_eq (h : table.Describes t) : table.lineCount = table.tree.entries.length :=
  h.summed.count_eq

lemma lineCount_pos (h : table.Describes t) : 0 < table.tree.entries.length := by
  have hne : table.extents ≠ [] := h.extents_eq ▸ LineExtent.scanFrom_ne_nil t
  simpa [extents] using List.length_pos_iff.mpr hne

lemma place?_eq (h : table.Describes t) {offset : Nat} (ho : offset ≤ t.length) :
    ∃ k entry, table.tree.entries[k]? = some entry ∧
      table.place? offset = some ⟨entry, k, table.tree.startOf k⟩ ∧
      table.tree.startOf k ≤ offset ∧ offset ≤ table.tree.startOf (k + 1) ∧
      (k + 1 ≠ table.lineCount → offset < table.tree.startOf (k + 1)) :=
  place?_eq_of_summed h.summed h.lineCount_pos (h.textLength_eq.symm ▸ ho)

end Describes

structure Region.Covers (region : Region) (table : LineTable) (offset removed : Nat) : Prop where
  ordered : region.first ≤ region.last
  last_lt : region.last < table.lineCount
  start_eq : region.start = table.tree.startOf region.first
  stop_eq : region.stop = table.tree.startOf (region.last + 1)
  start_le : region.start ≤ offset
  start_lt : 0 < region.first → region.start < offset
  le_stop : offset + removed ≤ region.stop
  lt_stop : region.last + 1 ≠ table.lineCount → offset + removed < region.stop

namespace Describes

variable {table : LineTable} {t : Text}

lemma total_pos (h : table.Describes t) {k : Nat} {entry : LineEntry}
    (hentry : table.tree.entries[k]? = some entry) (hk : k + 1 < table.lineCount) :
    0 < entry.extent.total := by
  rw [h.lineCount_eq] at hk
  have hextent : table.extents[k]? = some entry.extent := by simp [extents, hentry]
  have hlen : k < table.extents.dropLast.length := by simp [extents]; omega
  have hmem : entry.extent ∈ table.extents.dropLast := by
    apply List.mem_of_getElem? (i := k)
    rw [List.getElem?_dropLast, if_pos (by simpa using hlen), hextent]
  rw [h.extents_eq] at hmem
  exact LineExtent.total_pos_of_mem_scanFrom hmem

lemma regionOf?_eq (h : table.Describes t) {offset removed : Nat}
    (ho : offset + removed ≤ t.length) :
    ∃ region, table.regionOf? offset removed = some region ∧ region.Covers table offset removed := by
  obtain ⟨here, entry, hentry, hplace, hstart, hstop, hnext⟩ :=
    h.place?_eq (show offset ≤ t.length by omega)
  obtain ⟨last, lastEntry, hlast, hlastPlace, hlastStart, hlastStop, hlastNext⟩ := h.place?_eq ho
  have hlt : here < table.tree.entries.length := (List.getElem?_eq_some_iff.mp hentry).1
  have hlastLt : last < table.tree.entries.length := (List.getElem?_eq_some_iff.mp hlast).1
  have hcount := h.lineCount_eq
  have hle : here ≤ last := by
    by_contra hgt
    have := table.tree.startOf_mono (show last + 1 ≤ here by omega)
    have := hlastNext (by omega)
    omega
  have hend := LineTree.startOf_succ hlast
  by_cases hborder : offset = table.tree.startOf here ∧ 0 < here
  · -- the edit touches the delimiter of the line before it, so that line is scanned again too
    obtain ⟨rfl, hpos⟩ := hborder
    obtain ⟨before, hbefore⟩ : ∃ before, table.tree.entries[here - 1]? = some before :=
      ⟨_, List.getElem?_eq_getElem (by omega)⟩
    have hstep := LineTree.startOf_succ hbefore
    rw [show here - 1 + 1 = here by omega] at hstep
    have hgrow := h.total_pos hbefore (by omega)
    refine ⟨⟨here - 1, last, table.tree.startOf (here - 1), table.tree.startOf (last + 1)⟩, ?_,
      by dsimp; omega, by dsimp; omega, rfl, rfl, by dsimp; omega, by dsimp; omega, hlastStop, hlastNext⟩
    simp [regionOf?, hplace, hlastPlace, hpos, h.summed.atIndex?_eq, hbefore, hend]
  · refine ⟨⟨here, last, table.tree.startOf here, table.tree.startOf (last + 1)⟩, ?_, hle,
      by dsimp; omega, rfl, rfl, hstart, by dsimp; omega, hlastStop, hlastNext⟩
    simp [regionOf?, hplace, hlastPlace, hborder, hend]

lemma replaceRegion_eq (h : table.Describes t) {region : Region} {offset removed : Nat}
    (hr : region.Covers table offset removed) (fresh : List LineExtent) :
    (table.replaceRegion region fresh).tree.Summed ∧
      (table.replaceRegion region fresh).extents =
        table.extents.take region.first ++ (fresh ++ table.extents.drop (region.last + 1)) := by
  have hlast := hr.last_lt
  rw [h.lineCount_eq] at hlast
  have hordered := hr.ordered
  have hfront := LineTree.summed_split region.first h.summed
  have hrest := LineTree.summed_split (region.last - region.first + 1) hfront.2
  have hsplit := h.summed.extents_split (k := region.first) (by omega)
  have hlen := congrArg List.length hsplit.2
  rw [LineTree.length_extents, List.length_drop, LineTree.length_extents] at hlen
  have hback := hfront.2.extents_split (k := region.last - region.first + 1) (by omega)
  refine ⟨LineTree.summed_append
    (LineTree.summed_append hfront.1 (NodeSupply.summed_grow (show LineTree.leaf.Summed from trivial) _ _))
    hrest.2, ?_⟩
  change LineTree.extents _ = _
  simp only [replaceRegion, NodeSupply.build, LineTree.extents_append, NodeSupply.extents_grow, hsplit.1,
    hback.2, hsplit.2, LineTree.extents_leaf, List.nil_append, List.drop_drop, List.append_assoc]
  rw [show region.first + (region.last - region.first + 1) = region.last + 1 by omega]
  rfl

lemma scan_region (h : table.Describes t) {region : Region} {offset removed : Nat}
    (hr : region.Covers table offset removed) (inserted : Text) :
    ∃ extents, LineExtent.scan table.breaks (((t.splice offset removed inserted).drop region.start).take
        (region.stop + inserted.length - removed - region.start)) = extents ∧
      LineExtent.scan table.breaks (t.splice offset removed inserted) =
        table.extents.take region.first ++
          ((if region.last + 1 = table.lineCount then extents else extents.dropLast) ++
            table.extents.drop (region.last + 1)) ∧
      (region.last + 1 ≠ table.lineCount → extents.getLast? = some ⟨0, 0⟩) := by
  have hlen : table.lineCount = table.extents.length := by
    rw [h.lineCount_eq, extents, List.length_map]
  have hlast := hr.last_lt
  have hordered := hr.ordered
  let front := table.extents.take region.first
  let old := (table.extents.take (region.last + 1)).drop region.first
  let back := table.extents.drop (region.last + 1)
  have hfrontOld : front ++ old = table.extents.take (region.last + 1) := by
    have htake := List.take_append_drop region.first (table.extents.take (region.last + 1))
    rwa [List.take_take, Nat.min_eq_left (by omega)] at htake
  have hscan : LineExtent.scan table.breaks t = front ++ (old ++ back) := by
    rw [← h.extents_eq, ← List.append_assoc, hfrontOld, List.take_append_drop]
  have hold : old ≠ [] := by
    apply List.ne_nil_of_length_pos
    simp only [old, List.length_drop, List.length_take]
    omega
  have hstart : LineExtent.size front = region.start := hr.start_eq.symm
  have hstop : LineExtent.size front + LineExtent.size old = region.stop := by
    rw [← LineExtent.size_append, hfrontOld, hr.stop_eq]
    rfl
  have hfront : front ≠ [] → LineExtent.size front < offset := by
    intro hne
    rw [hstart]
    apply hr.start_lt
    apply Nat.pos_of_ne_zero
    intro hz
    simp [front, hz] at hne
  have hback : back = [] ↔ region.last + 1 = table.lineCount := by
    simp only [back, List.drop_eq_nil_iff]
    omega
  obtain ⟨r, rfl, hspliced, hempty⟩ := LineExtent.scan_splice hscan hold (hstart ▸ hr.start_le)
    hfront (hstop ▸ hr.le_stop) (fun hne => hstop ▸ hr.lt_stop (mt hback.mpr hne)) inserted
  rw [hstop, hstart] at hspliced hempty
  refine ⟨_, rfl, ?_, fun hne => hempty (mt hback.mp hne)⟩
  rw [hspliced]
  simp only [hback]
  rfl

theorem applyEdit_eq (h : table.Describes t) {σ : Type} [TextSource σ] {source : σ}
    {offset removed : Nat} {inserted : Text} (ho : offset + removed ≤ t.length)
    (hs : TextSource.Reads source (t.splice offset removed inserted)) :
    ∃ region after, table.regionOf? offset removed = some region ∧
      region.Covers table offset removed ∧
      table.applyEdit source offset removed inserted.length = .ok after ∧
      after.breaks = table.breaks ∧ after.Describes (t.splice offset removed inserted) := by
  obtain ⟨region, hregion, hr⟩ := h.regionOf?_eq ho
  obtain ⟨extents, hextents, hscan, -⟩ := h.scan_region hr inserted
  have hfresh : table.rescan source region removed inserted.length =
      if region.last + 1 = table.lineCount then extents else extents.dropLast := by
    rw [rescan, hs.charsFrom_eq, hextents]
  obtain ⟨hsummed, hlines⟩ := h.replaceRegion_eq hr (table.rescan source region removed inserted.length)
  refine ⟨region, table.replaceRegion region (table.rescan source region removed inserted.length),
    hregion, hr, ?_, rfl, hsummed, ?_⟩
  · simp only [applyEdit, hregion, h.textLength_eq, checkRange_eq_ok.mpr ho]
    rfl
  · rw [hlines, hfresh, ← hscan]
    rfl

lemma applyEdit_eq_error (h : table.Describes t) {σ : Type} [TextSource σ] (source : σ)
    {offset removed : Nat} (ho : t.length < offset + removed) (inserted : Nat) :
    table.applyEdit source offset removed inserted =
      .error (.rangeOutOfRange offset removed t.length) := by
  rw [applyEdit, h.textLength_eq, checkRange, if_neg (Nat.not_le.mpr ho)]
  rfl

end Describes

end LineTable

structure TextEdit where
  offset : Nat
  removed : Nat
  inserted : Text

namespace TextEdit

variable (e : TextEdit)

def Fits (t : Text) : Prop := e.offset + e.removed ≤ t.length

instance (t : Text) : Decidable (e.Fits t) := inferInstanceAs (Decidable (_ ≤ _))

def apply (t : Text) : Text := if e.Fits t then t.splice e.offset e.removed e.inserted else t

def follow (state : Text × LineTable) : Text × LineTable :=
  let after := e.apply state.1
  match state.2.applyEdit after e.offset e.removed e.inserted.length with
  | .ok table => (after, table)
  | .error _ => (after, state.2)

lemma follow_describes {t : Text} {table : LineTable} (h : table.Describes t) :
    (e.follow (t, table)).1 = e.apply t ∧ (e.follow (t, table)).2.breaks = table.breaks ∧
      (e.follow (t, table)).2.Describes (e.apply t) := by
  by_cases he : e.Fits t
  · obtain ⟨_, after, _, _, hafter, hbreaks, hd⟩ :=
      h.applyEdit_eq he (TextSource.Reads.refl (t.splice e.offset e.removed e.inserted))
    simp only [follow, apply, if_pos he, hafter]
    exact ⟨trivial, hbreaks, hd⟩
  · simp only [follow, apply, if_neg he, h.applyEdit_eq_error t (Nat.not_le.mp he)]
    exact ⟨trivial, trivial, h⟩

end TextEdit

namespace LineTable

/-- After an edit, and so after any edits, a table that described the text has the lines of a table
built from the edited text. In the rescan of an edit the piece that is left out is empty, and the
length of the region is not cut off at 0. An edit that does not fit is refused. -/
theorem edits_match_rescan {table : LineTable} {t : Text} (h : table.Describes t) :
    (∀ e : TextEdit, e.Fits t → ∀ {σ : Type} [TextSource σ] (source : σ),
      TextSource.Reads source (e.apply t) →
      ∃ region after, table.regionOf? e.offset e.removed = some region ∧
        table.applyEdit source e.offset e.removed e.inserted.length = .ok after ∧
        after.Describes (e.apply t) ∧
        after.lines = (ofText (e.apply t) table.breaks).lines ∧
        region.first ≤ region.last ∧ e.removed ≤ region.stop + e.inserted.length ∧
        region.start ≤ region.stop + e.inserted.length - e.removed ∧
        (region.last + 1 ≠ table.lineCount →
          (LineExtent.scan table.breaks ((TextSource.charsFrom source region.start).take
            (region.stop + e.inserted.length - e.removed - region.start))).getLast? = some ⟨0, 0⟩)) ∧
    (∀ e : TextEdit, ¬ e.Fits t → ∀ {σ : Type} [TextSource σ] (source : σ),
      table.applyEdit source e.offset e.removed e.inserted.length =
        .error (.rangeOutOfRange e.offset e.removed t.length)) ∧
    ∀ edits : List TextEdit,
      let after := edits.foldl (fun state e => e.follow state) (t, table)
      after.1 = edits.foldl (fun t e => e.apply t) t ∧
        after.2.lines = (ofText after.1 table.breaks).lines := by
  refine ⟨?_, ?_, ?_⟩
  · intro e he σ _ source hs
    rw [TextEdit.apply, if_pos he] at hs ⊢
    obtain ⟨region, after, hregion, hr, hafter, hbreaks, hd⟩ := h.applyEdit_eq he hs
    obtain ⟨extents, rfl, -, hempty⟩ := h.scan_region hr e.inserted
    have hstart := hr.start_le
    have hstop := hr.le_stop
    refine ⟨region, after, hregion, hafter, hd, hbreaks ▸ hd.lines_eq, hr.ordered, by omega, by omega, ?_⟩
    rw [hs.charsFrom_eq]
    exact hempty
  · intro e he σ _ source
    exact h.applyEdit_eq_error source (Nat.not_le.mp he) _
  · intro edits
    induction edits generalizing t table with
    | nil => exact ⟨rfl, h.lines_eq⟩
    | cons e edits ih =>
      obtain ⟨htext, hbreaks, hd⟩ := e.follow_describes h
      have hstate : e.follow (t, table) = (e.apply t, (e.follow (t, table)).2) := by rw [← htext]
      have hrest := ih hd
      rw [hbreaks] at hrest
      rw [List.foldl_cons, hstate]
      exact hrest

theorem edits_match_rescan_inside_crlf :
    (ofText ['a', '\r', '\n', 'b'] .standard).Describes ['a', '\r', '\n', 'b'] ∧
      ([⟨2, 0, ['x']⟩, ⟨9, 0, []⟩].foldl (fun state (e : TextEdit) => e.follow state)
        (['a', '\r', '\n', 'b'], ofText ['a', '\r', '\n', 'b'] .standard)).2.lines =
        [⟨1, 0, 1, 1⟩, ⟨2, 2, 1, 1⟩, ⟨3, 4, 1, 0⟩] := by
  have h := describes_ofText ['a', '\r', '\n', 'b'] .standard
  refine ⟨h, ?_⟩
  obtain ⟨htext, hlines⟩ := (edits_match_rescan h).2.2 [⟨2, 0, ['x']⟩, ⟨9, 0, []⟩]
  rw [hlines, htext, (describes_ofText _ _).lines_eq_scan]
  decide

end LineTable

end EditableText
