import EditableText.Proofs.Lines.Places

namespace EditableText

namespace Location

variable {a b : Location}

lemma isBefore_iff : a.isBefore b = true ↔ a.line < b.line ∨ a.line = b.line ∧ a.column < b.column := by
  simp [isBefore]

lemma isBefore_iff_order : a.isBefore b = true ↔ a.order b = .lt := by
  rw [isBefore_iff, order, Ordering.then_eq_lt, Nat.compare_eq_lt, Nat.compare_eq_eq, Nat.compare_eq_lt]

lemma order_swap (a b : Location) : (a.order b).swap = b.order a := by
  rw [order, order, Ordering.swap_then, Nat.compare_swap, Nat.compare_swap]

lemma order_self (a : Location) : a.order a = .eq := by
  simp [order]

end Location

namespace LineTable

/-- A table that has been told of each edit of its text, with any source of what the edit made of the text. -/
inductive Tracks : LineTable → Text → Prop
  | empty (breaks : LineBreaks) : Tracks (empty breaks) []
  | rebuild {table : LineTable} {t : Text} (h : Tracks table t) (fresh : Text) : Tracks (table.rebuild fresh) fresh
  | edit {table after : LineTable} {t : Text} (h : Tracks table t) {e : TextEdit} (he : e.Fits t) {σ : Type}
    [TextSource σ] {source : σ} (hsource : TextSource.Reads source (e.apply t))
    (hafter : table.applyEdit source e.offset e.removed e.inserted.length = .ok after) : Tracks after (e.apply t)

lemma describes_empty (breaks : LineBreaks) : (empty breaks).Describes [] where
  summed := NodeSupply.summed_grow (show LineTree.leaf.Summed from trivial) NodeSupply.initial [⟨0, 0⟩]
  extents_eq := NodeSupply.extents_grow .leaf NodeSupply.initial [⟨0, 0⟩]

variable {table : LineTable} {t : Text} {line : Line} {offset : Nat}

lemma Tracks.describes (h : table.Tracks t) : table.Describes t := by
  induction h with
  | empty breaks => exact describes_empty breaks
  | @rebuild table t h fresh ih => exact describes_rebuild table fresh
  | @edit table after t h e he σ _ source hsource hafter ih =>
    rw [TextEdit.apply, if_pos he] at hsource ⊢
    obtain ⟨_, found, -, -, hfound, -, hdescribes⟩ := ih.applyEdit_eq he hsource
    obtain rfl := Except.ok.inj (hfound.symm.trans hafter)
    exact hdescribes

namespace Describes

lemma locationOf_eq (h : table.Describes t) (hline : line ∈ table.lines) (hholds : line.Holds offset) :
    table.locationOf offset = .ok ⟨line.number, offset - line.offset + 1⟩ := by
  rw [locationOf, h.lineAt_eq_ok_iff.mpr ⟨hline, hholds⟩]
  rfl

lemma offsetOf_eq (h : table.Describes t) (hline : line ∈ table.lines) (column : Nat) :
    table.offsetOf line.number column = .ok (line.offset + min (max column 1 - 1) line.length) := by
  rw [offsetOf, h.line_eq_of_mem hline]
  rfl

lemma exists_partedAt_iff (h : table.Describes t) (hline : line ∈ table.lines) (hholds : line.Holds offset) :
    (∃ other ∈ table.lines, other.PartedAt t offset) ↔ line.PartedAt t offset := by
  refine ⟨?_, fun hparted => ⟨line, hline, hparted⟩⟩
  rintro ⟨other, hother, hparted⟩
  obtain ⟨front, back, hplaced, -⟩ := h.exists_placed hother
  have hat := h.lineAt_eq_ok_iff.mpr ⟨hother, hplaced.holds_of_partedAt hparted⟩
  obtain rfl := Except.ok.inj (hat.symm.trans (h.lineAt_eq_ok_iff.mpr ⟨hline, hholds⟩))
  exact hparted

lemma offsetOf_location (h : table.Describes t) (hline : line ∈ table.lines) (hholds : line.Holds offset) :
    table.offsetOf line.number (offset - line.offset + 1) = .ok (min offset line.endOffset) := by
  obtain ⟨hstart, -⟩ := hholds
  rw [h.offsetOf_eq hline, Line.endOffset]
  congr 1
  omega

lemma isBefore_of_lt (h : table.Describes t) {a b : Line} {offset' : Nat} (ha : a ∈ table.lines)
    (hb : b ∈ table.lines) (hholds : a.Holds offset) (hholds' : b.Holds offset') (hlt : offset < offset') :
    Location.isBefore ⟨a.number, offset - a.offset + 1⟩ ⟨b.number, offset' - b.offset + 1⟩ = true := by
  rw [Location.isBefore_iff]
  rcases Nat.lt_trichotomy a.number b.number with hbefore | hsame | hbehind
  · exact .inl hbefore
  · have hline := h.line_eq_of_mem ha
    rw [hsame, h.line_eq_of_mem hb] at hline
    obtain rfl := Except.ok.inj hline
    have hstart := hholds.1
    exact .inr ⟨rfl, by dsimp only; omega⟩
  · exact absurd (h.lt_of_number_lt hb ha hholds' hholds hbehind) (Nat.not_lt_of_gt hlt)

lemma exists_order (h : table.Describes t) {a b : Nat} (ha : a ≤ t.length) (hb : b ≤ t.length) :
    ∃ atA atB, table.locationOf a = .ok atA ∧ table.locationOf b = .ok atB ∧ atA.order atB = compare a b := by
  obtain ⟨lineA, hlineA, -, hholdsA⟩ := h.exists_holding ha
  obtain ⟨lineB, hlineB, -, hholdsB⟩ := h.exists_holding hb
  refine ⟨_, _, h.locationOf_eq hlineA hholdsA, h.locationOf_eq hlineB hholdsB, ?_⟩
  rcases Nat.lt_trichotomy a b with hlt | rfl | hgt
  · rw [Nat.compare_eq_lt.mpr hlt]
    exact Location.isBefore_iff_order.mp (h.isBefore_of_lt hlineA hlineB hholdsA hholdsB hlt)
  · have hat := h.lineAt_eq_ok_iff.mpr ⟨hlineA, hholdsA⟩
    obtain rfl := Except.ok.inj (hat.symm.trans (h.lineAt_eq_ok_iff.mpr ⟨hlineB, hholdsB⟩))
    rw [Nat.compare_eq_eq.mpr rfl, Location.order_self]
  · rw [Nat.compare_eq_gt.mpr hgt, ← Location.order_swap,
      Location.isBefore_iff_order.mp (h.isBefore_of_lt hlineB hlineA hholdsB hholdsA hgt)]
    rfl

end Describes

/-- Every offset has a location that leads back to it, but from inside a pair of carriage return and line feed the
way back ends in front of the pair. Locations are in the order of the offsets. A location in an existing line has
an offset that leads back to it, with the column moved into the line. -/
theorem offsets_and_locations_convert (h : table.Tracks t) :
    (∀ offset ≤ t.length, ∃ location, table.locationOf offset = .ok location ∧
      ((∃ line ∈ table.lines, line.PartedAt t offset) →
        table.offsetOf location.line location.column = .ok (offset - 1)) ∧
      ((¬ ∃ line ∈ table.lines, line.PartedAt t offset) →
        table.offsetOf location.line location.column = .ok offset)) ∧
    (∀ a ≤ t.length, ∀ b ≤ t.length, ∃ atA atB, table.locationOf a = .ok atA ∧ table.locationOf b = .ok atB ∧
      (a < b ↔ atA.isBefore atB = true) ∧ atA.order atB = compare a b) ∧
    ∀ number, 0 < number → number ≤ table.lineCount → ∃ line, table.line number = .ok line ∧ ∀ column, ∃ offset,
      table.offsetOf number column = .ok offset ∧
        table.locationOf offset = .ok ⟨number, max 1 (min column (line.length + 1))⟩ := by
  have hd := h.describes
  refine ⟨?_, ?_, ?_⟩
  · intro offset hoffset
    obtain ⟨line, hline, -, hholds⟩ := hd.exists_holding hoffset
    have hback := hd.offsetOf_location hline hholds
    refine ⟨_, hd.locationOf_eq hline hholds, fun hparted => ?_, fun hwhole => ?_⟩
    · obtain ⟨-, rfl⟩ := (hd.exists_partedAt_iff hline hholds).mp hparted
      rwa [Nat.min_eq_right (Nat.le_succ _)] at hback
    · obtain ⟨front, back, hplaced, -⟩ := hd.exists_placed hline
      have hle : offset ≤ line.endOffset := by
        by_contra hbehind
        have hparted := hplaced.partedAt_of_holds hholds (Nat.lt_of_not_le hbehind)
        exact hwhole ⟨line, hline, hparted⟩
      rwa [Nat.min_eq_left hle] at hback
  · intro a ha b hb
    obtain ⟨atA, atB, hatA, hatB, horder⟩ := hd.exists_order ha hb
    refine ⟨atA, atB, hatA, hatB, ?_, horder⟩
    rw [Location.isBefore_iff_order, horder, Nat.compare_eq_lt]
  · intro number hpos hnumber
    obtain ⟨line, hline, rfl, hat⟩ := hd.exists_line hpos hnumber
    refine ⟨line, hat, fun column => ⟨_, hd.offsetOf_eq hline column, ?_⟩⟩
    have hholds : line.Holds (line.offset + min (max column 1 - 1) line.length) := by
      simp only [Line.Holds, Line.endOffset]
      omega
    rw [hd.locationOf_eq hline hholds]
    congr 2
    omega

theorem offsets_and_locations_convert_in_joined_pair :
    ∃ after, (ofText ['a', '\r', 'x', '\n', 'b'] .standard).applyEdit ['a', '\r', '\n', 'b'] 2 1 0 = .ok after ∧
      after.Tracks ['a', '\r', '\n', 'b'] ∧ (∃ line ∈ after.lines, line.PartedAt ['a', '\r', '\n', 'b'] 2) ∧
      (∃ location, after.locationOf 2 = .ok location ∧ after.offsetOf location.line location.column = .ok 1) ∧
      (∃ atA atB, after.locationOf 2 = .ok atA ∧ after.locationOf 3 = .ok atB ∧ atA.isBefore atB = true) ∧
      ∃ offset, after.offsetOf 1 9 = .ok offset ∧ after.locationOf offset = .ok ⟨1, 2⟩ := by
  let after : LineTable :=
    ⟨.node .leaf ⟨0, 2430129893, ⟨3, 2⟩⟩ (.node .leaf ⟨2, 2104363911, ⟨1, 0⟩⟩ .leaf 1 1) 4 2,
      ⟨[1], 3, 10058650540103008393⟩, .standard⟩
  have hafter :
      (ofText ['a', '\r', 'x', '\n', 'b'] .standard).applyEdit ['a', '\r', '\n', 'b'] 2 1 0 = .ok after := by
    decide +kernel
  have htracks : after.Tracks ['a', '\r', '\n', 'b'] :=
    ((Tracks.empty .standard).rebuild ['a', '\r', 'x', '\n', 'b']).edit (e := ⟨2, 1, []⟩) (by decide)
      (TextSource.Reads.refl _) hafter
  have hparted : ∃ line ∈ after.lines, line.PartedAt ['a', '\r', '\n', 'b'] 2 :=
    ⟨⟨1, 0, 1, 2⟩, by decide, rfl, rfl⟩
  obtain ⟨hback, horder, hcolumn⟩ := offsets_and_locations_convert htracks
  obtain ⟨location, hlocation, hinside, -⟩ := hback 2 (by decide)
  obtain ⟨atA, atB, hatA, hatB, hbefore, -⟩ := horder 2 (by decide) 3 (by decide)
  obtain ⟨line, hline, hmoved⟩ := hcolumn 1 (by decide) (by decide)
  obtain rfl : (⟨1, 0, 1, 2⟩ : Line) = line := Except.ok.inj hline
  exact ⟨after, hafter, htracks, hparted, ⟨location, hlocation, hinside hparted⟩,
    ⟨atA, atB, hatA, hatB, hbefore.mp (by decide)⟩, hmoved 9⟩

end LineTable

end EditableText
