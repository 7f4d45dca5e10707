import EditableText.Proofs.Text.Occurrence

namespace EditableText

lemma Text.charAt_eq_ok_iff {t : Text} {offset : Nat} {c : Char} :
    t.charAt offset = .ok c ↔ t[offset]? = some c := by
  rw [charAt]
  cases t[offset]? <;> simp

namespace TextSource

variable {σ : Type} [TextSource σ] (source : σ) (start stop : Int)

lemma clampOffset_eq (offset : Int) (textLength : Nat) :
    (clampOffset offset textLength : Int) = min (max offset 0) textLength := by
  rw [clampOffset]
  omega

lemma clampOffset_of_le {offset textLength : Nat} (h : offset ≤ textLength) :
    clampOffset offset textLength = offset := by
  rw [clampOffset, Int.toNat_natCast, Nat.min_eq_left h]

lemma clampOffset_le (offset : Int) (textLength : Nat) : clampOffset offset textLength ≤ textLength :=
  Nat.min_le_right _ _

lemma indexOfAny_clamped (set : List Char)
    (hle : clampOffset start (length source) ≤ clampOffset stop (length source)) :
    indexOfAny source set (clampOffset start (length source))
      (clampOffset stop (length source) - clampOffset start (length source)) =
        .ok (findAnyChar source start stop set) := by
  refine searchIn_eq_ok ?_ (List.findIdx? set.contains)
  rw [Nat.add_sub_of_le hle]
  exact clampOffset_le _ _

lemma indexOfAny_eq_findAnyChar (set : List Char) {first last : Nat} (hle : first ≤ last)
    (hlast : last ≤ length source) :
    indexOfAny source set first (last - first) = .ok (findAnyChar source first last set) := by
  have hfirst := clampOffset_of_le (Nat.le_trans hle hlast)
  have hclamped := indexOfAny_clamped source first last set
  rw [hfirst, clampOffset_of_le hlast] at hclamped
  exact hclamped hle

namespace Reads

variable {source start stop} {t : Text}

lemma lt_length (h : Reads source t) {i : Nat} {c : Char} (hc : charAt source i = .ok c) : i < length source := by
  rw [h.charAt_eq, Text.charAt_eq_ok_iff] at hc
  rw [h.length_eq]
  exact (List.getElem?_eq_some_iff.mp hc).1

lemma image_hits (h : Reads source t) (hit : Char → Bool) {first count : Nat} {between : Nat → Prop}
    (hbetween : ∀ i < length source, between i ↔ first ≤ i ∧ i < first + count) :
    (first + ·) '' {i | ∃ c, ((t.drop first).take count)[i]? = some c ∧ hit c = true} =
      {i | between i ∧ ∃ c, charAt source i = .ok c ∧ hit c = true} := by
  have hread (j : Nat) (c : Char) :
      ((t.drop first).take count)[j]? = some c ↔ j < count ∧ charAt source (first + j) = .ok c := by
    rw [h.charAt_eq, Text.charAt_eq_ok_iff, List.getElem?_take, List.getElem?_drop]
    split <;> simp [*]
  ext i
  constructor
  · rintro ⟨j, ⟨c, hc, hhit⟩, rfl⟩
    obtain ⟨hj, hc⟩ := (hread j c).mp hc
    exact ⟨(hbetween _ (h.lt_length hc)).mpr ⟨Nat.le_add_right _ _, Nat.add_lt_add_left hj _⟩, c, hc, hhit⟩
  · rintro ⟨hi, c, hc, hhit⟩
    obtain ⟨hfirst, hcount⟩ := (hbetween i (h.lt_length hc)).mp hi
    obtain ⟨j, rfl⟩ := Nat.exists_eq_add_of_le hfirst
    exact ⟨j, ⟨c, (hread j c).mpr ⟨Nat.lt_of_add_lt_add_left hcount, hc⟩, hhit⟩, rfl⟩

lemma picks_findAnyChar (h : Reads source t) (start stop : Int) (set : List Char) :
    Picks IsLeast {i : Nat | (max start 0 ≤ i ∧ i < min stop (length source)) ∧
      ∃ c, charAt source i = .ok c ∧ set.contains c = true} (findAnyChar source start stop set) := by
  have hfirst := clampOffset_eq start (length source)
  have hlast := clampOffset_eq stop (length source)
  rw [findAnyChar, h.charsFrom_eq]
  generalize clampOffset start (length source) = first at hfirst
  generalize clampOffset stop (length source) = last at hlast
  rw [← h.image_hits _ (fun i hi => show _ ↔ first ≤ i ∧ i < first + (last - first) by omega)]
  exact (Picks.findIdx? _ _).least_image fun _ _ hle => Nat.add_le_add_left hle first

lemma take_charsBefore (h : Reads source t) {first last : Nat} (hlast : last < length source) :
    (charsBefore source (last + 1)).take (last + 1 - first) =
      ((t.drop first).take (last + 1 - first)).reverse := by
  rw [h.length_eq] at hlast
  rw [h.charsBefore_eq, List.take_reverse, List.length_take, Nat.min_eq_left hlast, List.drop_take]
  rcases Nat.le_total first (last + 1) with hle | hge
  · rw [Nat.sub_sub_self hle]
  · rw [Nat.sub_eq_zero_of_le hge, Nat.sub_zero, Nat.sub_self, List.take_zero, List.take_zero]

lemma map_stepsBack (h : Reads source t) (hit : Char → Bool) {first last : Nat} (hlast : last < length source) :
    (((charsBefore source (last + 1)).take (last + 1 - first)).findIdx? hit).map (last - ·) =
      (lastIdx? hit ((t.drop first).take (last + 1 - first))).map (first + ·) := by
  have hlength : ((t.drop first).take (last + 1 - first)).length = last + 1 - first := by
    rw [List.length_take, List.length_drop, ← h.length_eq]
    omega
  -- the steps back are counted from `last`, the index from `first`
  rw [h.take_charsBefore hlast, lastIdx?, Option.map_map, hlength]
  refine Option.map_congr fun steps hsteps => ?_
  have hlt := (List.findIdx?_eq_some_iff_getElem.mp hsteps).1
  rw [List.length_reverse, hlength] at hlt
  simp only [Function.comp_apply]
  omega

lemma picks_findCharBackward (h : Reads source t) (start stop : Int) (hit : Char → Bool) :
    Picks IsGreatest {i : Nat | (max start 0 ≤ i ∧ i ≤ min stop (length source - 1)) ∧
      ∃ c, charAt source i = .ok c ∧ hit c = true} (findCharBackward source start stop hit) := by
  rw [findCharBackward]
  split
  case isTrue hnone =>
    refine .absent fun i ⟨⟨_, hstop⟩, c, hc, _⟩ => ?_
    have := h.lt_length hc
    omega
  case isFalse hsome =>
    dsimp only
    have hlast := clampOffset_eq stop (length source - 1)
    generalize clampOffset stop (length source - 1) = last at hlast
    rw [h.map_stepsBack hit (by omega),
      ← h.image_hits hit
        (fun i hi => show _ ↔ start.toNat ≤ i ∧ i < start.toNat + (last + 1 - start.toNat) by omega)]
    exact (Picks.lastIdx? hit _).greatest_image fun _ _ hle => Nat.add_le_add_left hle start.toNat

end Reads

/-- Of the characters from the one bound to the other that are in the set, the scan forward finds the first one in
front of the second bound, and the scan backward the last one up to and including that bound; the other scan
backward finds the last character that is not in the set. Between bounds inside the text the scan forward is the
search in a window. -/
theorem scans_find_outermost {source : σ} {t : Text} (h : Reads source t) (set : List Char) :
    (∀ start stop : Int,
      Picks IsLeast {i : Nat | (max start 0 ≤ i ∧ i < min stop (length source)) ∧
        ∃ c, charAt source i = .ok c ∧ c ∈ set} (findAnyChar source start stop set) ∧
      Picks IsGreatest {i : Nat | (max start 0 ≤ i ∧ i ≤ min stop (length source - 1)) ∧
        ∃ c, charAt source i = .ok c ∧ c ∈ set} (findAnyCharBackward source start stop set) ∧
      Picks IsGreatest {i : Nat | (max start 0 ≤ i ∧ i ≤ min stop (length source - 1)) ∧
        ∃ c, charAt source i = .ok c ∧ c ∉ set} (findAnyCharExceptBackward source start stop set)) ∧
    ∀ start stop : Nat, start ≤ stop → stop ≤ length source →
      indexOfAny source set start (stop - start) = .ok (findAnyChar source start stop set) := by
  have hnot (c : Char) : (!set.contains c) = true ↔ c ∉ set := by simp
  refine ⟨fun start stop => ⟨?_, ?_, ?_⟩, fun start stop => indexOfAny_eq_findAnyChar source set⟩
  · simpa only [List.contains_iff_mem] using h.picks_findAnyChar start stop set
  · rw [findAnyCharBackward]
    simpa only [List.contains_iff_mem] using h.picks_findCharBackward start stop set.contains
  · rw [findAnyCharExceptBackward]
    simpa only [hnot] using h.picks_findCharBackward start stop fun c => !set.contains c

theorem scans_find_outermost_across_gap :
    Reads (⟨#['a', 'x', 'b', 'a'], 1, 2⟩ : GapBuffer) ['a', 'b', 'a'] ∧
      findAnyCharBackward (⟨#['a', 'x', 'b', 'a'], 1, 2⟩ : GapBuffer) (-2) 7 ['a'] = some 2 ∧
      Picks IsGreatest {i : Nat | (max (-2) 0 ≤ (i : Int) ∧ (i : Int) ≤ min 7 (3 - 1)) ∧
        ∃ c, charAt (⟨#['a', 'x', 'b', 'a'], 1, 2⟩ : GapBuffer) i = .ok c ∧ c ∈ ['a']} (some 2) ∧
      (1 ≤ 3 ∧ 3 ≤ length (⟨#['a', 'x', 'b', 'a'], 1, 2⟩ : GapBuffer)) ∧
      indexOfAny (⟨#['a', 'x', 'b', 'a'], 1, 2⟩ : GapBuffer) ['a'] 1 2 =
        .ok (findAnyChar (⟨#['a', 'x', 'b', 'a'], 1, 2⟩ : GapBuffer) 1 3 ['a']) := by
  have h : Reads (⟨#['a', 'x', 'b', 'a'], 1, 2⟩ : GapBuffer) ['a', 'b', 'a'] :=
    GapBuffer.WellFormed.reads ⟨by decide, by decide⟩
  obtain ⟨hscan, hwindow⟩ := scans_find_outermost h ['a']
  exact ⟨h, rfl, (hscan (-2) 7).2.1, by decide, hwindow 1 3 (by decide) (by decide)⟩

end TextSource

end EditableText
