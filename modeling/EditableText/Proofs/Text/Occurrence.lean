import EditableText.Proofs.Storage
import Mathlib.Order.Bounds.Image

namespace EditableText

/-- What is found of some places where the outermost is sought: that one, and nothing just when there are no
places. -/
inductive Picks (outermost : Set Nat → Nat → Prop) (places : Set Nat) : Option Nat → Prop
  | absent (h : ∀ i, i ∉ places) : Picks outermost places none
  | present {i : Nat} (h : outermost places i) : Picks outermost places (some i)

def lastIdx? {α : Type} (p : α → Bool) (xs : List α) : Option Nat :=
  (xs.reverse.findIdx? p).map (xs.length - 1 - ·)

namespace Picks

variable {outermost outermost' : Set Nat → Nat → Prop} {places : Set Nat} {found found' : Option Nat}
    {f : Nat → Nat}

lemma image (h : Picks outermost places found)
    (houtermost : ∀ i, outermost places i → outermost' (f '' places) (f i)) :
    Picks outermost' (f '' places) (found.map f) := by
  cases h with
  | absent hnone => exact .absent fun _ ⟨j, hj, _⟩ => hnone j hj
  | present hsome => exact .present (houtermost _ hsome)

lemma least_image (h : Picks IsLeast places found) (hf : Monotone f) :
    Picks IsLeast (f '' places) (found.map f) :=
  h.image fun _ hi => hf.map_isLeast hi

lemma greatest_image (h : Picks IsGreatest places found) (hf : Monotone f) :
    Picks IsGreatest (f '' places) (found.map f) :=
  h.image fun _ hi => hf.map_isGreatest hi

lemma unique (h : Picks outermost places found) (h' : Picks outermost places found')
    (hmem : ∀ i, outermost places i → i ∈ places)
    (hunique : ∀ i j, outermost places i → outermost places j → i = j) : found = found' := by
  cases h with
  | absent hnone =>
    cases h' with
    | absent => rfl
    | present hi => exact absurd (hmem _ hi) (hnone _)
  | present hi =>
    cases h' with
    | absent hnone => exact absurd (hmem _ hi) (hnone _)
    | present hj => rw [hunique _ _ hi hj]

section Index

variable {α : Type} (p : α → Bool) (xs : List α)

lemma findIdx? : Picks IsLeast {i | ∃ a, xs[i]? = some a ∧ p a = true} (xs.findIdx? p) := by
  cases hfind : xs.findIdx? p with
  | none =>
    refine .absent fun i ⟨a, ha, hp⟩ => ?_
    have hnot := List.findIdx?_eq_none_iff.mp hfind a (List.mem_of_getElem? ha)
    exact Bool.noConfusion (hp.symm.trans hnot)
  | some i =>
    obtain ⟨hi, hp, hbefore⟩ := List.findIdx?_eq_some_iff_getElem.mp hfind
    refine .present ⟨⟨xs[i], List.getElem?_eq_getElem hi, hp⟩, fun j ⟨a, ha, hpa⟩ => ?_⟩
    obtain ⟨hj, rfl⟩ := List.getElem?_eq_some_iff.mp ha
    exact Nat.le_of_not_lt fun hlt => hbefore j hlt hpa

lemma lastIdx? : Picks IsGreatest {i | ∃ a, xs[i]? = some a ∧ p a = true} (lastIdx? p xs) := by
  -- counted from the other end, the least index is the greatest
  have hmirror : (xs.length - 1 - ·) '' {i | ∃ a, xs.reverse[i]? = some a ∧ p a = true} =
      {i | ∃ a, xs[i]? = some a ∧ p a = true} := by
    ext i
    constructor
    · rintro ⟨j, ⟨a, ha, hp⟩, rfl⟩
      have hj : j < xs.length := by
        rw [← List.length_reverse]
        exact (List.getElem?_eq_some_iff.mp ha).1
      exact ⟨a, (List.getElem?_reverse hj).symm.trans ha, hp⟩
    · rintro ⟨a, ha, hp⟩
      have hi := (List.getElem?_eq_some_iff.mp ha).1
      have hback : xs.length - 1 - (xs.length - 1 - i) = i := by omega
      refine ⟨xs.length - 1 - i, ⟨a, ?_, hp⟩, hback⟩
      rw [List.getElem?_reverse (by omega), hback, ha]
  have hanti : Antitone (xs.length - 1 - · : Nat → Nat) := fun _ _ hle => Nat.sub_le_sub_left hle _
  rw [← hmirror]
  exact (findIdx? p xs.reverse).image fun _ hi => hanti.map_isLeast hi

end Index

end Picks

namespace Text

variable {needle t : Text} {c : Char}

def places (needle t : Text) : Set Nat := {i | i ≤ t.length ∧ needle <+: t.drop i}

lemma zero_mem_places : 0 ∈ places needle t ↔ needle <+: t := by
  simp [places]

lemma mem_places_nil {i : Nat} : i ∈ places needle [] ↔ i = 0 ∧ needle = [] := by
  simp [places]

lemma succ_mem_places_cons {i : Nat} : i + 1 ∈ places needle (c :: t) ↔ i ∈ places needle t := by
  simp [places]

lemma mem_places_iff {i : Nat} :
    i ∈ places needle t ↔ i + needle.length ≤ t.length ∧ (t.drop i).take needle.length = needle := by
  rw [places, Set.mem_ofPred_eq, List.prefix_iff_eq_take]
  constructor
  · rintro ⟨hi, hread⟩
    have hlength := congrArg List.length hread
    rw [List.length_take, List.length_drop] at hlength
    exact ⟨by omega, hread.symm⟩
  · rintro ⟨hi, hread⟩
    exact ⟨by omega, hread.symm⟩

lemma slice_eq_ok_iff {offset count : Nat} {u : Text} :
    t.slice offset count = .ok u ↔ offset + count ≤ t.length ∧ (t.drop offset).take count = u := by
  rw [slice]
  by_cases hrange : offset + count ≤ t.length
  · rw [checkRange_eq_ok.mpr hrange]
    simp [hrange, bind, Except.bind, pure, Except.pure]
  · rw [checkRange, if_neg hrange]
    simp [hrange, bind, Except.bind]

lemma picks_nil {outermost : Set Nat → Nat → Prop} (h : needle = [] → outermost (places needle []) 0) :
    Picks outermost (places needle []) (if needle.isEmpty then some 0 else none) := by
  split
  case isTrue hempty => exact .present (h (List.isEmpty_iff.mp hempty))
  case isFalse hsome => exact .absent fun i hi => hsome (List.isEmpty_iff.mpr (mem_places_nil.mp hi).2)

lemma picks_firstIndex (needle t : Text) : Picks IsLeast (places needle t) (firstIndex needle t) := by
  induction t with
  | nil => exact picks_nil fun hneedle => ⟨mem_places_nil.mpr ⟨rfl, hneedle⟩, fun _ _ => Nat.zero_le _⟩
  | cons c rest ih =>
    rw [firstIndex]
    split
    case isTrue hhere =>
      exact .present ⟨zero_mem_places.mpr (List.isPrefixOf_iff_prefix.mp hhere), fun _ _ => Nat.zero_le _⟩
    case isFalse hnot =>
      have hplaces : places needle (c :: rest) = (· + 1) '' places needle rest := by
        ext i
        cases i with
        | zero => simpa [zero_mem_places] using hnot
        | succ i => simp [succ_mem_places_cons]
      rw [hplaces]
      exact ih.least_image fun _ _ => Nat.succ_le_succ

lemma picks_lastIndex (needle t : Text) : Picks IsGreatest (places needle t) (lastIndex needle t) := by
  induction t with
  | nil =>
    refine picks_nil fun hneedle => ⟨mem_places_nil.mpr ⟨rfl, hneedle⟩, fun i hi => ?_⟩
    exact Nat.le_of_eq (mem_places_nil.mp hi).1
  | cons c rest ih =>
    rw [lastIndex]
    generalize lastIndex needle rest = found at ih
    cases ih with
    | @present i hlast =>
      refine .present ⟨succ_mem_places_cons.mpr hlast.1, fun j hj => ?_⟩
      cases j with
      | zero => exact Nat.zero_le _
      | succ j => exact Nat.succ_le_succ (hlast.2 (succ_mem_places_cons.mp hj))
    | absent hnone =>
      -- only the front of the text is left as a place
      dsimp only
      split
      case isTrue hhere =>
        refine .present ⟨zero_mem_places.mpr (List.isPrefixOf_iff_prefix.mp hhere), fun j hj => ?_⟩
        cases j with
        | zero => exact Nat.le_refl _
        | succ j => exact absurd (succ_mem_places_cons.mp hj) (hnone j)
      case isFalse hnot =>
        refine .absent fun j hj => ?_
        cases j with
        | zero => exact hnot (List.isPrefixOf_iff_prefix.mpr (zero_mem_places.mp hj))
        | succ j => exact hnone j (succ_mem_places_cons.mp hj)

lemma firstIndex_nil (t : Text) : firstIndex [] t = some 0 := by
  cases t <;> rfl

lemma lastIndex_nil (t : Text) : lastIndex [] t = some t.length := by
  induction t with
  | nil => rfl
  | cons c rest ih => rw [lastIndex, ih, List.length_cons]

lemma firstIndex_singleton (c : Char) (t : Text) : firstIndex [c] t = t.findIdx? [c].contains := by
  induction t with
  | nil => rfl
  | cons d rest ih =>
    have hsame : [c].isPrefixOf (d :: rest) = [c].contains d := by
      rw [Bool.eq_iff_iff]
      simpa using eq_comm
    rw [firstIndex, List.findIdx?_cons, ih, hsame]

def windows? (size : Nat) (t : Text) : Option (List Text) :=
  if size = 0 then none else some ((List.range (t.length + 1 - size)).map fun i => (t.drop i).take size)

lemma exists_windows (hneedle : needle ≠ []) (t : Text) : ∃ windows, windows? needle.length t = some windows ∧
    {i | ∃ u, windows[i]? = some u ∧ (u == needle) = true} = places needle t := by
  refine ⟨_, if_neg (mt List.length_eq_zero_iff.mp hneedle), ?_⟩
  ext i
  have hlength : 0 < needle.length := List.length_pos_iff.mpr hneedle
  rw [mem_places_iff, Set.mem_ofPred_eq]
  constructor
  · rintro ⟨u, hu, hsame⟩
    obtain ⟨j, hj, rfl⟩ := Option.map_eq_some_iff.mp (List.getElem?_map.symm.trans hu)
    obtain ⟨hi, rfl⟩ := List.getElem?_eq_some_iff.mp hj
    rw [List.length_range] at hi
    rw [List.getElem_range] at hsame
    exact ⟨by omega, eq_of_beq hsame⟩
  · rintro ⟨hi, hread⟩
    refine ⟨needle, ?_, beq_self_eq_true _⟩
    rw [List.getElem?_map, List.getElem?_range (by omega), Option.map_some, hread]

end Text

lemma Snapshot.reads (s : Snapshot) : TextSource.Reads s s.content :=
  ⟨rfl, fun _ => rfl, fun _ _ => rfl, fun _ => rfl, fun _ => rfl⟩

namespace TextSource

variable {σ : Type} [TextSource σ] {source : σ} {needle t : Text} {start count : Nat}

section

variable (source needle start count)

def searchIn (find : Text → Option Nat) : Except TextError (Option Nat) := do
  checkRange start count (length source)
  return (find ((charsFrom source start).take count)).map (start + ·)

lemma indexOf_eq_searchIn :
    indexOf source needle start count = searchIn source start count (Text.firstIndex needle) :=
  rfl

lemma lastIndexOf_eq_searchIn :
    lastIndexOf source needle start count = searchIn source start count (Text.lastIndex needle) := rfl

/-- The needle is sought among the windows of its length. A needle of no characters is at `empty`. -/
def searchWindows? (empty : Nat) (find : (Text → Bool) → List Text → Option Nat) :
    Option (Except TextError (Option Nat)) :=
  match checkRange start count (length source) with
  | .error e => some (.error e)
  | .ok () =>
    if needle = [] then some (.ok (some empty))
    else do
      let windows ← Text.windows? needle.length ((charsFrom source start).take count)
      return .ok ((find (· == needle) windows).map (start + ·))

def indexOf? : Option (Except TextError (Option Nat)) :=
  searchWindows? source needle start count start List.findIdx?

def lastIndexOf? : Option (Except TextError (Option Nat)) :=
  searchWindows? source needle start count (start + count) lastIdx?

def occurrences (first last : Nat) : Set Nat :=
  {i | first ≤ i ∧ i + needle.length ≤ last ∧ slice source i needle.length = .ok needle}

structure SearchesExactly : Prop where
  refused (e : TextError) : indexOf source needle start count = .error e ↔
    length source < start + count ∧ e = .rangeOutOfRange start count (length source)
  lastRefused (e : TextError) : lastIndexOf source needle start count = .error e ↔
    length source < start + count ∧ e = .rangeOutOfRange start count (length source)
  first (hrange : start + count ≤ length source) : ∃ found, indexOf source needle start count = .ok found ∧
    Picks IsLeast (occurrences source needle start (start + count)) found
  last (hrange : start + count ≤ length source) : ∃ found, lastIndexOf source needle start count = .ok found ∧
    Picks IsGreatest (occurrences source needle start (start + count)) found
  windowed : indexOf? source needle start count = some (indexOf source needle start count)
  lastWindowed : lastIndexOf? source needle start count = some (lastIndexOf source needle start count)

end

lemma searchIn_eq_ok (hrange : start + count ≤ length source) (find : Text → Option Nat) :
    searchIn source start count find = .ok ((find ((charsFrom source start).take count)).map (start + ·)) := by
  rw [searchIn, checkRange_eq_ok.mpr hrange]
  rfl

lemma searchIn_eq_error (hrange : length source < start + count) (find : Text → Option Nat) :
    searchIn source start count find = .error (.rangeOutOfRange start count (length source)) := by
  rw [searchIn, checkRange, if_neg (Nat.not_le.mpr hrange)]
  rfl

lemma searchIn_eq_error_iff (find : Text → Option Nat) (e : TextError) :
    searchIn source start count find = .error e ↔
      length source < start + count ∧ e = .rangeOutOfRange start count (length source) := by
  rcases Nat.lt_or_ge (length source) (start + count) with hgt | hrange
  · rw [searchIn_eq_error hgt, Except.error.injEq]
    exact ⟨fun he => ⟨hgt, he.symm⟩, fun he => he.2.symm⟩
  · rw [searchIn_eq_ok hrange]
    exact iff_of_false (fun he => by cases he) fun he => Nat.not_lt.mpr hrange he.1

lemma searchWindows?_eq (outermost : Set Nat → Nat → Prop) {empty : Nat} {find : Text → Option Nat}
    {findWindow : (Text → Bool) → List Text → Option Nat}
    (hmem : ∀ places i, outermost places i → i ∈ places)
    (hunique : ∀ places i j, outermost places i → outermost places j → i = j)
    (hfind : ∀ t, Picks outermost (Text.places needle t) (find t))
    (hwindow : ∀ p xs, Picks outermost {i | ∃ u, xs[i]? = some u ∧ p u = true} (findWindow p xs))
    (hempty : start + count ≤ length source → needle = [] →
      (find ((charsFrom source start).take count)).map (start + ·) = some empty) :
    searchWindows? source needle start count empty findWindow = some (searchIn source start count find) := by
  rw [searchWindows?]
  rcases Nat.lt_or_ge (length source) (start + count) with hgt | hrange
  · rw [searchIn_eq_error hgt, checkRange, if_neg (Nat.not_le.mpr hgt)]
  · rw [searchIn_eq_ok hrange, checkRange_eq_ok.mpr hrange]
    dsimp only
    split
    case isTrue hnil => rw [hempty hrange hnil]
    case isFalse hneedle =>
      obtain ⟨windows, hwindows, hplaces⟩ := Text.exists_windows hneedle ((charsFrom source start).take count)
      have hsame := (hplaces ▸ hwindow (· == needle) windows).unique (hfind _) (hmem _) (hunique _)
      rw [hwindows, ← hsame]
      rfl

namespace Reads

lemma length_window (h : Reads source t) (hrange : start + count ≤ length source) :
    ((charsFrom source start).take count).length = count := by
  rw [h.charsFrom_eq, Text.length_take_drop (h.length_eq ▸ hrange)]

lemma image_places (h : Reads source t) (needle : Text) (hrange : start + count ≤ length source) :
    (start + ·) '' Text.places needle ((charsFrom source start).take count) =
      occurrences source needle start (start + count) := by
  have hlength := h.length_window hrange
  have hoccurs (j : Nat) : j ∈ Text.places needle ((charsFrom source start).take count) ↔
      start + j + needle.length ≤ start + count ∧ slice source (start + j) needle.length = .ok needle := by
    rw [Text.mem_places_iff, hlength, h.charsFrom_eq, h.slice_eq, Text.slice_eq_ok_iff, ← h.length_eq,
      List.drop_take, List.drop_drop, List.take_take]
    constructor
    · rintro ⟨hj, hread⟩
      rw [Nat.min_eq_left (by omega)] at hread
      exact ⟨by omega, by omega, hread⟩
    · rintro ⟨hj, -, hread⟩
      rw [Nat.min_eq_left (by omega)]
      exact ⟨by omega, hread⟩
  ext i
  constructor
  · rintro ⟨j, hj, rfl⟩
    exact ⟨Nat.le_add_right _ _, (hoccurs j).mp hj⟩
  · rintro ⟨hstart, hoccur⟩
    obtain ⟨j, rfl⟩ := Nat.exists_eq_add_of_le hstart
    exact ⟨j, (hoccurs j).mpr hoccur, rfl⟩

lemma searchesExactly (h : Reads source t) (needle : Text) (start count : Nat) :
    SearchesExactly source needle start count where
  refused e := by rw [indexOf_eq_searchIn, searchIn_eq_error_iff]
  lastRefused e := by rw [lastIndexOf_eq_searchIn, searchIn_eq_error_iff]
  first hrange := by
    rw [indexOf_eq_searchIn, searchIn_eq_ok hrange, ← h.image_places needle hrange]
    refine ⟨_, rfl, ?_⟩
    exact (Text.picks_firstIndex needle _).least_image fun _ _ hle => Nat.add_le_add_left hle start
  last hrange := by
    rw [lastIndexOf_eq_searchIn, searchIn_eq_ok hrange, ← h.image_places needle hrange]
    refine ⟨_, rfl, ?_⟩
    exact (Text.picks_lastIndex needle _).greatest_image fun _ _ hle => Nat.add_le_add_left hle start
  windowed := by
    rw [indexOf?, indexOf_eq_searchIn]
    refine searchWindows?_eq IsLeast (fun _ _ hi => hi.1) (fun _ _ _ => IsLeast.unique)
      (Text.picks_firstIndex needle) Picks.findIdx? fun _ hnil => ?_
    rw [hnil, Text.firstIndex_nil]
    rfl
  lastWindowed := by
    rw [lastIndexOf?, lastIndexOf_eq_searchIn]
    refine searchWindows?_eq IsGreatest (fun _ _ hi => hi.1) (fun _ _ _ => IsGreatest.unique)
      (Text.picks_lastIndex needle) Picks.lastIdx? fun hrange hnil => ?_
    rw [hnil, Text.lastIndex_nil, h.length_window hrange]
    rfl

end Reads

/-- However its characters are kept, a source refuses a window that goes beyond its end and no other. In each other
window the first and the last occurrence of the needle are found, and nothing just if there is none; to look at all
windows of its length, but for an empty needle, comes to the same. -/
theorem substring_search_is_exact (needle : Text) (start count : Nat) :
    (∀ t : Text, SearchesExactly t needle start count) ∧
    (∀ t : Text, SearchesExactly (Storage.rope t) needle start count) ∧
    (∀ b : GapBuffer, b.WellFormed →
      SearchesExactly b needle start count ∧ SearchesExactly (Storage.gap b) needle start count) ∧
    ∀ s : Snapshot, SearchesExactly s needle start count := by
  refine ⟨fun t => (Reads.refl t).searchesExactly _ _ _, fun t => ?_, fun b hb => ?_, fun s => ?_⟩
  · have hrope : (Storage.rope t).WellFormed := trivial
    exact hrope.reads.searchesExactly _ _ _
  · have hgap : (Storage.gap b).WellFormed := hb
    exact ⟨hb.reads.searchesExactly _ _ _, hgap.reads.searchesExactly _ _ _⟩
  · exact s.reads.searchesExactly _ _ _

theorem substring_search_is_exact_across_gap :
    (⟨#['a', 'a', 'x', 'a', 'b'], 2, 3⟩ : GapBuffer).WellFormed ∧
      SearchesExactly (⟨#['a', 'a', 'x', 'a', 'b'], 2, 3⟩ : GapBuffer) ['a', 'a'] 0 4 ∧
      indexOf (⟨#['a', 'a', 'x', 'a', 'b'], 2, 3⟩ : GapBuffer) ['a', 'a'] 0 4 = .ok (some 0) ∧
      lastIndexOf (⟨#['a', 'a', 'x', 'a', 'b'], 2, 3⟩ : GapBuffer) ['a', 'a'] 0 4 = .ok (some 1) := by
  have hb : (⟨#['a', 'a', 'x', 'a', 'b'], 2, 3⟩ : GapBuffer).WellFormed := ⟨by decide, by decide⟩
  exact ⟨hb, ((substring_search_is_exact ['a', 'a'] 0 4).2.2.1 _ hb).1, rfl, rfl⟩

end TextSource

end EditableText
