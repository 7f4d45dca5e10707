import EditableText.Proofs.Text.Scanning
import Mathlib.Data.Nat.PSub

namespace EditableText.TextSource

variable {σ : Type} [TextSource σ]

/-- The needles are at these offsets, each behind the one before it, and all between `first` and `last`. -/
inductive Embeds (source : σ) (last : Nat) : Nat → List Text → List Nat → Prop
  | nil (first : Nat) : Embeds source last first [] []
  | cons {first offset : Nat} {needle : Text} {rest : List Text} {offsets : List Nat}
    (hoffset : offset ∈ occurrences source needle first last)
    (hrest : Embeds source last (offset + needle.length) rest offsets) :
    Embeds source last first (needle :: rest) (offset :: offsets)

section Checked

variable (source : σ)

/-- `matchFrom`, where each difference is checked, the windows are asked for, and a refused search is reported. -/
def matchFrom? (first last : Nat) : List Text → Option (Except TextError (List Nat))
  | [] => some (.ok [])
  | needle :: rest =>
    if last < first then some (.ok [])
    else do
      let count ← last.psub first
      match ← indexOf? source needle first count with
      | .error e => return .error e
      | .ok none => return .ok []
      | .ok (some offset) =>
        let found ← matchFrom? (offset + needle.length) last rest
        return (offset :: ·) <$> found

def matchTexts? (start stop : Int) (needles : List Text) : Option (Except TextError (List Nat)) :=
  matchFrom? source (clampOffset start (length source)) (clampOffset stop (length source)) needles

end Checked

variable {source : σ} {t : Text} {first first' last : Nat} {needles front : List Text} {others : List Nat}

lemma Embeds.weaken (h : Embeds source last first' needles others) (hle : first ≤ first') :
    Embeds source last first needles others := by
  cases h with
  | nil => exact .nil _
  | cons hoffset hrest => exact .cons ⟨Nat.le_trans hle hoffset.1, hoffset.2⟩ hrest

namespace Reads

lemma exists_indexOf (h : Reads source t) (needle : Text) (hle : first ≤ last) (hlast : last ≤ length source) :
    ∃ found, indexOf source needle first (last - first) = .ok found ∧
      indexOf? source needle first (last - first) = some (.ok found) ∧
      Picks IsLeast (occurrences source needle first last) found := by
  have hsearch := h.searchesExactly needle first (last - first)
  have hstop : first + (last - first) = last := Nat.add_sub_of_le hle
  obtain ⟨found, hfound, hpicks⟩ := hsearch.first (by omega)
  rw [hstop] at hpicks
  exact ⟨found, hfound, hfound ▸ hsearch.windowed, hpicks⟩

lemma embeds_matchFrom (h : Reads source t) (hlast : last ≤ length source) (first : Nat) (needles : List Text) :
    ∃ front, front <+: needles ∧ Embeds source last first front (matchFrom source first last needles) := by
  induction needles generalizing first with
  | nil => exact ⟨[], List.prefix_refl _, .nil first⟩
  | cons needle rest ih =>
    rw [matchFrom]
    split
    case isTrue hle =>
      obtain ⟨found, hfound, -, hpicks⟩ := h.exists_indexOf needle hle hlast
      rw [hfound]
      cases hpicks with
      | absent => exact ⟨[], List.nil_prefix, .nil first⟩
      | @present offset hleast =>
        obtain ⟨front, hfront, hembeds⟩ := ih (offset + needle.length)
        exact ⟨needle :: front, List.cons_prefix_cons.mpr ⟨rfl, hfront⟩, .cons hleast.1 hembeds⟩
    case isFalse => exact ⟨[], List.nil_prefix, .nil first⟩

lemma matchFrom_ahead (h : Reads source t) (hlast : last ≤ length source) (hfront : front <+: needles)
    (hothers : Embeds source last first front others) :
    others.length ≤ (matchFrom source first last needles).length ∧
      ∀ j p q : Nat, (matchFrom source first last needles)[j]? = some p → others[j]? = some q → p ≤ q := by
  induction needles generalizing first front others with
  | nil =>
    obtain rfl := List.prefix_nil.mp hfront
    cases hothers
    exact ⟨Nat.zero_le _, by simp⟩
  | cons needle rest ih =>
    cases hothers with
    | nil => exact ⟨Nat.zero_le _, by simp⟩
    | @cons _ other _ front others hoffset hothers =>
      obtain ⟨rfl, hrest⟩ := List.cons_prefix_cons.mp hfront
      have hle : first ≤ last := by
        have := hoffset.1
        have := hoffset.2.1
        omega
      obtain ⟨found, hfound, -, hpicks⟩ := h.exists_indexOf _ hle hlast
      cases hpicks with
      | absent hnone => exact absurd hoffset (hnone other)
      | @present offset hleast =>
        -- from the earlier offset on, the other offsets of the rest are still to be had
        have hfirst : offset ≤ other := hleast.2 hoffset
        obtain ⟨hlength, hahead⟩ := ih hrest (hothers.weaken (Nat.add_le_add_right hfirst _))
        rw [matchFrom, if_pos hle, hfound]
        refine ⟨Nat.succ_le_succ hlength, fun j p q hp hq => ?_⟩
        cases j with
        | zero =>
          obtain rfl := Option.some.inj hp
          obtain rfl := Option.some.inj hq
          exact hfirst
        | succ j => exact hahead j p q hp hq

lemma matchFrom?_eq (h : Reads source t) (hlast : last ≤ length source) (first : Nat) (needles : List Text) :
    matchFrom? source first last needles = some (.ok (matchFrom source first last needles)) := by
  induction needles generalizing first with
  | nil => rfl
  | cons needle rest ih =>
    rw [matchFrom?, matchFrom]
    rcases Nat.lt_or_ge last first with hlt | hle
    · rw [if_pos hlt, if_neg (Nat.not_le.mpr hlt)]
    · obtain ⟨found, hfound, hwindows, -⟩ := h.exists_indexOf needle hle hlast
      rw [if_neg (Nat.not_lt.mpr hle), if_pos hle, Nat.psub_eq_sub hle, hfound]
      simp only [Option.bind_eq_bind, Option.bind_some, hwindows]
      cases found with
      | none => rfl
      | some offset =>
        simp only [ih, Option.bind_some]
        rfl

end Reads

/-- The needles are found one behind the other from the first on, as many as can be, each as far to the front as
it can be with those before it. No search on the way is refused, no difference is cut off, and no window is empty.
-/
theorem matching_goes_furthest (h : Reads source t) (start stop : Int) (needles : List Text) :
    let first := (min (max start 0) (length source)).toNat
    let last := (min (max stop 0) (length source)).toNat
    (∃ front, front <+: needles ∧ Embeds source last first front (matchTexts source start stop needles)) ∧
    (∀ front others, front <+: needles → Embeds source last first front others →
      others.length ≤ (matchTexts source start stop needles).length ∧
        ∀ j p q : Nat, (matchTexts source start stop needles)[j]? = some p → others[j]? = some q → p ≤ q) ∧
    matchTexts? source start stop needles = some (.ok (matchTexts source start stop needles)) := by
  have hlast := clampOffset_le stop (length source)
  dsimp only
  rw [matchTexts?, matchTexts, ← clampOffset_eq, ← clampOffset_eq, Int.toNat_natCast, Int.toNat_natCast]
  exact ⟨h.embeds_matchFrom hlast _ needles, fun _ _ hfront hothers => h.matchFrom_ahead hlast hfront hothers,
    h.matchFrom?_eq hlast _ needles⟩

theorem matching_goes_furthest_across_gap :
    Reads (⟨#['a', 'a', 'x', 'a', 'b'], 2, 3⟩ : GapBuffer) ['a', 'a', 'a', 'b'] ∧
      matchTexts (⟨#['a', 'a', 'x', 'a', 'b'], 2, 3⟩ : GapBuffer) (-3) 9 [['a', 'a'], [], ['a', 'b'], ['b']] =
        [0, 2, 2] ∧
      ([['a', 'a'], []] <+: [['a', 'a'], [], ['a', 'b'], ['b']] ∧
        Embeds (⟨#['a', 'a', 'x', 'a', 'b'], 2, 3⟩ : GapBuffer) 4 0 [['a', 'a'], []] [1, 4]) ∧
      ([1, 4].length ≤ [0, 2, 2].length ∧ 0 ≤ 1 ∧ 2 ≤ 4) ∧
      matchTexts? (⟨#['a', 'a', 'x', 'a', 'b'], 2, 3⟩ : GapBuffer) (-3) 9 [['a', 'a'], [], ['a', 'b'], ['b']] =
        some (.ok [0, 2, 2]) := by
  have h : Reads (⟨#['a', 'a', 'x', 'a', 'b'], 2, 3⟩ : GapBuffer) ['a', 'a', 'a', 'b'] :=
    GapBuffer.WellFormed.reads ⟨by decide, by decide⟩
  have hfront : [['a', 'a'], []] <+: [['a', 'a'], [], ['a', 'b'], ['b']] := ⟨[['a', 'b'], ['b']], rfl⟩
  have hembeds : Embeds (⟨#['a', 'a', 'x', 'a', 'b'], 2, 3⟩ : GapBuffer) 4 0 [['a', 'a'], []] [1, 4] :=
    .cons ⟨by decide, by decide, rfl⟩ (.cons ⟨by decide, by decide, rfl⟩ (.nil _))
  obtain ⟨-, hahead, hchecked⟩ := matching_goes_furthest h (-3) 9 [['a', 'a'], [], ['a', 'b'], ['b']]
  obtain ⟨hlength, hoffsets⟩ := hahead _ _ hfront hembeds
  exact ⟨h, rfl, ⟨hfront, hembeds⟩, ⟨hlength, hoffsets 0 0 1 rfl rfl, hoffsets 1 2 4 rfl rfl⟩, hchecked⟩

section Characters

variable (source : σ) (start stop : Int)

lemma indexOf_singleton (c : Char) (first count : Nat) :
    indexOf source [c] first count = indexOfAny source [c] first count := by
  simp only [indexOf, indexOfAny, Text.firstIndex_singleton]

lemma findAnyChar_eq_none {set : List Char}
    (h : clampOffset stop (length source) ≤ clampOffset start (length source)) :
    findAnyChar source start stop set = none := by
  rw [findAnyChar, Nat.sub_eq_zero_of_le h]
  rfl

lemma lt_of_findAnyChar {set : List Char} {offset : Nat} (h : findAnyChar source start stop set = some offset) :
    offset < clampOffset stop (length source) := by
  obtain ⟨i, hi, rfl⟩ := Option.map_eq_some_iff.mp h
  have hlt := (List.findIdx?_eq_some_iff_getElem.mp hi).1
  rw [List.length_take] at hlt
  omega

lemma matchTexts_cons_singleton (c : Char) (rest : List Text) :
    matchTexts source start stop ([c] :: rest) =
      match findAnyChar source start stop [c] with
      | some offset => offset :: matchTexts source (offset + 1) stop rest
      | none => [] := by
  rw [matchTexts, matchFrom]
  split
  case isTrue hle =>
    rw [indexOf_singleton, indexOfAny_clamped source start stop [c] hle]
    cases hfind : findAnyChar source start stop [c] with
    | none => rfl
    | some offset =>
      have hoffset : offset + 1 ≤ length source :=
        Nat.le_trans (lt_of_findAnyChar source start stop hfind) (clampOffset_le _ _)
      have hnext := clampOffset_of_le hoffset
      rw [Int.natCast_succ] at hnext
      simp only [matchTexts, hnext, List.length_singleton]
  case isFalse hlt => rw [findAnyChar_eq_none source start stop (Nat.le_of_not_le hlt)]

/-- Characters are found one behind the other where needles of one character are, whatever the bounds. -/
theorem char_sequence_agrees_with_matching (chars : List Char) :
    findCharSequence source start stop chars = matchTexts source start stop (chars.map fun c => [c]) := by
  induction chars generalizing start with
  | nil => rfl
  | cons c rest ih =>
    rw [findCharSequence, List.map_cons, matchTexts_cons_singleton]
    cases findAnyChar source start stop [c] with
    | none => rfl
    | some offset => exact congrArg (offset :: ·) (ih (offset + 1))

end Characters

end EditableText.TextSource
