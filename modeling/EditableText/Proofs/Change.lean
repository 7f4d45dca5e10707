import EditableText.Change
import Mathlib.Tactic.Common

namespace EditableText

/-- Every way to move positions belongs to the replacement that it is made for. Only what is left over where
characters replace characters needs an offset within the replacement. -/
lemma ChangeMapping.fits_offsetMap (mapping : ChangeMapping) {offset removal insertion : Nat}
    (hword : mapping = .characterReplace → 0 < removal → 0 < insertion → removal ≠ insertion →
      offset + min removal insertion < UInt64.size) :
    OffsetMap.fits (mapping.offsetMap offset removal insertion) offset removal insertion = true := by
  have hsingle : ∀ keeps before,
      OffsetMap.fits [⟨offset, removal, insertion, keeps, before⟩] offset removal insertion = true := by
    intro keeps before
    simp [OffsetMap.fits, OffsetMap.regionEnd?, OffsetStep.removalEnd, Word.add_sub_add]
  cases mapping with
  | normal | keepAnchorBeforeInsertion => exact hsingle _ _
  | removeAndInsert =>
    rw [offsetMap]
    split
    case isTrue => exact hsingle _ _
    case isFalse =>
      simp [OffsetMap.fits, OffsetMap.regionEnd?, OffsetStep.plain, OffsetStep.removalEnd, Word.add_sub_add]
  | characterReplace =>
    rw [offsetMap]
    split
    case isTrue => exact hsingle _ _
    case isFalse hboth =>
      rw [replaceCharacters]
      split
      case isTrue hmore =>
        have hin := hword rfl (by omega) (by omega) (by omega)
        simp [OffsetMap.fits, OffsetMap.regionEnd?, OffsetStep.plain, OffsetStep.removalEnd, Word.add, Word.sub,
          UInt64.size] at hin ⊢
        omega
      case isFalse =>
        split
        case isTrue hless =>
          have hin := hword rfl (by omega) (by omega) (by omega)
          simp [OffsetMap.fits, OffsetMap.regionEnd?, OffsetStep.removalEnd, Word.add, Word.sub,
            UInt64.size] at hin ⊢
          omega
        case isFalse => simp [OffsetMap.fits, Nat.le_antisymm (Nat.not_lt.mp ‹_›) (Nat.not_lt.mp ‹_›)]

lemma OffsetMap.le_of_fits {step : OffsetStep} {rest : OffsetMap} {offset removal insertion : Nat}
    (h : OffsetMap.fits (step :: rest) offset removal insertion = true) : offset ≤ step.offset := by
  by_contra hbefore
  rw [fits, List.isEmpty_cons, if_neg Bool.false_ne_true, regionEnd?, if_neg fun hinside => hbefore hinside.1] at h
  cases h

lemma ChangeMapping.fits_offsetMap_iff (mapping : ChangeMapping) {offset removal insertion : Nat}
    (hoffset : offset < UInt64.size) (hremoval : removal < UInt64.size) (hinsertion : insertion < UInt64.size) :
    OffsetMap.fits (mapping.offsetMap offset removal insertion) offset removal insertion = true ↔
      (mapping = .characterReplace → 0 < removal → 0 < insertion → removal ≠ insertion →
        offset + min removal insertion < UInt64.size) := by
  refine ⟨?_, mapping.fits_offsetMap⟩
  rintro hfits rfl hsome hsome' hne
  -- what is left over would begin behind a sum that has wrapped around, so before the offset
  by_contra hover
  have hwrap : Word.add offset (min removal insertion) < offset :=
    Word.add_lt_of_size_le hoffset (by omega) (Nat.not_lt.mp hover)
  rw [offsetMap, if_neg (by omega), replaceCharacters] at hfits
  rcases Nat.lt_or_gt_of_ne hne with hmore | hless
  · rw [if_pos hmore] at hfits
    rw [Nat.min_eq_left (Nat.le_of_lt hmore)] at hwrap
    exact Nat.not_le.mpr hwrap (OffsetMap.le_of_fits hfits)
  · rw [if_neg (by omega), if_pos hless] at hfits
    rw [Nat.min_eq_right (Nat.le_of_lt hless)] at hwrap
    exact Nat.not_le.mpr hwrap (OffsetMap.le_of_fits hfits)

namespace Change

def apply (c : Change) (t : Text) : Text := t.splice c.offset c.removed.length c.inserted

inductive Built : Change → Prop
  | ofEdit (offset : Nat) (removed inserted : Text) : Built (.ofEdit offset removed inserted)
  | withMap {offset : Nat} {removed inserted : Text} {map : OffsetMap} {c : Change}
      (h : withMap offset removed inserted map = .ok c) : Built c

def Balanced (c : Change) : Prop := c.map = [] → c.inserted.length = c.removed.length

variable {c : Change}

lemma splice_remove_insert {t : Text} (h : c.offset + c.removed.length ≤ t.length) :
    (t.splice c.offset c.removed.length []).splice c.offset 0 c.inserted = c.apply t := by
  have hlen : (t.take c.offset).length = c.offset := by simp; omega
  simp only [apply, Text.splice, List.nil_append, Nat.add_zero, List.take_left' hlen,
    List.drop_left' hlen]

lemma length_apply {t : Text} (h : c.offset + c.removed.length ≤ t.length) :
    (c.apply t).length = t.length - c.removed.length + c.inserted.length :=
  Text.length_splice h _

lemma withMap_eq_ok {offset : Nat} {removed inserted : Text} {map : OffsetMap}
    (h : withMap offset removed inserted map = .ok c) :
    map.fits offset removed.length inserted.length ∧ c = ⟨offset, removed, inserted, map⟩ := by
  rw [withMap] at h
  split at h
  case isTrue hfits => exact ⟨hfits, (Except.ok.inj h).symm⟩
  case isFalse => simp at h

lemma Built.balanced (h : c.Built) : c.Balanced := by
  intro hmap
  cases h with
  | ofEdit offset removed inserted => simp [Change.ofEdit, ChangeMapping.offsetMap] at hmap
  | withMap hok =>
    obtain ⟨hfits, rfl⟩ := withMap_eq_ok hok
    dsimp only at hmap
    rw [hmap] at hfits
    exact (beq_iff_eq.mp hfits).symm

lemma Balanced.length_apply (h : c.Balanced) {t : Text} (hc : c.offset + c.removed.length ≤ t.length)
    (hmap : c.map = []) : (c.apply t).length = t.length := by
  rw [Change.length_apply hc, h hmap]
  omega

lemma Balanced.inverse (h : c.Balanced) : c.inverse.Balanced := by
  intro hmap
  have hnil : c.map = [] := by simpa [Change.inverse, OffsetMap.inverse] using hmap
  exact (h hnil).symm

def Fits (c : Change) (t : Text) : Prop :=
  ∃ front back, t = front ++ (c.removed ++ back) ∧ front.length = c.offset

lemma apply_eq {front back : Text} (h : front.length = c.offset) :
    c.apply (front ++ (c.removed ++ back)) = front ++ (c.inserted ++ back) := by
  rw [apply, Text.splice, List.take_left' h, ← List.drop_drop, List.drop_left' h, List.drop_left]

lemma fits_of_slice {offset : Nat} {removed inserted t : Text} {map : OffsetMap}
    (h : offset + removed.length ≤ t.length) (hslice : (t.drop offset).take removed.length = removed) :
    Fits ⟨offset, removed, inserted, map⟩ t := by
  refine ⟨t.take offset, (t.drop offset).drop removed.length, ?_, by simp; omega⟩
  dsimp only
  conv_rhs => rw [← hslice]
  rw [List.length_take, List.length_drop, Nat.min_eq_left (by omega), List.take_append_drop,
    List.take_append_drop]

namespace Fits

variable {t : Text}

lemma le_length (h : c.Fits t) : c.offset + c.removed.length ≤ t.length := by
  obtain ⟨front, back, rfl, hlen⟩ := h
  simp only [List.length_append]
  omega

lemma inverse (h : c.Fits t) : c.inverse.Fits (c.apply t) := by
  obtain ⟨front, back, rfl, hlen⟩ := h
  exact ⟨front, back, apply_eq hlen, hlen⟩

lemma apply_inverse (h : c.Fits t) : c.inverse.apply (c.apply t) = t := by
  obtain ⟨front, back, rfl, hlen⟩ := h
  rw [apply_eq hlen]
  exact apply_eq (c := c.inverse) hlen

end Fits

def applyAll (changes : List Change) (t : Text) : Text := changes.foldl (fun t c => c.apply t) t

def InRangeAll : List Change → Text → Prop
  | [], _ => True
  | c :: rest, t => c.offset + c.removed.length ≤ t.length ∧ InRangeAll rest (c.apply t)

def FitAll : List Change → Text → Prop
  | [], _ => True
  | c :: rest, t => c.Fits t ∧ FitAll rest (c.apply t)

lemma applyAll_append (a b : List Change) (t : Text) : applyAll (a ++ b) t = applyAll b (applyAll a t) :=
  List.foldl_append

lemma FitAll.inRange {changes : List Change} {t : Text} (h : FitAll changes t) : InRangeAll changes t := by
  induction changes generalizing t with
  | nil => trivial
  | cons c rest ih => exact ⟨h.1.le_length, ih h.2⟩

lemma fitAll_append {a b : List Change} {t : Text} :
    FitAll (a ++ b) t ↔ FitAll a t ∧ FitAll b (applyAll a t) := by
  induction a generalizing t with
  | nil => simp [FitAll, applyAll]
  | cons c rest ih =>
    simp only [List.cons_append, FitAll, ih, and_assoc]
    rfl

lemma inRange_append {a b : List Change} {t : Text} :
    InRangeAll (a ++ b) t ↔ InRangeAll a t ∧ InRangeAll b (applyAll a t) := by
  induction a generalizing t with
  | nil => simp [InRangeAll, applyAll]
  | cons c rest ih =>
    simp only [List.cons_append, InRangeAll, ih, and_assoc]
    rfl

end Change

end EditableText
