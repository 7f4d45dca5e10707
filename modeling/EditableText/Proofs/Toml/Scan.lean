import EditableText.Toml.Scan
import Mathlib.Tactic.Common

namespace EditableText.Scan

variable {α β γ : Type} {x y : Scan α} {f : α → Scan β} {a : α} {b : β} {t t' rest : Text} {p : Char → Bool}

/-- The scanner reads `a` from `t`, if `rest` comes behind it. -/
def Takes (x : Scan α) (t : Text) (a : α) (rest : Text) : Prop := x (t ++ rest) = some (a, rest)

lemma bind_apply (x : Scan α) (f : α → Scan β) (t : Text) :
    (x >>= f) t = (x t).bind fun found => f found.1 found.2 := by
  simp only [bind]
  cases x t <;> rfl

lemma bind_eq_some_iff :
    (x >>= f) t = some (b, rest) ↔ ∃ a mid, x t = some (a, mid) ∧ f a mid = some (b, rest) := by
  rw [bind_apply, Option.bind_eq_some_iff, Prod.exists]

lemma bind_of_eq_some (h : x t = some (a, rest)) (f : α → Scan β) : (x >>= f) t = f a rest := by
  rw [bind_apply, h, Option.bind_some]

lemma bind_eq_none (h : x t = none) (f : α → Scan β) : (x >>= f) t = none := by
  rw [bind_apply, h, Option.bind_none]

lemma orElse_eq_none (hx : x t = none) (hy : y t = none) : orElse x y t = none := by rw [orElse, hx, hy]

lemma word_eq_none {w : Text} (h : ¬ w <+: t) : word w t = none := by
  rw [word, if_neg (by rwa [List.isPrefixOf_iff_prefix])]

lemma char_eq_some_iff {c : Char} {u : Unit} : char c t = some (u, rest) ↔ t = c :: rest := by
  rw [char, word]
  cases t with
  | nil => simp [List.isPrefixOf]
  | cons d t =>
    by_cases h : c = d
    · simp [List.isPrefixOf, h]
    · simp [List.isPrefixOf, h, Ne.symm h]

lemma char_eq_none {c : Char} (h : t.head? ≠ some c) : char c t = none := by
  refine word_eq_none fun hprefix => h ?_
  obtain ⟨rest, rfl⟩ := hprefix
  rfl

namespace Takes

lemma bind (hx : x.Takes t a (t' ++ rest)) (hf : (f a).Takes t' b rest) : (x >>= f).Takes (t ++ t') b rest := by
  rw [Takes, List.append_assoc, bind_of_eq_some hx]
  exact hf

lemma silent_bind (hx : x.Takes [] a (t ++ rest)) (hf : (f a).Takes t b rest) : (x >>= f).Takes t b rest :=
  hx.bind hf

lemma bind_silent (hx : x.Takes t a rest) (hf : (f a).Takes [] b rest) : (x >>= f).Takes t b rest := by
  have h : (x >>= f).Takes (t ++ []) b rest := bind hx hf
  rwa [List.append_nil] at h

lemma map (hx : x.Takes t a rest) (g : α → β) : (do return g (← x) : Scan β).Takes t (g a) rest :=
  bind_silent hx rfl

lemma orElse_left (hx : x.Takes t a rest) (y : Scan α) : (orElse x y).Takes t a rest := by
  rw [Takes, orElse, hx]

lemma orElse_right (hx : x (t ++ rest) = none) (hy : y.Takes t a rest) : (orElse x y).Takes t a rest := by
  rw [Takes, orElse, hx]
  exact hy

end Takes

lemma takes_pure (a : α) (rest : Text) : (pure a : Scan α).Takes [] a rest := rfl

lemma takes_word (w rest : Text) : (word w).Takes w () rest := by
  rw [Takes, word, if_pos (by simp), List.drop_left]

lemma takes_char (c : Char) (rest : Text) : (char c).Takes [c] () rest := takes_word [c] rest

lemma takes_check {b : Bool} (h : b = true) (rest : Text) : (check b).Takes [] () rest := by
  rw [check, if_pos h]
  rfl

lemma takes_ahead (t : Text) : ahead.Takes [] t t := rfl

lemma takes_optional_none (h : x rest = none) : (optional x).Takes [] none rest := by
  rw [Takes, List.nil_append, optional, h]

lemma takes_takeWhile (ht : ∀ c ∈ t, p c = true) (hrest : ∀ c, rest.head? = some c → p c = false) :
    (takeWhile p).Takes t t rest := by
  rw [Takes, takeWhile, List.takeWhile_append_of_pos ht, List.dropWhile_append_of_pos ht]
  cases rest with
  | nil => simp
  | cons c rest => simp [hrest c rfl]

lemma takes_takeSome (hne : t ≠ []) (ht : ∀ c ∈ t, p c = true) (hrest : ∀ c, rest.head? = some c → p c = false) :
    (takeSome p).Takes t t rest :=
  .bind_silent (takes_takeWhile ht hrest) (.silent_bind (takes_check (by simpa using hne) _) (takes_pure _ _))

lemma takes_many_nil (h : x rest = none) : (many x).Takes [] [] rest := by
  rw [Takes, List.nil_append, many, manyFrom, h]

lemma takes_many_cons {as : List α} (hne : t ≠ []) (hx : x.Takes t a (t' ++ rest))
    (hmany : (many x).Takes t' as rest) : (many x).Takes (t ++ t') (a :: as) rest := by
  have hshorter : (t' ++ rest).length < (t ++ (t' ++ rest)).length := by
    have hpos := List.length_pos_iff.mpr hne
    simp only [List.length_append]
    omega
  have hothers : manyFrom x (t' ++ rest) = (as, rest) := Option.some.inj hmany
  rw [Takes, List.append_assoc, many, manyFrom, hx]
  simp only [if_pos hshorter, hothers]

lemma takes_many {pieces : List γ} {written : γ → Text} {value : γ → α}
    (hpieces : ∀ piece ∈ pieces, written piece ≠ [] ∧ ∀ rest, x.Takes (written piece) (value piece) rest)
    (hrest : x rest = none) : (many x).Takes (pieces.flatMap written) (pieces.map value) rest := by
  induction pieces with
  | nil => exact takes_many_nil hrest
  | cons piece pieces ih =>
    obtain ⟨hne, hpiece⟩ := hpieces piece List.mem_cons_self
    exact takes_many_cons hne (hpiece _) (ih fun other hother => hpieces other (List.mem_cons_of_mem _ hother))

lemma readAll?_of_takes (h : x.Takes t a []) : readAll? x t = some a := by
  rw [Takes, List.append_nil] at h
  rw [readAll?, h]

lemma exists_of_readAll? (h : (readAll? x t).isSome = true) : ∃ a, x t = some (a, []) := by
  rw [readAll?] at h
  split at h
  case h_1 a heq => exact ⟨a, heq⟩
  case h_2 => cases h

def Trims (x : Scan α) : Prop := ∀ t a rest, x t = some (a, rest) → rest <:+ t

lemma Trims.bind (hx : x.Trims) (hf : ∀ a, (f a).Trims) : (x >>= f).Trims := by
  intro t b rest h
  obtain ⟨a, mid, hfirst, hsecond⟩ := bind_eq_some_iff.mp h
  exact (hf a mid b rest hsecond).trans (hx t a mid hfirst)

lemma trims_pure (a : α) : (pure a : Scan α).Trims := by
  rintro t _ _ ⟨⟩
  exact List.suffix_rfl

lemma trims_next : next.Trims := by
  rintro (_ | ⟨c, t⟩) _ _ ⟨⟩
  exact List.suffix_cons c t

lemma trims_check (b : Bool) : (check b).Trims := by
  cases b with
  | true => exact trims_pure ()
  | false =>
    intro t _ rest h
    cases h

end EditableText.Scan
