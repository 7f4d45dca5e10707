import EditableText.Lines.Line
import Mathlib.Data.List.Basic
import Mathlib.Tactic.Common

/-!
The scan that cuts a text into lines is local: behind a delimiter it starts afresh, so a text that is
put together at such places is scanned piece by piece.
-/

namespace EditableText

def Text.Seam (a b : Text) : Prop := a.getLast? = some '\r' → b.head? ≠ some '\n'

lemma Text.Seam.tail {c : Char} {t b : Text} (h : Text.Seam (c :: t) b) : Text.Seam t b := by
  intro hl
  cases t with
  | nil => simp at hl
  | cons d t => exact h (by simpa using hl)

lemma Text.Seam.append {a b : Text} (h : Text.Seam a b) (ha : a ≠ []) (front : Text) :
    Text.Seam (front ++ a) b := by
  intro hl
  rw [List.getLast?_append_of_ne_nil _ ha] at hl
  exact h hl

lemma Text.Seam.head? {t b : Text} (h : Text.Seam ('\r' :: t) b) (ht : ∀ rest, t ≠ '\n' :: rest) :
    (t ++ b).head? ≠ some '\n' := by
  cases t with
  | nil => exact h rfl
  | cons d t =>
    intro hd
    obtain rfl : d = '\n' := by simpa using hd
    exact ht t rfl

namespace LineExtent

def size : List LineExtent → Nat
  | [] => 0
  | extent :: extents => extent.total + size extents

@[simp] lemma size_nil : size [] = 0 := rfl

@[simp] lemma size_cons (extent : LineExtent) (extents : List LineExtent) :
    size (extent :: extents) = extent.total + size extents := rfl

@[simp] lemma size_append (a b : List LineExtent) : size (a ++ b) = size a + size b := by
  induction a with
  | nil => simp
  | cons extent extents ih =>
    rw [List.cons_append, size_cons, size_cons, ih]
    omega

variable {breaks : LineBreaks} {current : Nat}

lemma scanFrom_lf (t : Text) :
    scanFrom breaks current ('\n' :: t) = ⟨current + 1, 1⟩ :: scanFrom breaks 0 t := by
  simp [scanFrom]

lemma scanFrom_crlf (t : Text) :
    scanFrom breaks current ('\r' :: '\n' :: t) = ⟨current + 2, 2⟩ :: scanFrom breaks 0 t := by
  simp [scanFrom]

lemma scanFrom_cr {t : Text} (h : t.head? ≠ some '\n') :
    scanFrom breaks current ('\r' :: t) =
      if breaks = .standard then ⟨current + 1, 1⟩ :: scanFrom breaks 0 t
      else scanFrom breaks (current + 1) t := by
  rw [scanFrom]
  · simp
  · rintro ⟨⟩
  · rintro rest - rfl
    simp at h

lemma scanFrom_content {c : Char} (t : Text) (hn : c ≠ '\n') (hr : c ≠ '\r') :
    scanFrom breaks current (c :: t) = scanFrom breaks (current + 1) t := by
  rw [scanFrom]
  · simp [hr]
  · exact hn
  · exact fun _ h => (hr h).elim

lemma size_scanFrom (t : Text) : size (scanFrom breaks current t) = current + t.length := by
  fun_induction scanFrom breaks current t <;> grind [size_cons, size_nil]

lemma size_scan (breaks : LineBreaks) (t : Text) : size (scan breaks t) = t.length := by
  simp [scan, size_scanFrom]

lemma scanFrom_ne_nil (t : Text) : scanFrom breaks current t ≠ [] := by
  fun_induction scanFrom breaks current t <;> simp_all

def Ended (breaks : LineBreaks) (t : Text) : Prop :=
  t.getLast? = some '\n' ∨ (t.getLast? = some '\r' ∧ breaks = .standard)

lemma Ended.ne_nil {t : Text} (h : Ended breaks t) : t ≠ [] := by
  rintro rfl
  simp [Ended] at h

lemma ended_append {t : Text} (ht : t ≠ []) (front : Text) :
    Ended breaks (front ++ t) ↔ Ended breaks t := by
  simp only [Ended, List.getLast?_append_of_ne_nil _ ht]

lemma scanFrom_append {a b : Text} (h : Text.Seam a b) (breaks : LineBreaks) (current : Nat) :
    ∃ front rest, scanFrom breaks current a = front ++ [⟨rest, 0⟩] ∧
      scanFrom breaks current (a ++ b) = front ++ scanFrom breaks rest b ∧
      (a = [] → rest = current) ∧ (Ended breaks a → rest = 0) := by
  -- a delimiter at the end of the first text is seen by the scan of what is left of it, or by the
  -- scan of the empty text that starts with no characters in the current line
  have settled {c : Char} {t : Text} {rest : Nat} (hn : t = [] → rest = 0)
      (he : Ended breaks t → rest = 0) : Ended breaks (c :: t) → rest = 0 := by
    by_cases ht : t = []
    · exact fun _ => hn ht
    · exact fun hc => he ((ended_append ht [_]).mp hc)
  fun_induction scanFrom breaks current a with
  | case1 current => exact ⟨[], current, by simp, by simp, by simp, by simp [Ended]⟩
  | case2 current t ih =>
    obtain ⟨front, rest, hf, hs, hn, he⟩ := ih h.tail
    exact ⟨⟨current + 1, 1⟩ :: front, rest, by simp [hf], by simp [scanFrom_lf, hs], by simp,
      settled hn he⟩
  | case3 current t ih =>
    obtain ⟨front, rest, hf, hs, hn, he⟩ := ih h.tail.tail
    exact ⟨⟨current + 2, 2⟩ :: front, rest, by simp [hf], by simp [scanFrom_crlf, hs], by simp,
      settled (by simp) (settled hn he)⟩
  | case4 current c t hlf hcrlf hc ih =>
    obtain ⟨front, rest, hf, hs, hn, he⟩ := ih h.tail
    obtain ⟨rfl, hb⟩ := hc
    refine ⟨⟨current + 1, 1⟩ :: front, rest, by simp [hf], ?_, by simp, settled hn he⟩
    have hhead := h.head? fun rest => hcrlf rest rfl
    rw [List.cons_append, scanFrom_cr hhead, if_pos hb, hs, List.cons_append]
  | case5 current c t hlf hcrlf hc ih =>
    obtain ⟨front, rest, hf, hs, hn, he⟩ := ih h.tail
    refine ⟨front, rest, hf, ?_, by simp, ?_⟩
    · by_cases hr : c = '\r'
      · subst hr
        have hhead := h.head? fun rest => hcrlf rest rfl
        rw [List.cons_append, scanFrom_cr hhead, if_neg (fun hb => hc ⟨rfl, hb⟩), hs]
      · rw [List.cons_append, scanFrom_content _ hlf hr, hs]
    · by_cases ht : t = []
      · subst ht
        rintro (hl | ⟨hl, hb⟩)
        · exact (hlf (by simpa using hl)).elim
        · exact (hc ⟨by simpa using hl, hb⟩).elim
      · exact fun hend => he ((ended_append ht [_]).mp hend)

lemma exists_seam_behind {d t : Text} {front back : List LineExtent} (hd : Ended breaks d)
    (hj : Text.Seam d t) (h : scan breaks t = front ++ back)
    (ih : front ≠ [] → ∃ a b, t = a ++ b ∧ size front = 0 + a.length ∧ Ended breaks a ∧
      Text.Seam a b ∧ scan breaks b = back) :
    ∃ a b, d ++ t = a ++ b ∧ d.length + size front = a.length ∧ Ended breaks a ∧ Text.Seam a b ∧
      scan breaks b = back := by
  by_cases hf : front = []
  · subst hf
    exact ⟨d, t, rfl, by simp, hd, hj, h⟩
  · obtain ⟨a, b, rfl, hs, he, hseam, hback⟩ := ih hf
    exact ⟨d ++ a, b, by simp, by simp [hs], (ended_append he.ne_nil d).mpr he,
      hseam.append he.ne_nil d, hback⟩

lemma exists_seam {t : Text} {front back : List LineExtent}
    (h : scanFrom breaks current t = front ++ back) (hf : front ≠ []) (hb : back ≠ []) :
    ∃ a b, t = a ++ b ∧ size front = current + a.length ∧ Ended breaks a ∧ Text.Seam a b ∧
      scan breaks b = back := by
  fun_induction scanFrom breaks current t generalizing front with
  | case1 current =>
    have hl := congrArg List.length h
    have := List.length_pos_iff.mpr hf
    have := List.length_pos_iff.mpr hb
    simp at hl
    omega
  | case2 current t ih =>
    obtain ⟨x, front, rfl⟩ := List.exists_cons_of_ne_nil hf
    obtain ⟨rfl, ht⟩ := List.cons.inj h
    obtain ⟨a, b, hab, hs, hrest⟩ := exists_seam_behind (d := ['\n']) (.inl rfl)
      (by simp [Text.Seam]) ht (ih ht)
    exact ⟨a, b, hab, by simp at hs ⊢; omega, hrest⟩
  | case3 current t ih =>
    obtain ⟨x, front, rfl⟩ := List.exists_cons_of_ne_nil hf
    obtain ⟨rfl, ht⟩ := List.cons.inj h
    obtain ⟨a, b, hab, hs, hrest⟩ := exists_seam_behind (d := ['\r', '\n']) (.inl rfl)
      (by simp [Text.Seam]) ht (ih ht)
    exact ⟨a, b, hab, by simp at hs ⊢; omega, hrest⟩
  | case4 current c t hlf hcrlf hc ih =>
    obtain ⟨rfl, hbr⟩ := hc
    obtain ⟨x, front, rfl⟩ := List.exists_cons_of_ne_nil hf
    obtain ⟨rfl, ht⟩ := List.cons.inj h
    have hj : Text.Seam ['\r'] t := by
      intro _ hhead
      obtain ⟨d, t, rfl⟩ := List.exists_cons_of_ne_nil (l := t) (by rintro rfl; simp at hhead)
      obtain rfl : d = '\n' := by simpa using hhead
      exact hcrlf t rfl rfl
    obtain ⟨a, b, hab, hs, hrest⟩ := exists_seam_behind (.inr ⟨rfl, hbr⟩) hj ht (ih ht)
    exact ⟨a, b, hab, by simp at hs ⊢; omega, hrest⟩
  | case5 current c t hlf hcrlf hc ih =>
    obtain ⟨a, b, rfl, hs, he, hj, hback⟩ := ih h hf
    refine ⟨c :: a, b, rfl, ?_, (ended_append he.ne_nil [c]).mpr he, hj.append he.ne_nil [c], hback⟩
    simp [hs]
    omega

lemma scan_append {a b : Text} (he : Ended breaks a) (hj : Text.Seam a b) :
    scan breaks (a ++ b) = (scan breaks a).dropLast ++ scan breaks b ∧
      (scan breaks a).getLast? = some ⟨0, 0⟩ := by
  obtain ⟨front, rest, ha, hab, -, hrest⟩ := scanFrom_append hj breaks 0
  obtain rfl := hrest he
  exact ⟨by simp only [scan, ha, hab, List.dropLast_concat], by simp [scan, ha]⟩

lemma total_pos_of_mem_scanFrom {t : Text} {extent : LineExtent}
    (h : extent ∈ (scanFrom breaks current t).dropLast) : 0 < extent.total := by
  have cons {first : LineExtent} {t : Text} (hf : 0 < first.total)
      (ih : extent ∈ (scanFrom breaks 0 t).dropLast → 0 < extent.total)
      (h : extent ∈ (first :: scanFrom breaks 0 t).dropLast) : 0 < extent.total := by
    rw [List.dropLast_cons_of_ne_nil (scanFrom_ne_nil t)] at h
    rcases List.mem_cons.mp h with rfl | h
    · exact hf
    · exact ih h
  fun_induction scanFrom breaks current t with
  | case1 current => simp at h
  | case2 current t ih => exact cons (Nat.succ_pos _) ih h
  | case3 current t ih => exact cons (Nat.succ_pos _) ih h
  | case4 current c t hlf hcrlf hc ih => exact cons (Nat.succ_pos _) ih h
  | case5 current c t hlf hcrlf hc ih => exact ih h

end LineExtent

namespace Text

lemma splice_append {a r b : Text} {offset removed : Nat} (h : offset + removed ≤ r.length)
    (inserted : Text) :
    splice (a ++ (r ++ b)) (a.length + offset) removed inserted =
      a ++ (splice r offset removed inserted ++ b) := by
  have ht : offset - r.length = 0 := by omega
  have hd : offset + removed - r.length = 0 := by omega
  have htake : a.take (a.length + offset) = a := List.take_of_length_le (by omega)
  have hdrop : a.drop (a.length + (offset + removed)) = [] := List.drop_eq_nil_of_le (by omega)
  simp [splice, List.take_append, List.drop_append, Nat.add_assoc, ht, hd, htake, hdrop]

lemma head?_splice {r b : Text} {offset : Nat} (h : 0 < offset) (hr : r ≠ []) (removed : Nat)
    (inserted : Text) : (splice r offset removed inserted ++ b).head? = (r ++ b).head? := by
  obtain ⟨c, r, rfl⟩ := List.exists_cons_of_ne_nil hr
  obtain ⟨offset, rfl⟩ := Nat.exists_eq_succ_of_ne_zero (Nat.ne_of_gt h)
  simp [splice]

lemma getLast?_splice {r : Text} {offset removed : Nat} (h : offset + removed < r.length)
    (inserted : Text) : (splice r offset removed inserted).getLast? = r.getLast? := by
  have hd : r.drop (offset + removed) ≠ [] := by simpa using h
  rw [splice, ← List.append_assoc, List.getLast?_append_of_ne_nil _ hd, List.getLast?_drop,
    if_neg (Nat.not_le.mpr h)]

end Text

namespace LineExtent

variable {breaks : LineBreaks}

lemma exists_region {t : Text} {front old back : List LineExtent}
    (h : scan breaks t = front ++ (old ++ back)) (hold : old ≠ []) :
    ∃ a r b, t = a ++ (r ++ b) ∧ a.length = size front ∧ r.length = size old ∧
      (front = [] ∧ a = [] ∨
        front ≠ [] ∧ Ended breaks a ∧ Text.Seam a (r ++ b) ∧ (scan breaks a).dropLast = front) ∧
      (back = [] ∧ b = [] ∨ back ≠ [] ∧ Ended breaks r ∧ Text.Seam r b ∧ scan breaks b = back) := by
  -- the region and what is behind it
  have hrest {u : Text} (hu : scan breaks u = old ++ back) :
      ∃ r b, u = r ++ b ∧ r.length = size old ∧
        (back = [] ∧ b = [] ∨
          back ≠ [] ∧ Ended breaks r ∧ Text.Seam r b ∧ scan breaks b = back) := by
    by_cases hback : back = []
    · subst hback
      have := size_scan breaks u
      exact ⟨u, [], by simp, by simpa [hu, eq_comm] using this, .inl ⟨rfl, rfl⟩⟩
    · obtain ⟨r, b, rfl, hs, he, hj, hb⟩ := exists_seam hu hold hback
      exact ⟨r, b, rfl, by omega, .inr ⟨hback, he, hj, hb⟩⟩
  by_cases hfront : front = []
  · subst hfront
    obtain ⟨r, b, rfl, hlen, hb⟩ := hrest h
    exact ⟨[], r, b, rfl, rfl, hlen, .inl ⟨rfl, rfl⟩, hb⟩
  · obtain ⟨a, u, rfl, hs, he, hj, hu⟩ := exists_seam h hfront (by simp [hold])
    obtain ⟨r, b, rfl, hlen, hb⟩ := hrest hu
    refine ⟨a, r, b, rfl, by omega, hlen, .inr ⟨hfront, he, hj, ?_⟩, hb⟩
    have hscan := (scan_append he hj).1
    rw [h, hu] at hscan
    exact (List.append_cancel_right hscan).symm

theorem scan_splice {t : Text} {front old back : List LineExtent} {offset removed : Nat}
    (h : scan breaks t = front ++ (old ++ back)) (hold : old ≠ []) (hstart : size front ≤ offset)
    (hfront : front ≠ [] → size front < offset) (hstop : offset + removed ≤ size front + size old)
    (hback : back ≠ [] → offset + removed < size front + size old) (inserted : Text) :
    ∃ region, ((t.splice offset removed inserted).drop (size front)).take
        (size front + size old + inserted.length - removed - size front) = region ∧
      scan breaks (t.splice offset removed inserted) =
        front ++ ((if back = [] then scan breaks region else (scan breaks region).dropLast) ++ back) ∧
      (back ≠ [] → (scan breaks region).getLast? = some ⟨0, 0⟩) := by
  obtain ⟨a, r, b, rfl, ha, hr, hA, hB⟩ := exists_region h hold
  obtain ⟨inner, rfl⟩ := Nat.exists_eq_add_of_le hstart
  have hinner : inner + removed ≤ r.length := by omega
  -- the region ends with the delimiter it had, and the text behind it is the same
  have hend (hne : back ≠ []) : Ended breaks (r.splice inner removed inserted) ∧
      Text.Seam (r.splice inner removed inserted) b ∧ scan breaks b = back := by
    obtain ⟨hnil, -⟩ | ⟨-, he, hj, hb⟩ := hB
    · exact (hne hnil).elim
    · have hlt : inner + removed < r.length := by
        have := hback hne
        omega
      have hl := Text.getLast?_splice hlt inserted
      exact ⟨by rwa [Ended, hl], by rwa [Text.Seam, hl], hb⟩
  have hregion : scan breaks (r.splice inner removed inserted ++ b) =
      (if back = [] then scan breaks (r.splice inner removed inserted)
        else (scan breaks (r.splice inner removed inserted)).dropLast) ++ back := by
    obtain ⟨rfl, rfl⟩ | ⟨hne, -⟩ := hB
    · simp
    · obtain ⟨he, hj, hb⟩ := hend hne
      rw [if_neg hne, (scan_append he hj).1, hb]
  refine ⟨r.splice inner removed inserted, ?_, ?_,
    fun hne => (scan_append (hend hne).1 (hend hne).2.1).2⟩
  · rw [← ha, Text.splice_append hinner, List.drop_left]
    have := Text.length_splice hinner inserted
    rw [List.take_append_of_le_length (by omega), List.take_of_length_le (by omega)]
  · rw [← ha, Text.splice_append hinner, ← hregion]
    obtain ⟨rfl, rfl⟩ | ⟨hne, he, hj, hdrop⟩ := hA
    · rfl
    · have hpos : 0 < inner := by
        have := hfront hne
        omega
      have hr : r ≠ [] := by
        rintro rfl
        simp only [List.length_nil] at hinner
        omega
      have hhead := Text.head?_splice (b := b) hpos hr removed inserted
      rw [(scan_append he (by rwa [Text.Seam, hhead])).1, hdrop]

end LineExtent

end EditableText
