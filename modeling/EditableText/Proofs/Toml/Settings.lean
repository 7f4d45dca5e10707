import EditableText.Proofs.Toml.Number
import EditableText.Proofs.Toml.Scan
import EditableText.Toml.Document

namespace EditableText.Toml

open EditableText.Scan EditableText.Toml.Quoted EditableText.Toml.Document

inductive Leaf where
  | string (t : Text)
  | integer (n : Nat)

namespace Leaf

def written : Leaf → Text
  | string t => ['"'] ++ (t ++ ['"'])
  | integer n => Nat.toDigits 10 n

def value : Leaf → Toml
  | string t => .string t
  | integer n => .integer n

/-- No character has to be escaped, and a number has no more than 64 bits with its sign. -/
def Plain : Leaf → Prop
  | string t => ∀ c ∈ t, isPlain c = true ∧ c ≠ '"' ∧ c ≠ '\\'
  | integer n => n < 2 ^ 63

lemma plain_string {t : Text} (h : t.all (fun c => isPlain c && c != '"' && c != '\\') = true) :
    (string t).Plain := by
  simpa [Plain, and_assoc] using h

end Leaf

structure Setting where
  name : Text
  leaf : Leaf

namespace Setting

def written (s : Setting) : Text := s.name ++ [' '] ++ (['='] ++ ([' '] ++ s.leaf.written)) ++ ['\n']

def assignment (s : Setting) : Assignment := ⟨[], s.name, s.leaf.value⟩

def entry (s : Setting) : Text × Toml := (s.name, s.leaf.value)

structure Plain (s : Setting) : Prop where
  name_ne_nil : s.name ≠ []
  bare : ∀ c ∈ s.name, isBareKeyChar c = true
  leaf : s.leaf.Plain

end Setting

variable {t rest : Text} {c : Char}

section Blanks

lemma takes_blanks (ht : ∀ c ∈ t, isBlank c = true) (hrest : ∀ c, rest.head? = some c → isBlank c = false) :
    blanks.Takes t () rest :=
  .bind_silent (takes_takeWhile ht hrest) (takes_pure _ _)

lemma takes_no_comment (h : rest.head? ≠ some '#') : (optional comment).Takes [] none rest :=
  takes_optional_none (bind_eq_none (char_eq_none h) _)

lemma newline_eq_none (hlf : t.head? ≠ some '\n') (hcr : t.head? ≠ some '\r') : newline t = none := by
  refine orElse_eq_none (char_eq_none hlf) (word_eq_none fun hprefix => hcr ?_)
  obtain ⟨rest, rfl⟩ := hprefix
  rfl

lemma emptyLine_eq_none (h : ∀ c, t.head? = some c → isBlank c = false ∧ c ∉ ['#', '\n', '\r']) :
    emptyLine t = none := by
  have hnot (d : Char) (hd : d ∈ ['#', '\n', '\r']) : t.head? ≠ some d := fun hc => (h d hc).2 hd
  have hblanks : blanks.Takes [] () t := takes_blanks (by simp) fun c hc => (h c hc).1
  have hcomment : (optional comment).Takes [] none t := takes_no_comment (hnot '#' (by decide))
  calc
    emptyLine t = (do let _ ← optional comment; newline : Scan Unit) t := bind_of_eq_some hblanks _
    _ = newline t := bind_of_eq_some hcomment _
    _ = none := newline_eq_none (hnot '\n' (by decide)) (hnot '\r' (by decide))

lemma takes_lineEnd (rest : Text) : lineEnd.Takes ['\n'] () rest := by
  refine .silent_bind (takes_blanks (by simp) ?_) (.silent_bind (takes_no_comment (by simp)) ?_)
  · rintro c ⟨⟩
    decide
  · exact .orElse_left (.orElse_left (takes_char '\n' rest) _) _

end Blanks

lemma head?_append_of_all {p : Char → Bool} (hne : t ≠ []) (ht : ∀ c ∈ t, p c = true)
    (h : (t ++ rest).head? = some c) : p c = true := by
  cases t with
  | nil => exact absurd rfl hne
  | cons d others =>
    obtain rfl := Option.some.inj h
    exact ht d List.mem_cons_self

section Keys

variable {name : Text}

lemma not_bare (h : c ∈ [' ', '\t', '#', '\n', '\r', '\ufeff']) : isBareKeyChar c = false := by
  simp only [List.mem_cons, List.not_mem_nil, or_false] at h
  rcases h with rfl | rfl | rfl | rfl | rfl | rfl <;> decide

lemma not_blank_of_bare (h : isBareKeyChar c = true) : isBlank c = false ∧ c ∉ ['#', '\n', '\r'] := by
  have hnot : c ∉ [' ', '\t', '#', '\n', '\r', '\ufeff'] := fun hmem => by
    rw [not_bare hmem] at h
    cases h
  simp only [List.mem_cons, not_or] at hnot ⊢
  exact ⟨by simp [isBlank, hnot], by simp [hnot]⟩

lemma takes_keyPart (hne : name ≠ []) (hbare : ∀ c ∈ name, isBareKeyChar c = true) (rest : Text) :
    keyPart.Takes (name ++ [' ']) name ('=' :: rest) := by
  refine .silent_bind (takes_blanks (by simp) fun c hc => ?_) (.bind (.orElse_left (takes_takeSome hne hbare ?_) _)
    (.bind_silent (takes_blanks (List.forall_mem_singleton.mpr rfl) ?_) (takes_pure _ _)))
  · rw [List.append_assoc] at hc
    exact (not_blank_of_bare (head?_append_of_all hne hbare hc)).1
  · rintro c ⟨⟩
    decide
  · rintro c ⟨⟩
    decide

lemma takes_key (hne : name ≠ []) (hbare : ∀ c ∈ name, isBareKeyChar c = true) (rest : Text) :
    key.Takes (name ++ [' ']) ([], name) ('=' :: rest) :=
  .bind_silent (takes_keyPart hne hbare rest)
    (.silent_bind (takes_many_nil (bind_eq_none (char_eq_none (by simp)) _))
      (.silent_bind (takes_check rfl _) (takes_pure _ _)))

end Keys

section Values

lemma takes_basicChar (hplain : isPlain c = true ∧ c ≠ '"' ∧ c ≠ '\\') (rest : Text) :
    basicChar.Takes [c] c rest := by
  obtain ⟨hc, hquote, hescape⟩ := hplain
  have hnext : next.Takes [c] c rest := rfl
  refine .bind_silent hnext ?_
  split
  case h_1 => exact absurd rfl hescape
  case h_2 => exact .silent_bind (takes_check (by simp [hc, hquote]) _) (takes_pure c rest)

lemma takes_basic (ht : ∀ c ∈ t, isPlain c = true ∧ c ≠ '"' ∧ c ≠ '\\') (rest : Text) :
    basic.Takes (['"'] ++ (t ++ ['"'])) t rest := by
  have hstop : basicChar ('"' :: rest) = none := rfl
  have hchars : (many basicChar).Takes t t ('"' :: rest) := by
    have hmany : (many basicChar).Takes (t.flatMap fun c => [c]) (t.map id) ('"' :: rest) :=
      takes_many (fun c hc => ⟨List.cons_ne_nil c [], takes_basicChar (ht c hc)⟩) hstop
    rwa [List.flatMap_singleton', List.map_id] at hmany
  exact .bind (takes_char '"' _) (.bind hchars (.bind_silent (takes_char '"' rest) (takes_pure t rest)))

lemma takes_string (ht : ∀ c ∈ t, isPlain c = true ∧ c ≠ '"' ∧ c ≠ '\\') (hrest : rest.head? ≠ some '"') :
    Quoted.string.Takes (['"'] ++ (t ++ ['"'])) t rest := by
  refine .orElse_right (bind_eq_none (word_eq_none fun hprefix => ?_) _) (.orElse_left (takes_basic ht rest) _)
  -- the second of three quotes would stand in the text, or the third one behind it
  obtain ⟨others, hothers⟩ := hprefix
  cases t with
  | nil =>
    obtain rfl : '"' :: others = rest := by simpa using hothers
    exact hrest rfl
  | cons c t =>
    obtain ⟨rfl, -⟩ : '"' = c ∧ _ := by simpa using hothers
    exact (ht '"' List.mem_cons_self).2.1 rfl

lemma trims_twoDigits : Time.twoDigits.Trims := by
  have hdigit : Time.digit.Trims := trims_next.bind fun c => (trims_check _).bind fun _ => trims_pure _
  exact hdigit.bind fun _ => hdigit.bind fun _ => trims_pure _

lemma isDate_eq_false (h : '-' ∉ t) : Time.isDate t = false := by
  rw [Bool.eq_false_iff]
  intro hdate
  obtain ⟨_, hdate⟩ := exists_of_readAll? hdate
  obtain ⟨_, years, hcentury, hdate⟩ := bind_eq_some_iff.mp hdate
  obtain ⟨_, dash, hyears, hdate⟩ := bind_eq_some_iff.mp hdate
  obtain ⟨_, month, hdash, -⟩ := bind_eq_some_iff.mp hdate
  rw [char_eq_some_iff] at hdash
  have hsuffix := (trims_twoDigits _ _ _ hyears).trans (trims_twoDigits _ _ _ hcentury)
  exact h (hsuffix.subset (hdash ▸ List.mem_cons_self))

variable {leaf : Leaf} {n : Nat}

lemma head_digits (hc : (Nat.toDigits 10 n ++ rest).head? = some c) : c.isDigit = true :=
  head?_append_of_all Nat.toDigits_ne_nil (fun _ => Number.isDigit_of_mem) hc

lemma takes_lexeme (h : n < 2 ^ 63) (rest : Text) :
    lexeme.Takes (Nat.toDigits 10 n) (.integer n) ('\n' :: rest) := by
  have hlexeme (c : Char) (hc : c ∈ Nat.toDigits 10 n) : isLexemeChar c = true := by
    simp [isLexemeChar, Char.isAlphanum, Number.isDigit_of_mem hc]
  have hdate : Time.isDate (Nat.toDigits 10 n) = false :=
    isDate_eq_false fun hdash => absurd (Number.isDigit_of_mem hdash) (by decide)
  refine .bind_silent (takes_takeSome Nat.toDigits_ne_nil hlexeme ?_) ?_
  · rintro c ⟨⟩
    decide
  · rw [if_neg (by simp [hdate]), ofLexeme?, Number.integer?_toDigits h]
    exact takes_pure _ _

lemma takes_simple (h : leaf.Plain) (rest : Text) : simple.Takes leaf.written leaf.value ('\n' :: rest) := by
  refine .silent_bind (takes_ahead _) ?_
  cases leaf with
  | string t => exact .map (takes_string h (by simp)) Toml.string
  | integer n =>
    dsimp only [Leaf.written]
    split
    case h_1 hquote => exact absurd (head_digits hquote) (by decide)
    case h_2 hquote => exact absurd (head_digits hquote) (by decide)
    case h_3 => exact takes_lexeme h rest

lemma head_written (hc : (leaf.written ++ rest).head? = some c) : isBlank c = false ∧ c ≠ '[' ∧ c ≠ '\x7b' := by
  cases leaf with
  | string t =>
    obtain rfl : '"' = c := Option.some.inj hc
    decide
  | integer n =>
    have hne {d : Char} (hd : d.isDigit = false) : c ≠ d := fun heq => by
      rw [← heq, head_digits hc] at hd
      cases hd
    refine ⟨?_, hne (by decide), hne (by decide)⟩
    simp [isBlank, hne (d := ' ') (by decide), hne (d := '\t') (by decide)]

lemma takes_value (h : leaf.Plain) (depth : Nat) (rest : Text) :
    (value depth).Takes leaf.written leaf.value ('\n' :: rest) := by
  cases depth with
  | zero => exact takes_simple h rest
  | succ depth =>
    refine .silent_bind (takes_ahead _) ?_
    split
    case h_1 hc => exact absurd rfl (head_written hc).2.1
    case h_2 hc => exact absurd rfl (head_written hc).2.2
    case h_3 => exact takes_simple h rest

end Values

section Lines

variable {s : Setting}

lemma takes_assignment (h : s.Plain) (depth : Nat) (rest : Text) :
    (assignment (value depth)).Takes (s.name ++ [' '] ++ (['='] ++ ([' '] ++ s.leaf.written))) s.assignment
      ('\n' :: rest) :=
  .bind (takes_key h.name_ne_nil h.bare _)
    (.bind (takes_char '=' _)
      (.bind (takes_blanks (List.forall_mem_singleton.mpr rfl) fun _ hc => (head_written hc).1)
        (.bind_silent (takes_value h.leaf depth rest) (takes_pure _ _))))

lemma head_setting (h : s.Plain) (hc : (s.written ++ rest).head? = some c) : isBareKeyChar c = true := by
  simp only [Setting.written, List.append_assoc] at hc
  exact head?_append_of_all h.name_ne_nil h.bare hc

lemma takes_entry (h : s.Plain) (rest : Text) : entry.Takes s.written s.assignment rest := by
  have hempty : (many emptyLine).Takes [] [] (s.written ++ rest) :=
    takes_many_nil (emptyLine_eq_none fun _ hc => not_blank_of_bare (head_setting h hc))
  refine .silent_bind hempty (.bind ?_ (.bind_silent (takes_lineEnd rest) (takes_pure _ _)))
  exact takes_assignment h maxDepth rest

lemma emptyLine_nil : emptyLine [] = none := rfl

lemma takes_no_emptyLine : (many emptyLine).Takes [] [] [] := takes_many_nil emptyLine_nil

lemma entry_nil : entry [] = none := bind_of_eq_some takes_no_emptyLine _

lemma headed_nil : headed [] = none := bind_of_eq_some takes_no_emptyLine _

lemma lineEnd_nil : lineEnd.Takes [] () [] := rfl

end Lines

section Tables

variable {key : Text} {value : Toml} {entries : TomlEntries}

lemma set_of_notMem (h : key ∉ entries.map Prod.fst) : set key value entries = entries ++ [(key, value)] := by
  induction entries with
  | nil => rfl
  | cons head others ih =>
    rw [List.map_cons, List.mem_cons, not_or] at h
    rw [set, if_neg (Ne.symm h.1), ih h.2, List.cons_append]

lemma lookup_of_notMem (h : key ∉ entries.map Prod.fst) : entries.lookup key = none :=
  List.lookup_eq_none_iff.mpr fun _ hmem =>
    bne_iff_ne.mpr fun heq => h (heq ▸ List.mem_map_of_mem hmem)

lemma apply_setting {s : Setting} (h : s.name ∉ entries.map Prod.fst) :
    s.assignment.apply entries = some (entries ++ [s.entry]) := by
  have hnone : entries.lookup s.name = none := lookup_of_notMem h
  simp [Assignment.apply, within, Setting.assignment, Setting.entry, hnone, set_of_notMem h]

lemma applyAll_settings {settings : List Setting}
    (hnames : (entries.map Prod.fst ++ settings.map Setting.name).Nodup) :
    Assignment.applyAll (settings.map Setting.assignment) entries =
      some (entries ++ settings.map Setting.entry) := by
  induction settings generalizing entries with
  | nil => simp [Assignment.applyAll]
  | cons s others ih =>
    have hnew : s.name ∉ entries.map Prod.fst := fun hmem =>
      (List.nodup_append.mp hnames).2.2 _ hmem _ List.mem_cons_self rfl
    have hothers : ((entries ++ [s.entry]).map Prod.fst ++ others.map Setting.name).Nodup := by
      simpa [Setting.entry] using hnames
    rw [List.map_cons, Assignment.applyAll, apply_setting hnew]
    simpa using ih hothers

end Tables

theorem parse_settings {settings : List Setting} (hplain : ∀ s ∈ settings, s.Plain)
    (hnames : (settings.map Setting.name).Nodup) :
    parse? (settings.flatMap Setting.written) = some (settings.map Setting.entry) := by
  have hentries : (many entry).Takes (settings.flatMap Setting.written) (settings.map Setting.assignment) [] :=
    takes_many (fun s hs => ⟨by simp [Setting.written], takes_entry (hplain s hs)⟩) entry_nil
  have hroot : Assignment.applyAll (settings.map Setting.assignment) [] = some (settings.map Setting.entry) :=
    applyAll_settings hnames
  refine readAll?_of_takes (.silent_bind (takes_optional_none (char_eq_none ?_)) (.bind_silent hentries
    (.silent_bind (takes_many_nil headed_nil) (.silent_bind takes_no_emptyLine (.silent_bind lineEnd_nil ?_)))))
  · intro hmark
    cases settings with
    | nil => cases hmark
    | cons s others =>
      rw [List.flatMap_cons, List.append_nil] at hmark
      have hbare := head_setting (hplain s List.mem_cons_self) hmark
      rw [not_bare (by decide)] at hbare
      cases hbare
  · simp only [hroot]
    exact takes_pure _ _

end EditableText.Toml
