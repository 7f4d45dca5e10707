import EditableText.Options.Config
import EditableText.Proofs.Except
import EditableText.Proofs.Toml.Settings

namespace EditableText

section Codecs

variable {α : Type} {all : List α} {name : α → String} {a : α}

lemma Codec.decode?_named (hmem : a ∈ all) (hname : ∀ b ∈ all, name b = name a → b = a) :
    (Codec.named all name).decode? ((Codec.named all name).encode a) = some a := by
  have hfound : ((Codec.named all name).encode a).alternative? = some (name a) :=
    congrArg some String.ofList_toList
  change ((Codec.named all name).encode a).alternative? >>= _ = _
  rw [hfound, Option.bind_eq_bind, Option.bind_some]
  cases hfind : all.find? fun b => name b == name a with
  | none => simpa using List.find?_eq_none.mp hfind a hmem
  | some b => rw [hname b (List.mem_of_find?_eq_some hfind) (by simpa using List.find?_some hfind)]

lemma Codec.decode?_nat {n : Nat} (h : n < 1 <<< 64) : Codec.nat.decode? (Codec.nat.encode n) = some n :=
  if_pos ⟨Int.natCast_nonneg n, h⟩

lemma StoredValue.presentFields?_zip {names : List String} {values : List StoredValue} (hnames : names.Nodup)
    (hlength : values.length = names.length) :
    (record (names.zip values)).presentFields? names = some (values.map some) := by
  refine congrArg some ?_
  induction names generalizing values with
  | nil => simpa using hlength
  | cons name names ih =>
    obtain _ | ⟨value, values⟩ := values
    · cases hlength
    obtain ⟨hnew, hnames⟩ := List.nodup_cons.mp hnames
    have hpast (other : String) (hother : other ∈ names) :
        ((name, value) :: names.zip values).lookup other = (names.zip values).lookup other := by
      rw [List.lookup_cons, beq_false_of_ne (ne_of_mem_of_not_mem hother hnew)]
    rw [List.zip_cons_cons, List.map_cons, List.map_cons, List.map_congr_left hpast,
      ih hnames (by simpa using hlength), List.lookup_cons_self]

end Codecs

namespace DocumentOptions

open Toml Toml.Document

variable (o : DocumentOptions)

def leaves : List Leaf :=
  [.string (.ofString o.buffer.name), .string (.ofString o.lineEnding.name), .string (.ofString o.lineBreaks.name),
    .integer o.undoLimit, .integer o.eventCapacity]

def settings : List Setting := fieldNames.zipWith (fun name leaf => ⟨.ofString name, leaf⟩) o.leaves

section Writing

lemma ofString_quotedLine (name value : String) :
    Text.ofString (quotedLine name value) = Setting.written ⟨.ofString name, .string (.ofString value)⟩ := by
  simp [quotedLine, Setting.written, Leaf.written, Text.ofString]

lemma numberLine?_eq_ok {name s : String} {n : Nat} (h : numberLine? name n = .ok s) :
    n ≤ maxInteger ∧ Text.ofString s = Setting.written ⟨.ofString name, .integer n⟩ := by
  rw [numberLine?] at h
  split at h
  · obtain rfl := Except.ok.inj h
    refine ⟨‹_›, ?_⟩
    simp [Setting.written, Leaf.written, Text.ofString]
  · cases h

lemma exists_numberLine? (name : String) {n : Nat} (h : n ≤ maxInteger) : ∃ s, numberLine? name n = .ok s :=
  ⟨_, if_pos h⟩

lemma ofString_append (s t : String) : Text.ofString (s ++ t) = .ofString s ++ .ofString t := String.toList_append

variable {o}

lemma exists_toToml? (hundo : o.undoLimit ≤ maxInteger) (hcapacity : o.eventCapacity ≤ maxInteger) :
    ∃ s, o.toToml? = .ok s := by
  obtain ⟨limit, hlimit⟩ := exists_numberLine? "undo_limit" hundo
  obtain ⟨capacity, hcapacity⟩ := exists_numberLine? "event_capacity" hcapacity
  rw [toToml?, hlimit, hcapacity]
  exact ⟨_, rfl⟩

lemma toToml?_eq_ok {s : String} (h : o.toToml? = .ok s) :
    (o.undoLimit ≤ maxInteger ∧ o.eventCapacity ≤ maxInteger) ∧
      Text.ofString s = o.settings.flatMap Setting.written := by
  obtain ⟨limit, hlimit, h⟩ := exists_of_bind_eq_ok h
  obtain ⟨capacity, hcapacity, h⟩ := exists_of_bind_eq_ok h
  obtain rfl := Except.ok.inj h
  obtain ⟨hundo, hlimit⟩ := numberLine?_eq_ok hlimit
  obtain ⟨hevents, hcapacity⟩ := numberLine?_eq_ok hcapacity
  refine ⟨⟨hundo, hevents⟩, ?_⟩
  simp [ofString_append, ofString_quotedLine, hlimit, hcapacity, settings, leaves, fieldNames]

end Writing

section Reading

variable {o}

lemma settings_plain (hundo : o.undoLimit ≤ maxInteger) (hcapacity : o.eventCapacity ≤ maxInteger) :
    ∀ s ∈ o.settings, s.Plain := by
  have hname : ∀ name ∈ fieldNames, Text.ofString name ≠ [] ∧ (Text.ofString name).all isBareKeyChar = true := by
    decide
  have hleaf : ∀ leaf ∈ o.leaves, leaf.Plain := by
    have hbuffer : (Leaf.string (.ofString o.buffer.name)).Plain :=
      Leaf.plain_string (by cases o.buffer <;> decide)
    have hending : (Leaf.string (.ofString o.lineEnding.name)).Plain :=
      Leaf.plain_string (by cases o.lineEnding <;> decide)
    have hbreaks : (Leaf.string (.ofString o.lineBreaks.name)).Plain :=
      Leaf.plain_string (by cases o.lineBreaks <;> decide)
    have hnumber {n : Nat} (h : n ≤ maxInteger) : (Leaf.integer n).Plain := Nat.lt_succ_of_le h
    simp [leaves, hbuffer, hending, hbreaks, hnumber hundo, hnumber hcapacity]
  intro s hs
  obtain ⟨i, hi, rfl⟩ := List.getElem_of_mem hs
  simp only [settings, List.getElem_zipWith]
  obtain ⟨hne, hbare⟩ := hname _ (List.getElem_mem _)
  exact ⟨hne, List.all_eq_true.mp hbare, hleaf _ (List.getElem_mem _)⟩

lemma names_nodup : (o.settings.map Setting.name).Nodup := by
  have hnames : o.settings.map Setting.name = fieldNames.map Text.ofString := rfl
  rw [hnames]
  decide

lemma record_settings : .record (entriesToStored (o.settings.map Setting.entry)) = codec.encode o := by
  simp [settings, leaves, fieldNames, codec, entriesToStored, toStored, Setting.entry, Leaf.value, Text.toString,
    Text.ofString, BufferStrategy.codec, LineEnding.codec, LineBreaks.codec, Codec.named, Codec.nat, Codec.word]

lemma decode?_encode (hundo : o.undoLimit < 1 <<< 64) (hcapacity : o.eventCapacity < 1 <<< 64) :
    codec.decode? (codec.encode o) = some o := by
  have hbuffer : BufferStrategy.codec.decode? (BufferStrategy.codec.encode o.buffer) = some o.buffer :=
    Codec.decode?_named (by cases o.buffer <;> decide) (by cases o.buffer <;> decide)
  have hending : LineEnding.codec.decode? (LineEnding.codec.encode o.lineEnding) = some o.lineEnding :=
    Codec.decode?_named (by cases o.lineEnding <;> decide) (by cases o.lineEnding <;> decide)
  have hbreaks : LineBreaks.codec.decode? (LineBreaks.codec.encode o.lineBreaks) = some o.lineBreaks :=
    Codec.decode?_named (by cases o.lineBreaks <;> decide) (by cases o.lineBreaks <;> decide)
  have hpresent : (codec.encode o).presentFields? fieldNames =
      some ([BufferStrategy.codec.encode o.buffer, LineEnding.codec.encode o.lineEnding,
        LineBreaks.codec.encode o.lineBreaks, Codec.nat.encode o.undoLimit,
        Codec.nat.encode o.eventCapacity].map some) := StoredValue.presentFields?_zip (by decide) rfl
  change (codec.encode o).presentFields? fieldNames >>= _ = some o
  rw [hpresent]
  simp [hbuffer, hending, hbreaks, Codec.decode?_nat hundo, Codec.decode?_nat hcapacity]

end Reading

/-- Options are written exactly if both numbers fit into 64 bits with a sign, and what is written has the table
that the codec stores and is read back as the same options. -/
theorem survive_saving :
    ((∃ s, o.toToml? = .ok s) ↔ o.undoLimit ≤ 2 ^ 63 - 1 ∧ o.eventCapacity ≤ 2 ^ 63 - 1) ∧
      ∀ s, o.toToml? = .ok s →
        (∃ root, parse? (.ofString s) = some root ∧ .record (entriesToStored root) = codec.encode o) ∧
          ofToml? (.ofString s) = .ok o := by
  refine ⟨⟨fun ⟨s, hs⟩ => (toToml?_eq_ok hs).1, fun h => exists_toToml? h.1 h.2⟩, fun s hs => ?_⟩
  obtain ⟨⟨hundo, hcapacity⟩, hwritten⟩ := toToml?_eq_ok hs
  have hword {n : Nat} (h : n ≤ maxInteger) : n < 1 <<< 64 := h.trans_lt (by decide)
  have hparse : parse? (.ofString s) = some (o.settings.map Setting.entry) := by
    rw [hwritten]
    exact parse_settings (settings_plain hundo hcapacity) names_nodup
  refine ⟨⟨_, hparse, record_settings⟩, ?_⟩
  simp [ofToml?, hparse, record_settings, decode?_encode (hword hundo) (hword hcapacity)]

theorem survive_saving_at_limit :
    ∃ s, toToml? ⟨.gap, .crlf, .crlfOrLf, 2 ^ 63 - 1, 0⟩ = .ok s ∧
      ofToml? (.ofString s) = .ok ⟨.gap, .crlf, .crlfOrLf, 2 ^ 63 - 1, 0⟩ := by
  obtain ⟨hwritten, hread⟩ := survive_saving ⟨.gap, .crlf, .crlfOrLf, 2 ^ 63 - 1, 0⟩
  obtain ⟨s, hs⟩ := hwritten.mpr ⟨le_refl _, by decide⟩
  exact ⟨s, hs, (hread s hs).2⟩

end DocumentOptions

end EditableText
