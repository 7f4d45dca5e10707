import EditableText.Proofs.Document.Blocks

namespace EditableText

def DocumentEvent.newLineCount? : DocumentEvent → Option Nat
  | lineCountChanged _ new => some new
  | _ => none

def lineCountTold (first : Nat) (log : List Notice) : Nat :=
  (log.filterMap (·.event.newLineCount?)).getLast?.getD first

lemma lineCountTold_append (first : Nat) (a b : List Notice) :
    lineCountTold first (a ++ b) = lineCountTold (lineCountTold first a) b := by
  rw [lineCountTold, List.filterMap_append, List.getLast?_append]
  cases hb : (b.filterMap (·.event.newLineCount?)).getLast? <;> simp [lineCountTold, hb]

lemma lineCountTold_eq_first {log : List Notice} (h : ∀ n ∈ log, n.event.newLineCount? = none)
    (first : Nat) : lineCountTold first log = first := by
  rw [lineCountTold, List.filterMap_eq_nil_iff.mpr h]
  rfl

lemma Changes.lineCountTold {log : List Notice} (h : Changes log) (first : Nat) :
    lineCountTold first log = first := by
  refine lineCountTold_eq_first ?_ first
  induction h with
  | none => simp
  | next hd _ ih =>
    simp only [List.mem_cons, List.mem_append]
    rintro n (rfl | rfl | hn | hn)
    · rfl
    · rfl
    · have hevent : n.event ∈ _ := List.mem_map_of_mem hn
      rw [hd] at hevent
      obtain ⟨id, -, hid⟩ := List.mem_map.mp hevent
      rw [← hid]
      rfl
    · exact ih n hn

namespace Document

variable {doc mid after : Document} {log : List Notice} {deeds : List (Deed × List Delivery)}

lemma lineCountTold_closing {closing : List Notice} {old new : Nat} {changed : Bool}
    (h : closing.map (·.event) = closingEvents old new changed) : lineCountTold old closing = new := by
  have htold : closing.filterMap (·.event.newLineCount?) =
      (closingEvents old new changed).filterMap DocumentEvent.newLineCount? := by
    rw [← h, List.filterMap_map]
    rfl
  rw [lineCountTold, htold, closingEvents]
  by_cases hsame : old = new
  · rw [if_neg (not_not.mpr hsame), hsame]
    cases changed <;> rfl
  · rw [if_pos hsame]
    cases changed <;> rfl

lemma isOfChange_closing {old new : Nat} {changed : Bool} :
    ∀ event ∈ closingEvents old new changed, event.isOfChange = false := by
  intro event h
  unfold closingEvents at h
  split_ifs at h <;> simp at h <;> grind [DocumentEvent.isOfChange]

namespace Faithful

lemma split {told later : List Notice} {n : Notice} (h : Faithful doc (told ++ n :: later) after)
    (hn : n.event.isOfChange = false) : Faithful doc told n.seen ∧ Faithful n.seen (n :: later) after := by
  cases h.place rfl with
  | other _ htold hlater => exact ⟨htold, .other hn (.refl _) hlater⟩
  | changing => cases hn
  | changed => cases hn

lemma split_block {told block : List Notice} (h : Faithful doc (told ++ block) after) (hb : Block block) :
    ∃ mid, Faithful doc told mid ∧ Faithful mid block after := by
  obtain ⟨-, -, -⟩ := hb
  exact ⟨_, h.split rfl⟩

lemma lineCount_block (h : Faithful doc log after) (hb : Block log) :
    after.lineCount = lineCountTold doc.lineCount log := by
  obtain ⟨hc, hclosing, hseen⟩ := hb
  rename_i start changes closing lineCount
  have htold : lineCountTold doc.lineCount (⟨.updateStarted, start⟩ :: (changes ++ closing)) = lineCount := by
    obtain ⟨hfirst, -⟩ := (show Faithful doc ([] ++ _ :: _) after from h).split rfl
    cases hfirst with
    | nil hstart =>
      have hstarted : lineCountTold doc.lineCount [⟨.updateStarted, start⟩] = start.lineCount :=
        hstart.lineCount_eq.symm
      rw [← List.singleton_append, lineCountTold_append, lineCountTold_append, hstarted, hc.lineCountTold,
        lineCountTold_closing hclosing]
  rw [htold]
  -- the document is still the one that is seen at the last notice of the block
  obtain rfl | ⟨rest, last, rfl⟩ := List.eq_nil_or_concat closing
  · simp [closingEvents] at hclosing
  · have hevent : last.event ∈ (rest.concat last).map (·.event) := List.mem_map_of_mem (by simp)
    have hwhole : Faithful doc ((⟨.updateStarted, start⟩ :: (changes ++ rest)) ++ last :: []) after := by
      simpa using h
    obtain ⟨-, hlast⟩ := hwhole.split (isOfChange_closing _ (hclosing ▸ hevent))
    rw [← hseen last (by simp)]
    cases hlast with
    | other _ _ hrest =>
      cases hrest with
      | nil hsame => exact hsame.lineCount_eq

lemma lineCount_blocks {n k : Nat} (h : Faithful doc log after) (hb : Blocks n k log) (hk : k = 0) :
    after.lineCount = lineCountTold doc.lineCount log := by
  induction hb generalizing after with
  | none =>
    cases h with
    | nil hsame => exact hsame.lineCount_eq
  | block _ hblock ih =>
    obtain ⟨mid, htold, hrest⟩ := h.split_block hblock
    rw [lineCountTold_append, ← ih htold hk]
    exact hrest.lineCount_block hblock
  | replaced _ hblock seen ih =>
    rw [← List.append_assoc] at h ⊢
    obtain ⟨hbefore, hreplaced⟩ := h.split rfl
    obtain ⟨mid, htold, hrest⟩ := hbefore.split_block hblock
    rw [lineCountTold_append, lineCountTold_append, ← ih htold hk, ← hrest.lineCount_block hblock]
    cases hreplaced with
    | other _ _ hrest =>
      cases hrest with
      | nil hsame => exact hsame.lineCount_eq
  | cut => cases hk

end Faithful

open Call

variable {start : Document} {t : Text} {options : DocumentOptions}

lemma Shows.lines_eq {c : Change} {before changed : Document} (h : Shows c before changed) :
    changed.lines.lines = (LineTable.ofText changed.text before.options.lineBreaks).lines :=
  h.options ▸ h.stays.lines_eq

lemma Shows.live_le {c : Change} {before changed : Document} (h : Shows c before changed) :
    ∀ a ∈ changed.anchors.live, a.offset ≤ changed.textLength :=
  fun _ ha => h.stays.textLength_eq ▸ h.stays.anchors.of_mem_live ha

/-- What observers can make out from what they are told on a path. -/
structure Rebuilt (doc : Document) (deeds : List (Deed × List Delivery)) (log : List Notice)
    (after : Document) : Prop where
  heard {token : Nat} (hl : Listening token doc deeds) : heardBy token deeds = log
  sent : after.bus.sent.toList = doc.bus.sent.toList ++ log.map (·.notification doc.id)
  received {handler : Nat} (h : Abreast handler doc deeds after) :
    deeds.flatMap (·.1.receivedBy handler) ++ after.bus.unread handler =
      doc.bus.unread handler ++ log.map (·.notification doc.id)
  changing {told later : List Notice} {c : Change} {seen : Document}
    (h : log = told ++ ⟨.changing c, seen⟩ :: later) :
    seen.slice c.offset c.removed.length = .ok c.removed ∧
      ∃ changed rest, later = ⟨.changed c, changed⟩ :: rest
  changed {told later : List Notice} {c : Change} {seen : Document}
    (h : log = told ++ ⟨.changed c, seen⟩ :: later) :
    ∃ before rest, told = rest ++ [⟨.changing c, before⟩] ∧
      seen.text = before.text.splice c.offset c.removed.length c.inserted ∧
      seen.lines.lines = (LineTable.ofText seen.text doc.options.lineBreaks).lines ∧
      seen.anchors = (before.anchors.follow c.map seen.text.length).2 ∧
      (∀ a ∈ seen.anchors.live, a.offset ≤ seen.textLength) ∧ seen.version = before.version + 1
  shown {told later : List Notice} {n : Notice} (h : log = told ++ n :: later) :
    n.seen.text = Change.applyAll (changesIn (told ++ [n])) doc.text ∧
      n.seen.version = doc.version + (changesIn (told ++ [n])).length
  text : after.text = Change.applyAll (changesIn log) doc.text
  version : after.version = doc.version + (changesIn log).length
  lineCount (hd : doc.updateDepth = 0) (hafter : after.updateDepth = 0) :
    ∃ cuts ≤ deeds.countP (·.1.fails),
      (log.map (·.event)).count .updateStarted = (log.map (·.event)).count .updateFinished + cuts ∧
      (cuts = 0 → after.lineCount = lineCountTold doc.lineCount log)

lemma Observed.rebuilt (h : Observed doc deeds log after) (hs : doc.Sound) : Rebuilt doc deeds log after where
  heard := h.heard
  sent := h.sent
  received ha := by
    obtain ⟨sent, hsent, hreceived⟩ := ha.received hs
    rw [hreceived, ← List.append_cancel_left (hsent.symm.trans h.sent)]
  changing hlog := by
    cases h.faithful.place hlog with
    | other hn => cases hn
    | changing _ hc => exact ⟨hc.slice_eq, _, _, rfl⟩
  changed hlog := by
    cases h.faithful.place hlog with
    | other hn => cases hn
    | changed hbefore hc =>
      exact ⟨_, _, rfl, hc.text, hbefore.options_eq ▸ hc.lines_eq, hc.anchors, hc.live_le, hc.version⟩
  shown hlog := (h.faithful.place hlog).shown
  text := h.faithful.text_eq
  version := h.faithful.version_eq
  lineCount hd hafter := by
    obtain ⟨cuts, hcuts, hheard⟩ := h.blocks hd
    cases hheard with
    | closed _ hblocks =>
      exact ⟨cuts, hcuts, hblocks.count_updateStarted, h.faithful.lineCount_blocks hblocks⟩
    | opened hopen => exact absurd hafter (Nat.ne_of_gt hopen)

lemma admits_lives (A : Prop) : Admits Simple A fun deed => ¬ A → deed.fails = false where
  simple hc := hc
  call _ _ _ := rfl
  beginUpdate _ _ := rfl
  endUpdate _ _ := rfl
  unwind ha hnot := absurd ha hnot

lemma starts_ofText (h : ofText? t options = some doc) :
    doc.text = t ∧ doc.version = 0 ∧ doc.listeners = [] ∧ doc.bus.sent = #[] := by
  have htext := text_ofText h
  obtain ⟨bus, hbus, hok⟩ := Option.bind_eq_some_iff.mp h
  obtain rfl := Option.some.inj hok
  rw [Bus.create?] at hbus
  split at hbus
  · obtain rfl := Option.some.inj hbus
    exact ⟨htext, rfl, rfl, rfl⟩
  · cases hbus

end Document

end EditableText
