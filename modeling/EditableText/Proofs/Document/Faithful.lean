import EditableText.Proofs.Document.Coherence
import EditableText.Proofs.Document.Telling

namespace EditableText

namespace DocumentEvent

def isOfChange : DocumentEvent → Bool
  | changing _ | changed _ => true
  | _ => false

def changed? : DocumentEvent → Option Change
  | changed c => some c
  | _ => none

end DocumentEvent

def changesIn (log : List Notice) : List Change := log.filterMap (·.event.changed?)

lemma changesIn_nil : changesIn [] = [] := rfl

lemma changesIn_append (a b : List Notice) : changesIn (a ++ b) = changesIn a ++ changesIn b :=
  List.filterMap_append

lemma changesIn_cons_other {n : Notice} (h : n.event.isOfChange = false) (rest : List Notice) :
    changesIn (n :: rest) = changesIn rest := by
  refine List.filterMap_cons_none ?_
  cases hevent : n.event <;> simp_all [DocumentEvent.isOfChange, DocumentEvent.changed?]

namespace Document

variable {doc mid after : Document} {log log' : List Notice} {c : Change}

structure SameContent (doc after : Document) : Prop where
  storage : after.storage = doc.storage
  lines : after.lines = doc.lines
  version : after.version = doc.version
  options : after.options = doc.options

namespace SameContent

lemma refl (doc : Document) : doc.SameContent doc := ⟨rfl, rfl, rfl, rfl⟩

lemma trans (h : doc.SameContent mid) (h' : mid.SameContent after) : doc.SameContent after :=
  ⟨h'.storage.trans h.storage, h'.lines.trans h.lines, h'.version.trans h.version, h'.options.trans h.options⟩

lemma symm (h : doc.SameContent after) : after.SameContent doc :=
  ⟨h.storage.symm, h.lines.symm, h.version.symm, h.options.symm⟩

lemma text_eq (h : doc.SameContent after) : after.text = doc.text := by
  rw [text, text, h.storage]

lemma lineCount_eq (h : doc.SameContent after) : after.lineCount = doc.lineCount := by
  rw [lineCount, lineCount, h.lines]

end SameContent

lemma Told.sameContent (h : doc.Told log after) : doc.SameContent after := by
  obtain ⟨_, -, rfl⟩ := h
  exact ⟨rfl, rfl, rfl, rfl⟩

/-- The document as it is seen before a change, and as it is seen when the change is made and recorded. -/
structure Shows (c : Change) (before changed : Document) : Prop where
  fits : c.Fits before.text
  coherent : before.Coherent
  recorded : before.history.push c = .ok changed.history
  text : changed.text = c.apply before.text
  version : changed.version = before.version + 1
  anchors : changed.anchors = (before.anchors.follow c.map changed.text.length).2
  options : changed.options = before.options
  stays : changed.Coherent

namespace Shows

variable {before changed : Document}

lemma slice_eq (h : Shows c before changed) : before.slice c.offset c.removed.length = .ok c.removed := by
  have hrange := checkRange_eq_ok.mpr h.fits.le_length
  obtain ⟨front, back, htext, hlen⟩ := h.fits
  rw [htext] at hrange
  rw [slice, h.coherent.storage.reads.slice_eq, ← h.coherent.text_eq, htext, Text.slice, hrange, ← hlen,
    List.drop_left, List.take_left]
  rfl

lemma mutate_ok (h : Shows c before changed) : ∃ deleted mutated,
    (before.tell (.changing c)).mutate c = .ok (deleted, mutated) ∧
      mutated.history.push c = .ok changed.history := by
  have hcoherent : (before.tell (.changing c)).Coherent :=
    h.coherent.congr rfl
  obtain ⟨storage, lines, hmutate, -⟩ := hcoherent.mutate_eq h.fits.le_length
  exact ⟨_, _, hmutate, h.recorded⟩

end Shows

inductive Faithful : Document → List Notice → Document → Prop
  | nil {doc after : Document} (h : doc.SameContent after) : Faithful doc [] after
  | other {doc after : Document} {n : Notice} {rest : List Notice} (hn : n.event.isOfChange = false)
    (h : doc.SameContent n.seen) (hrest : Faithful n.seen rest after) : Faithful doc (n :: rest) after
  | change {c : Change} {doc before changed after : Document} {rest : List Notice}
    (h : doc.SameContent before) (hc : Shows c before changed) (hrest : Faithful changed rest after) :
    Faithful doc (⟨.changing c, before⟩ :: ⟨.changed c, changed⟩ :: rest) after

namespace Faithful

lemma of_sameContent (h : doc.SameContent mid) (hf : Faithful mid log after) : Faithful doc log after := by
  cases hf with
  | nil h' => exact .nil (h.trans h')
  | other hn h' hrest => exact .other hn (h.trans h') hrest
  | change h' hc hrest => exact .change (h.trans h') hc hrest

lemma trans (h : Faithful doc log mid) (h' : Faithful mid log' after) : Faithful doc (log ++ log') after := by
  induction h with
  | nil h => exact of_sameContent h h'
  | other hn h _ ih => exact .other hn h (ih h')
  | change h hc _ ih => exact .change h hc (ih h')

lemma to_sameContent (hf : Faithful doc log mid) (h : mid.SameContent after) : Faithful doc log after :=
  List.append_nil log ▸ hf.trans (.nil h)

lemma of_still (hlog : ∀ n ∈ log, n.event.isOfChange = false ∧ doc.SameContent n.seen)
    (h : doc.SameContent after) : Faithful doc log after := by
  induction log generalizing doc with
  | nil => exact .nil h
  | cons n rest ih =>
    obtain ⟨hn, hseen⟩ := hlog n List.mem_cons_self
    refine .other hn hseen (ih (fun m hm => ?_) (hseen.symm.trans h))
    obtain ⟨hm, hseen'⟩ := hlog m (List.mem_cons_of_mem _ hm)
    exact ⟨hm, hseen.symm.trans hseen'⟩

lemma text_eq (h : Faithful doc log after) : after.text = Change.applyAll (changesIn log) doc.text := by
  induction h with
  | nil h => exact h.text_eq
  | other hn h _ ih => rw [ih, changesIn_cons_other hn, h.text_eq]
  | change h hc _ ih =>
    rw [ih, hc.text, h.text_eq]
    rfl

lemma version_eq (h : Faithful doc log after) : after.version = doc.version + (changesIn log).length := by
  induction h with
  | nil h => exact h.version
  | other hn h _ ih => rw [ih, changesIn_cons_other hn, h.version]
  | change h hc _ ih =>
    rw [ih, hc.version, h.version, Nat.add_assoc, Nat.add_comm 1]
    rfl

lemma options_eq (h : Faithful doc log after) : after.options = doc.options := by
  induction h with
  | nil h => exact h.options
  | other _ h _ ih => exact ih.trans h.options
  | change h hc _ ih => exact ih.trans (hc.options.trans h.options)

inductive Place (doc after : Document) : List Notice → Notice → List Notice → Prop
  | other {told later : List Notice} {n : Notice} (hn : n.event.isOfChange = false)
    (h : Faithful doc told n.seen) (hrest : Faithful n.seen later after) : Place doc after told n later
  | changing {told later : List Notice} {c : Change} {before changed : Document}
    (h : Faithful doc told before) (hc : Shows c before changed) (hrest : Faithful changed later after) :
    Place doc after told ⟨.changing c, before⟩ (⟨.changed c, changed⟩ :: later)
  | changed {told later : List Notice} {c : Change} {before changed : Document}
    (h : Faithful doc told before) (hc : Shows c before changed) (hrest : Faithful changed later after) :
    Place doc after (told ++ [⟨.changing c, before⟩]) ⟨.changed c, changed⟩ later

lemma Place.of_faithful {told later : List Notice} {n : Notice} (h : Faithful doc log mid)
    (hp : Place mid after told n later) : Place doc after (log ++ told) n later := by
  cases hp with
  | other hn h' hrest => exact .other hn (h.trans h') hrest
  | changing h' hc hrest => exact .changing (h.trans h') hc hrest
  | changed h' hc hrest => exact List.append_assoc .. ▸ .changed (h.trans h') hc hrest

lemma Place.shown {told later : List Notice} {n : Notice} (h : Place doc after told n later) :
    n.seen.text = Change.applyAll (changesIn (told ++ [n])) doc.text ∧
      n.seen.version = doc.version + (changesIn (told ++ [n])).length := by
  cases h with
  | other hn h =>
    rw [changesIn_append, changesIn_cons_other hn, changesIn_nil, List.append_nil]
    exact ⟨h.text_eq, h.version_eq⟩
  | changing h =>
    rw [changesIn_append, show changesIn [_] = [] from rfl, List.append_nil]
    exact ⟨h.text_eq, h.version_eq⟩
  | changed h hc =>
    have hall := h.trans (.change (.refl _) hc (.nil (.refl _)))
    rw [List.append_assoc]
    exact ⟨hall.text_eq, hall.version_eq⟩

lemma place (h : Faithful doc log after) {told later : List Notice} {n : Notice}
    (hlog : log = told ++ n :: later) : Place doc after told n later := by
  induction h generalizing told with
  | nil => simp at hlog
  | other hm h hrest ih =>
    cases told with
    | nil =>
      obtain ⟨rfl, rfl⟩ := List.cons.inj hlog
      exact .other hm (.nil h) hrest
    | cons m told =>
      obtain ⟨rfl, hlater⟩ := List.cons.inj hlog
      exact (ih hlater).of_faithful (.other hm h (.nil (.refl _)))
  | change h hc hrest ih =>
    match told with
    | [] =>
      obtain ⟨rfl, rfl⟩ := List.cons.inj hlog
      exact .changing (.nil h) hc hrest
    | [m] =>
      simp only [List.singleton_append, List.cons.injEq] at hlog
      obtain ⟨rfl, rfl, rfl⟩ := hlog
      exact show Place _ _ ([] ++ [_]) _ _ from .changed (.nil h) hc hrest
    | m :: m' :: told =>
      simp only [List.cons_append, List.cons.injEq] at hlog
      obtain ⟨rfl, rfl, hlater⟩ := hlog
      exact (ih hlater).of_faithful (.change h hc (.nil (.refl _)))

end Faithful

end Document

end EditableText
