import EditableText.Proofs.Anchor.Table
import EditableText.Proofs.Document.Directions
import EditableText.Proofs.History
import EditableText.Proofs.Lines.Rescan
import EditableText.Proofs.Storage

namespace EditableText

namespace Document

/-- The text, the lines and the anchors belong together, and so do the lengths in every change that
the history may hand out. -/
structure Coherent (doc : Document) : Prop where
  storage : doc.storage.WellFormed
  lines : doc.lines.Describes doc.storage.content
  breaks : doc.lines.breaks = doc.options.lineBreaks
  anchors : doc.anchors.Within doc.storage.content.length
  history : doc.history.OfChanges Change.Balanced

structure AtRest (doc : Document) : Prop extends Coherent doc where
  inChange : doc.inChange = false

def core (doc : Document) : Storage × LineTable × DocumentOptions × AnchorTable × History :=
  (doc.storage, doc.lines, doc.options, doc.anchors, doc.history)

variable {doc after : Document} {c : Change}

namespace Coherent

lemma congr (h : doc.Coherent) (hcore : after.core = doc.core) : after.Coherent := by
  simp only [core, Prod.mk.injEq] at hcore
  obtain ⟨hstorage, hlines, hoptions, hanchors, hhistory⟩ := hcore
  refine ⟨hstorage ▸ h.storage, ?_, ?_, ?_, hhistory ▸ h.history⟩
  · rw [hlines, hstorage]
    exact h.lines
  · rw [hlines, hoptions]
    exact h.breaks
  · rw [hanchors, hstorage]
    exact h.anchors

lemma text_eq (h : doc.Coherent) : doc.text = doc.storage.content := h.storage.reads.text_eq

lemma textLength_eq (h : doc.Coherent) : doc.textLength = doc.storage.content.length :=
  h.storage.reads.length_eq

lemma lines_eq (h : doc.Coherent) :
    doc.lines.lines = (LineTable.ofText doc.text doc.options.lineBreaks).lines := by
  rw [h.text_eq, ← h.breaks]
  exact h.lines.lines_eq

lemma location (h : doc.Coherent) {offset : Nat} (ho : offset ≤ doc.storage.content.length) :
    ∃ location, doc.lines.locationOf offset = .ok location := by
  obtain ⟨k, entry, -, hplace, -⟩ := h.lines.place?_eq ho
  have hcheck : checkOffset offset doc.lines.textLength = .ok () := by
    rw [checkOffset_eq_ok, h.lines.textLength_eq]
    exact ho
  rw [LineTable.locationOf, LineTable.lineAt, hcheck, hplace]
  exact ⟨_, rfl⟩

lemma slice_eq (h : doc.Coherent) {offset length : Nat} (hrange : offset + length ≤ doc.textLength) :
    doc.slice offset length = .ok ((doc.text.drop offset).take length) := by
  rw [h.textLength_eq] at hrange
  rw [Document.slice, h.storage.reads.slice_eq, h.text_eq, Text.slice, checkRange_eq_ok.mpr hrange]
  rfl

lemma fits_of_withMap (h : doc.Coherent) {offset length : Nat} {t : Text} {map : OffsetMap}
    (hrange : offset + length ≤ doc.textLength)
    (hok : Change.withMap offset ((doc.text.drop offset).take length) t map = .ok c) : c.Fits doc.text := by
  obtain ⟨-, rfl⟩ := Change.withMap_eq_ok hok
  rw [h.textLength_eq, ← h.text_eq] at hrange
  have hlength := Text.length_take_drop hrange
  exact Change.fits_of_slice (by rwa [hlength]) (by rw [hlength])

lemma mutate_eq (h : doc.Coherent) (hc : c.offset + c.removed.length ≤ doc.text.length) :
    ∃ storage lines, doc.mutate c =
        .ok ((doc.anchors.follow c.map (c.apply doc.text).length).1,
          { doc with
            storage, lines
            anchors := (doc.anchors.follow c.map (c.apply doc.text).length).2
            version := doc.version + 1 }) ∧
      storage.WellFormed ∧ storage.content = c.apply doc.text ∧
      lines.Describes (c.apply doc.text) ∧ lines.breaks = doc.lines.breaks := by
  rw [h.text_eq] at hc ⊢
  obtain ⟨cut, hcut, hcutWf, hcutContent⟩ := h.storage.remove hc
  have hinside : c.offset ≤ cut.content.length := by
    rw [hcutContent, Text.length_splice hc]
    simp
    omega
  obtain ⟨storage, hinsert, hwf, hcontent⟩ := hcutWf.insert hinside c.inserted
  rw [hcutContent, Change.splice_remove_insert hc] at hcontent
  have hreads : TextSource.Reads storage (c.apply doc.storage.content) := hcontent ▸ hwf.reads
  obtain ⟨_, lines, -, -, hlines, hbreaks, hdescribes⟩ := h.lines.applyEdit_eq hc hreads
  refine ⟨storage, lines, ?_, hwf, hcontent, hdescribes, hbreaks⟩
  simp only [mutate, hcut, hinsert, hlines, hwf.reads.length_eq, hcontent, bind, Except.bind, pure,
    Except.pure]

lemma mutate_eq_error (h : doc.Coherent) (hc : doc.text.length < c.offset + c.removed.length) :
    doc.mutate c = .error (.rangeOutOfRange c.offset c.removed.length doc.text.length) := by
  rw [h.text_eq] at hc ⊢
  rw [mutate, h.storage.remove_eq_error hc]
  rfl

lemma mutate (h : doc.Coherent) (hc : c.Balanced) {deleted : List AnchorId}
    (hafter : doc.mutate c = .ok (deleted, after)) : after.Coherent := by
  by_cases hfits : c.offset + c.removed.length ≤ doc.text.length
  · obtain ⟨storage, lines, hok, hwf, hcontent, hlines, hbreaks⟩ := h.mutate_eq hfits
    rw [hok] at hafter
    obtain ⟨-, rfl⟩ := Prod.mk.inj (Except.ok.inj hafter)
    refine ⟨hwf, hcontent ▸ hlines, hbreaks.trans h.breaks, ?_, h.history⟩
    dsimp only
    rw [hcontent]
    refine h.anchors.follow fun hmap => ?_
    rw [hc.length_apply hfits hmap, h.text_eq]
  · rw [h.mutate_eq_error (Nat.not_le.mp hfits)] at hafter
    cases hafter

lemma withHistory (h : doc.Coherent) {history : History} (hh : history.OfChanges Change.Balanced) :
    ({ doc with history } : Document).Coherent :=
  ⟨h.storage, h.lines, h.breaks, h.anchors, hh⟩

lemma withAnchors (h : doc.Coherent) {anchors : AnchorTable}
    (ha : anchors.Within doc.storage.content.length) : ({ doc with anchors } : Document).Coherent :=
  ⟨h.storage, h.lines, h.breaks, ha, h.history⟩

end Coherent

lemma atRest_ofText {t : Text} {options : DocumentOptions} (h : ofText? t options = some doc) :
    doc.AtRest := by
  obtain ⟨bus, -, hok⟩ := Option.bind_eq_some_iff.mp h
  obtain rfl := Option.some.inj hok
  have hcontent := Storage.content_ofText t options.buffer
  exact
    { storage := Storage.wellFormed_ofText t options.buffer
      lines := by
        dsimp only
        rw [hcontent]
        exact LineTable.describes_ofText t options.lineBreaks
      breaks := rfl
      anchors := AnchorTable.within_empty _
      history := .withLimit _
      inChange := rfl }

open EditableText.Action

lemma emit_triple (event : DocumentEvent) : Triple Coherent (emit event) Coherent AtRest := by
  intro doc h
  rw [emit]
  split
  case isTrue => exact ⟨h.congr rfl, rfl⟩
  case isFalse => exact h.congr rfl

lemma emitAll_triple (events : List DocumentEvent) :
    Triple Coherent (emitAll events) Coherent AtRest := by
  induction events with
  | nil => exact .pure () fun _ h => h
  | cons event rest ih => exact (emit_triple event).bind fun _ => ih

lemma keeps_emit (event : DocumentEvent) : Keeps AtRest (emit event) := by
  intro doc h
  rw [emit]
  split
  case isTrue => exact ⟨h.congr rfl, rfl⟩
  case isFalse => exact ⟨h.congr rfl, h.inChange⟩

namespace AtRest

lemma withHistory (h : doc.AtRest) {history : History} (hh : history.OfChanges Change.Balanced) :
    ({ doc with history } : Document).AtRest := ⟨h.toCoherent.withHistory hh, h.inChange⟩

lemma withAnchors (h : doc.AtRest) {anchors : AnchorTable}
    (ha : anchors.Within doc.storage.content.length) : ({ doc with anchors } : Document).AtRest :=
  ⟨h.toCoherent.withAnchors ha, h.inChange⟩

lemma onHistory (h : doc.AtRest) {f : History → History}
    (hf : ∀ history : History, history.OfChanges Change.Balanced →
      (f history).OfChanges Change.Balanced) : (doc.onHistory f).AtRest :=
  h.withHistory (hf _ h.history)

lemma leaveUpdate (h : doc.AtRest) (hafter : doc.leaveUpdate = .ok after) : after.AtRest := by
  rw [Document.leaveUpdate] at hafter
  split at hafter
  case h_1 => cases hafter
  case h_2 updateDepth _ =>
    obtain ⟨history, hhistory, hok⟩ := exists_of_bind_eq_ok hafter
    obtain rfl := Except.ok.inj hok
    have hh := h.history.endGroup (eq_ok_of_mapError_eq_ok hhistory)
    exact ⟨⟨h.storage, h.lines, h.breaks, h.anchors, hh⟩, h.inChange⟩

end AtRest

lemma upkeep_atRest : Upkeep AtRest where
  emit _ := keeps_emit _
  noted _ _ h := ⟨h.congr rfl, h.inChange⟩
  unmarked h := ⟨h.congr rfl, rfl⟩
  opened h := ⟨⟨h.storage, h.lines, h.breaks, h.anchors, h.history.startGroup⟩, h.inChange⟩
  left h := h.leaveUpdate

lemma applyChange_triple (hc : c.Balanced) : Triple Coherent (applyChange c) AtRest AtRest := by
  have hmark (b : Bool) : Triple Coherent (.alter fun doc => { doc with inChange := b }) Coherent AtRest :=
    .alter fun doc h => h.congr rfl
  have hrest : Triple Coherent (.alter fun doc => { doc with inChange := false }) AtRest AtRest :=
    .alter fun doc h => ⟨h.congr rfl, rfl⟩
  refine (hmark true).bind fun _ => (emit_triple _).bind fun _ => .state_bind fun doc h => ?_
  split
  case h_1 e he =>
    -- the change does not fit the text, and none of the parts has moved
    refine Triple.mono ?_ (fun _ hs => hs ▸ h) (fun _ hs => hs) fun _ hs => hs
    exact hrest.bind fun _ => .refuse _ fun _ hs => hs
  case h_2 deleted after hafter =>
    have hmutated := h.mutate hc hafter
    have hchanged : ({ after with updateChangedText := true } : Document).Coherent :=
      hmutated.congr rfl
    have hrecorded : (({ after with updateChangedText := true } : Document).record c).2.Coherent := by
      rw [record]
      cases hpush : after.history.push c with
      | ok history => simpa [hpush] using hchanged.withHistory (hmutated.history.push hc hpush)
      | error e => simpa [hpush] using hchanged
    refine Triple.bind (Triple.alter fun _ _ => hrecorded) fun _ => (emit_triple _).bind fun _ =>
      (emitAll_triple _).bind fun _ => hrest.bind fun _ => ?_
    exact .lift _ (fun _ hs => hs) fun _ hs => hs

lemma keeps_runChange (hc : c.Balanced) : Keeps AtRest (runChange c) :=
  upkeep_atRest.keeps_runUpdate (σ := Document)
    ((applyChange_triple hc).mono (fun _ h => h.toCoherent) (fun _ h => h) fun _ h => h)

lemma keeps_replaceWithMap (offset length : Nat) (t : Text) (map : OffsetMap) :
    Keeps AtRest (replaceWithMap offset length t map) := by
  refine keeps_checkNotInChange.bind fun _ => .reading fun doc => (Keeps.lift _).bind fun _ => ?_
  refine .ite (Keeps.pure ()) ?_
  refine (Keeps.lift _).bind fun removed => .lift_bind _ (fun c hok => ?_) fun _ h => h
  exact keeps_runChange (Change.Built.withMap hok).balanced

lemma keeps_replaceWithMapping (offset length : Nat) (t : Text) (mapping : ChangeMapping) :
    Keeps AtRest (replaceWithMapping offset length t mapping) := keeps_replaceWithMap _ _ _ _

lemma keeps_setText (t : Text) : Keeps AtRest (setText t) := by
  have haccepts (accepts : Bool) : Keeps AtRest (.alter (setAcceptsChanges accepts)) :=
    .alter fun doc h => h.withHistory (h.history.setAcceptsChanges accepts)
  refine keeps_checkNotInChange.bind fun _ => .reading fun doc => ?_
  refine .ite (.refuse_bind _ fun _ h => h) ?_
  refine (haccepts false).bind fun _ =>
    Keeps.bind (Keeps.attempt (upkeep_atRest.keeps_runUpdate ?_)) fun replaced => ?_
  · refine .reading fun doc => Keeps.bind ?_ fun _ => ?_
    · exact keeps_replaceWithMapping _ _ _ _
    · exact keeps_replaceWithMapping _ _ _ _
  · refine (haccepts _).bind fun _ => (Keeps.ofExcept _).bind fun _ => .state_bind fun doc h => ?_
    refine Triple.lift_bind _ (fun history hclear => ?_) fun _ hs => hs ▸ h
    refine Triple.bind (Triple.alter fun _ hs => ?_) fun _ => keeps_emit _
    exact (hs ▸ h).withHistory (h.history.clear hclear).markSaved

lemma keeps_replay (hc : c.Balanced) : Keeps AtRest (replay c) := by
  refine Keeps.bind (.alter fun doc h => h.onHistory fun _ hh => hh.enterModify) fun _ => ?_
  refine Keeps.bind (Keeps.attempt ?_) fun applied => ?_
  · exact (applyChange_triple hc).mono (fun _ h => h.toCoherent) (fun _ h => h) fun _ h => h
  · exact Keeps.bind (.alter fun doc h => h.onHistory fun _ hh => hh.exitModify) fun _ => .ofExcept _

lemma keeps_replayAll {changes : List Change} (hc : ∀ c ∈ changes, c.Balanced) :
    Keeps AtRest (replayAll changes) := by
  induction changes with
  | nil => exact .pure ()
  | cons c rest ih =>
    exact (keeps_replay (hc c (by simp))).bind fun _ => ih fun c hmem => hc c (by simp [hmem])

lemma keeps_playBack (d : Direction) : Keeps AtRest (playBack d) := by
  refine keeps_playBack_of fun h hok => ?_
  obtain ⟨hhanded, hgroup⟩ := h.history.handOut hok
  refine Triple.bind (.alter fun _ hs => (hs ▸ h).withHistory hhanded) fun _ => ?_
  have hplay := upkeep_atRest.keeps_runUpdate (keeps_replayAll (d.changes_balanced (hgroup _ rfl)))
  refine Keeps.bind (Keeps.ensuring hplay ?_) fun _ => .pure true
  exact fun doc h => h.onHistory fun _ hh => hh.finish d

lemma keeps_createAnchor (offset : Nat) (movement : AnchorMovement) (survives : Bool) :
    Keeps AtRest (createAnchor offset movement survives) := by
  refine .state_bind fun doc h => .lift_bind _ (fun _ hcheck => ?_) fun _ hs => hs ▸ h
  have ho : offset ≤ doc.storage.content.length := h.textLength_eq ▸ checkOffset_eq_ok.mp hcheck
  exact Triple.bind (.alter fun _ hs => (hs ▸ h).withAnchors (hs ▸ h.anchors.create ho movement survives))
    fun _ => .pure _ fun _ h => h

lemma keeps_changeAnchors {f : AnchorTable → Except TextError AnchorTable}
    (hf : ∀ {table after : AnchorTable} {n}, table.Within n → f table = .ok after → after.Within n) :
    Keeps AtRest (changeAnchors f) := by
  refine .state_bind fun doc h => .lift_bind _ (fun anchors hok => ?_) fun _ hs => hs ▸ h
  exact .alter fun _ hs => (hs ▸ h).withAnchors (hs ▸ hf h.anchors hok)

lemma keeps_createAnchorSegment (offset length : Nat) :
    Keeps AtRest (createAnchorSegment offset length) := by
  refine .state_bind fun doc h => .lift_bind _ (fun _ hcheck => ?_) fun _ hs => hs ▸ h
  have ho : offset + length ≤ doc.storage.content.length := h.textLength_eq ▸ checkRange_eq_ok.mp hcheck
  refine Triple.bind (.alter fun _ hs => (hs ▸ h).withAnchors ?_) fun _ => .pure _ fun _ h => h
  exact hs ▸ h.anchors.createSegment (s := ⟨offset, length⟩) ho true

lemma keeps_releaseAnchorSegment (s : AnchorSegment) : Keeps AtRest (releaseAnchorSegment s) := by
  refine .state_bind fun doc h => Triple.bind (Triple.alter fun _ hs => ?_) fun _ => Keeps.lift _
  exact (hs ▸ h).withAnchors (hs ▸ h.anchors.releaseSegment s)

lemma AtRest.withObservers (h : doc.AtRest) (listeners : List Listener) (nextToken : Nat)
    (bus : Bus Notification) : ({ doc with listeners, nextToken, bus } : Document).AtRest :=
  ⟨h.congr rfl, h.inChange⟩

end Document

end EditableText
