import EditableText.Proofs.Document.Interrupted

namespace EditableText

open EditableText.Action

namespace History

variable {h : History}

lemma push_unrecorded (hidle : h.phase = .idle) (hoff : h.acceptsChanges = false) (c : Change) :
    h.push c = .ok h := by
  simp [push, hidle, hoff]

lemma endGroup_startGroup_inside (hd : 0 < h.depth) : h.startGroup.endGroup = .ok h := by
  have hsame : (h.continuesTop && h.depth != 0) = h.continuesTop := by simp [Nat.ne_of_gt hd]
  rw [endGroup, startGroup]
  dsimp only
  rw [if_neg fun hboth => Nat.ne_of_gt hd hboth.1, hsame]

end History

namespace Document

variable {f : Standing} {c : Change} {R : Document → Prop} {A : DocumentEvent → Document → Prop}

def Retexted (t : Text) (f : Standing) (doc : Document) : Prop :=
  ∃ version, Rested True { f with text := t, version } doc

namespace Rested

lemma ends_emit_calm (event : DocumentEvent) : Ends (Rested True f) (emit event) (Rested True f) R A := by
  refine ends_emit event (fun doc h => ?_) fun doc listeners h hfails _ => ?_
  · exact ⟨⟨h.congr rfl, h.inChange⟩, h.toWatched.tell event⟩
  · exact absurd trivial (h.toWatched.failing hfails).1

section Muted

variable (hidle : f.history.phase = .idle) (hoff : f.history.acceptsChanges = false) (hd : 0 < f.history.depth)

include hidle hoff hd

lemma ends_runChange_unrecorded (hb : c.Balanced) (hc : c.offset + c.removed.length ≤ f.text.length) :
    Ends (Rested True f) (runChange c) (Rested True (f.played [c] f.history)) (fun _ => False)
      fun _ _ => False := by
  have hpush : f.opened.history.push c = .ok f.opened.history :=
    History.push_unrecorded (h := f.history.startGroup) hidle hoff c
  have hbody : Ends (Held (Rested True f.opened)) (applyChange c)
      (Held (Rested True (f.opened.played [c] f.opened.history))) (Held fun _ => False)
      fun _ => Held fun _ => False :=
    (ends_applyChange (f := f.opened) hb hc hpush).imp_cut fun _ _ hcut => hcut.1 trivial
  have hclose : Ends (Rested True (f.opened.played [c] f.opened.history)) endUpdate
      (Rested True (f.played [c] f.history)) (fun _ => False) fun _ _ => False :=
    ends_endUpdate rfl (History.endGroup_startGroup_inside hd)
  have hrun : Ends (Held (Rested True f)) (runUpdate (applyChange c)) (Held (Rested True (f.played [c] f.history)))
      (Held fun _ => False) fun _ => Held fun _ => False :=
    ends_runUpdate ends_beginUpdate hbody hclose (fun _ => False.elim) fun _ _ => False.elim
  exact hrun

lemma ends_replace_unrecorded (offset length : Nat) (t : Text) (hrange : offset + length ≤ f.text.length) :
    Ends (Rested True f) (replace offset length t) (Retexted (f.text.splice offset length t) f) (fun _ => False)
      fun _ _ => False := by
  let map := ChangeMapping.normal.offsetMap offset length t.length
  let removed := (f.text.drop offset).take length
  have hlength : removed.length = length := Text.length_take_drop hrange
  refine Ends.bind (P := Rested True f) ends_checkNotInChange fun _ => .state_bind fun doc h => ?_
  have htext := h.toWatched.text_eq
  have hdocRange : offset + length ≤ doc.textLength := by
    rwa [h.textLength_eq, ← h.toAtRest.text_eq, htext]
  rw [checkRange_eq_ok.mpr hdocRange, h.slice_eq hdocRange, htext]
  by_cases hempty : length = 0 ∧ t = []
  · obtain ⟨rfl, rfl⟩ := hempty
    refine Ends.of_eq (P := Rested True f) (.pure () fun _ hr => ⟨f.version, ?_⟩) h
    rwa [Text.splice_nil]
  · have hfits : map.fits offset removed.length t.length = true := by
      rw [hlength]
      exact ChangeMapping.fits_offsetMap .normal nofun
    have hwithMap : Change.withMap offset removed t map = .ok ⟨offset, removed, t, map⟩ := by
      rw [Change.withMap, if_pos hfits]
    have hchange := ends_runChange_unrecorded hidle hoff hd (Change.Built.withMap hwithMap).balanced
      (show offset + removed.length ≤ f.text.length by omega)
    change Ends (fun s => s = doc) (if length = 0 ∧ t = [] then pure () else do
      let c ← .lift (Change.withMap offset removed t map)
      runChange c) _ _ _
    rw [if_neg hempty, hwithMap]
    refine (hchange.of_eq h).mono (fun _ hs => hs) (fun after hr => ⟨f.version + 1, ?_⟩) (fun _ h => h)
      fun _ _ h => h
    have hsplice : Change.apply ⟨offset, removed, t, map⟩ f.text = f.text.splice offset length t := by
      rw [Change.apply, hlength]
    rw [← hsplice]
    exact hr

lemma ends_replaceAll_unrecorded (t : Text) :
    Ends (Rested True f) (do
      let doc ← .state
      remove 0 doc.textLength
      insert 0 t : Action Document Unit) (Retexted t f) (fun _ => False) fun _ _ => False := by
  refine .state_bind fun doc h => ?_
  have hlength : doc.textLength = f.text.length := by
    rw [h.textLength_eq, ← h.toAtRest.text_eq, h.toWatched.text_eq]
  have hremove := ends_replace_unrecorded hidle hoff hd 0 f.text.length [] (Nat.le_of_eq (Nat.zero_add _))
  rw [hlength]
  refine (hremove.of_eq h).bind fun _ => ?_
  rintro doc ⟨version, hr⟩
  let emptied : Standing := { f with text := f.text.splice 0 f.text.length [], version }
  have hinsert := ends_replace_unrecorded (f := emptied) hidle hoff hd 0 0 t (Nat.zero_le _) doc hr
  have hsplice : Text.splice (f.text.splice 0 f.text.length []) 0 0 t = t := by simp [Text.splice]
  refine hinsert.mono (fun after hafter => ?_) (fun _ h => h) fun _ _ h => h
  obtain ⟨version', hr'⟩ := hafter
  exact ⟨version', hsplice ▸ hr'⟩

end Muted

end Rested

namespace Retexted

variable {t : Text} {history : History} {depth : Nat}

lemma ends_endUpdate (hd : f.depth = depth + 1) (hend : f.history.endGroup = .ok history) :
    Ends (Retexted t f) endUpdate (Retexted t { f with depth, history }) R A := by
  rintro doc ⟨version, hr⟩
  have hended : Ends (Rested True { f with text := t, version }) endUpdate _ R A := Rested.ends_endUpdate hd hend
  exact (hended doc hr).mono (fun _ h => ⟨version, h⟩) (fun _ h => h) fun _ _ h => h

lemma onHistory {doc : Document} {g : History → History} (h : Retexted t f doc)
    (hg : ∀ history : History, history.OfChanges Change.Balanced → (g history).OfChanges Change.Balanced) :
    Retexted t { f with history := g f.history } (doc.onHistory g) :=
  h.imp fun _ hr => hr.onHistory hg

lemma ends_restart (hclosed : f.history.Closed) :
    Ends (Retexted t { f with history := f.history.singled }) (do
      let doc ← .state
      let history ← .lift doc.history.clear
      .alter fun doc => { doc with history := history.markSaved }
      emit .textReplaced : Action Document Unit) (Retexted t { f with history := f.history.restarted }) R A := by
  refine .state_bind fun doc ⟨version, hr⟩ => ?_
  have hhistory : doc.history = f.history.singled := hr.history_eq
  have hdepth : f.history.singled.depth = 0 := hclosed.depth_eq
  let emptied : History := { f.history.singled with
    undo := []
    redo := []
    stepsFromSaved := f.history.stepsFromSaved.filter (· = 0) }
  have hclear : f.history.singled.clear = .ok emptied := if_neg (Nat.not_lt.mpr (Nat.le_of_eq hdepth))
  have hbalanced := ((hhistory ▸ hr.history).clear hclear).markSaved
  rw [hhistory, hclear]
  let restarted : Standing := { f with text := t, version, history := f.history.restarted }
  change Ends (fun s => s = doc) (do
    .alter fun doc => { doc with history := emptied.markSaved }
    emit .textReplaced : Action Document Unit) _ _ _
  refine Ends.bind (Q := Rested True restarted) (.alter fun _ hs => hs ▸ hr.withHistory hbalanced) fun _ => ?_
  exact (Rested.ends_emit_calm .textReplaced).mono (fun _ h => h) (fun _ h => ⟨version, h⟩) (fun _ h => h)
    fun _ _ h => h

end Retexted

lemma Rested.ends_setText (hclosed : f.history.Closed) (hd : f.depth = 0) (t : Text) :
    Ends (Rested True f) (setText t) (Retexted t { f with history := f.history.restarted }) (fun _ => False)
      fun _ _ => False := by
  let muted : Standing := { f with history := f.history.setAcceptsChanges false }
  have hmuted : muted.history.Closed := ⟨hclosed.idle, hclosed.depth_eq, hclosed.pending_eq⟩
  have hbody : Ends (Held (Rested True muted.opened)) (do
      let doc ← .state
      remove 0 doc.textLength
      insert 0 t : Action Document Unit) (Held (Retexted t muted.opened)) (Held fun _ => False)
      fun _ => Held fun _ => False :=
    ends_replaceAll_unrecorded (f := muted.opened) hclosed.idle rfl (Nat.succ_pos _) t
  have hclose :
      Ends (Retexted t muted.opened) endUpdate (Retexted t { muted with history := muted.history.singled })
      (fun _ => False) fun _ _ => False :=
    Retexted.ends_endUpdate (f := muted.opened) rfl (History.endGroup_startGroup hmuted.depth_eq hmuted.pending_eq)
  have hrefused : Ends (fun _ => False) endUpdate (fun _ => False) (fun _ => False) fun _ _ => False := fun _ =>
    False.elim
  have hrun := ends_runUpdate ends_beginUpdate hbody hclose hrefused fun _ _ => False.elim
  refine ends_checkNotInChange.bind fun _ => .state_bind fun doc h => ?_
  have hdepth : doc.updateDepth = 0 := (congrArg Standing.depth h.standing_eq).trans hd
  have haccepts : doc.history.acceptsChanges = f.history.acceptsChanges := by rw [h.history_eq]
  rw [if_neg (by simp [isInUpdate, hdepth]), haccepts]
  refine Ends.bind (Q := Rested True muted) (.alter fun _ hs => ?_) fun _ => ?_
  · exact hs ▸ h.onHistory (g := (·.setAcceptsChanges false)) fun _ hh => hh.setAcceptsChanges _
  refine hrun.attempt_bind (fun _ => ?_) fun _ _ => False.elim
  refine Ends.bind (Q := Retexted t { f with history := f.history.singled }) (.alter fun doc h => ?_) fun _ =>
    Ends.bind (.pure () fun _ h => h) fun _ => Retexted.ends_restart hclosed
  exact h.onHistory (g := (·.setAcceptsChanges _)) fun _ hh => hh.setAcceptsChanges _

end Document

end EditableText
