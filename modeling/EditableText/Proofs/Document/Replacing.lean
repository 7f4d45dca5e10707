import EditableText.Proofs.Document.Editing

namespace EditableText

open EditableText.Action

namespace Document

variable {doc after : Document} {log : List Notice}

lemma Steady.runs_replace (h : doc.Steady) (hd : 0 < doc.updateDepth) (offset length : Nat)
    (hrange : offset + length ≤ doc.textLength) (t : Text) :
    ∃ log after, (replace offset length t).Runs doc log (.ok ()) after ∧ after.Steady ∧
      after.updateDepth = doc.updateDepth ∧ after.text = doc.text.splice offset length t ∧
      Moves doc log after := by
  have hfits :
      OffsetMap.fits (ChangeMapping.normal.offsetMap offset length t.length) offset length t.length = true :=
    ChangeMapping.fits_offsetMap .normal nofun
  obtain ⟨o, log, after, hrun, hcases⟩ := h.runs_replaceWithMap offset length t
    (ChangeMapping.offsetMap .normal offset length t.length)
  rcases hcases with ⟨-, hrefused, -⟩ | ⟨rfl, -, ⟨rfl, rfl⟩, rfl, rfl⟩ | ⟨rfl, -, -, c, -, -, htext, hedited⟩
  · exact absurd ⟨hrange, .inr hfits⟩ hrefused
  · exact ⟨[], _, hrun, h, rfl, (Text.splice_nil _ _).symm, .refl _⟩
  · exact ⟨log, after, hrun, hedited.steady h, hedited.depth_eq, hedited.text_eq.trans htext,
      hedited.moves hd⟩

lemma AtRest.runs_setText_in_update (h : doc.AtRest) (hd : 0 < doc.updateDepth) (t : Text) :
    (setText t).Runs doc [] (.refused .replacedInUpdate) doc := by
  refine runs_checkNotInChange h.inChange (.state_bind ?_)
  rw [if_pos (by simpa [isInUpdate] using hd)]
  exact .bind_refused rfl

structure Replaced (t : Text) (doc : Document) (log : List Notice) (after : Document) : Prop
    extends Kept doc log after where
  sound : after.Sound
  depth : after.updateDepth = 0
  timeline : after.timeline = ⟨[], t, []⟩
  block : ∃ block seen, Block block ∧ log = block ++ [⟨.textReplaced, seen⟩]
  tallied : doc.Tallied log after

lemma Steady.restarted (h : doc.Steady) (hd : doc.updateDepth = 0) :
    ∃ cleared, (doc.history.setAcceptsChanges true).clear = .ok cleared ∧
      ({ doc with history := cleared.markSaved } : Document).Sound ∧
      ({ doc with history := cleared.markSaved } : Document).timeline = ⟨[], doc.text, []⟩ := by
  let history := doc.history.setAcceptsChanges true
  have hclear : history.clear = .ok { history with
      undo := [], redo := []
      stepsFromSaved := history.stepsFromSaved.filter (· = 0) } :=
    if_neg (by rw [show history.depth = doc.history.depth from rfl, h.depth, hd]; exact Nat.lt_irrefl 0)
  have hpending := h.closed hd
  obtain ⟨hleads, htimeline⟩ := History.Leads.cleared
    (h := ({ history with
      undo := [], redo := []
      stepsFromSaved := history.stepsFromSaved.filter (· = 0) } : History).markSaved)
    hpending rfl rfl doc.text
  refine ⟨_, hclear, ⟨⟨h.toAtRest.withHistory ?_, h.quiet, h.tokens, h.fresh, h.idle, h.single, h.depth,
    h.limit, Nat.zero_le _, fun _ => hpending⟩, rfl, hleads⟩, htimeline⟩
  exact ((h.history.setAcceptsChanges true).clear hclear).markSaved

lemma Sound.told (h : doc.Sound) (ht : doc.Told log after) (hkept : doc.Kept log after) :
    after.Sound ∧ after.timeline = doc.timeline := by
  obtain ⟨listeners, hprofile, rfl⟩ := ht
  exact ⟨⟨⟨⟨h.congr rfl, h.inChange⟩, hkept.quiet h.quiet,
    hkept.tokens_eq ▸ h.tokens, hkept.fresh h.fresh, h.idle, h.single, h.depth, h.limit, h.room, h.closed⟩,
    h.accepts, h.leads⟩, rfl⟩

namespace Sound

lemma runs_setText (h : doc.Sound) (hd : doc.updateDepth = 0) (t : Text) :
    ∃ log after, (setText t).Runs doc log (.ok ()) after ∧ Replaced t doc log after := by
  let muted : Document := doc.setAcceptsChanges false
  have hmuted : muted.Steady :=
    ⟨h.toAtRest.withHistory (h.history.setAcceptsChanges false), h.quiet, h.tokens, h.fresh, h.idle,
      h.single, h.depth, h.limit, h.room, h.closed⟩
  obtain ⟨first, opened, hbegin, ho⟩ := runs_beginUpdate hmuted.quiet hmuted.inChange
  have hopened := hmuted.opened ho
  have hlength := hopened.textLength_eq_length
  obtain ⟨cut, removed, hremove, hremoved, hremovedDepth, hremovedText, hcut⟩ :=
    hopened.runs_replace ho.depth_pos 0 opened.textLength (by omega) []
  have hnil : removed.text = [] := by
    rw [hremovedText, hlength]
    simp [Text.splice]
  obtain ⟨put, inserted, hinsert, hinserted, hinsertedDepth, hinsertedText, hput⟩ :=
    hremoved.runs_replace (hremovedDepth ▸ ho.depth_pos) 0 0 (by omega) t
  rw [hnil] at hinsertedText
  have hdepth : inserted.updateDepth = 0 + 1 := by
    rw [hinsertedDepth, hremovedDepth, ho.depth]
    exact congrArg (· + 1) hd
  obtain ⟨third, closed, hend, hcl, hclosedDepth⟩ := runs_endUpdate hinserted.quiet hinserted.inChange hdepth
    (History.endGroup_eq (hinserted.depth.trans hdepth) hinserted.single)
  have hclosed := hinserted.left hcl.toLeft
  obtain ⟨cleared, hclear, hsound, htimeline⟩ := hclosed.restarted hclosedDepth
  have htext : closed.text = t := by
    rw [hcl.toSameParts.text_eq, hinsertedText]
    simp [Text.splice]
  rw [htext] at htimeline
  let final : Document := { closed with history := cleared.markSaved }
  have htold := told_tell .textReplaced final
  have hreplaced : final.Kept [⟨.textReplaced, final⟩] (final.tell .textReplaced) :=
    htold.kept (by simp [DocumentEvent.isOfChange, SameContent.refl])
  obtain ⟨htoldSound, htoldTimeline⟩ := hsound.told htold hreplaced
  have hbody : (do
      let doc ← Action.state
      remove 0 doc.textLength
      insert 0 t : Action Document Unit).Runs opened (cut ++ put) (.ok ()) inserted :=
    .state_bind (hremove.bind hinsert)
  have hrun := runs_runUpdate (s := muted) (r := .ok ()) (e := .ok ()) hbegin hbody hend
  have hmoves := hcut.kept.trans hput.kept
  have hmutedKept : Kept { doc with history := doc.history.setAcceptsChanges false }
      (first ++ ((cut ++ put) ++ third)) closed := ho.toKept.trans (hmoves.trans hcl.toKept)
  have hkept : doc.Kept (first ++ ((cut ++ put) ++ third)) final := hmutedKept.withHistory
  refine ⟨(first ++ ((cut ++ put) ++ third)) ++ [⟨.textReplaced, final⟩], final.tell .textReplaced, ?_, ?_⟩
  · refine runs_checkNotInChange h.inChange (.state_bind ?_)
    rw [if_neg (by simp [isInUpdate, hd])]
    refine .alter_bind (Runs.bind (hrun.attempt (r := .ok ())) (.alter_bind ?_))
    refine .ofExcept_bind (.state_bind (.lift_bind (a := cleared) ?_ (.alter_bind ?_)))
    · rw [h.accepts]
      exact hclear
    · exact hsound.quiet.emit .textReplaced
  · refine ⟨hkept.trans hreplaced, htoldSound, hclosedDepth, htoldTimeline.trans htimeline,
      ⟨_, final, ?_, rfl⟩, ?_⟩
    · rw [← List.append_assoc, ← List.append_assoc]
      exact hcl.block hclosedDepth (hput.inBlock (hcut.inBlock (ho.inBlock hd)))
    · have hmutedTallied : doc.Tallied (first ++ ((cut ++ put) ++ third)) final :=
        ho.tallied.trans ((hcut.tallied.trans hput.tallied).trans hcl.tallied)
      have hfinalTallied : final.Tallied [⟨.textReplaced, final⟩] (final.tell .textReplaced) := by
        intro id
        simp [reports, tell]
      exact hmutedTallied.trans hfinalTallied

end Sound

end Document

end EditableText
