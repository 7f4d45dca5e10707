import EditableText.Proofs.Document.Returning
import EditableText.Proofs.Document.Saved

namespace EditableText

open EditableText.Action

namespace Document

variable {P : Document → Prop} {V : Delivery → Prop} {doc after : Document} {marked t : Text} {c : Change}
  {deleted : List AnchorId} {steps : Option Int}

/-- The parts are in step, also while a change is under way, and the history leads to the text that is
marked. -/
structure Recording (marked : Text) (doc : Document) : Prop where
  coherent : doc.Coherent
  saves : doc.standing.Saves marked

lemma Saves.recording (h : Saves marked doc) : Recording marked doc := by
  obtain ⟨f, hs, hr⟩ := h
  exact ⟨hr.toCoherent, hr.standing_eq ▸ hs⟩

namespace Recording

lemma still (h : Recording marked doc) (hcore : after.core = doc.core)
    (hstanding : after.standing = doc.standing) : Recording marked after :=
  ⟨h.coherent.congr hcore, hstanding ▸ h.saves⟩

lemma baseText_eq (h : Recording marked doc) (hflag : doc.isModified = false) : doc.baseText = marked := by
  have hsaved : doc.history.isSaved = true := by simpa [isModified] using hflag
  exact h.saves.records.toSaves.baseOf_eq hsaved

lemma mutated (h : Recording marked doc) (hb : c.Balanced) (hc : c.Fits doc.text)
    (hok : doc.mutate c = .ok (deleted, after)) :
    Recording marked (({ after with updateChangedText := true } : Document).record c).2 := by
  obtain ⟨history, hpush, hchanged⟩ := h.saves.changed hc
  obtain ⟨mutated, storage, lines, anchors, hmutate, hrecord, hcoherent, htext, -⟩ :=
    exists_mutated h.coherent hb hc.le_length hpush
  obtain ⟨-, rfl⟩ := Prod.mk.inj (Except.ok.inj (hok.symm.trans hmutate))
  rw [hrecord]
  refine ⟨hcoherent.congr rfl, ?_⟩
  have hstanding : standing { doc with
      storage, lines, anchors, history
      version := doc.version + 1
      updateChangedText := true } = doc.standing.played [c] history := by
    simp only [standing, Standing.played, text, htext]
    rfl
  rw [hstanding]
  exact hchanged

end Recording

lemma heeded_recording : Heeded (Recording marked) where
  emit event := keeps_of_state fun doc h => by
    rw [emit]
    split <;> exact h.still rfl rfl
  marked _ h := h.still rfl rfl

lemma upkeep_recording : Upkeep (Recording marked) where
  emit _ := heeded_recording.emit _
  noted _ _ h := h.still rfl rfl
  unmarked h := h.still rfl rfl
  opened h := ⟨(h.coherent.withHistory h.coherent.history.startGroup).congr rfl, h.saves.opened⟩
  left := by
    intro doc after h hafter
    rw [leaveUpdate] at hafter
    split at hafter
    case h_1 => cases hafter
    case h_2 depth hd =>
      obtain ⟨history, hhistory, hok⟩ := exists_of_bind_eq_ok hafter
      obtain rfl := Except.ok.inj hok
      obtain ⟨left, hend, hleft⟩ := h.saves.left hd
      have hclosed : doc.history.endGroup = .ok history := eq_ok_of_mapError_eq_ok hhistory
      obtain rfl := Except.ok.inj (hend.symm.trans hclosed)
      exact ⟨(h.coherent.withHistory (h.coherent.history.endGroup hclosed)).congr rfl, hleft⟩

lemma recording_replaceWithMap (offset length : Nat) (inserted : Text) (map : OffsetMap) :
    Sees (Recording marked) (replaceWithMap offset length inserted map) fun d => Recording marked d.seen := by
  refine sees_replaceWithMap fun {doc removed c} h hrange hslice hmap => ?_
  obtain rfl := Except.ok.inj ((h.coherent.slice_eq hrange).symm.trans hslice)
  have hb := (Change.Built.withMap hmap).balanced
  have hc : c.Fits doc.text := h.coherent.fits_of_withMap hrange hmap
  -- the text is the one that the change was made for, until it is applied
  have hbefore : Heeded fun d => Recording marked d ∧ d.text = doc.text := heeded_recording.withText doc.text
  have hmake : ∀ {before after : Document} {deleted : List AnchorId},
      Recording marked before ∧ before.text = doc.text → before.mutate c = .ok (deleted, after) →
        Recording marked (({ after with updateChangedText := true } : Document).record c).2 :=
    fun hd hok => hd.1.mutated hb (hd.2 ▸ hc) hok
  have hbody : Triple (fun d => Recording marked d ∧ d.text = doc.text) (applyChange c) (Recording marked)
      (Recording marked) :=
    (hbefore.applyChange heeded_recording hmake).mono (fun _ h => h) (fun _ h => h) fun _ h =>
      h.elim And.left fun h => h
  have hsees : Sees (fun d => Recording marked d ∧ d.text = doc.text) (applyChange c) fun d =>
      Recording marked d.seen :=
    hbefore.sees_applyChange heeded_recording hmake (fun _ _ h => h.1) fun _ _ h => h
  have hrun := Upkeep.sees_runUpdate (σ := Document) (upkeep_recording.withText doc.text) upkeep_recording
    (fun _ h => h.1) hbody hsees fun _ _ h => h
  refine hrun.mono (fun _ hs => ?_) fun _ h => h
  subst hs
  exact ⟨h, rfl⟩

end Document

structure History.Unmoved (steps : Option Int) (h : History) : Prop where
  steps_eq : h.stepsFromSaved = steps
  pending : h.pending = []
  unrecorded : h.phase ≠ .idle ∨ h.acceptsChanges = false

namespace Document

variable {V : Delivery → Prop} {doc after : Document} {marked t : Text} {c : Change} {cs : List Change}
  {steps : Option Int} {H : History → Prop}

lemma handled_unmoved : Handled (History.Unmoved steps) where
  startGroup h := ⟨h.steps_eq, h.pending, h.unrecorded⟩
  endGroup {h after} hh hafter := by
    rw [History.endGroup] at hafter
    split at hafter
    case h_1 => cases hafter
    case h_2 depth hd =>
      obtain rfl := Except.ok.inj hafter
      dsimp only
      rw [if_neg fun hcommit => hcommit.2 hh.pending]
      exact ⟨hh.steps_eq, hh.pending, hh.unrecorded⟩
  push {h after c} hh hpush := by
    rw [History.push] at hpush
    split at hpush
    case h_1 => exact Except.ok.inj hpush ▸ hh
    case h_2 => cases hpush
    case h_3 hidle =>
      have hoff : h.acceptsChanges = false := hh.unrecorded.resolve_left (absurd hidle)
      rw [hoff] at hpush
      exact Except.ok.inj ((if_pos rfl).symm.trans hpush) ▸ hh
  enterModify {h} hh := by
    rw [History.enterModify]
    split
    case h_1 => exact ⟨hh.steps_eq, hh.pending, .inl (by simp)⟩
    case h_2 => exact hh
  exitModify {h} hh := by
    rw [History.exitModify]
    split
    case h_1 => exact ⟨hh.steps_eq, hh.pending, .inl (by simp)⟩
    case h_2 => exact hh

namespace Handled

variable (hH : Handled H) (hv : ∀ d : Delivery, d.event ≠ .textReplaced → H d.seen.history → V d)

include hH hv

lemma sees_applyChange (c : Change) : Sees (fun doc => H doc.history) (applyChange c) V :=
  heeded.sees_applyChange heeded hH.recorded hv hv

lemma sees_replayAll (cs : List Change) : Sees (fun doc => H doc.history) (replayAll cs) V := by
  induction cs with
  | nil => exact .pure ()
  | cons c rest ih =>
    refine Sees.bind ?_ (hH.keeps_replay c) fun _ => ih
    refine .alter_bind (fun _ h => hH.enterModify h) ((hH.sees_applyChange hv c).attempt.bind
      (hH.keeps_applyChange c).attempt fun _ => ?_)
    exact .alter_bind (Q := fun doc => H doc.history) (fun _ h => hH.exitModify h) (.ofExcept _)

lemma sees_playGroup {handed : History} (hhanded : H handed) (d : Direction) (group : ChangeGroup) :
    Sees P (playGroup d group handed) V := by
  have hrun : Sees (fun doc => H doc.history) (runUpdate (replayAll (d.changes group))) V :=
    Upkeep.sees_runUpdate (σ := Document) hH.upkeep hH.upkeep (fun _ h => h) (hH.keeps_replayAll _)
      (hH.sees_replayAll hv _) hv
  exact .alter_bind (fun _ _ => hhanded) ((hrun.ensuring _).bind .trivially fun _ => .pure true)

lemma sees_runChange (c : Change) : Sees (fun doc => H doc.history) (runChange c) V :=
  Upkeep.sees_runUpdate (σ := Document) hH.upkeep hH.upkeep (fun _ h => h) (hH.keeps_applyChange c)
    (hH.sees_applyChange hv c) hv

lemma sees_replaceWithMap (offset length : Nat) (inserted : Text) (map : OffsetMap) :
    Sees (fun doc => H doc.history) (replaceWithMap offset length inserted map) V :=
  Document.sees_replaceWithMap fun h _ _ _ => (hH.sees_runChange hv _).mono (fun _ hs => hs ▸ h) fun _ h => h

omit hv in
lemma keeps_replaceWithMap (offset length : Nat) (inserted : Text) (map : OffsetMap) :
    Keeps (fun doc => H doc.history) (replaceWithMap offset length inserted map) :=
  keeps_replaceWithMap_of fun {c} _ => Upkeep.keeps_runUpdate (σ := Document) hH.upkeep (hH.keeps_applyChange c)

omit hv in
lemma keeps_replaceTwice (inserted : Text) : Keeps (fun doc => H doc.history) (do
    let doc ← .state
    remove 0 doc.textLength
    insert 0 inserted : Action Document Unit) :=
  .reading fun _ => (hH.keeps_replaceWithMap _ _ _ _).bind fun _ => hH.keeps_replaceWithMap _ _ _ _

omit hv in
lemma keeps_replaceAll (inserted : Text) : Keeps (fun doc => H doc.history) (runUpdate do
    let doc ← .state
    remove 0 doc.textLength
    insert 0 inserted : Action Document Unit) :=
  Upkeep.keeps_runUpdate (σ := Document) hH.upkeep (hH.keeps_replaceTwice inserted)

lemma sees_replaceAll (inserted : Text) : Sees (fun doc => H doc.history) (runUpdate do
    let doc ← .state
    remove 0 doc.textLength
    insert 0 inserted : Action Document Unit) V := by
  refine Upkeep.sees_runUpdate (σ := Document) hH.upkeep hH.upkeep (fun _ h => h) (hH.keeps_replaceTwice inserted)
    (.state_bind fun doc h => ?_) hv
  refine Sees.mono (P := fun doc => H doc.history) ((hH.sees_replaceWithMap hv _ _ _ _).bind
    (hH.keeps_replaceWithMap _ _ _ _) fun _ => hH.sees_replaceWithMap hv _ _ _ _) (fun _ hs => ?_) fun _ h => h
  subst hs
  exact h

end Handled

section Unmoved

variable (h : Recording marked doc)

include h

lemma Recording.unmoved_handed {d : Direction} {group : ChangeGroup} {rest : List ChangeGroup}
    (hdepth : doc.history.depth = 0) :
    History.Unmoved doc.history.stepsFromSaved (d.handed group rest doc.history) := by
  have hpending : doc.history.pending = [] := h.saves.records.closed hdepth
  exact ⟨by cases d <;> rfl, by simpa using hpending, .inl (by simp)⟩

lemma sees_playBack (d : Direction) : Sees (fun doc' => doc' = doc) (playBack d) fun seen =>
    seen.seen.history.stepsFromSaved = doc.history.stepsFromSaved := by
  refine checked_sees (.state_bind fun _ hs => .lift_bind fun given hok => ?_)
  subst hs
  have hdepth := (Direction.idle_of_handOut hok).1
  obtain ⟨_ | group, handed⟩ := given
  · exact .pure false
  rcases Direction.handOut_eq_ok hok with ⟨-, hnone, -⟩ | ⟨_, rest, -, -, rfl⟩
  · cases hnone
  · exact handled_unmoved.sees_playGroup (fun _ _ h => h.steps_eq) (h.unmoved_handed hdepth) d group

lemma sees_setText (hdepth : doc.history.depth = 0) (inserted : Text) :
    Sees (fun doc' => doc' = doc) (setText inserted) fun d =>
      d.event ≠ .textReplaced → d.seen.history.stepsFromSaved = doc.history.stepsFromSaved := by
  have hmuted : History.Unmoved doc.history.stepsFromSaved (doc.history.setAcceptsChanges false) :=
    ⟨rfl, h.saves.records.closed hdepth, .inr rfl⟩
  have hreplace := handled_unmoved.sees_replaceAll (V := fun d =>
    d.event ≠ .textReplaced → d.seen.history.stepsFromSaved = doc.history.stepsFromSaved)
    (fun _ _ h _ => h.steps_eq) inserted
  refine checked_sees (.state_bind fun doc' hs => .ite (.silent fun _ => rfl) ?_)
  obtain rfl := hs.symm
  refine .alter_bind (Q := fun doc' => History.Unmoved doc.history.stepsFromSaved doc'.history) (fun _ hs => ?_)
    (hreplace.attempt.bind .trivially fun replaced => .alter_bind (Q := fun _ => True) (fun _ _ => trivial) ?_)
  · subst hs
    exact hmuted
  · refine (Sees.ofExcept replaced).bind .trivially fun _ => .state_bind fun _ _ => .lift_bind fun history _ => ?_
    exact .alter_bind (Q := fun _ => True) (fun _ _ => trivial) (sees_emit fun d hevent _ hne => absurd hevent hne)

end Unmoved

end Document

end EditableText
