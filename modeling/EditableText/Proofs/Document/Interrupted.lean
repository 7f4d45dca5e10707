import EditableText.Proofs.Document.Directions
import EditableText.Proofs.Document.Endings
import EditableText.Proofs.Document.Update
import EditableText.Proofs.History.InStep

/-!
Listeners that fail only while a change is under way, and what is left of an edit or a playback that they
cut short.
-/

namespace EditableText

open EditableText.Action

namespace DocumentEvent

def isDuringChange : DocumentEvent → Bool
  | changing _ | changed _ | anchorDeleted _ => true
  | _ => false

end DocumentEvent

def Spares (fails : List DocumentEvent → Bool) : Prop :=
  ∀ event heard, fails (event :: heard) = true → event.isDuringChange = true

/-- What goes together: a text and the history that is to lead back from it. -/
structure Standing where
  text : Text
  version : Nat
  depth : Nat
  history : History

namespace Standing

def opened (f : Standing) : Standing := { f with depth := f.depth + 1, history := f.history.startGroup }

def played (changes : List Change) (history : History) (f : Standing) : Standing :=
  { f with text := Change.applyAll changes f.text, version := f.version + changes.length, history }

lemma played_cons (c : Change) (rest : List Change) (history history' : History) (f : Standing) :
    (f.played [c] history').played rest history = f.played (c :: rest) history := by
  simp only [played, List.length_cons, List.length_nil, Nat.add_assoc, Nat.add_comm 1]
  rfl

end Standing

namespace Document

def Calm (doc : Document) : Prop :=
  ∀ l ∈ doc.listeners, ∀ event more, l.fails (event :: (more ++ l.heard)) = false

def standing (doc : Document) : Standing := ⟨doc.text, doc.version, doc.updateDepth, doc.history⟩

structure Watched (calm : Prop) (f : Standing) (doc : Document) : Prop where
  standing_eq : doc.standing = f
  spares : ¬ calm → ∀ l ∈ doc.listeners, Spares l.fails
  calm : calm → doc.Calm

structure Amid (calm : Prop) (f : Standing) (doc : Document) : Prop extends Coherent doc, Watched calm f doc

structure Rested (calm : Prop) (f : Standing) (doc : Document) : Prop extends AtRest doc, Watched calm f doc

def CutAt (calm : Prop) (S : Standing → Prop) (doc : Document) : Prop := ¬ calm ∧ ∃ f, S f ∧ Rested calm f doc

def CutInPlayback (calm : Prop) (changes : List Change) (history : History) (f : Standing) : Document → Prop :=
  CutAt calm fun g => ∃ done rest, changes = done ++ rest ∧ g = f.played done history

variable {calm : Prop} {f : Standing} {doc after : Document} {c : Change} {history : History} {depth : Nat}
  {R : Document → Prop} {A : DocumentEvent → Document → Prop} {S S' : Standing → Prop}

lemma CutAt.mono (h : CutAt calm S doc) (hs : ∀ f, S f → S' f) : CutAt calm S' doc :=
  ⟨h.1, h.2.imp fun f hf => ⟨hs f hf.1, hf.2⟩⟩

namespace Watched

lemma text_eq (h : Watched calm f doc) : doc.text = f.text := congrArg Standing.text h.standing_eq

lemma history_eq (h : Watched calm f doc) : doc.history = f.history := congrArg Standing.history h.standing_eq

lemma moved {g : Standing} (h : Watched calm f doc) (hstanding : after.standing = g)
    (hlisteners : after.listeners = doc.listeners) : Watched calm g after :=
  ⟨hstanding, hlisteners ▸ h.spares, fun hcalm => by
    rw [Calm, hlisteners]
    exact h.calm hcalm⟩

lemma tell (h : Watched calm f doc) (event : DocumentEvent) : Watched calm f (doc.tell event) := by
  refine ⟨h.standing_eq, fun hcalm => fails_of_profile (h.spares hcalm) (tell_profiles event doc),
    fun hcalm l hl next more => ?_⟩
  obtain ⟨original, horiginal, rfl⟩ := List.mem_map.mp hl
  have hfails := h.calm hcalm original horiginal next (more ++ [event])
  rwa [List.append_assoc] at hfails

lemma failing (h : Watched calm f doc) {event : DocumentEvent}
    (hfails : ∃ l ∈ doc.listeners, l.fails (event :: l.heard) = true) :
    ¬ calm ∧ event.isDuringChange = true := by
  obtain ⟨l, hl, hfails⟩ := hfails
  have hcalm : ¬ calm := by
    intro hcalm
    have hlives := h.calm hcalm l hl event []
    rw [List.nil_append, hfails] at hlives
    cases hlives
  exact ⟨hcalm, h.spares hcalm l hl event l.heard hfails⟩

lemma cut (h : Watched calm f doc) {listeners : List Listener}
    (hprofiles : listeners.map Listener.profile = doc.audience) (hcalm : ¬ calm) :
    Watched calm f { doc with listeners, inChange := false } :=
  ⟨h.standing_eq, fun _ => fails_of_profile (h.spares hcalm) hprofiles, fun h => absurd h hcalm⟩

end Watched

lemma ends_emit_amid (event : DocumentEvent) (hs : S f) :
    Ends (Amid calm f) (emit event) (Amid calm f) R fun _ => CutAt calm S := by
  refine ends_emit event (fun doc h => ?_) fun doc listeners h hfails hprofiles => ?_
  · exact ⟨h.congr rfl, h.toWatched.tell event⟩
  · obtain ⟨hcalm, -⟩ := h.toWatched.failing hfails
    exact ⟨hcalm, f, hs, ⟨h.congr rfl, rfl⟩, h.toWatched.cut hprofiles hcalm⟩

lemma ends_emit_rested {event : DocumentEvent} (he : event.isDuringChange = false) :
    Ends (Rested calm f) (emit event) (Rested calm f) R A := by
  refine ends_emit event (fun doc h => ?_) fun doc listeners h hfails hprofiles => ?_
  · exact ⟨⟨h.congr rfl, h.inChange⟩, h.toWatched.tell event⟩
  · rw [(h.toWatched.failing hfails).2] at he
    cases he

namespace Rested

lemma still (h : Rested calm f doc) (hcore : after.core = doc.core) (hstanding : after.standing = doc.standing)
    (hlisteners : after.listeners = doc.listeners) (hmark : after.inChange = false) : Rested calm f after :=
  ⟨⟨h.toCoherent.congr hcore, hmark⟩, h.toWatched.moved (hstanding.trans h.standing_eq) hlisteners⟩

lemma ends_checkNotInChange : Ends (Rested calm f) checkNotInChange (Rested calm f) R A :=
  ends_checkNotInChange_of fun _ h => h.inChange

lemma withHistory (h : Rested calm f doc) (hh : history.OfChanges Change.Balanced) :
    Rested calm { f with history } { doc with history } :=
  ⟨h.toAtRest.withHistory hh, h.toWatched.moved (by rw [← h.standing_eq]; rfl) rfl⟩

lemma onHistory (h : Rested calm f doc) {g : History → History}
    (hg : ∀ history : History, history.OfChanges Change.Balanced → (g history).OfChanges Change.Balanced) :
    Rested calm { f with history := g f.history } (doc.onHistory g) := by
  have hhistory := h.history_eq
  rw [Document.onHistory, hhistory]
  exact h.withHistory (hhistory ▸ hg _ h.history)

lemma ends_applyChange (hb : c.Balanced) (hc : c.offset + c.removed.length ≤ f.text.length)
    (hpush : f.history.push c = .ok history) :
    Ends (Rested calm f) (applyChange c) (Rested calm (f.played [c] history)) R
      fun _ => CutAt calm fun g => g = f ∨ g = f.played [c] history := by
  have hmark : Ends (Rested calm f) (.alter fun doc => { doc with inChange := true }) (Amid calm f) R
      (fun _ => CutAt calm fun g => g = f ∨ g = f.played [c] history) :=
    .alter fun doc h => ⟨h.congr rfl, h.toWatched.moved h.standing_eq rfl⟩
  have hunmark : Ends (Amid calm (f.played [c] history)) (.alter fun doc => { doc with inChange := false })
      (Rested calm (f.played [c] history)) R (fun _ => CutAt calm fun g => g = f ∨ g = f.played [c] history) :=
    .alter fun doc h => ⟨⟨h.congr rfl, rfl⟩, h.toWatched.moved h.standing_eq rfl⟩
  refine hmark.bind fun _ => (ends_emit_amid _ (.inl rfl)).bind fun _ => .state_bind fun doc h => ?_
  have htext := h.toWatched.text_eq
  obtain ⟨mutated, storage, lines, anchors, hmutate, hrecord, hcoherent, hafter, -⟩ :=
    exists_mutated h.toCoherent hb (htext ▸ hc) (h.history_eq ▸ hpush)
  rw [hmutate]
  dsimp only
  rw [hrecord]
  refine Ends.bind (Q := Amid calm (f.played [c] history)) (.alter fun _ _ => ⟨?_, ?_⟩) fun _ =>
    (ends_emit_amid _ (.inr rfl)).bind fun _ =>
      (ends_emitAll fun event _ => ends_emit_amid event (.inr rfl)).bind fun _ => hunmark.bind fun _ =>
        .pure () fun _ hs => hs
  · exact hcoherent.congr rfl
  · refine h.toWatched.moved ?_ rfl
    rw [← h.standing_eq]
    simp only [standing, Standing.played, text, hafter]
    rfl

lemma opened (h : Rested calm f doc) : Rested calm f.opened
    { doc with history := doc.history.startGroup, updateDepth := doc.updateDepth + 1 } := by
  have hrest := h.toAtRest.withHistory h.history.startGroup
  refine ⟨⟨hrest.congr rfl, h.inChange⟩, h.toWatched.moved ?_ rfl⟩
  rw [← h.standing_eq]
  rfl

lemma ends_beginUpdate : Ends (Rested calm f) beginUpdate (Rested calm f.opened) R A := by
  refine ends_checkNotInChange.bind fun _ => .state_bind fun doc h => ?_
  refine Ends.bind (Q := Rested calm f.opened) (.alter fun _ hs => hs ▸ h.opened) fun _ =>
    .ite ?_ (.pure () fun _ hs => hs)
  · refine Ends.bind (Q := Rested calm f.opened) (.alter fun doc h => ?_) fun _ => ends_emit_rested rfl
    exact h.still rfl rfl rfl h.inChange

section Closing

variable (hd : f.depth = depth + 1) (hend : f.history.endGroup = .ok history)

include hd hend

lemma leaveUpdate (h : Rested calm f doc) :
    ∃ after, doc.leaveUpdate = .ok after ∧ Rested calm { f with depth, history } after := by
  have hdepth : doc.updateDepth = depth + 1 := (congrArg Standing.depth h.standing_eq).trans hd
  have hhistory := h.history_eq
  have hend' : doc.history.endGroup = .ok history := hhistory ▸ hend
  have hleave : doc.leaveUpdate = .ok { doc with history, updateDepth := depth } := by
    rw [Document.leaveUpdate, hdepth]
    simp only [hend', Except.mapError, bind, Except.bind, pure, Except.pure]
  refine ⟨_, hleave, h.toAtRest.leaveUpdate hleave, h.toWatched.moved ?_ rfl⟩
  rw [← h.standing_eq]
  rfl

lemma ends_closeUpdate : Ends (Rested calm f) closeUpdate (Rested calm { f with depth, history }) R A :=
  ends_closeUpdate_of (fun _ h => h.leaveUpdate hd hend) (fun _ h => h.still rfl rfl rfl h.inChange)
    (fun _ _ => ends_emit_rested rfl) (ends_emit_rested rfl) (ends_emit_rested rfl)

lemma ends_endUpdate : Ends (Rested calm f) endUpdate (Rested calm { f with depth, history }) R A :=
  ends_checkNotInChange.bind fun _ => ends_closeUpdate hd hend

lemma closeSilently (h : Rested calm f doc) : Rested calm { f with depth, history } doc.closeSilently :=
  closeSilently_of (P := Rested calm f) (fun _ h => h.leaveUpdate hd hend)
    (fun _ h => h.still rfl rfl rfl h.inChange) (h.still rfl rfl rfl rfl)

end Closing

section Playback

variable {group : ChangeGroup} {changes : List Change} {handed : History}

lemma ends_replay (hphase : f.history.phase = .playback group) (hb : c.Balanced)
    (hc : c.offset + c.removed.length ≤ f.text.length) :
    Ends (Rested calm f) (replay c) (Rested calm (f.played [c] f.history)) R
      fun _ => CutInPlayback calm [c] f.history.enterModify f := by
  have hpush : f.history.enterModify.push c = .ok f.history.enterModify := by
    rw [History.enterModify, hphase]
    rfl
  have hback : f.history.enterModify.exitModify = f.history := by
    simp only [History.enterModify, hphase, History.exitModify]
    rw [← hphase]
  refine Ends.bind (.alter fun doc h => h.onHistory fun _ hh => hh.enterModify) fun _ => ?_
  have happly : Ends (Rested calm { f with history := f.history.enterModify }) (applyChange c)
      (Rested calm (f.played [c] f.history.enterModify)) (fun _ => False)
      fun _ => CutInPlayback calm [c] f.history.enterModify f := by
    let entered : Standing := { f with history := f.history.enterModify }
    refine (ends_applyChange (f := entered) hb hc hpush).imp_cut fun _ _ hcut => hcut.mono ?_
    rintro g (rfl | rfl)
    · exact ⟨[], [c], rfl, rfl⟩
    · exact ⟨[c], [], rfl, rfl⟩
  refine happly.attempt_bind (fun _ => ?_) fun _ _ => False.elim
  · refine Ends.bind (Q := Rested calm (f.played [c] f.history)) (.alter fun doc h => ?_) fun _ =>
      .pure () fun _ h => h
    exact hback ▸ h.onHistory (g := .exitModify) fun _ hh => hh.exitModify

lemma ends_replayAll (hphase : f.history.phase = .playback group) (hb : ∀ c ∈ changes, c.Balanced)
    (hc : Change.InRangeAll changes f.text) :
    Ends (Rested calm f) (replayAll changes) (Rested calm (f.played changes f.history)) R
      fun _ => CutInPlayback calm changes f.history.enterModify f := by
  induction changes generalizing f with
  | nil => exact .pure () fun _ h => h
  | cons c rest ih =>
    have hrest := ih (f := f.played [c] f.history) hphase
      (fun c hmem => hb c (List.mem_cons_of_mem _ hmem)) hc.2
    refine ((ends_replay hphase (hb c List.mem_cons_self) hc.1).imp_cut fun _ _ hcut => hcut.mono ?_).bind
      fun _ => hrest.mono (fun _ h => h) (fun _ h => ?_) (fun _ h => h) fun _ _ hcut => hcut.mono ?_
    -- cut in the first change or behind it: what has been played is a first part of the group either way
    · rintro g ⟨done, more, happend, rfl⟩
      exact ⟨done, more ++ rest, by rw [← List.append_assoc, ← happend]; rfl, rfl⟩
    · rwa [Standing.played_cons] at h
    · rintro g ⟨done, more, rfl, rfl⟩
      exact ⟨c :: done, more, rfl, Standing.played_cons ..⟩

lemma ends_replayGroup (hdepth : handed.depth = 0) (hpending : handed.pending = [])
    (hphase : handed.phase = .playback group) (hb : ∀ c ∈ changes, c.Balanced)
    (hc : Change.InRangeAll changes f.text) :
    Ends (Rested calm { f with history := handed }) (runUpdate (replayAll changes))
      (Rested calm (f.played changes handed.singled)) (fun _ => False)
      fun _ => CutInPlayback calm changes handed.singled.enterModify f := by
  let opened : Standing := ({ f with history := handed } : Standing).opened
  have hmodify : handed.enterModify = { handed with phase := .modifying group } := by
    rw [History.enterModify, hphase]
  have hstart : opened.history.enterModify = handed.enterModify.startGroup := by
    rw [hmodify, History.enterModify]
    simp only [opened, Standing.opened, History.startGroup, hphase]
  have hclose : handed.startGroup.endGroup = .ok handed.singled := History.endGroup_startGroup hdepth hpending
  have hclose' : handed.enterModify.startGroup.endGroup = .ok handed.singled.enterModify := by
    have hsingled : handed.singled.enterModify = handed.enterModify.singled := by
      simp only [History.enterModify, History.singled, hphase]
    rw [hsingled, hmodify]
    exact History.endGroup_startGroup hdepth hpending
  have hone : ∀ done history, (opened.played done history).depth = f.depth + 1 := fun _ _ => rfl
  have hbody : Ends (Held (Rested calm opened)) (replayAll changes)
      (Held (Rested calm (opened.played changes opened.history))) (Held fun _ => False)
      fun _ => Held (CutInPlayback calm changes handed.enterModify.startGroup opened) :=
    hstart ▸ ends_replayAll (f := opened) hphase hb hc
  have hrun : Ends (Held (Rested calm { f with history := handed })) (runUpdate (replayAll changes))
      (Held (Rested calm (f.played changes handed.singled))) (Held fun _ => False)
      fun _ => Held (CutInPlayback calm changes handed.singled.enterModify f) := by
    refine ends_runUpdate ends_beginUpdate hbody (ends_endUpdate (hone _ _) hclose) (fun _ => False.elim) ?_
    rintro - doc ⟨hcalm, g, ⟨done, rest, hchanges, rfl⟩, hrests⟩
    exact ⟨hcalm, _, ⟨done, rest, hchanges, rfl⟩, hrests.closeSilently (hone _ _) hclose'⟩
  exact hrun

lemma ends_playGroup (d : Direction) (handed : History) (hdepth : handed.depth = 0)
    (hpending : handed.pending = [])
    (hphase : handed.phase = .playback group) (hh : handed.OfChanges Change.Balanced)
    (hb : ∀ c ∈ d.changes group, c.Balanced) (hc : Change.InRangeAll (d.changes group) f.text) :
    Ends (Rested calm f) (playGroup d group handed)
      (Rested calm (f.played (d.changes group) (d.finish handed.singled))) (fun _ => False)
      fun _ => CutInPlayback calm (d.changes group) (d.finish handed.singled) f := by
  have hplayed : Ends (Rested calm { f with history := handed })
      ((runUpdate (replayAll (d.changes group))).ensuring (Document.onHistory d.finish))
      (Rested calm (f.played (d.changes group) (d.finish handed.singled))) (fun _ => False)
      fun _ => CutInPlayback calm (d.changes group) (d.finish handed.singled) f := by
    refine (ends_replayGroup hdepth hpending hphase hb hc).ensuring
      (fun _ h => h.onHistory fun _ hh => hh.finish d) (fun _ => False.elim) ?_
    rintro - doc ⟨hcalm, g, ⟨done, rest, hchanges, rfl⟩, hrests⟩
    exact ⟨hcalm, _, ⟨done, rest, hchanges, rfl⟩,
      d.finish_enterModify (h := handed.singled) hphase ▸ hrests.onHistory fun _ hh => hh.finish d⟩
  exact Ends.bind (.alter fun doc h => h.withHistory hh) fun _ => hplayed.bind fun _ => .pure true fun _ h => h

lemma ends_playBack {d : Direction} {rest : List ChangeGroup} (hclosed : f.history.Closed)
    (hgroups : d.groups f.history = group :: rest) (hc : Change.InRangeAll (d.changes group) f.text) :
    let final := d.finish (d.handed group rest f.history.singled)
    Ends (Rested calm f) (playBack d) (Rested calm (f.played (d.changes group) final)) (fun _ => False)
      fun _ => CutInPlayback calm (d.changes group) final f := by
  refine ends_checkNotInChange.bind fun _ => .state_bind fun doc h => ?_
  have hhistory := h.history_eq
  have hok := hclosed.handOut_eq hgroups
  obtain ⟨hhanded, hgroup⟩ := (hhistory ▸ h.history).handOut hok
  rw [hhistory, hok, ← History.singled_handed]
  exact (ends_playGroup d _ (by simp [hclosed.depth_eq]) (by simp [hclosed.pending_eq]) (by simp) hhanded
    (d.changes_balanced (hgroup _ rfl)) hc).of_eq h

end Playback

end Rested

end Document

end EditableText
