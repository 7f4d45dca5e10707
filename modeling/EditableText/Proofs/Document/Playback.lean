import EditableText.Proofs.Document.Directions
import EditableText.Proofs.Document.Editing
import EditableText.Proofs.History.InStep

namespace EditableText

open EditableText.Action

namespace Document

variable {doc mid after : Document} {log log' : List Notice} {c : Change}

lemma runs_replay {group : ChangeGroup} (h : doc.AtRest) (hq : doc.Quiet)
    (hphase : doc.history.phase = .playback group) (hb : c.Balanced) (hc : c.Fits doc.text) :
    ∃ log after, (replay c).Runs doc log (.ok ()) after ∧ doc.Changed c doc.history log after := by
  let entered : Document := doc.onHistory .enterModify
  have hentered : entered.AtRest := h.onHistory fun _ hh => hh.enterModify
  have hphase' : entered.history = { doc.history with phase := .modifying group } := History.enterModify_eq hphase
  have hpush : entered.history.push c = .ok entered.history := by
    rw [hphase']
    rfl
  obtain ⟨log, changed, hrun, hch⟩ := runs_applyChange hentered.toCoherent hq hb hc hpush
  have hback : changed.history.exitModify = doc.history := by
    rw [hch.history]
    exact History.exitModify_enterModify hphase
  have henteredKept : Kept { doc with history := doc.history.enterModify } log changed := hch.toKept
  have hkept : doc.Kept log (changed.onHistory .exitModify) := henteredKept.withHistory
  refine ⟨log, changed.onHistory .exitModify, ?_, ?_⟩
  · exact .alter_bind (Runs.bind_silent (hrun.attempt (r := .ok ())) (.alter_bind (.pure () _)))
  · exact
      { toKept := hkept
        atRest := hch.atRest.onHistory fun _ hh => hh.exitModify
        text := hch.text, history := hback, version := hch.version, depth := hch.depth
        changedText := hch.changedText, lineCountAtUpdate := hch.lineCountAtUpdate
        anchors := hch.anchors, announces := hch.announces }

inductive Replayed : List Change → Document → List Notice → Document → Prop
  | nil (doc : Document) : Replayed [] doc [] doc
  | cons {c : Change} {rest : List Change} {doc mid after : Document} {log log' : List Notice}
    (hc : doc.Changed c doc.history log mid) (hrest : Replayed rest mid log' after) :
    Replayed (c :: rest) doc (log ++ log') after

lemma runs_replayAll {group : ChangeGroup} {changes : List Change} (h : doc.AtRest) (hq : doc.Quiet)
    (hphase : doc.history.phase = .playback group) (hb : ∀ c ∈ changes, c.Balanced)
    (hc : Change.FitAll changes doc.text) :
    ∃ log after, (replayAll changes).Runs doc log (.ok ()) after ∧ Replayed changes doc log after := by
  induction changes generalizing doc with
  | nil => exact ⟨[], doc, .pure () doc, .nil doc⟩
  | cons c rest ih =>
    obtain ⟨log, mid, hrun, hch⟩ := runs_replay h hq hphase (hb c (by simp)) hc.1
    obtain ⟨log', after, hrun', hrest⟩ := ih hch.atRest (hch.toKept.quiet hq) (hch.history ▸ hphase)
      (fun c hmem => hb c (by simp [hmem])) (hch.text ▸ hc.2)
    exact ⟨log ++ log', after, hrun.bind hrun', .cons hch hrest⟩

namespace Replayed

variable {changes : List Change}

lemma kept (h : Replayed changes doc log after) : doc.Kept log after := by
  induction h with
  | nil doc => exact .refl doc
  | cons hc _ ih => exact hc.toKept.trans ih

lemma moves (h : Replayed changes doc log after) : Moves doc log after := by
  have hall : ∀ {start : Document} {l : List Notice}, Moves start l doc → Moves start (l ++ log) after := by
    induction h with
    | nil doc => exact fun hm => by simpa using hm
    | cons hc _ ih => exact fun hm => List.append_assoc .. ▸ ih (.changed hm hc)
  exact hall (.refl doc)

lemma atRest (h : Replayed changes doc log after) (hd : doc.AtRest) : after.AtRest := by
  induction h with
  | nil doc => exact hd
  | cons hc _ ih => exact ih hc.atRest

lemma text_eq (h : Replayed changes doc log after) : after.text = Change.applyAll changes doc.text := by
  induction h with
  | nil doc => rfl
  | cons hc _ ih =>
    rw [ih, hc.text]
    rfl

lemma history_eq (h : Replayed changes doc log after) : after.history = doc.history := by
  induction h with
  | nil doc => rfl
  | cons hc _ ih => exact ih.trans hc.history

lemma depth_eq (h : Replayed changes doc log after) : after.updateDepth = doc.updateDepth := by
  induction h with
  | nil doc => rfl
  | cons hc _ ih => exact ih.trans hc.depth

end Replayed

structure Played (changes : List Change) (doc : Document) (log : List Notice) (after : Document) : Prop
    extends Kept doc log after where
  atRest : after.AtRest
  text : after.text = Change.applyAll changes doc.text
  history : after.history = doc.history
  depth : after.updateDepth = 0
  block : Block log
  tallied : doc.Tallied log after

lemma runs_playGroup {group : ChangeGroup} {changes : List Change} (h : doc.AtRest) (hq : doc.Quiet)
    (hd : doc.updateDepth = 0) (hdepth : doc.history.depth = 0) (hsingle : doc.history.continuesTop = false)
    (hpending : doc.history.pending = []) (hphase : doc.history.phase = .playback group)
    (hb : ∀ c ∈ changes, c.Balanced) (hc : Change.FitAll changes doc.text) :
    ∃ log after, (runUpdate (replayAll changes)).Runs doc log (.ok ()) after ∧
      Played changes doc log after := by
  obtain ⟨first, opened, hbegin, ho⟩ := runs_beginUpdate hq h.inChange
  have hopened := ho.toSameParts.atRest ho.options h (ho.history ▸ h.history.startGroup)
  have hquiet := ho.toKept.quiet hq
  have hplayback : opened.history.phase = .playback group := by
    rw [ho.history]
    exact hphase
  obtain ⟨second, replayed, hbody, hr⟩ :=
    runs_replayAll hopened hquiet hplayback hb (ho.toSameParts.text_eq ▸ hc)
  have hreplayed := hr.atRest hopened
  have hstart : replayed.history = { doc.history with depth := 1 } := by
    rw [hr.history_eq, ho.history]
    simp [History.startGroup, hdepth, hsingle]
  have hendGroup : replayed.history.endGroup = .ok doc.history := by
    have hone : replayed.history.depth = 0 + 1 := by rw [hstart]
    rw [History.endGroup_eq hone (by rw [hstart]; exact hsingle), hstart,
      if_neg (by simp [hpending]), ← hdepth]
  obtain ⟨third, after, hend, hcl, hafter⟩ := runs_endUpdate (hr.kept.quiet hquiet) hreplayed.inChange
    (hr.depth_eq.trans (ho.depth.trans (congrArg (· + 1) hd))) hendGroup
  have hrun := runs_runUpdate (s := doc) (r := .ok ()) (e := .ok ()) hbegin hbody hend
  refine ⟨_, after, hrun, ho.toKept.trans (hr.kept.trans hcl.toKept), ?_, ?_, ?_, hafter, ?_, ?_⟩
  · exact hcl.toSameParts.atRest hcl.options hreplayed (hreplayed.history.endGroup hcl.history)
  · rw [hcl.toSameParts.text_eq, hr.text_eq, ho.toSameParts.text_eq]
  · exact Except.ok.inj (hcl.history.symm.trans hendGroup)
  · rw [← List.append_assoc]
    exact hcl.block hafter (hr.moves.inBlock (ho.inBlock hd))
  · exact ho.tallied.trans (hr.moves.tallied.trans hcl.tallied)

structure PlayedBack (line : Timeline) (doc : Document) (log : List Notice) (after : Document) : Prop
    extends Kept doc log after where
  sound : after.Sound
  depth : after.updateDepth = 0
  timeline : after.timeline = line
  block : Block log
  tallied : doc.Tallied log after

lemma Played.playedBack {changes : List Change} {handed : History} {first : Text} {line : Timeline} {d : Direction}
    (h : doc.Sound) (hd : doc.updateDepth = 0) (hp : Played changes { doc with history := handed } log mid)
    (hdepth : handed.depth = doc.history.depth) (hlimit : handed.limit = doc.history.limit)
    (hs : (d.finish handed).InStep first (Change.applyAll changes doc.text))
    (hline : (d.finish handed).timeline (Change.applyAll changes doc.text) = line) :
    PlayedBack line doc log (mid.onHistory d.finish) := by
  have hkept : doc.Kept log (mid.onHistory d.finish) := hp.toKept.withHistory
  have hhistory : (mid.onHistory d.finish).history = d.finish handed := congrArg d.finish hp.history
  have htext : (mid.onHistory d.finish).text = Change.applyAll changes doc.text := hp.text
  have hlimit' : (d.finish handed).limit = mid.options.undoLimit := by
    rw [Direction.finish_limit, hlimit, h.limit, hp.options]
  have hfinal : (d.finish handed).depth = 0 := by rw [Direction.finish_depth, hdepth, h.depth, hd]
  refine ⟨hkept, ⟨⟨hp.atRest.onHistory fun _ hh => hh.finish d,
    hkept.quiet h.quiet, ?_, hkept.fresh h.fresh, ?_, ?_, ?_, ?_, ?_, ?_⟩, ?_, ?_⟩, hp.depth, ?_, hp.block,
    hp.tallied⟩
  · exact hkept.tokens_eq ▸ h.tokens
  · rw [hhistory, hs.idle]
  · rw [hhistory, hs.single]
  · rw [hhistory, hfinal]
    exact hp.depth.symm
  · rw [hhistory]
    exact hlimit'
  · rw [hhistory]
    exact hlimit' ▸ hs.room
  · exact fun _ => hhistory ▸ hs.closed hfinal
  · rw [hhistory, hs.accepts]
  · rw [hhistory, htext]
    exact hs.leads
  · rw [timeline, hhistory, htext, hline]

namespace Sound

lemma inStep (h : doc.Sound) (hd : doc.updateDepth = 0) : doc.history.InStep doc.timeline.first doc.text :=
  ⟨h.idle, h.single, h.accepts, h.limit ▸ h.room, fun _ => h.closed hd, h.leads, rfl⟩

lemma runs_playBack_in_update (h : doc.Sound) (d : Direction) (hd : 0 < doc.updateDepth) :
    (playBack d).Runs doc [] (.refused (.text .playbackInGroup)) doc := by
  refine runs_checkNotInChange h.inChange (.state_bind (.lift_bind_error ?_))
  rw [Direction.handOut_eq, History.checkPlayback, if_pos (h.depth ▸ hd)]
  rfl

lemma runs_playBack_nothing (h : doc.Sound) {d : Direction} (hd : doc.updateDepth = 0)
    (hnone : d.along doc.timeline = none) : (playBack d).Runs doc [] (.ok false) doc := by
  have hclosed := (h.inStep hd).isClosed (h.depth.trans hd)
  exact runs_checkNotInChange h.inChange
    (.state_bind (.lift_bind (hclosed.handOut_eq_none (History.along_eq_none.mp hnone)) (.pure false doc)))

lemma runs_playBack (h : doc.Sound) {d : Direction} (hd : doc.updateDepth = 0) {line : Timeline}
    (hline : d.along doc.timeline = some line) :
    ∃ log after, (playBack d).Runs doc log (.ok true) after ∧ PlayedBack line doc log after := by
  have hs := h.inStep hd
  have hdepth := h.depth.trans hd
  obtain ⟨group, rest, hgroups⟩ := History.groups_of_along hline
  have hok := (hs.isClosed hdepth).handOut_eq hgroups
  obtain ⟨hhanded, hgroup⟩ := h.history.handOut hok
  obtain ⟨hfits, hafter, halong⟩ := hs.played hdepth hgroups
  let handed := d.handed group rest doc.history
  obtain ⟨log, played, hrun, hp⟩ := runs_playGroup (h.toAtRest.withHistory hhanded) h.quiet hd
    (show handed.depth = 0 by simpa [handed] using hdepth)
      (show handed.continuesTop = false by simpa [handed] using h.single)
    (show handed.pending = [] by simpa [handed] using h.closed hd) (Direction.handed_phase ..)
    (d.changes_balanced (hgroup _ rfl)) hfits
  refine ⟨log, played.onHistory d.finish, ?_, ?_⟩
  · refine runs_checkNotInChange h.inChange (.state_bind (.lift_bind hok (.alter_bind ?_)))
    exact hrun.ensuring.bind_silent (.pure true _)
  · exact hp.playedBack h hd (by simp) (by simp) hafter (Option.some.inj (halong.symm.trans hline))

end Sound

end Document

end EditableText
