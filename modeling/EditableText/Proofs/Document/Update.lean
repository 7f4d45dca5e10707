import EditableText.Proofs.Anchor.Deletion
import EditableText.Proofs.Document.Faithful

namespace EditableText

namespace Document

variable {doc mid after : Document} {log log' : List Notice}

structure Kept (doc : Document) (log : List Notice) (after : Document) : Prop where
  id : after.id = doc.id
  options : after.options = doc.options
  nextToken : after.nextToken = doc.nextToken
  audience : after.audience = doc.audience
  seen : ∀ n ∈ log, n.seen.audience = doc.audience
  bus : after.bus = doc.bus.emitAll (log.map (·.notification doc.id))
  faithful : Faithful doc log after

lemma Kept.refl (doc : Document) : doc.Kept [] doc := ⟨rfl, rfl, rfl, rfl, by simp, rfl, .nil (.refl doc)⟩

lemma Kept.trans (h : doc.Kept log mid) (h' : mid.Kept log' after) : doc.Kept (log ++ log') after where
  id := h'.id.trans h.id
  options := h'.options.trans h.options
  nextToken := h'.nextToken.trans h.nextToken
  audience := h'.audience.trans h.audience
  seen n hn := by
    rcases List.mem_append.mp hn with hl | hl
    · exact h.seen n hl
    · exact (h'.seen n hl).trans h.audience
  bus := by rw [h'.bus, h.bus, h.id, List.map_append, Bus.emitAll_append]
  faithful := h.faithful.trans h'.faithful

lemma Kept.withHistory {handed final : History} (h : ({ doc with history := handed } : Document).Kept log mid) :
    doc.Kept log { mid with history := final } :=
  have hsame : doc.SameContent { doc with history := handed } := ⟨rfl, rfl, rfl, rfl⟩
  ⟨h.id, h.options, h.nextToken, h.audience, h.seen, h.bus,
    .of_sameContent hsame (h.faithful.to_sameContent ⟨rfl, rfl, rfl, rfl⟩)⟩

lemma Kept.quiet (h : doc.Kept log after) (hq : doc.Quiet) : after.Quiet :=
  quiet_of_profile hq h.audience

lemma Told.kept (h : doc.Told log after) (hlog : ∀ n ∈ log, n.event.isOfChange = false ∧
    doc.SameContent n.seen ∧ n.seen.audience = doc.audience) : doc.Kept log after := by
  have hfaithful : Faithful doc log after :=
    .of_still (fun n hn => ⟨(hlog n hn).1, (hlog n hn).2.1⟩) h.sameContent
  obtain ⟨listeners, hprofile, rfl⟩ := h
  exact ⟨rfl, rfl, rfl, hprofile, fun n hn => (hlog n hn).2.2, rfl, hfaithful⟩

structure SameParts (doc after : Document) : Prop where
  storage : after.storage = doc.storage
  lines : after.lines = doc.lines
  anchors : after.anchors = doc.anchors
  version : after.version = doc.version
  inChange : after.inChange = doc.inChange

lemma SameParts.text_eq (h : doc.SameParts after) : after.text = doc.text := by
  rw [text, text, h.storage]

lemma SameParts.atRest (h : doc.SameParts after) (hoptions : after.options = doc.options) (hd : doc.AtRest)
    (hh : after.history.OfChanges Change.Balanced) : after.AtRest :=
  ⟨⟨h.storage ▸ hd.storage, by rw [h.lines, h.storage]; exact hd.lines,
    by rw [h.lines, hoptions]; exact hd.breaks, by rw [h.anchors, h.storage]; exact hd.anchors, hh⟩,
    h.inChange.trans hd.inChange⟩

structure Opened (doc : Document) (log : List Notice) (after : Document) : Prop
    extends Kept doc log after, SameParts doc after where
  history : after.history = doc.history.startGroup
  depth : after.updateDepth = doc.updateDepth + 1
  inner : 0 < doc.updateDepth → log = [] ∧ after.updateChangedText = doc.updateChangedText ∧
    after.lineCountAtUpdate = doc.lineCountAtUpdate
  outer : doc.updateDepth = 0 → (∃ seen : Document, log = [⟨.updateStarted, seen⟩] ∧
    seen.lineCount = doc.lineCount) ∧ after.updateChangedText = false ∧
    after.lineCountAtUpdate = doc.lineCount

lemma checkNotInChange_runs (h : doc.inChange = false) : checkNotInChange.Runs doc [] (.ok ()) doc := by
  refine .state_bind ?_
  rw [if_neg (by simp [h])]
  exact .pure () doc

lemma runs_checkNotInChange {α : Type} {f : Unit → Action Document α} {o : Outcome α}
    (h : doc.inChange = false) (hf : (f ()).Runs doc log o after) :
    (checkNotInChange >>= f).Runs doc log o after :=
  (checkNotInChange_runs h).bind hf

lemma endUpdate_eq (h : doc.inChange = false) : endUpdate doc = closeUpdate doc := by
  have hcheck := checkNotInChange_runs h
  rw [Action.Runs] at hcheck
  change Action.bind checkNotInChange (fun _ => closeUpdate) doc = _
  rw [Action.bind, hcheck]
  simp

lemma runs_beginUpdate (hq : doc.Quiet) (h : doc.inChange = false) :
    ∃ log after, beginUpdate.Runs doc log (.ok ()) after ∧ doc.Opened log after := by
  by_cases hd : doc.updateDepth = 0
  · let opened : Document :=
      { doc with
        history := doc.history.startGroup
        updateDepth := doc.updateDepth + 1
        updateChangedText := false
        lineCountAtUpdate := doc.lineCount }
    refine ⟨[⟨.updateStarted, opened⟩], opened.tell .updateStarted, ?_, ?_⟩
    · refine runs_checkNotInChange h (.state_bind (.alter_bind ?_))
      rw [if_pos hd]
      exact .alter_bind ((show opened.Quiet from hq).emit .updateStarted)
    · obtain ⟨listeners, hprofile, htold⟩ := told_tell .updateStarted opened
      rw [htold]
      exact
        { id := rfl, options := rfl, nextToken := rfl, audience := hprofile, seen := by simp [opened, audience]
          bus := rfl, faithful := .other rfl ⟨rfl, rfl, rfl, rfl⟩ (.nil ⟨rfl, rfl, rfl, rfl⟩)
          storage := rfl, lines := rfl, anchors := rfl, version := rfl, inChange := rfl
          history := rfl, depth := rfl, inner := by omega
          outer := fun _ => ⟨⟨opened, rfl, rfl⟩, rfl, rfl⟩ }
  · let opened : Document :=
      { doc with history := doc.history.startGroup, updateDepth := doc.updateDepth + 1 }
    refine ⟨[], opened, ?_, ?_⟩
    · refine runs_checkNotInChange h (.state_bind (.alter_bind ?_))
      rw [if_neg hd]
      exact .pure () opened
    · exact
        { id := rfl, options := rfl, nextToken := rfl, audience := rfl, seen := by simp
          bus := rfl, faithful := .nil ⟨rfl, rfl, rfl, rfl⟩
          storage := rfl, lines := rfl, anchors := rfl, version := rfl, inChange := rfl
          history := rfl, depth := rfl, inner := fun _ => ⟨rfl, rfl, rfl⟩, outer := by omega }

def closingEvents (old new : Nat) (changed : Bool) : List DocumentEvent :=
  (if old ≠ new then [.lineCountChanged old new] else []) ++
    .updateFinished :: (if changed then [.changeCompleted] else [])

structure Left (doc : Document) (log : List Notice) (after : Document) : Prop
    extends Kept doc log after, SameParts doc after where
  history : doc.history.endGroup = .ok after.history
  depth : doc.updateDepth = after.updateDepth + 1
  inner : 0 < after.updateDepth → log = [] ∧ after.updateChangedText = doc.updateChangedText ∧
    after.lineCountAtUpdate = doc.lineCountAtUpdate

lemma Left.depth_pos (h : doc.Left log after) : 0 < doc.updateDepth := by
  rw [h.depth]
  exact Nat.succ_pos _

structure Closed (doc : Document) (log : List Notice) (after : Document) : Prop
    extends Left doc log after where
  outer : after.updateDepth = 0 →
    log.map (·.event) = closingEvents doc.lineCountAtUpdate doc.lineCount doc.updateChangedText ∧
      ∀ n ∈ log, n.seen.lineCount = doc.lineCount

lemma runs_finishUpdate (hq : doc.Quiet) (changed : Bool) :
    ∃ log after,
      (do
        emit .updateFinished
        .alter fun doc => { doc with updateChangedText := false }
        if changed then emit .changeCompleted : Action Document Unit).Runs doc log (.ok ()) after ∧
      ({ doc with updateChangedText := false } : Document).Told log after ∧
      log.map (·.event) = .updateFinished :: (if changed then [.changeCompleted] else []) ∧
      ∀ n ∈ log, n.event.isOfChange = false ∧ doc.SameContent n.seen ∧ n.seen.audience = doc.audience := by
  have htold := told_tell .updateFinished { doc with updateChangedText := false }
  have hfirst := hq.emit .updateFinished
  let finished : Document := { doc.tell .updateFinished with updateChangedText := false }
  have hfinished : ({ doc with updateChangedText := false } : Document).Told
      [⟨.updateFinished, doc⟩] finished := htold
  cases changed with
  | false =>
    refine ⟨_, finished, hfirst.bind (.alter_bind (.pure () finished)), hfinished, rfl, fun n hn => ?_⟩
    obtain rfl := List.mem_singleton.mp hn
    exact ⟨rfl, .refl _, rfl⟩
  | true =>
    have hlast := (hfinished.quiet hq).emit .changeCompleted
    refine ⟨_, _, hfirst.bind (.alter_bind hlast), hfinished.trans (told_tell _ _), rfl, fun n hn => ?_⟩
    obtain ⟨listeners, hprofile, -⟩ := htold
    rcases List.mem_cons.mp hn with rfl | hn
    · exact ⟨rfl, .refl _, rfl⟩
    · obtain rfl := List.mem_singleton.mp hn
      exact ⟨rfl, ⟨rfl, rfl, rfl, rfl⟩, hfinished.audience_eq⟩

lemma runs_closeUpdate (hq : doc.Quiet) {depth : Nat} (hd : doc.updateDepth = depth + 1)
    {history : History} (hh : doc.history.endGroup = .ok history) :
    ∃ log after, closeUpdate.Runs doc log (.ok ()) after ∧ doc.Closed log after ∧
      after.updateDepth = depth := by
  let left : Document := { doc with history, updateDepth := depth }
  have hleft : (Action.alterExcept leaveUpdate).Runs doc [] (.ok ()) left := by
    simp [Action.Runs, Action.alterExcept, leaveUpdate, hd, hh, Except.mapError, bind, Except.bind,
      pure, Except.pure, left]
  by_cases hz : depth = 0
  · obtain ⟨first, counted, htold, hcounted, hcountedSeen, hrun⟩ :=
      (show left.Quiet from hq).emitWhen (doc.lineCountAtUpdate ≠ doc.lineCount)
        (.lineCountChanged doc.lineCountAtUpdate doc.lineCount)
    have hquiet := htold.quiet hq
    obtain ⟨listeners, hprofile, rfl⟩ := htold
    obtain ⟨second, after, hfinish, ⟨listeners', hprofile', hafter⟩, hevents, hseen⟩ :=
      runs_finishUpdate hquiet doc.updateChangedText
    refine ⟨first ++ second, after, hleft.bind (.state_bind ?_), ?_, hafter ▸ rfl⟩
    · rw [if_pos (show left.updateDepth = 0 from hz)]
      exact hrun hfinish
    · have hshown : ∀ n ∈ first ++ second, n.event.isOfChange = false ∧ doc.SameContent n.seen ∧
          n.seen.audience = doc.audience := by
        intro n hn
        rcases List.mem_append.mp hn with hl | hl
        · have hevent : n.event ∈ first.map (·.event) := List.mem_map_of_mem hl
          rw [hcounted, List.mem_ite_nil_right, List.mem_singleton] at hevent
          rw [hevent.2, hcountedSeen n hl]
          exact ⟨rfl, ⟨rfl, rfl, rfl, rfl⟩, rfl⟩
        · obtain ⟨hevent, hsame, haudience⟩ := hseen n hl
          exact ⟨hevent, ⟨hsame.storage, hsame.lines, hsame.version, hsame.options⟩, haudience.trans hprofile⟩
      rw [hafter]
      exact
        { id := rfl, options := rfl, nextToken := rfl, audience := hprofile'.trans hprofile
          seen := fun n hn => (hshown n hn).2.2
          bus := by rw [List.map_append, Bus.emitAll_append]
          faithful := .of_still (fun n hn => ⟨(hshown n hn).1, (hshown n hn).2.1⟩) ⟨rfl, rfl, rfl, rfl⟩
          storage := rfl, lines := rfl, anchors := rfl, version := rfl, inChange := rfl
          history := hh, depth := hd, inner := fun h => absurd hz (Nat.ne_of_gt h)
          outer := fun _ => by
            refine ⟨by rw [List.map_append, hcounted, hevents]; rfl, fun n hn => ?_⟩
            exact (hshown n hn).2.1.lineCount_eq }
  · refine ⟨[], left, hleft.bind (.state_bind ?_), ?_, rfl⟩
    · rw [if_neg (show left.updateDepth ≠ 0 from hz)]
      exact .pure () left
    · exact
        { id := rfl, options := rfl, nextToken := rfl, audience := rfl, seen := by simp
          bus := rfl, faithful := .nil ⟨rfl, rfl, rfl, rfl⟩
          storage := rfl, lines := rfl, anchors := rfl, version := rfl, inChange := rfl
          history := hh, depth := hd, inner := fun _ => ⟨rfl, rfl, rfl⟩
          outer := fun h => absurd h hz }

lemma left_closeSilently (h : doc.inChange = false) {depth : Nat} (hd : doc.updateDepth = depth + 1)
    {history : History} (hh : doc.history.endGroup = .ok history) : doc.Left [] doc.closeSilently := by
  have hleave : leaveUpdate { doc with inChange := false } =
      .ok { doc with history, updateDepth := depth, inChange := false } := by
    simp only [leaveUpdate, hd, hh, Except.mapError, bind, Except.bind, pure, Except.pure]
  rw [closeSilently, hleave]
  dsimp only
  split
  case isTrue hz =>
    exact
      { id := rfl, options := rfl, nextToken := rfl, audience := rfl, seen := by simp
        bus := rfl, faithful := .nil ⟨rfl, rfl, rfl, rfl⟩
        storage := rfl, lines := rfl, anchors := rfl, version := rfl, inChange := h.symm
        history := hh, depth := hd, inner := fun hpos => absurd hz (Nat.ne_of_gt hpos) }
  case isFalse =>
    exact
      { id := rfl, options := rfl, nextToken := rfl, audience := rfl, seen := by simp
        bus := rfl, faithful := .nil ⟨rfl, rfl, rfl, rfl⟩
        storage := rfl, lines := rfl, anchors := rfl, version := rfl, inChange := h.symm
        history := hh, depth := hd, inner := fun _ => ⟨rfl, rfl, rfl⟩ }

def Announces (c : Change) (doc after : Document) (log : List Notice) : Prop :=
  ∃ before changed deletions, log = ⟨.changing c, before⟩ :: ⟨.changed c, changed⟩ :: deletions ∧
    deletions.map (·.event) = (before.anchors.lost changed.anchors).map .anchorDeleted ∧
    before.anchors = doc.anchors ∧ changed.anchors = after.anchors

lemma exists_mutated {c : Change} (h : doc.Coherent) (hb : c.Balanced)
    (hc : c.offset + c.removed.length ≤ doc.text.length) {history : History}
    (hh : doc.history.push c = .ok history) :
    ∃ mutated storage lines anchors, doc.mutate c = .ok (doc.anchors.lost anchors, mutated) ∧
      ({ mutated with updateChangedText := true } : Document).record c =
        (.ok (), { doc with
          storage, lines, anchors, history
          version := doc.version + 1
          updateChangedText := true }) ∧
      ({ doc with storage, lines, anchors, history } : Document).Coherent ∧
      TextSource.text storage = c.apply doc.text ∧
      anchors = (doc.anchors.follow c.map (c.apply doc.text).length).2 := by
  obtain ⟨storage, lines, hmutate, hwf, hcontent, hlines, hbreaks⟩ := h.mutate_eq hc
  rw [AnchorTable.lost_follow] at hmutate
  refine ⟨_, storage, lines, _, hmutate, ?_, ?_, hwf.reads.text_eq.trans hcontent, rfl⟩
  · simp only [record, hh]
  · refine ⟨hwf, hcontent ▸ hlines, hbreaks.trans h.breaks, ?_, h.history.push hb hh⟩
    dsimp only
    rw [hcontent]
    exact h.anchors.follow fun hmap => by rw [hb.length_apply hc hmap, h.text_eq]

structure Changed (c : Change) (history : History) (doc : Document) (log : List Notice)
    (after : Document) : Prop extends Kept doc log after where
  atRest : after.AtRest
  text : after.text = c.apply doc.text
  history : after.history = history
  version : after.version = doc.version + 1
  depth : after.updateDepth = doc.updateDepth
  changedText : after.updateChangedText = true
  lineCountAtUpdate : after.lineCountAtUpdate = doc.lineCountAtUpdate
  anchors : after.anchors = (doc.anchors.follow c.map after.text.length).2
  announces : Announces c doc after log

/-- What a change tells, and what it leaves. What the history said to it is not looked at until all have heard of
it. -/
lemma runs_applyChange_of {c : Change} {deleted : List AnchorId} {mutated recorded : Document}
    {r : Except TextError Unit} (hq : doc.Quiet)
    (hmutate : (({ doc with inChange := true } : Document).tell (.changing c)).mutate c = .ok (deleted, mutated))
    (hrecord : ({ mutated with updateChangedText := true } : Document).record c = (r, recorded))
    (hquiet : recorded.Quiet) :
    ∃ deletions told,
      (applyChange c).Runs doc
        (⟨.changing c, { doc with inChange := true }⟩ :: ⟨.changed c, recorded⟩ :: deletions)
        (.ofExcept (r.mapError .text)) { told with inChange := false } ∧
      recorded.Told (⟨.changed c, recorded⟩ :: deletions) told ∧
      deletions.map (·.event) = deleted.map .anchorDeleted ∧
      ∀ n ∈ deletions, ∃ before, recorded.Told before n.seen := by
  let changing : Document := { doc with inChange := true }
  have hheard := told_tell (.changed c) recorded
  obtain ⟨deletions, told, hdeletions, htold, hevents, hseen⟩ :=
    (hheard.quiet hquiet).emitAll (deleted.map .anchorDeleted)
  refine ⟨deletions, told, ?_, hheard.trans htold, hevents, fun n hn => ?_⟩
  · refine .alter_bind (((show changing.Quiet from hq).emit (.changing c)).bind (.state_bind ?_))
    rw [hmutate]
    dsimp only
    rw [hrecord]
    exact .alter_bind ((hquiet.emit (.changed c)).bind (hdeletions.bind_silent (.alter_bind (.ofExcept _ _))))
  · obtain ⟨before, hbefore⟩ := hseen n hn
    exact ⟨_, hheard.trans hbefore⟩

lemma runs_applyChange {c : Change} (h : doc.Coherent) (hq : doc.Quiet) (hb : c.Balanced)
    (hc : c.Fits doc.text) {history : History} (hh : doc.history.push c = .ok history) :
    ∃ log after, (applyChange c).Runs doc log (.ok ()) after ∧ doc.Changed c history log after := by
  let changing : Document := { doc with inChange := true }
  let announced : Document := changing.tell (.changing c)
  have hprofile := tell_profiles (.changing c) changing
  obtain ⟨mutated, storage, lines, anchors, hmutate, hrecord, hcoherent, htext, hanchors⟩ :=
    exists_mutated (show announced.Coherent from h.congr rfl) hb hc.le_length hh
  let recorded : Document :=
    { announced with storage, lines, anchors, history, version := doc.version + 1, updateChangedText := true }
  have hfollowed : anchors = (doc.anchors.follow c.map (TextSource.text storage).length).2 := by
    rw [htext]
    exact hanchors
  obtain ⟨deletions, told, hrun, htold, hevents, hseen⟩ :=
    runs_applyChange_of hq hmutate hrecord (quiet_of_profile hq hprofile)
  have hshown : ∀ n ∈ deletions, n.event.isOfChange = false ∧ recorded.SameContent n.seen ∧
      n.seen.audience = doc.audience := by
    intro n hn
    have hevent : n.event ∈ deletions.map (·.event) := List.mem_map_of_mem hn
    rw [hevents] at hevent
    obtain ⟨id, -, hid⟩ := List.mem_map.mp hevent
    obtain ⟨before, hbefore⟩ := hseen n hn
    exact ⟨hid ▸ rfl, hbefore.sameContent, hbefore.audience_eq.trans hprofile⟩
  refine ⟨_, _, hrun, ?_⟩
  obtain ⟨listeners, hprofile', rfl⟩ := htold
  exact
    { id := rfl, options := rfl, nextToken := rfl, audience := hprofile'.trans hprofile
      seen := by
        simp only [List.mem_cons, forall_eq_or_imp]
        exact ⟨rfl, hprofile, fun n hn => (hshown n hn).2.2⟩
      bus := rfl
      faithful := .change ⟨rfl, rfl, rfl, rfl⟩
        ⟨hc, h.congr rfl, hh, htext, rfl, hfollowed, rfl, hcoherent.congr rfl⟩
        (.of_still (fun n hn => ⟨(hshown n hn).1, (hshown n hn).2.1⟩) ⟨rfl, rfl, rfl, rfl⟩)
      atRest := ⟨hcoherent.congr rfl, rfl⟩
      text := htext, history := rfl, version := rfl, depth := rfl, changedText := rfl
      lineCountAtUpdate := rfl, anchors := hfollowed
      announces := ⟨changing, recorded, deletions, rfl, hevents, rfl, rfl⟩ }

end Document

end EditableText
