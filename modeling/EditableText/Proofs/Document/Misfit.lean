import EditableText.Proofs.Document.Directions
import EditableText.Proofs.Document.Settled
import EditableText.Proofs.History.Timeline

namespace EditableText

open EditableText.Action EditableText.Change

namespace Change

variable {cs : List Change} {t : Text}

def playable : List Change → Text → List Change
  | [], _ => []
  | c :: rest, t => if c.offset + c.removed.length ≤ t.length then c :: playable rest (c.apply t) else []

def playing : List Change → Text → Except TextError Unit
  | [], _ => .ok ()
  | c :: rest, t => do
    checkRange c.offset c.removed.length t.length
    playing rest (c.apply t)

lemma playing_eq_ok : playing cs t = .ok () ↔ InRangeAll cs t := by
  induction cs generalizing t with
  | nil => exact iff_of_true rfl trivial
  | cons c rest ih =>
    rw [playing, InRangeAll, ← ih, ← checkRange_eq_ok]
    cases checkRange c.offset c.removed.length t.length with
    | ok => simp [bind, Except.bind]
    | error e => simp [bind, Except.bind]

end Change

namespace History

variable {h : History} {group : ChangeGroup}

lemma recording_enterModify (hphase : h.phase = .playback group) (cs : List Change) :
    h.enterModify.recording cs = .ok () := by
  rw [enterModify_eq hphase, recording, if_neg]
  rintro ⟨⟨_, hplayback⟩, -⟩
  cases hplayback

lemma recorded_enterModify (hphase : h.phase = .playback group) (c : Change) :
    h.enterModify.recorded c = h.enterModify := by
  rw [enterModify_eq hphase]
  rfl

end History

namespace Document

variable {doc : Document} {c : Change} {cs : List Change} {group : ChangeGroup} {closed : History}

namespace Settled

variable (h : doc.Settled) (hphase : doc.history.phase = .playback group)

include h hphase

lemma runs_replay (hc : c.Balanced) :
    ∃ log after, (replay c).Runs doc log (.ofExcept ((playing [c] doc.text).mapError .text)) after ∧
      Comes (playable [c] doc.text) doc.history doc.updateDepth doc after := by
  let entered := doc.onHistory .enterModify
  have hentered : Comes [] entered.history doc.updateDepth doc entered :=
    .still h rfl h.balanced.enterModify rfl h.inChange
  obtain ⟨log, mid, hrun, hmid⟩ : ∃ log mid,
      (applyChange c).Runs entered log (.ofExcept ((playing [c] doc.text).mapError .text)) mid ∧
        Comes (playable [c] doc.text) entered.history doc.updateDepth entered mid := by
    rw [playing, playable]
    by_cases hrange : c.offset + c.removed.length ≤ doc.text.length
    · rw [checkRange_eq_ok.mpr hrange, if_pos hrange]
      have happlied := hentered.settled.runs_applyChange hc hrange
      rwa [show entered.history = doc.history.enterModify from rfl, History.recording_enterModify hphase,
        History.recorded_enterModify hphase] at happlied
    · rw [show checkRange c.offset c.removed.length doc.text.length = _ from if_neg hrange, if_neg hrange]
      exact hentered.settled.runs_applyChange_outside (Nat.not_le.mp hrange)
  have hback : Comes [] doc.history doc.updateDepth mid (mid.onHistory .exitModify) := by
    have hstill : Comes [] _ _ mid (mid.onHistory .exitModify) :=
      .still hmid.settled rfl hmid.settled.balanced.exitModify rfl hmid.settled.inChange
    rwa [show (mid.onHistory .exitModify).history = mid.history.exitModify from rfl, hmid.history,
      show entered.history = doc.history.enterModify from rfl, History.exitModify_enterModify hphase,
      show (mid.onHistory .exitModify).updateDepth = mid.updateDepth from rfl, hmid.depth] at hstill
  have hcomes := (hentered.trans hmid).trans hback
  rw [List.nil_append, List.append_nil] at hcomes
  exact ⟨log, _, .alter_bind (hrun.attempt.bind_silent (.alter_bind (.ofExcept _ _))), hcomes⟩

lemma runs_replayAll (hcs : ∀ c ∈ cs, c.Balanced) :
    ∃ log after, (replayAll cs).Runs doc log (.ofExcept ((playing cs doc.text).mapError .text)) after ∧
      Comes (playable cs doc.text) doc.history doc.updateDepth doc after := by
  -- on the changes, since what comes after the first that lies outside is not played back
  induction cs generalizing doc with
  | nil => exact ⟨[], doc, .pure () doc, .refl h⟩
  | cons c rest ih =>
    obtain ⟨first, mid, hrun, hmid⟩ := h.runs_replay hphase (hcs c List.mem_cons_self)
    rw [playing] at hrun ⊢
    rw [playable] at hmid ⊢
    by_cases hrange : c.offset + c.removed.length ≤ doc.text.length
    · rw [checkRange_eq_ok.mpr hrange] at hrun ⊢
      rw [if_pos hrange] at hmid ⊢
      obtain ⟨second, after, hrest, hafter⟩ := ih hmid.settled (hmid.history ▸ hphase)
        fun c hmem => hcs c (List.mem_cons_of_mem _ hmem)
      rw [hmid.text_eq] at hrest hafter
      rw [hmid.history, hmid.depth] at hafter
      exact ⟨first ++ second, after, Runs.bind (a := ()) hrun hrest, hmid.trans hafter⟩
    · rw [show checkRange c.offset c.removed.length doc.text.length = _ from if_neg hrange] at hrun ⊢
      rw [if_neg hrange] at hmid ⊢
      exact ⟨first, mid, .bind_refused hrun, hmid⟩

end Settled

/-- What an undo or a redo comes to. The group that was handed out goes over in the end, however far it was
played back. -/
structure PlaysBack (x : Action Document Bool)
    (handOut : History → Except TextError (Option ChangeGroup × History))
    (changes : ChangeGroup → List Change) (finish : History → History) (doc : Document) : Prop where
  refused {e : TextError} (h : handOut doc.history = .error e) : x doc = ⟨.refused (.text e), doc, []⟩
  nothing {history : History} (h : handOut doc.history = .ok (none, history)) : x doc = ⟨.ok false, doc, []⟩
  outcome {group : ChangeGroup} {handed : History} (h : handOut doc.history = .ok (some group, handed)) :
    (x doc).outcome = .ofExcept (((playing (changes group) doc.text).map fun _ => true).mapError .text)
  made {group : ChangeGroup} {handed : History} (h : handOut doc.history = .ok (some group, handed)) :
    Makes (playable (changes group) doc.text) doc (x doc).state
  history {group : ChangeGroup} {handed : History} (h : handOut doc.history = .ok (some group, handed)) :
    ∃ closed, handed.startGroup.endGroup = .ok closed ∧ (x doc).state.history = finish closed

namespace Settled

variable (h : doc.Settled)

include h

lemma runs_playGroup (hphase : doc.history.phase = .playback group) (hcs : ∀ c ∈ cs, c.Balanced)
    (hend : doc.history.startGroup.endGroup = .ok closed) :
    ∃ log after, (runUpdate (replayAll cs)).Runs doc log (.ofExcept ((playing cs doc.text).mapError .text)) after ∧
      Comes (playable cs doc.text) closed doc.updateDepth doc after := by
  obtain ⟨first, opened, hbegin, hopen⟩ := h.runs_beginUpdate
  have hopenPhase : opened.history.phase = .playback group := by
    rw [hopen.history]
    exact hphase
  obtain ⟨second, mid, hrun, hmid⟩ := hopen.settled.runs_replayAll hopenPhase hcs
  rw [hopen.text_eq] at hrun hmid
  rw [hopen.history, hopen.depth] at hmid
  exact hopen.runs_runUpdate hbegin hrun hmid hend

lemma runs_playBack {d : Direction} {handed : History} (hok : d.handOut doc.history = .ok (some group, handed)) :
    ∃ log after closed, (playBack d).Runs doc log
        (.ofExcept (((playing (d.changes group) doc.text).map fun _ => true).mapError .text)) after ∧
      Makes (playable (d.changes group) doc.text) doc after ∧
      handed.startGroup.endGroup = .ok closed ∧ after.history = d.finish closed := by
  obtain ⟨hbalanced, hgroup⟩ := h.balanced.handOut hok
  obtain ⟨closed, hend, -⟩ := History.endGroup_footing (h := handed.startGroup) rfl
  let waiting : Document := { doc with history := handed }
  have hwaiting : Comes [] waiting.history waiting.updateDepth doc waiting := .still h rfl hbalanced rfl h.inChange
  obtain ⟨log, mid, hrun, hmid⟩ := hwaiting.settled.runs_playGroup (Direction.phase_of_handOut hok)
    (d.changes_balanced (hgroup _ rfl)) hend
  rw [show waiting.text = doc.text from rfl] at hrun hmid
  have hmakes := (hwaiting.trans hmid).makes
  refine ⟨log, mid.onHistory d.finish, closed, runs_checkNotInChange h.inChange
    (.state_bind (.lift_bind hok (.alter_bind ?_))), ⟨hmakes.contents, hmakes.lines, hmakes.version⟩, hend,
    congrArg d.finish hmid.history⟩
  cases hplaying : playing (d.changes group) doc.text with
  | ok =>
    rw [hplaying] at hrun
    exact Runs.bind_silent (a := ()) hrun.ensuring (.pure true _)
  | error e =>
    rw [hplaying] at hrun
    exact .bind_refused hrun.ensuring

lemma playBack_playsBack (d : Direction) : PlaysBack (playBack d) d.handOut d.changes d.finish doc := by
  have hrefused {e} (he : d.handOut doc.history = .error e) : (playBack d).Runs doc [] (.refused (.text e)) doc :=
    runs_checkNotInChange h.inChange (.state_bind (.lift_bind_error he))
  have hnothing {history} (hnone : d.handOut doc.history = .ok (none, history)) :
      (playBack d).Runs doc [] (.ok false) doc :=
    runs_checkNotInChange h.inChange (.state_bind (.lift_bind hnone (.pure false doc)))
  refine ⟨hrefused, hnothing, fun hok => ?_, fun hok => ?_, fun hok => ?_⟩
  all_goals
    obtain ⟨log, after, closed, hrun, hmakes, hend, hhistory⟩ := h.runs_playBack hok
    rw [hrun]
  · exact hmakes
  · exact ⟨closed, hend, hhistory⟩

end Settled

section HandingOver

variable {x : Action Document Bool} {handOut : History → Except TextError (Option ChangeGroup × History)}
  {changes : ChangeGroup → List Change} {finish : History → History} {handed : History}

lemma PlaysBack.ok_iff (h : PlaysBack x handOut changes finish doc)
    (hhanded : handOut doc.history = .ok (some group, handed)) :
    (x doc).outcome = .ok true ↔ InRangeAll (changes group) doc.text := by
  rw [h.outcome hhanded, ← playing_eq_ok]
  cases playing (changes group) doc.text <;> simp [Except.map, Except.mapError, Outcome.ofExcept]

lemma PlaysBack.history_eq (h : PlaysBack x handOut changes finish doc)
    (hhanded : handOut doc.history = .ok (some group, handed)) (hdepth : handed.depth = 0)
    (hpending : handed.pending = []) : (x doc).state.history = finish handed.singled := by
  obtain ⟨closed, hend, hhistory⟩ := h.history hhanded
  obtain rfl := Except.ok.inj (hend.symm.trans (History.endGroup_startGroup hdepth hpending))
  exact hhistory

end HandingOver

variable {t : Text} {options : DocumentOptions}

/-- An undo or a redo that is refused at once does nothing. If a group is handed out, its changes are made up to
the first that lies outside of the text. The call fails if there is one, and the group goes over to the other side
in either case, with the saved state. -/
theorem playback_goes_as_far_as_group_fits (h : Reachable t options doc) (hquiet : doc.Quiet) :
    PlaysBack undo History.beginUndo ChangeGroup.undoChanges History.endUndo doc ∧
      PlaysBack redo History.beginRedo ChangeGroup.redoChanges History.endRedo doc ∧
      (doc.history.Closed →
        (∀ group rest, doc.history.undo = group :: rest →
          ((undo doc).outcome = .ok true ↔ InRangeAll group.undoChanges doc.text) ∧
          (undo doc).state.history = { doc.history.singled with
            undo := rest, redo := group :: doc.history.redo, phase := .idle }.shiftSaved (-1)) ∧
        ∀ group rest, doc.history.redo = group :: rest →
          ((redo doc).outcome = .ok true ↔ InRangeAll group doc.text) ∧
          (redo doc).state.history = ({ doc.history.singled with
            undo := group :: doc.history.undo, redo := rest, phase := .idle }.shiftSaved 1).enforceLimit) := by
  have hsettled : doc.Settled := ⟨h.sturdy, hquiet, h.atRest.inChange⟩
  have hundo : PlaysBack undo _ _ _ doc := hsettled.playBack_playsBack .back
  have hredo : PlaysBack redo _ _ _ doc := hsettled.playBack_playsBack .forth
  refine ⟨hundo, hredo, fun hclosed => ⟨fun group rest hgroup => ?_, fun group rest hgroup => ?_⟩⟩
  · have hhanded := hclosed.handOut_eq (d := .back) hgroup
    exact ⟨hundo.ok_iff hhanded, hundo.history_eq hhanded hclosed.depth_eq hclosed.pending_eq⟩
  · have hhanded := hclosed.handOut_eq (d := .forth) hgroup
    exact ⟨hredo.ok_iff hhanded, hredo.history_eq hhanded hclosed.depth_eq hclosed.pending_eq⟩

theorem playback_stops_at_first_misfit :
    ∃ start s, ofText? [] .default = some start ∧
      s = ((Call.remove 0 2).perform ((Call.history (.setAcceptsChanges false)).perform
        ((Call.runUpdate [.insert 0 ['a', 'b', 'c'], .insert 0 ['x']]).perform
          (.start start)).state).state).state ∧
      s.document.text = ['b', 'c'] ∧
      (undo s.document).outcome = .refused (.text (.rangeOutOfRange 0 3 1)) ∧
      Makes [⟨0, ['x'], [], [.plain 0 1 0]⟩] s.document (undo s.document).state ∧
      (undo s.document).state.history.undo = [] ∧ (undo s.document).state.history.redo.length = 1 ∧
      (redo s.document).outcome = .ok false := by
  let typed : Call := .runUpdate [.insert 0 ['a', 'b', 'c'], .insert 0 ['x']]
  let mute : Call := .history (.setAcceptsChanges false)
  obtain ⟨start, hstart⟩ : ∃ start, ofText? [] .default = some start := ⟨_, rfl⟩
  obtain ⟨s, hs⟩ : ∃ s, s =
    ((Call.remove 0 2).perform (mute.perform (typed.perform (.start start)).state).state).state := ⟨_, rfl⟩
  have h : Reachable [] .default s.document :=
    hs ▸ ((Reachable.call (s := .start start) (.start hstart) typed).call mute).call (.remove 0 2)
  obtain ⟨hlisteners, htext, hphase, hdepth, hpending, hundo, hredo⟩ :
      s.document.listeners.length = 0 ∧ s.document.text = ['b', 'c'] ∧ s.document.history.phase = .idle ∧
      s.document.history.depth = 0 ∧ s.document.history.pending = [] ∧
      s.document.history.undo =
        [[⟨0, [], ['a', 'b', 'c'], [.plain 0 0 3]⟩, ⟨0, [], ['x'], [.plain 0 0 1]⟩]] ∧
      s.document.history.redo = [] := by
    obtain rfl := Option.some.inj hstart
    subst hs
    decide +kernel
  have hclosed : s.document.history.Closed := ⟨hphase, hdepth, hpending⟩
  obtain ⟨hback, hforth, hover⟩ := playback_goes_as_far_as_group_fits h (quiet_of_no_listeners hlisteners)
  obtain ⟨-, hhistory⟩ := (hover hclosed).1 _ _ hundo
  refine ⟨start, s, hstart, hs, htext, ?_, ?_, ?_, ?_, ?_⟩
  · rw [hback.outcome (hclosed.handOut_eq (d := .back) hundo), htext]
    rfl
  · have hmade := hback.made (hclosed.handOut_eq (d := .back) hundo)
    rwa [htext] at hmade
  · rw [hhistory]
    rfl
  · rw [hhistory, hredo]
    rfl
  · rw [hforth.nothing (hclosed.handOut_eq_none (d := .forth) hredo)]

/-- The call fails, and still the text is another, and the document counts as unmodified. -/
theorem failed_undo_takes_group_over :
    ∃ doc, Reachable [] .default doc ∧ doc.Quiet ∧
      (undo doc).outcome = .refused (.text (.rangeOutOfRange 0 3 1)) ∧
      doc.text = ['b', 'c'] ∧ (undo doc).state.text = ['c'] ∧
      doc.history.undo.length = 1 ∧ (undo doc).state.history.undo.length = 0 ∧
      doc.history.redo.length = 0 ∧ (undo doc).state.history.redo.length = 1 ∧
      doc.isModified = true ∧ (undo doc).state.isModified = false := by
  let typed : Call := .runUpdate [.insert 0 ['a', 'b', 'c'], .insert 0 ['x']]
  let mute : Call := .history (.setAcceptsChanges false)
  obtain ⟨start, hstart⟩ : ∃ start, ofText? [] .default = some start := ⟨_, rfl⟩
  refine ⟨_, ((Reachable.call (s := .start start) (.start hstart) typed).call mute).call (.remove 0 2),
    quiet_of_no_listeners ?_, ?_⟩
  all_goals
    obtain rfl := Option.some.inj hstart
    decide +kernel

end Document

end EditableText
