import EditableText.Proofs.Document.Refusals
import EditableText.Proofs.Document.Settled

namespace EditableText

open EditableText.Action

namespace History

variable (h : History) {a b cs : List Change}

/-- Those of the changes that are made. The one that the history refuses is made, and none after it. -/
def made (cs : List Change) : List Change := if h.IsPlayingBack then cs.take 1 else cs

def clearing : Except DocumentError Unit := if 0 < h.depth then .error (.text .clearedInGroup) else .ok ()

variable {h}

lemma recording_of_not (hnot : ¬ (h.IsPlayingBack ∧ cs ≠ [])) : h.recording cs = .ok () := if_neg hnot

lemma made_congr {after : History} (hphase : after.phase = h.phase) : after.made = h.made := by
  funext cs
  simp only [made, isPlayingBack_congr hphase]

lemma made_of_length_le (hlength : cs.length ≤ 1) : h.made cs = cs := by
  rw [made, List.take_of_length_le hlength, ite_self]

lemma made_append_of_refused (hrefused : h.IsPlayingBack ∧ a ≠ []) (b : List Change) :
    h.recording (a ++ b) = h.recording a ∧ h.made (a ++ b) = h.made a := by
  obtain ⟨c, rest, rfl⟩ := List.exists_cons_of_ne_nil hrefused.2
  simp [recording, made, hrefused.1]

lemma made_append_of_recorded (hrecorded : ¬ (h.IsPlayingBack ∧ a ≠ [])) (b : List Change) :
    h.recording (a ++ b) = h.recording b ∧ h.made (a ++ b) = a ++ h.made b := by
  by_cases hplaying : h.IsPlayingBack
  · obtain rfl : a = [] := not_not.mp fun hsome => hrecorded ⟨hplaying, hsome⟩
    exact ⟨rfl, rfl⟩
  · simp [recording, made, hplaying]

lemma clearing_eq (h : History) : h.clearing = (h.clear.map fun _ => ()).mapError .text := by
  rw [clearing, clear]
  split <;> rfl

lemma clearing_congr {after : History} (hdepth : after.depth = h.depth) : after.clearing = h.clearing := by
  rw [clearing, clearing, hdepth]

end History

namespace Document

variable {doc : Document} {t : Text} {options : DocumentOptions} {offset length : Nat} {inserted : Text}
  {map : OffsetMap} {cs : List Change} {last : Except DocumentError Unit} {x : Action Document Unit} {p q : Prop}

/-- What an edit comes to that asks for these changes. It is refused before it has done anything if `p` does not
hold. Otherwise the changes are made, and it depends on the history and on what is to be done in the end if the
edit succeeds. -/
structure Lands (x : Action Document Unit) (doc : Document) (p : Prop) (cs : List Change)
    (last : Except DocumentError Unit) : Prop where
  refused (h : ¬ p) : ∃ e, x doc = ⟨.refused e, doc, []⟩
  made (h : p) : Makes (doc.history.made cs) doc (x doc).state
  outcome (h : p) : (x doc).outcome = .ofExcept ((doc.history.recording cs).bind fun _ => last)

lemma Lands.congr (h : Lands x doc p cs last) (hpq : p ↔ q) : Lands x doc q cs last :=
  ⟨fun hq => h.refused (mt hpq.mp hq), fun hq => h.made (hpq.mpr hq), fun hq => h.outcome (hpq.mpr hq)⟩

structure Landings (doc : Document) : Prop where
  replaceWithMap (offset length : Nat) (inserted : Text) (map : OffsetMap) :
    Lands (Document.replaceWithMap offset length inserted map) doc (doc.Admissible offset length inserted map)
      (edits doc.text offset length inserted map) (.ok ())
  replaceWithMapping (offset length : Nat) (inserted : Text) (mapping : ChangeMapping)
    (hword : mapping = .characterReplace → doc.textLength < UInt64.size) :
    Lands (Document.replaceWithMapping offset length inserted mapping) doc (offset + length ≤ doc.textLength)
      (edits doc.text offset length inserted (mapping.offsetMap offset length inserted.length)) (.ok ())
  replace (offset length : Nat) (inserted : Text) :
    Lands (Document.replace offset length inserted) doc (offset + length ≤ doc.textLength)
      (edits doc.text offset length inserted (ChangeMapping.normal.offsetMap offset length inserted.length))
        (.ok ())
  remove (offset length : Nat) :
    Lands (Document.remove offset length) doc (offset + length ≤ doc.textLength)
      (edits doc.text offset length [] (ChangeMapping.normal.offsetMap offset length 0)) (.ok ())
  insert (offset : Nat) (inserted : Text) :
    Lands (Document.insert offset inserted) doc (offset ≤ doc.textLength)
      (edits doc.text offset 0 inserted (ChangeMapping.normal.offsetMap offset 0 inserted.length)) (.ok ())
  insertWithMovement (offset : Nat) (inserted : Text) (movement : AnchorMovement) :
    Lands (Document.insertWithMovement offset inserted movement) doc (offset ≤ doc.textLength)
      (edits doc.text offset 0 inserted
        ((if movement = .beforeInsertion then ChangeMapping.keepAnchorBeforeInsertion
        else .normal).offsetMap offset 0 inserted.length)) (.ok ())
  setText (inserted : Text) :
    Lands (Document.setText inserted) doc (doc.updateDepth = 0)
      (replacements doc.text inserted) doc.history.clearing

lemma Amends.runs_bind {mid after : Document} {log log' : List Notice} {a b : List Change}
    {x y : Action Document Unit} (h : Amends a doc mid) (hlength : a.length ≤ 1)
    (hrun : x.Runs doc log (.ofExcept (doc.history.recording a)) mid) (h' : Amends b mid after)
    (hlength' : b.length ≤ 1) (hrun' : y.Runs mid log' (.ofExcept (mid.history.recording b)) after) :
    ∃ log after, (x >>= fun _ => y).Runs doc log (.ofExcept (doc.history.recording (a ++ b))) after ∧
      Amends (doc.history.made (a ++ b)) doc after := by
  by_cases hrefused : doc.history.IsPlayingBack ∧ a ≠ []
  · obtain ⟨hrecording, hmade⟩ := History.made_append_of_refused hrefused b
    rw [hrecording, hmade, History.made_of_length_le hlength]
    rw [History.recording, if_pos hrefused] at hrun ⊢
    exact ⟨log, mid, .bind_refused hrun, h⟩
  · obtain ⟨hrecording, hmade⟩ := History.made_append_of_recorded hrefused b
    rw [hrecording, hmade, History.made_of_length_le hlength']
    rw [History.recording_of_not hrefused] at hrun
    rw [History.recording_congr h.phase] at hrun'
    exact ⟨log ++ log', after, Runs.bind (a := ()) hrun hrun', h.trans h'⟩

namespace Settled

variable (h : doc.Settled)

include h

lemma replaceWithMap_lands (offset length : Nat) (inserted : Text) (map : OffsetMap) :
    Lands (replaceWithMap offset length inserted map) doc (doc.Admissible offset length inserted map)
      (edits doc.text offset length inserted map) (.ok ()) := by
  refine ⟨h.atRest.runs_replaceWithMap_refused, fun hadmissible => ?_, fun hadmissible => ?_⟩
  all_goals
    obtain ⟨log, after, hrun, hafter⟩ := h.runs_replaceWithMap hadmissible
    rw [hrun]
  · rw [History.made_of_length_le (length_edits_le _ _ _ _ _)]
    exact hafter.comes.makes
  · dsimp only
    cases doc.history.recording (edits doc.text offset length inserted map) <;> rfl

lemma runs_replaceAll (inserted : Text) :
    ∃ log after, (do
        let doc ← Action.state
        remove 0 doc.textLength
        insert 0 inserted : Action Document Unit).Runs doc log
          (.ofExcept (doc.history.recording (replacements doc.text inserted))) after ∧
      Amends (doc.history.made (replacements doc.text inserted)) doc after := by
  obtain ⟨first, cut, hremove, hcut⟩ := h.runs_replaceWithMap
    ((admissible_offsetMap 0 doc.textLength [] .normal nofun).mpr (Nat.le_of_eq (Nat.zero_add _)))
  obtain ⟨second, filled, hinsert, hfilled⟩ := hcut.comes.settled.runs_replaceWithMap
    ((admissible_offsetMap 0 0 inserted .normal nofun).mpr (Nat.zero_le _))
  rw [edits_insert] at hinsert hfilled
  obtain ⟨log, after, hrun, hafter⟩ := hcut.runs_bind (length_edits_le _ _ _ _ _) hremove hfilled
    (length_edits_le _ _ _ _ _) hinsert
  rw [h.atRest.textLength_eq_length] at hrun hafter
  exact ⟨log, after, .state_bind (h.atRest.textLength_eq_length ▸ hrun), hafter⟩

lemma runs_clearing : ∃ log after, (do
      let doc ← Action.state
      let history ← Action.lift doc.history.clear
      Action.alter fun doc => { doc with history := history.markSaved }
      emit .textReplaced : Action Document Unit).Runs doc log (.ofExcept doc.history.clearing) after ∧
    Comes [] after.history doc.updateDepth doc after := by
  rw [History.clearing_eq]
  cases hclear : doc.history.clear with
  | error e => exact ⟨[], doc, .state_bind (.lift_bind_error hclear), .refl h⟩
  | ok cleared =>
    let final : Document := { doc with history := cleared.markSaved }
    have hquiet : final.Quiet := h.quiet
    exact ⟨[⟨.textReplaced, final⟩], final.tell .textReplaced,
      .state_bind (.lift_bind hclear (.alter_bind (hquiet.emit .textReplaced))),
      .still h rfl (h.balanced.clear hclear).markSaved (tell_profiles .textReplaced final) h.inChange⟩

lemma runs_setText (hclosed : doc.updateDepth = 0) (inserted : Text) :
    let cs := replacements doc.text inserted
    ∃ log after, (setText inserted).Runs doc log
        (.ofExcept ((doc.history.recording cs).bind fun _ => doc.history.clearing)) after ∧
      Makes (doc.history.made cs) doc after := by
  intro cs
  let muted := doc.setAcceptsChanges false
  have hmuted : Comes [] muted.history doc.updateDepth doc muted :=
    .still h rfl (h.balanced.setAcceptsChanges false) rfl h.inChange
  obtain ⟨first, mid, hrun, hmid⟩ := hmuted.settled.runs_runUpdate (r := doc.history.recording cs)
    fun opened hopened htext hphase => by
      have hreplaced := hopened.runs_replaceAll inserted
      rwa [htext, History.recording_congr hphase, History.made_congr hphase] at hreplaced
  let back := mid.setAcceptsChanges doc.history.acceptsChanges
  have hstill : Comes [] back.history mid.updateDepth mid back :=
    .still hmid.comes.settled rfl (hmid.comes.settled.balanced.setAcceptsChanges _) rfl hmid.comes.settled.inChange
  have hback := (hmuted.trans hmid.comes).trans hstill
  rw [List.nil_append, List.append_nil] at hback
  have hopen : ¬ (doc.isInUpdate = true) := by simp [isInUpdate, hclosed]
  have hclearing : back.history.clearing = doc.history.clearing := History.clearing_congr hmid.depth
  cases hrecording : doc.history.recording cs with
  | error e =>
    refine ⟨first, back, runs_checkNotInChange h.inChange (.state_bind ?_), hback.makes⟩
    rw [if_neg hopen]
    exact .alter_bind ((hrecording ▸ hrun).attempt.bind_silent (.alter_bind (.bind_refused rfl)))
  | ok =>
    obtain ⟨second, after, hclear, hafter⟩ := hback.settled.runs_clearing
    have hmade := (hback.trans hafter).makes
    rw [List.append_nil] at hmade
    refine ⟨first ++ second, after, runs_checkNotInChange h.inChange (.state_bind ?_), hmade⟩
    rw [if_neg hopen]
    exact .alter_bind (Runs.bind (hrecording ▸ hrun).attempt (.alter_bind (.ofExcept_bind (hclearing ▸ hclear))))

lemma setText_lands (inserted : Text) :
    Lands (setText inserted) doc (doc.updateDepth = 0) (replacements doc.text inserted) doc.history.clearing := by
  refine ⟨fun hopen => ⟨_, h.atRest.runs_setText_in_update (Nat.pos_of_ne_zero hopen) inserted⟩,
    fun hclosed => ?_, fun hclosed => ?_⟩
  all_goals
    obtain ⟨log, after, hrun, hmade⟩ := h.runs_setText hclosed inserted
    rw [hrun]
  exact hmade

lemma landings : doc.Landings where
  replaceWithMap := h.replaceWithMap_lands
  replaceWithMapping offset length inserted mapping hword :=
    (h.replaceWithMap_lands ..).congr (admissible_offsetMap offset length inserted mapping hword)
  replace offset length inserted :=
    (h.replaceWithMap_lands ..).congr (admissible_offsetMap offset length inserted .normal nofun)
  remove offset length := (h.replaceWithMap_lands ..).congr (admissible_offsetMap offset length [] .normal nofun)
  insert offset inserted :=
    (h.replaceWithMap_lands ..).congr (admissible_offsetMap offset 0 inserted .normal nofun)
  insertWithMovement offset inserted movement := (h.replaceWithMap_lands ..).congr
    (admissible_offsetMap offset 0 inserted _ fun heq => absurd heq (insertion_ne_characterReplace movement))
  setText := h.setText_lands

end Settled

/-- Whatever was done to the history, an edit is refused before it has done anything, or it changes the text, the
lines and the anchors. A history that waits to get a group back refuses the first change of it once it is made, and
one with an open group refuses to be cleared once the text is replaced. -/
theorem edits_land_in_any_history (h : Reachable t options doc) (hquiet : doc.Quiet) : doc.Landings :=
  Settled.landings ⟨h.sturdy, hquiet, h.atRest.inChange⟩

theorem edits_land_while_group_is_out :
    ∃ start busy, ofText? [] .default = some start ∧
      busy = ((Call.history .beginUndo).perform ((Call.insert 0 ['a']).perform (.start start)).state).state ∧
      (insert 0 ['b'] busy.document).outcome = .refused (.text .changedDuringPlayback) ∧
      Makes [⟨0, [], ['b'], [.plain 0 0 1]⟩] busy.document (insert 0 ['b'] busy.document).state ∧
      (∃ e, remove 1 1 busy.document = ⟨.refused e, busy.document, []⟩) ∧
      (setText ['c'] busy.document).outcome = .refused (.text .changedDuringPlayback) ∧
      Makes [⟨0, ['a'], [], [.plain 0 1 0]⟩] busy.document (setText ['c'] busy.document).state := by
  obtain ⟨start, hstart⟩ : ∃ start, ofText? [] .default = some start := ⟨_, rfl⟩
  obtain ⟨busy, hbusy⟩ : ∃ s, s =
    ((Call.history .beginUndo).perform ((Call.insert 0 ['a']).perform (.start start)).state).state := ⟨_, rfl⟩
  have h : Reachable [] .default busy.document :=
    hbusy ▸ (Reachable.call (s := .start start) (.start hstart) (.insert 0 ['a'])).call (.history .beginUndo)
  obtain ⟨hlisteners, hdepth, htext, hplaying⟩ :
      busy.document.listeners.length = 0 ∧ busy.document.updateDepth = 0 ∧
      busy.document.text = ['a'] ∧ busy.document.history.IsPlayingBack := by
    obtain rfl := Option.some.inj hstart
    subst hbusy
    decide +kernel
  have hlength : busy.document.textLength = 1 := by
    rw [h.atRest.textLength_eq_length, htext]
    rfl
  have hlandings := edits_land_in_any_history h (quiet_of_no_listeners hlisteners)
  have hinsert := hlandings.insert 0 ['b']
  have hset := hlandings.setText ['c']
  refine ⟨start, busy, hstart, hbusy, ?_, ?_, (hlandings.remove 1 1).refused (by omega), ?_, ?_⟩
  · rw [hinsert.outcome (Nat.zero_le _)]
    simp [History.recording, hplaying, edits, Except.bind, Outcome.ofExcept]
  · simpa [History.made, hplaying, edits, ChangeMapping.offsetMap] using hinsert.made (Nat.zero_le _)
  · rw [hset.outcome hdepth]
    simp [History.recording, hplaying, htext, replacements, edits, Except.bind, Outcome.ofExcept]
  · simpa [History.made, hplaying, htext, replacements, edits, ChangeMapping.offsetMap] using hset.made hdepth

/-- The error comes when the text has been changed. -/
theorem text_is_changed_before_history_refuses :
    ∃ doc, Reachable [] .default doc ∧ doc.Quiet ∧ doc.history.IsPlayingBack ∧
      (insert 0 ['b'] doc).outcome = .refused (.text .changedDuringPlayback) ∧
      doc.text = ['a'] ∧ (insert 0 ['b'] doc).state.text = ['b', 'a'] := by
  obtain ⟨start, hstart⟩ : ∃ start, ofText? [] .default = some start := ⟨_, rfl⟩
  refine ⟨_, (Reachable.call (s := .start start) (.start hstart) (.insert 0 ['a'])).call (.history .beginUndo),
    quiet_of_no_listeners ?_, ?_⟩
  all_goals
    obtain rfl := Option.some.inj hstart
    decide +kernel

end Document

end EditableText
