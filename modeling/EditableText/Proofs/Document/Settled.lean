import EditableText.Proofs.Document.Playback
import EditableText.Proofs.Document.TwoSteps

/-!
Edits of a document whose listeners never fail, whatever state its history is in. A history that is handing a group
out refuses to record a change, but by then the change is made.
-/

namespace EditableText

open EditableText.Action

namespace History

variable {h after : History} {c : Change}

def IsPlayingBack (h : History) : Prop := ∃ group, h.phase = .playback group

instance (h : History) : Decidable h.IsPlayingBack :=
  match hphase : h.phase with
  | .idle => isFalse fun ⟨_, heq⟩ => by simp [hphase] at heq
  | .playback group => isTrue ⟨group, hphase⟩
  | .modifying _ => isFalse fun ⟨_, heq⟩ => by simp [hphase] at heq

lemma isPlayingBack_congr (hphase : after.phase = h.phase) : after.IsPlayingBack ↔ h.IsPlayingBack := by
  rw [IsPlayingBack, IsPlayingBack, hphase]

lemma push_eq_error (hplaying : h.IsPlayingBack) (c : Change) : h.push c = .error .changedDuringPlayback := by
  obtain ⟨group, hphase⟩ := hplaying
  rw [push, hphase]

lemma exists_push (hplaying : ¬ h.IsPlayingBack) (c : Change) : ∃ after, h.push c = .ok after := by
  rw [push]
  split
  case h_1 => exact ⟨_, rfl⟩
  case h_2 group hphase => exact absurd ⟨group, hphase⟩ hplaying
  case h_3 => split_ifs <;> exact ⟨_, rfl⟩

def recorded (c : Change) (h : History) : History := (h.push c).toOption.getD h

lemma recorded_footing (c : Change) (h : History) :
    (h.recorded c).depth = h.depth ∧ (h.recorded c).phase = h.phase := by
  rw [recorded]
  cases hpush : h.push c with
  | ok after => exact push_footing hpush
  | error e => exact ⟨rfl, rfl⟩

/-- What a history says to changes that are made one after the other. It refuses the first if it is handing a group
out. -/
def recording (h : History) (cs : List Change) : Except DocumentError Unit :=
  if h.IsPlayingBack ∧ cs ≠ [] then .error (.text .changedDuringPlayback) else .ok ()

lemma recording_congr (hphase : after.phase = h.phase) : after.recording = h.recording := by
  funext cs
  simp only [recording, isPlayingBack_congr hphase]

lemma recording_singleton (c : Change) (h : History) :
    ((h.push c).map fun _ => ()).mapError .text = h.recording [c] := by
  by_cases hplaying : h.IsPlayingBack
  · rw [push_eq_error hplaying, recording, if_pos ⟨hplaying, List.cons_ne_nil _ _⟩]
    rfl
  · obtain ⟨after, hpush⟩ := exists_push hplaying c
    rw [hpush, recording, if_neg fun hboth => hplaying hboth.1]
    rfl

end History

namespace Contents

def changeAll (x : Contents) (changes : List Change) : Contents := changes.foldl change x

lemma changeAll_append (x : Contents) (a b : List Change) : x.changeAll (a ++ b) = (x.changeAll a).changeAll b :=
  List.foldl_append

lemma text_changeAll (x : Contents) (changes : List Change) :
    (x.changeAll changes).text = Change.applyAll changes x.text := by
  induction changes generalizing x with
  | nil => rfl
  | cons c rest ih => exact ih (x.change c)

end Contents

namespace Document

variable {doc opened mid after : Document} {log log' : List Notice} {c : Change} {cs cs' : List Change}
  {offset length : Nat} {inserted : Text} {map : OffsetMap}

structure Settled (doc : Document) : Prop extends Sturdy doc where
  quiet : doc.Quiet
  inChange : doc.inChange = false

structure Makes (cs : List Change) (doc after : Document) : Prop where
  contents : after.contents = doc.contents.changeAll cs
  lines : after.lines.lines = (LineTable.ofText after.text after.options.lineBreaks).lines
  version : after.version = doc.version + cs.length

/-- The document has come so far: with the changes made, with this history, and with so many updates open. -/
structure Comes (cs : List Change) (history : History) (depth : Nat) (doc after : Document) : Prop where
  settled : after.Settled
  contents : after.contents = doc.contents.changeAll cs
  version : after.version = doc.version + cs.length
  history : after.history = history
  depth : after.updateDepth = depth

lemma Settled.still (h : doc.Settled) (hmatter : after.matter = doc.matter)
    (hh : after.history.OfChanges Change.Balanced)
    (haudience : after.audience = doc.audience) (hin : after.inChange = false) : after.Settled :=
  ⟨h.toSturdy.congr hmatter hh, quiet_of_profile h.quiet haudience, hin⟩

namespace Comes

variable {history history' : History} {depth depth' : Nat}

lemma refl (h : doc.Settled) : Comes [] doc.history doc.updateDepth doc doc := ⟨h, rfl, rfl, rfl, rfl⟩

lemma trans (h : Comes cs history depth doc mid) (h' : Comes cs' history' depth' mid after) :
    Comes (cs ++ cs') history' depth' doc after where
  settled := h'.settled
  contents := by rw [h'.contents, h.contents, Contents.changeAll_append]
  version := by rw [h'.version, h.version, List.length_append, Nat.add_assoc]
  history := h'.history
  depth := h'.depth

lemma still (h : doc.Settled) (hmatter : after.matter = doc.matter) (hh : after.history.OfChanges Change.Balanced)
    (haudience : after.audience = doc.audience) (hin : after.inChange = false) :
    Comes [] after.history after.updateDepth doc after where
  settled := h.still hmatter hh haudience hin
  contents := (inert_bears.still ⟨h.toSturdy, rfl⟩ hmatter hh).contents_eq
  version := version_eq_of_matter hmatter
  history := rfl
  depth := rfl

lemma makes (h : Comes cs history depth doc after) : Makes cs doc after :=
  ⟨h.contents, h.settled.coherent.lines_eq, h.version⟩

lemma text_eq (h : Comes cs history depth doc after) : after.text = Change.applyAll cs doc.text :=
  (congrArg Contents.text h.contents).trans (doc.contents.text_changeAll cs)

end Comes

lemma SameParts.matter_eq (h : doc.SameParts after) (hoptions : after.options = doc.options) :
    after.matter = doc.matter := by
  rw [matter, matter, h.storage, h.lines, hoptions, h.anchors, h.version]

namespace Settled

variable (h : doc.Settled)

include h

lemma atRest : doc.AtRest := ⟨h.coherent, h.inChange⟩

lemma runs_beginUpdate : ∃ log after, beginUpdate.Runs doc log (.ok ()) after ∧
    Comes [] doc.history.startGroup (doc.updateDepth + 1) doc after := by
  obtain ⟨log, after, hrun, ho⟩ := Document.runs_beginUpdate h.quiet h.inChange
  have hcomes := Comes.still h (ho.toSameParts.matter_eq ho.options)
    (ho.history ▸ h.balanced.startGroup) ho.audience (ho.inChange.trans h.inChange)
  rw [ho.history, ho.depth] at hcomes
  exact ⟨log, after, hrun, hcomes⟩

lemma runs_endUpdate {depth : Nat} (hd : doc.updateDepth = depth + 1) {history : History}
    (hend : doc.history.endGroup = .ok history) :
    ∃ log after, endUpdate.Runs doc log (.ok ()) after ∧ Comes [] history depth doc after := by
  obtain ⟨log, after, hrun, hcl, hdepth⟩ := Document.runs_endUpdate h.quiet h.inChange hd hend
  have hhistory : after.history = history := Except.ok.inj (hcl.history.symm.trans hend)
  have hcomes := Comes.still h (hcl.toSameParts.matter_eq hcl.options)
    (h.balanced.endGroup hcl.history) hcl.audience (hcl.inChange.trans h.inChange)
  rw [hhistory, hdepth] at hcomes
  exact ⟨log, after, hrun, hcomes⟩

end Settled

lemma Comes.runs_runUpdate {α : Type} {body : Action Document α} {r : Except DocumentError α}
    {inner history : History} (hopen : Comes [] doc.history.startGroup (doc.updateDepth + 1) doc opened)
    (hbegin : beginUpdate.Runs doc log (.ok ()) opened) (hbody : body.Runs opened log' (.ofExcept r) mid)
    (hmid : Comes cs inner (doc.updateDepth + 1) opened mid) (hend : inner.endGroup = .ok history) :
    ∃ log after, (runUpdate body).Runs doc log (.ofExcept r) after ∧
      Comes cs history doc.updateDepth doc after := by
  obtain ⟨last, after, hclose, hclosed⟩ := hmid.settled.runs_endUpdate hmid.depth (hmid.history.symm ▸ hend)
  have hrun := Document.runs_runUpdate (s := doc) (r := r) (e := .ok ()) hbegin hbody hclose
  have houtcome : (r.bind fun a => (Except.ok ()).map fun _ => a) = r := by cases r <;> rfl
  rw [houtcome] at hrun
  have hcomes := (hopen.trans hmid).trans hclosed
  rw [List.nil_append, List.append_nil] at hcomes
  exact ⟨_, after, hrun, hcomes⟩

structure Amends (cs : List Change) (doc after : Document) : Prop where
  comes : Comes cs after.history doc.updateDepth doc after
  depth : after.history.depth = doc.history.depth
  phase : after.history.phase = doc.history.phase

namespace Amends

lemma refl (h : doc.Settled) : Amends [] doc doc := ⟨.refl h, rfl, rfl⟩

lemma trans (h : Amends cs doc mid) (h' : Amends cs' mid after) : Amends (cs ++ cs') doc after where
  comes := h.comes.depth ▸ h.comes.trans h'.comes
  depth := h'.depth.trans h.depth
  phase := h'.phase.trans h.phase

end Amends

lemma Comes.amends {history : History} (h : Comes cs history doc.updateDepth doc after)
    (hdepth : history.depth = doc.history.depth) (hphase : history.phase = doc.history.phase) :
    Amends cs doc after := by
  obtain rfl := h.history
  exact ⟨h, hdepth, hphase⟩

lemma Settled.runs_runUpdate {α : Type} {body : Action Document α} {r : Except DocumentError α} (h : doc.Settled)
    (hbody : ∀ opened : Document, opened.Settled → opened.text = doc.text →
      opened.history.phase = doc.history.phase → ∃ log mid, body.Runs opened log (.ofExcept r) mid ∧
        Amends cs opened mid) :
    ∃ log after, (runUpdate body).Runs doc log (.ofExcept r) after ∧ Amends cs doc after := by
  obtain ⟨first, opened, hbegin, hopen⟩ := h.runs_beginUpdate
  have hgroup : opened.history.depth = doc.history.depth + 1 ∧ opened.history.phase = doc.history.phase := by
    rw [hopen.history]
    exact ⟨rfl, rfl⟩
  obtain ⟨second, mid, hrun, hmid⟩ := hbody opened hopen.settled hopen.text_eq hgroup.2
  obtain ⟨history, hend, hdepth, hphase⟩ := History.endGroup_footing (hmid.depth.trans hgroup.1)
  obtain ⟨log, after, hall, hcomes⟩ := hopen.runs_runUpdate hbegin hrun (hopen.depth ▸ hmid.comes) hend
  exact ⟨log, after, hall, hcomes.amends hdepth (hphase.trans (hmid.phase.trans hgroup.2))⟩

lemma record_eq (c : Change) (doc : Document) :
    doc.record c = ((doc.history.push c).map fun _ => (), { doc with history := doc.history.recorded c }) := by
  rw [record, History.recorded]
  cases doc.history.push c <;> rfl

namespace Settled

variable (h : doc.Settled)

include h

lemma runs_applyChange (hc : c.Balanced) (hrange : c.offset + c.removed.length ≤ doc.text.length) :
    ∃ log after, (applyChange c).Runs doc log (.ofExcept (doc.history.recording [c])) after ∧
      Comes [c] (doc.history.recorded c) doc.updateDepth doc after := by
  let changing : Document := { doc with inChange := true }
  let announced : Document := changing.tell (.changing c)
  have hbears : Bears doc.contents announced := ⟨h.toSturdy.congr rfl h.balanced, rfl⟩
  obtain ⟨deleted, next, hok, hnext⟩ := hbears.mutate hc hrange
  obtain ⟨storage, lines, anchors, rfl⟩ := exists_of_mutate hok
  let made : Document :=
    { announced with storage, lines, anchors, version := doc.version + 1, updateChangedText := true }
  have hmade : Bears (doc.contents.change c) made := inert_bears.still hnext rfl hnext.balanced
  let recorded : Document := { made with history := doc.history.recorded c }
  have hrecord : made.record c = ((doc.history.push c).map fun _ => (), recorded) := record_eq c made
  have hrecorded : Bears (doc.contents.change c) recorded := by
    have hafter := inert_bears.recorded hc hmade
    rwa [hrecord] at hafter
  have hquiet : recorded.Quiet := (told_tell (.changing c) changing).quiet h.quiet
  obtain ⟨deletions, told, hrun, htold, -, -⟩ := runs_applyChange_of h.quiet hok hrecord hquiet
  rw [History.recording_singleton] at hrun
  refine ⟨_, _, hrun, ?_⟩
  have hquietAfter := htold.quiet hquiet
  obtain ⟨listeners, -, hafter⟩ := htold
  have hbearsAfter : Bears (doc.contents.change c) { told with inChange := false } := by
    rw [hafter]
    exact inert_bears.still hrecorded rfl hrecorded.balanced
  refine ⟨⟨hbearsAfter.toSturdy, hquietAfter, rfl⟩, hbearsAfter.contents_eq, ?_, ?_, ?_⟩ <;> rw [hafter]
  · rfl
  · rfl

lemma runs_applyChange_outside (hout : doc.text.length < c.offset + c.removed.length) :
    ∃ log after, (applyChange c).Runs doc log
        (.refused (.text (.rangeOutOfRange c.offset c.removed.length doc.text.length))) after ∧
      Comes [] doc.history doc.updateDepth doc after := by
  let changing : Document := { doc with inChange := true }
  have hquiet : changing.Quiet := h.quiet
  have hannounced : (changing.tell (.changing c)).Coherent := h.coherent.congr rfl
  let after : Document := { changing.tell (.changing c) with inChange := false }
  have hafter : Comes [] after.history after.updateDepth doc after :=
    .still h rfl h.balanced (tell_profiles (.changing c) changing) rfl
  refine ⟨[⟨.changing c, changing⟩], after,
    .alter_bind ((hquiet.emit (.changing c)).bind_silent (.state_bind ?_)), hafter⟩
  rw [hannounced.mutate_eq_error hout]
  exact .alter_bind rfl

lemma runs_runChange (hc : c.Balanced) (hrange : c.offset + c.removed.length ≤ doc.text.length) :
    ∃ log after, (runChange c).Runs doc log (.ofExcept (doc.history.recording [c])) after ∧
      Amends [c] doc after := by
  refine h.runs_runUpdate fun opened hopened htext hphase => ?_
  obtain ⟨log, mid, hrun, hmid⟩ := hopened.runs_applyChange hc (htext ▸ hrange)
  obtain ⟨hdepth', hphase'⟩ := opened.history.recorded_footing c
  exact ⟨log, mid, History.recording_congr hphase ▸ hrun, hmid.amends hdepth' hphase'⟩

lemma runs_replaceWithMap (hadmissible : doc.Admissible offset length inserted map) :
    ∃ log after, (replaceWithMap offset length inserted map).Runs doc log
        (.ofExcept (doc.history.recording (edits doc.text offset length inserted map))) after ∧
      Amends (edits doc.text offset length inserted map) doc after := by
  by_cases hnothing : length = 0 ∧ inserted = []
  · rw [edits, if_pos hnothing, History.recording, if_neg fun hboth => hboth.2 rfl]
    exact ⟨[], doc, h.atRest.runs_replaceWithMap_nothing hadmissible.1 hnothing, .refl h⟩
  · have hmap := h.atRest.withMap_eq hadmissible hnothing
    obtain ⟨log, after, hrun, hafter⟩ := h.runs_runChange (Change.Built.withMap hmap).balanced
      (h.coherent.fits_of_withMap hadmissible.1 hmap).le_length
    rw [edits, if_neg hnothing]
    exact ⟨log, after, h.atRest.runs_replaceWithMap_of_runChange hadmissible hnothing hrun, hafter⟩

end Settled

end Document

end EditableText
