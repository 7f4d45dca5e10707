import EditableText.Proofs.Document.Tracking

namespace EditableText

open EditableText.Action

namespace Call

def handedOut : Call → History → ChangeGroup
  | undo, h => h.undo.headD []
  | redo, h => h.redo.headD []
  | _, _ => []

/-- A listener keeps a playback from changes of the group that it was handed. -/
def CutShort (c : Call) (s : Session) : Prop :=
  (c.perform s).outcome = .abandoned ∧
    (c.perform s).state.document.version < s.document.version + (c.handedOut s.document.history).length

instance (c : Call) (s : Session) : Decidable (c.CutShort s) := inferInstanceAs (Decidable (_ ∧ _))

lemma IsPlayback.eq_call {c : Call} (h : c.IsPlayback) : ∃ d : Direction, c = d.call := by
  cases c with
  | undo => exact ⟨.back, rfl⟩
  | redo => exact ⟨.forth, rfl⟩
  | _ => exact h.elim

end Call

lemma Direction.handedOut_call (d : Direction) (h : History) : d.call.handedOut h = (d.groups h).headD [] := by
  cases d <;> rfl

open EditableText.Call

namespace Document

variable {first t : Text} {options : DocumentOptions} {calm : Prop} {f : Standing} {doc : Document}
  {s : Session} {c : Call}

/-- The states of a document that began as `t` and whose history was left to itself and never full. Its
listeners may fail while a change is under way, but not so that a playback is cut short. -/
inductive KeepsHistory (t : Text) (options : DocumentOptions) : Document → Prop
  | start {doc : Document} (h : ofText? t options = some doc) : KeepsHistory t options doc
  | call {s : Session} {c : Call} (h : KeepsHistory t options s.document) (hc : c.Each Retraceable (· ≠ .fail))
    (hroom : s.document.history.undo.length < s.document.history.limit) (hwhole : ¬ c.CutShort s) :
    KeepsHistory t options (c.perform s).state.document

lemma tracked_of_whole {x : Action Document Bool} {changes : List Change} {final : History}
    (hrun : (x doc).EndsIn (Rested False (f.played changes final)) (fun _ => False)
      fun _ => CutInPlayback False changes final f) (hs : (f.played changes final).InStep first 0)
    (hwhole : (x doc).outcome = .abandoned → f.version + changes.length ≤ (x doc).state.version) :
    Tracked False first 0 (x doc).state := by
  cases ho : (x doc).outcome with
  | ok a =>
    rw [Run.EndsIn, ho] at hrun
    exact ⟨_, hs, hrun⟩
  | refused e =>
    rw [Run.EndsIn, ho] at hrun
    exact hrun.elim
  | abandoned =>
    obtain ⟨last, -, -, g, ⟨done, rest, rfl, rfl⟩, hr⟩ := hrun.of_abandoned ho
    have hafter : (x doc).state.version = f.version + done.length := congrArg Standing.version hr.standing_eq
    have hlength := hwhole ho
    rw [hafter, List.length_append] at hlength
    -- the version counts as many changes as the group has, so none of them is left to play
    obtain rfl := List.eq_nil_of_length_eq_zero (show rest.length = 0 by omega)
    rw [List.append_nil] at hs
    exact ⟨_, hs, hr⟩

lemma tracked_playBack (d : Direction) (h : Tracked False first 0 doc)
    (hwhole : (playBack d doc).outcome = .abandoned →
      doc.version + ((d.groups doc.history).headD []).length ≤ (playBack d doc).state.version) :
    Tracked False first 0 (playBack d doc).state := by
  obtain ⟨f, hs, hr⟩ := h
  obtain rfl := hr.standing_eq
  cases hgroups : d.groups doc.history with
  | nil =>
    rw [hr.playBack_eq_nothing hs.isClosed hgroups]
    exact ⟨_, hs, hr⟩
  | cons group rest =>
    rw [hgroups] at hwhole
    refine tracked_of_whole (Rested.ends_playBack_in_step hs hgroups doc hr) (hs.played hgroups).1 fun ho => ?_
    rw [d.length_changes]
    exact hwhole ho

lemma Sound.tracked (h : doc.Sound) (hclosed : doc.updateDepth = 0) :
    Tracked calm doc.timeline.first 0 doc := by
  have hhistory := h.inStep hclosed
  have hgroupDepth : doc.history.depth = 0 := h.depth.trans hclosed
  exact ⟨doc.standing, ⟨hhistory, hclosed, hgroupDepth, fun hpos => absurd hpos (Nat.lt_irrefl 0)⟩, h.rested⟩

lemma version_of_whole {α : Type} {x : Action Document α} {reply : α → Reply} (hc : c.perform = acting x reply)
    (hwhole : ¬ c.CutShort s) (ho : (x s.document).outcome = .abandoned) :
    s.document.version + (c.handedOut s.document.history).length ≤ (x s.document).state.version := by
  rw [CutShort, hc, acting_eq, ho] at hwhole
  exact Nat.le_of_not_lt fun hlt => hwhole ⟨rfl, hlt⟩

lemma KeepsHistory.tracked (h : KeepsHistory t options doc) : Tracked False t 0 doc := by
  induction h with
  | start h =>
    obtain ⟨hsound, htimeline⟩ := sound_ofText h
    have htracked : Tracked False _ 0 _ := hsound.tracked (begins_ofText h).1
    rwa [htimeline] at htracked
  | @call s c _ hc hroom hwhole ih =>
    -- only a playback that is called by itself can be cut short, in an update it is refused
    by_cases hplayback : c.IsPlayback
    · obtain ⟨d, rfl⟩ := hplayback.eq_call
      have hversion := version_of_whole (perform_call d) hwhole
      rw [perform_call, acting_eq]
      exact tracked_playBack d ih (d.handedOut_call _ ▸ hversion)
    · obtain ⟨f, hs, hr⟩ := ih
      have hready : Held (Ready False t 0) s :=
        ⟨f, hs, hr.history_eq ▸ hroom, hr⟩
      exact ((tracks_rule t).each c hc 0 (.inr hplayback) s hready).state

inductive Repeats (x : Action Document Bool) : Nat → Document → Document → Prop
  | none (doc : Document) : Repeats x 0 doc doc
  | more {n : Nat} {doc mid after : Document} {deliveries : List Delivery}
    (h : x doc = ⟨.ok true, mid, deliveries⟩) (hrest : Repeats x n mid after) : Repeats x (n + 1) doc after

lemma Repeats.snoc {x : Action Document Bool} {n : Nat} {mid after : Document} {deliveries : List Delivery}
    (h : Repeats x n doc mid) (hlast : x mid = ⟨.ok true, after, deliveries⟩) :
    Repeats x (n + 1) doc after := by
  induction h with
  | none => exact .more hlast (.none _)
  | more h _ ih => exact .more h (ih hlast)

namespace Tracked

lemma of_calm (h : Tracked calm first 0 doc) (hcalm : doc.Calm) : Tracked True first 0 doc :=
  let ⟨f, hs, hr⟩ := h
  ⟨f, hs, hr.toAtRest, hr.standing_eq, fun h => absurd trivial h, fun _ => hcalm⟩

lemma text_eq (h : Tracked calm first 0 doc) : doc.text = doc.timeline.present := by
  obtain ⟨f, hs, hr⟩ := h
  obtain rfl := hr.standing_eq
  exact (History.baseOf_nil (hs.history.closed hs.groupDepth) doc.text).symm

lemma playBack_ok {d : Direction} {group : ChangeGroup} {rest : List ChangeGroup} (h : Tracked True first 0 doc)
    (hgroups : d.groups doc.history = group :: rest) :
    ∃ after deliveries, playBack d doc = ⟨.ok true, after, deliveries⟩ ∧ Tracked True first 0 after ∧
      d.groups after.history = rest ∧ d.along doc.timeline = some after.timeline := by
  obtain ⟨f, hs, hr⟩ := h
  obtain rfl := hr.standing_eq
  obtain ⟨hafter, halong⟩ := hs.played hgroups
  obtain ⟨a, ha, hrun⟩ := (Rested.ends_playBack_in_step hs hgroups doc hr).succeeds fun _ _ hcut => hcut.1 trivial
  obtain rfl := hr.playBack_eq_true hs.isClosed hgroups ha
  refine ⟨(playBack d doc).state, (playBack d doc).deliveries, by rw [← ha], ⟨_, hafter, hrun⟩, ?_, ?_⟩
  · exact (congrArg (d.groups ·.history) hrun.standing_eq).trans (d.groups_finish_handed group rest _)
  · exact halong.trans (congrArg (fun g : Standing => some (g.history.timeline g.text)) hrun.standing_eq.symm)

lemma retraced (h : Tracked True first 0 doc) : ∃ n start last, Repeats undo n doc start ∧
    undo start = ⟨.ok false, start, []⟩ ∧ start.text = first ∧ Repeats redo n start last ∧
      Tracked True first 0 last ∧ last.timeline = doc.timeline := by
  -- each undo moves the cursor of the timeline, and the redo that answers to it moves the cursor back
  generalize hundo : doc.history.undo = groups
  induction groups generalizing doc with
  | nil =>
    have htext := h.text_eq
    obtain ⟨f, hs, hr⟩ := h
    obtain rfl := hr.standing_eq
    have hback : doc.timeline.back = none := by
      rw [timeline, History.timeline, History.backward, hundo]
      rfl
    refine ⟨0, doc, doc, .none doc, hr.playBack_eq_nothing (d := .back) hs.isClosed hundo, ?_,
      .none doc, ⟨_, hs, hr⟩, rfl⟩
    rw [htext, ← Timeline.first_of_back_eq_none hback]
    exact hs.history.first_eq
  | cons group rest ih =>
    obtain ⟨mid, deliveries, hfirst, hmid, hrest, hback⟩ := h.playBack_ok (d := .back) hundo
    obtain ⟨n, start, last, hundos, hstop, htext, hredos, hlast, hline⟩ := ih hmid hrest
    have hforth : Direction.forth.along last.timeline = some doc.timeline := hline ▸ Timeline.forth_of_back hback
    obtain ⟨_, _, hgroups⟩ := History.groups_of_along hforth
    obtain ⟨after, deliveries', hredo, hafter, -, hline'⟩ := hlast.playBack_ok hgroups
    exact ⟨n + 1, start, after, .more hfirst hundos, hstop, htext, hredos.snoc hredo, hafter,
      Option.some.inj (hline'.symm.trans hforth)⟩

end Tracked

end Document

end EditableText
