import EditableText.Proofs.Document.Recording

namespace EditableText

open EditableText.Action EditableText.Document

namespace Call

variable {s : Session} {marked marked' : Text} {c : Call}

mutual

/-- The text that counts as marked when the call has been made. A mark that is set while a group is open
counts for the text before the changes of the group. -/
def markedAfter : Call → Session → Text → Option Text
  | history .markSaved, s, _ => some s.document.baseText
  | runUpdate calls, s, marked | group calls _, s, marked => markedAfterAll calls (opened s) marked
  | c, s, marked => c.savedAfter s marked

def markedAfterAll : List Call → Session → Text → Option Text
  | [], _, marked => some marked
  | c :: rest, s, marked => do
    let marked ← markedAfter c s marked
    match (perform c s).outcome with
    | .ok reply => markedAfterAll rest ((perform c s).state.addReply (.ok reply)) marked
    | _ => some marked

end

lemma tracks_markedAfter : Tracks markedAfter markedAfterAll where
  runUpdate _ _ _ := by rw [markedAfter]
  group _ _ _ _ := by rw [markedAfter]
  nil _ _ := by rw [markedAfterAll]
  cons _ _ _ _ := by
    rw [markedAfterAll]
    rfl

lemma LeavesRecording.each (hc : c.LeavesRecording) : c.Each LeavesRecording fun _ => True := by
  cases c with
  | runUpdate | group => exact hc.elim
  | _ => exact hc

lemma markedAfter_of_ne (hc : c.LeavesRecording) (hne : c ≠ .history .markSaved) :
    c.markedAfter s marked = c.savedAfter s marked := by
  cases c with
  | runUpdate | group => exact hc.elim
  | history call =>
    cases call with
    | markSaved => exact absurd rfl hne
    | _ => rfl
  | _ => rfl

lemma marks_single (hc : c.LeavesRecording) (hs : Saves marked s.document)
    (hmark : c.markedAfter s marked = some marked') : Saves marked' (c.perform s).state.document := by
  by_cases hmarks : c = .history .markSaved
  · subst hmarks
    rw [markedAfter] at hmark
    obtain rfl := Option.some.inj hmark
    rw [perform, show (performHistory .markSaved s).state.document = _ from performHistory_state .markSaved s]
    exact Saves.markSaved hs
  · exact saves_single hc hs (markedAfter_of_ne hc hmarks ▸ hmark)

lemma marks_perform (hc : c.Each LeavesRecording fun _ => True) (hs : Saves marked s.document)
    (hmark : c.markedAfter s marked = some marked') : Saves marked' (c.perform s).state.document := by
  have hrule := sustains_saves.rule tracks_markedAfter fun hc hs hmark =>
    ⟨marks_single hc hs hmark, fun _ _ => trivial⟩
  exact (hrule.each c hc s marked marked' hs hmark).1

/-- The text becomes another one in the course of the call, and it is not recorded. -/
def PlaysUnrecorded : Call → Prop
  | undo | redo | setText _ => True
  | _ => False

lemma deliveries_acting {α : Type} (x : Action Document α) (reply : α → Reply) (s : Session) :
    (acting x reply s).deliveries = (x s.document).deliveries := by
  rw [acting_eq]

lemma sees_recorded (hc : c.LeavesRecording) (hplays : ¬ c.PlaysUnrecorded) (hs : Saves marked s.document) :
    ∀ d ∈ (c.perform s).deliveries, Recording marked d.seen := by
  have hsilent (h : (c.perform s).deliveries = []) : ∀ d ∈ (c.perform s).deliveries, Recording marked d.seen := by
    rw [h]
    simp
  by_cases haside : c.IsAside
  · exact hsilent (haside.perform s).2.1
  cases c with
  | insert | insertWithMovement | remove | replace | replaceWithMap =>
    rw [perform, doing, deliveries_acting]
    exact recording_replaceWithMap _ _ _ _ _ hs.recording
  | beginUpdate =>
    rw [perform, doing, deliveries_acting]
    exact upkeep_recording.sees_beginUpdate (fun _ _ h => h) _ hs.recording
  | endUpdate =>
    rw [perform, doing, deliveries_acting]
    exact upkeep_recording.sees_endUpdate (fun _ _ h => h) _ hs.recording
  | undo | redo | setText => exact absurd trivial hplays
  | runUpdate | group => exact hc.elim
  | subscribe | unsubscribe => exact hsilent rfl
  | history call =>
    refine hsilent ?_
    rw [perform]
    change (Action.bind (Action.state : Action Session Session) _ s).deliveries = []
    simp only [Action.bind, Action.state]
    cases call.perform s.document.history <;> rfl
  | _ => exact absurd trivial haside

lemma sees_unrecorded (hplays : c.PlaysUnrecorded) (hs : Saves marked s.document)
    (hmark : c.markedAfter s marked = some marked') : ∀ d ∈ (c.perform s).deliveries, d.event ≠ .textReplaced →
      d.seen.history.stepsFromSaved = s.document.history.stepsFromSaved := by
  cases c with
  | undo =>
    rw [perform, deliveries_acting]
    exact fun d hd _ => sees_playBack hs.recording .back _ rfl d hd
  | redo =>
    rw [perform, deliveries_acting]
    exact fun d hd _ => sees_playBack hs.recording .forth _ rfl d hd
  | setText t =>
    rw [show (setText t).markedAfter s marked = (setText t).savedAfter s marked from rfl, savedAfter] at hmark
    split at hmark
    case isTrue hdepth =>
      rw [perform, doing, deliveries_acting]
      exact sees_setText hs.recording hdepth t _ rfl
    case isFalse => cases hmark
  | _ => exact hplays.elim

end Call

namespace Document

variable {t marked : Text} {options : DocumentOptions} {doc : Document}

/-- The document began as `t`, and `marked` is the text that was marked last: at the beginning, when the
history was told so, or when the whole text was replaced. -/
inductive LastMarked (t : Text) (options : DocumentOptions) : Text → Document → Prop
  | start {doc : Document} (h : ofText? t options = some doc) : LastMarked t options t doc
  | call {s : Session} {marked marked' : Text} {c : Call} (h : LastMarked t options marked s.document)
    (hc : c.Each Call.LeavesRecording fun _ => True) (hmark : c.markedAfter s marked = some marked') :
    LastMarked t options marked' (c.perform s).state.document
  | unwind {marked : Text} {doc : Document} (h : LastMarked t options marked doc) :
    LastMarked t options marked doc.closeSilently

lemma LastMarked.saves (h : LastMarked t options marked doc) : Saves marked doc := by
  induction h with
  | start h => exact saves_ofText h
  | call _ hc hmark ih => exact Call.marks_perform hc ih hmark
  | unwind _ ih => exact upkeep_saves.closeSilently ih

/-- A listener hears of something in the midst of a single call. The flag that it sees speaks of the text that
was marked last, as between calls. But while the text is played back or replaced, it is the flag from before. -/
def HeardOfMark (t : Text) (options : DocumentOptions) (d : Delivery) : Prop :=
  ∃ (marked : Text) (s : Session) (c : Call), LastMarked t options marked s.document ∧ c.LeavesRecording ∧
    d ∈ (c.perform s).deliveries ∧
    (¬ c.PlaysUnrecorded → d.seen.isModified = false → d.seen.baseText = marked) ∧
    (c.PlaysUnrecorded → d.event ≠ .textReplaced → d.seen.isModified = s.document.isModified)

lemma LastMarked.heard {s : Session} {c : Call} {marked' : Text} (h : LastMarked t options marked s.document)
    (hc : c.LeavesRecording) (hmark : c.markedAfter s marked = some marked') :
    ∀ d ∈ (c.perform s).deliveries, HeardOfMark t options d := by
  refine fun d hd => ⟨marked, s, c, h, hc, hd, fun hplays hflag => ?_, fun hplays hevent => ?_⟩
  · exact (Call.sees_recorded hc hplays h.saves d hd).baseText_eq hflag
  · have hsteps := Call.sees_unrecorded hplays h.saves hmark d hd hevent
    rw [isModified, isModified, History.isSaved, History.isSaved, hsteps]

lemma lastMarked_doing {c : Call} {x : Action Document Unit} (hperform : c.perform = Call.doing x)
    (hc : c.LeavesRecording) (hmark : ∀ s marked, c.markedAfter s marked = some marked) (marked : Text) :
    Keeps (LastMarked t options marked) x ∧ Sees (LastMarked t options marked) x (HeardOfMark t options) := by
  -- nothing of the session counts but its document
  have hrun (doc : Document) : c.perform (.start doc) =
      ⟨(x doc).outcome.map fun _ => .nothing, .start (x doc).state, (x doc).deliveries⟩ := by
    rw [hperform, Call.doing, Call.acting_eq]
    rfl
  refine ⟨keeps_of_state fun doc h => ?_, fun doc h d hd => ?_⟩
  · have hafter := LastMarked.call (s := .start doc) h (Call.LeavesRecording.each hc) (hmark _ _)
    rwa [hrun] at hafter
  · exact LastMarked.heard (s := .start doc) h hc (hmark _ _) d (by rwa [hrun])

lemma sustains_lastMarked : Call.Sustains (LastMarked t options) (HeardOfMark t options) := by
  have hend (marked : Text) : Keeps (LastMarked t options marked) endUpdate ∧
      Sees (LastMarked t options marked) endUpdate (HeardOfMark t options) :=
    lastMarked_doing (c := .endUpdate) (by rw [Call.perform]) trivial (fun _ _ => rfl) marked
  have hclose {marked : Text} {doc : Document} (h : LastMarked t options marked doc) :
      closeUpdate doc = endUpdate doc :=
    let ⟨_, _, hr⟩ := h.saves
    (endUpdate_eq hr.inChange).symm
  constructor
  case begins => exact fun h => Call.begins_saves h.saves
  case beginUpdate => exact lastMarked_doing (c := .beginUpdate) (by rw [Call.perform]) trivial fun _ _ => rfl
  case endUpdate => exact hend
  case closeUpdate =>
    intro marked
    obtain ⟨hkeeps, hsees⟩ := hend marked
    refine ⟨keeps_of_state fun doc h => ?_, fun doc h d hd => hsees doc h d (hclose h ▸ hd)⟩
    rw [hclose h]
    exact hkeeps.state h
  case unwound => exact .unwind

end Document

end EditableText
