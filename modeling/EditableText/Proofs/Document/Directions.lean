import EditableText.Document.Playback
import EditableText.Proofs.Document.Upkeep
import EditableText.Proofs.History

namespace EditableText

open EditableText.Action

def Direction.call : Direction → Call
  | back => .undo
  | forth => .redo

namespace Document

variable {d : Direction} {doc : Document} {P Q E : Document → Prop}

def playGroup (d : Direction) (group : ChangeGroup) (handed : History) : Action Document Bool := do
  .alter fun doc => { doc with history := handed }
  (runUpdate (replayAll (d.changes group))).ensuring (onHistory d.finish)
  return true

def playBack (d : Direction) : Action Document Bool := do
  checkNotInChange
  let doc ← .state
  let (group, handed) ← .lift (d.handOut doc.history)
  match group with
  | none => return false
  | some group => playGroup d group handed

lemma undo_eq_playBack : undo = playBack .back := rfl

lemma redo_eq_playBack : redo = playBack .forth := rfl

lemma perform_call (d : Direction) : d.call.perform = Call.acting (playBack d) .flag := by
  cases d with
  | back => rw [← undo_eq_playBack, Direction.call, Call.perform]
  | forth => rw [← redo_eq_playBack, Direction.call, Call.perform]

lemma triple_playBack (hstays : E doc)
    (hnone : ∀ {history}, d.handOut doc.history = .ok (none, history) → Q doc)
    (hsome : ∀ {group handed}, d.handOut doc.history = .ok (some group, handed) →
      Triple (fun s => s = doc) (playGroup d group handed) Q E) :
    Triple (fun s => s = doc) (playBack d) Q E := by
  have hstays' : ∀ s, s = doc → E s := fun _ hs => hs ▸ hstays
  refine Triple.bind (Q := fun s => s = doc) ?_ fun _ => .state_bind fun _ hs => ?_
  · exact keeps_checkNotInChange.mono (fun _ h => h) (fun _ h => h) hstays'
  subst hs
  refine .lift_bind _ (fun given hok => ?_) hstays'
  obtain ⟨_ | group, handed⟩ := given
  · exact .pure false fun _ hs => hs ▸ hnone hok
  · exact hsome hok

lemma keeps_playBack_of (hsome : ∀ {doc group handed}, P doc → d.handOut doc.history = .ok (some group, handed) →
    Triple (fun s => s = doc) (playGroup d group handed) P P) : Keeps P (playBack d) :=
  fun doc h => triple_playBack h (fun _ => h) (hsome h) doc rfl

end Document

end EditableText
