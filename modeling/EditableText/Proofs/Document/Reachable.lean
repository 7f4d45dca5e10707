import EditableText.Proofs.Document.Coherence

namespace EditableText

open EditableText.Action EditableText.Document

namespace Call

abbrev Settled (s : Session) : Prop := Held AtRest s

section Keeps

variable {P : Document → Prop} {R : Session → Prop}

lemma keeps_acting {α : Type} {x : Action Document α} (h : Keeps P x) (reply : α → Reply) :
    Keeps (Held P) (acting x reply) :=
  Keeps.bind h.onDocument fun a => .pure (reply a)

lemma keeps_reading {α : Type} (f : Document → Except TextError α) (reply : α → Reply) :
    Keeps R (reading f reply) :=
  .reading fun _ => (Keeps.lift _).bind fun a => .pure (reply a)

lemma keeps_telling (f : Document → Reply) : Keeps R (telling f) := keeps_reading _ _

lemma keeps_ofSnapshot (index : Nat) (f : Snapshot → Reply) : Keeps R (ofSnapshot index f) := by
  refine .reading fun s => ?_
  split <;> exact .pure _

end Keeps

lemma keeps_performHistory (call : HistoryCall) : Keeps Settled (performHistory call) := by
  refine .state_bind fun s h => ?_
  split
  case h_1 reply after hok =>
    refine Triple.bind (Triple.alter fun _ hs => ?_) fun _ => .pure _ fun _ h => h
    have hafter := h.history.perform (fun _ _ _ => (Change.Built.ofEdit _ _ _).balanced) hok
    exact held_inDocument (P := AtRest) (fun doc hd => hd.withHistory hafter) (hs ▸ h)
  case h_2 e => exact .pure _ fun _ hs => hs ▸ h

mutual

theorem keeps_perform : (call : Call) → Keeps Settled (perform call)
  | insert _ _ | insertWithMovement _ _ _ | remove _ _ | replace _ _ _ _ => by
    rw [perform]
    exact keeps_acting (keeps_replaceWithMapping _ _ _ _) _
  | replaceWithMap _ _ _ _ => by
    rw [perform]
    exact keeps_acting (keeps_replaceWithMap _ _ _ _) _
  | setText t => by
    rw [perform]
    exact keeps_acting (keeps_setText t) _
  | beginUpdate => by
    rw [perform]
    exact keeps_acting upkeep_atRest.keeps_beginUpdate _
  | endUpdate => by
    rw [perform]
    exact keeps_acting upkeep_atRest.keeps_endUpdate _
  | runUpdate calls => by
    rw [perform]
    exact (upkeep_atRest.keeps_runUpdate (keeps_performAll calls)).bind fun _ => .pure _
  | group calls ending => by
    rw [perform]
    exact (upkeep_atRest.keeps_holding (keeps_performAll calls) ending).bind fun _ => .pure _
  | undo => by
    rw [perform]
    exact keeps_acting (keeps_playBack .back) _
  | redo => by
    rw [perform]
    exact keeps_acting (keeps_playBack .forth) _
  | canPlayBack | query _ | textLength | options | identities | describe _ => by
    rw [perform]
    exact keeps_telling _
  | history call => by
    rw [perform]
    exact keeps_performHistory call
  | slice _ _ | charAt _ | line _ | lineAt _ | lineText _ | location _ | offsetOf _ _
  | newlineForLine _ | anchor _ | anchorOffset _ | anchorLocation _ | isAnchorDeleted _
  | anchorSegment _ => by
    rw [perform]
    exact keeps_reading _ _
  | createAnchor _ _ _ => by
    rw [perform]
    exact keeps_acting (keeps_createAnchor _ _ _) _
  | releaseAnchor _ => by
    rw [perform]
    exact keeps_acting (keeps_changeAnchors fun h => h.release) _
  | setAnchorMovement _ _ => by
    rw [perform]
    exact keeps_acting (keeps_changeAnchors fun h => h.setMovement) _
  | setAnchorSurvivesDeletion _ _ => by
    rw [perform]
    exact keeps_acting (keeps_changeAnchors fun h => h.setSurvivesDeletion) _
  | createAnchorSegment _ _ => by
    rw [perform]
    exact keeps_acting (keeps_createAnchorSegment _ _) _
  | releaseAnchorSegment s => by
    rw [perform]
    exact keeps_acting (keeps_releaseAnchorSegment s) _
  | subscribe _ _ => by
    rw [perform]
    exact keeps_acting (keeps_subscribe AtRest.withObservers _ _) _
  | unsubscribe _ => by
    rw [perform]
    exact keeps_acting (keeps_unsubscribe AtRest.withObservers _) _
  | addReceiver => by
    rw [perform]
    exact keeps_acting (keeps_addReceiver AtRest.withObservers) _
  | receive _ _ => by
    rw [perform]
    exact keeps_acting (keeps_receive AtRest.withObservers _ _) _
  | takeSnapshot => by
    rw [perform]
    exact .reading fun _ => Keeps.bind (.alter fun _ h => h) fun _ => .pure _
  | querySnapshot _ _ | snapshotVersion _ => by
    rw [perform]
    exact keeps_ofSnapshot _ _

theorem keeps_performAll : (calls : List Call) → Keeps Settled (performAll calls)
  | [] => by
    rw [performAll]
    exact .pure ()
  | call :: rest => by
    rw [performAll]
    exact (keeps_perform call).attempt.bind fun _ => Keeps.bind (.alter fun _ h => h) fun _ =>
      (Keeps.ofExcept _).bind fun _ => keeps_performAll rest

end

end Call

namespace History

def Holds (h : History) (c : Change) : Prop :=
  (∃ group ∈ h.undo, c ∈ group) ∨ (∃ group ∈ h.redo, c ∈ group) ∨ c ∈ h.phase.group ∨ c ∈ h.pending

lemma ofChanges_of_holds {h : History} {P : Change → Prop} (hp : ∀ c, h.Holds c → P c) :
    h.OfChanges P where
  undo group hg c hc := hp c (.inl ⟨group, hg, hc⟩)
  redo group hg c hc := hp c (.inr (.inl ⟨group, hg, hc⟩))
  played c hc := hp c (.inr (.inr (.inl hc)))
  pending c hc := hp c (.inr (.inr (.inr hc)))

lemma OfChanges.of_holds {h : History} {P : Change → Prop} (hh : h.OfChanges P) {c : Change}
    (hc : h.Holds c) : P c := by
  rcases hc with ⟨group, hg, hc⟩ | ⟨group, hg, hc⟩ | hc | hc
  · exact hh.undo group hg c hc
  · exact hh.redo group hg c hc
  · exact hh.played c hc
  · exact hh.pending c hc

end History

namespace Document

/-- The states of a document that began as `t`. Calls may end in any way, listeners may fail, and a
call that fails lets go of an open update. Between the calls the history may be put into any state,
with any changes in it that were there before or were made by `Change.ofEdit` or
`Change.withMap`. -/
inductive Reachable (t : Text) (options : DocumentOptions) : Document → Prop
  | start {doc : Document} (h : ofText? t options = some doc) : Reachable t options doc
  | call {s : Session} (h : Reachable t options s.document) (call : Call) :
    Reachable t options (call.perform s).state.document
  | unwind {doc : Document} (h : Reachable t options doc) : Reachable t options doc.closeSilently
  | drive {doc : Document} (h : Reachable t options doc) {history : History}
    (hh : ∀ c, history.Holds c → doc.history.Holds c ∨ c.Built) :
    Reachable t options { doc with history }

variable {t : Text} {options : DocumentOptions} {doc : Document}

lemma Reachable.atRest (h : Reachable t options doc) : doc.AtRest := by
  induction h with
  | start h => exact atRest_ofText h
  | call _ call ih => exact (call.keeps_perform).state ih
  | unwind _ ih => exact upkeep_atRest.closeSilently ih
  | drive _ hh ih =>
    refine ih.withHistory (History.ofChanges_of_holds fun c hc => ?_)
    rcases hh c hc with hold | hbuilt
    · exact ih.history.of_holds hold
    · exact hbuilt.balanced

lemma AtRest.liveAnchor (h : doc.AtRest) {id : AnchorId} {a : Anchor}
    (ha : doc.anchors.get id = .ok a) (hlive : a.isDeleted = false) :
    a.offset ≤ doc.textLength ∧ ∃ location, doc.anchorLocation id = .ok location := by
  obtain ⟨slot, hslot, hok⟩ := exists_of_bind_eq_ok ha
  obtain rfl := Except.ok.inj hok
  have hstate : slot.state = .live := by
    obtain ⟨-, -, hfree⟩ := AnchorTable.slot_eq_ok hslot
    have hdeleted : slot.state ≠ .deleted := by simpa using hlive
    cases hs : slot.state with
    | live => rfl
    | deleted => exact absurd hs hdeleted
    | free => exact absurd hs hfree
  have ho := h.anchors.offset_le hslot hstate
  refine ⟨h.textLength_eq ▸ ho, ?_⟩
  have hoffset : doc.anchors.offset id = .ok slot.offset := by
    rw [AnchorTable.offset, hslot]
    rfl
  rw [anchorLocation, hoffset]
  exact h.location ho

end Document

end EditableText
