import EditableText.Proofs.Document.Endings
import EditableText.Proofs.Document.Reachable

/-!
Calls that have nothing to do with the text, its history or the listeners: they read, look after anchors or
serve those who read the bus.
-/

namespace EditableText

namespace Action

variable {σ α β : Type} [HasDocument σ] {x : Action σ α}

def Aside (x : Action σ α) : Prop :=
  ∀ s, (x s).outcome ≠ .abandoned ∧ (x s).deliveries = [] ∧
    ∃ anchors bus, HasDocument.document (x s).state = { HasDocument.document s with anchors, bus }

namespace Aside

lemma pure (a : α) : Aside (Pure.pure a : Action σ α) := fun s =>
  ⟨Outcome.ok_ne_abandoned a, rfl, (HasDocument.document s).anchors, (HasDocument.document s).bus, rfl⟩

lemma ofExcept (r : Except DocumentError α) : Aside (Action.ofExcept r : Action σ α) := by
  cases r with
  | ok a => exact pure a
  | error e => exact fun s =>
      ⟨Outcome.refused_ne_abandoned e, rfl, (HasDocument.document s).anchors, (HasDocument.document s).bus, rfl⟩

lemma lift (r : Except TextError α) : Aside (Action.lift r : Action σ α) := ofExcept _

lemma alter {g : σ → σ}
    (h : ∀ s, ∃ anchors bus, HasDocument.document (g s) = { HasDocument.document s with anchors, bus }) :
    Aside (Action.alter g) := fun s => ⟨Outcome.ok_ne_abandoned (), rfl, h s⟩

lemma bind (hx : Aside x) {f : α → Action σ β} (hf : ∀ a, Aside (f a)) : Aside (x >>= f) := by
  intro s
  change (Action.bind x f s).outcome ≠ _ ∧ (Action.bind x f s).deliveries = _ ∧
    ∃ anchors bus, HasDocument.document (Action.bind x f s).state = _
  rw [Action.bind]
  obtain ⟨hfirst, hsilent, anchors, bus, hdoc⟩ := hx s
  cases hout : (x s).outcome with
  | ok a =>
    obtain ⟨hsecond, hsilent', anchors', bus', hdoc'⟩ := hf a (x s).state
    exact ⟨hsecond, List.append_eq_nil_iff.mpr ⟨hsilent, hsilent'⟩, anchors', bus', by rw [hdoc', hdoc]⟩
  | refused e => exact ⟨Outcome.refused_ne_abandoned e, hsilent, anchors, bus, hdoc⟩
  | abandoned => exact absurd hout hfirst

lemma reading {f : σ → Action σ β} (hf : ∀ s, Aside (f s)) : Aside (Action.state >>= f) := fun s => hf s s

lemma onDocument [LawfulHolder σ] {x : Action Document α} (h : Aside x) :
    Aside (Action.onDocument x : Action σ α) := fun s => by
  obtain ⟨ho, hsilent, anchors, bus, hdoc⟩ := h (HasDocument.document s)
  exact ⟨ho, hsilent, anchors, bus, (LawfulHolder.document_withDocument s _).trans hdoc⟩

lemma ends (h : Aside x) {P : Document → Prop} {A : DocumentEvent → σ → Prop}
    (hp : ∀ doc anchors bus, P doc → P { doc with anchors, bus }) : Ends (Held P) x (Held P) (Held P) A := by
  intro s hs
  obtain ⟨ho, -, anchors, bus, hdoc⟩ := h s
  have hafter : Held P (x s).state := by
    rw [Held, hdoc]
    exact hp _ _ _ hs
  rw [Run.EndsIn]
  cases hout : (x s).outcome with
  | ok a => exact hafter
  | refused e => exact hafter
  | abandoned => exact absurd hout ho

end Aside

end Action

open EditableText.Action EditableText.Document

namespace Document

lemma aside_alter_anchors (g : AnchorTable → AnchorTable) :
    Aside (.alter fun doc : Document => { doc with anchors := g doc.anchors }) :=
  .alter fun doc => ⟨g doc.anchors, doc.bus, rfl⟩

lemma aside_alter_bus (g : Bus Notification → Bus Notification) :
    Aside (.alter fun doc : Document => { doc with bus := g doc.bus }) :=
  .alter fun doc => ⟨doc.anchors, g doc.bus, rfl⟩

lemma aside_changeAnchors (f : AnchorTable → Except TextError AnchorTable) : Aside (changeAnchors f) :=
  .reading fun _ => (Aside.lift _).bind fun _ => aside_alter_anchors fun _ => _

end Document

namespace Call

def IsAside : Call → Prop
  | insert _ _ | insertWithMovement _ _ _ | remove _ _ | replace _ _ _ _ | replaceWithMap _ _ _ _ | setText _
  | beginUpdate | endUpdate | runUpdate _ | group _ _ | undo | redo | history _ | subscribe _ _
  | unsubscribe _ => False
  | _ => True

lemma aside_acting {α : Type} {x : Action Document α} (h : Aside x) (reply : α → Reply) :
    Aside (acting x reply) :=
  h.onDocument.bind fun _ => .pure _

lemma aside_reading {α : Type} (f : Document → Except TextError α) (reply : α → Reply) :
    Aside (reading f reply) :=
  .reading fun _ => (Aside.lift _).bind fun _ => .pure _

lemma aside_ofSnapshot (index : Nat) (f : Snapshot → Reply) : Aside (ofSnapshot index f) := by
  refine .reading fun s => ?_
  split <;> exact .pure _

lemma IsAside.perform {c : Call} (h : c.IsAside) : Aside c.perform := by
  cases c with
  | insert | insertWithMovement | remove | replace | replaceWithMap | setText | beginUpdate | endUpdate
  | runUpdate | group | undo | redo | history | subscribe | unsubscribe => exact h.elim
  | canPlayBack | query | textLength | options | identities | describe | slice | charAt | line | lineAt | lineText
  | location | offsetOf | newlineForLine | anchor | anchorOffset | anchorLocation | isAnchorDeleted
  | anchorSegment =>
    rw [Call.perform]
    exact aside_reading _ _
  | createAnchor =>
    rw [Call.perform]
    refine aside_acting (.reading fun _ => (Aside.lift _).bind fun _ => ?_) _
    exact (aside_alter_anchors fun _ => _).bind fun _ => .pure _
  | releaseAnchor | setAnchorMovement | setAnchorSurvivesDeletion =>
    rw [Call.perform]
    exact aside_acting (aside_changeAnchors _) _
  | createAnchorSegment =>
    rw [Call.perform]
    refine aside_acting (.reading fun _ => (Aside.lift _).bind fun _ => ?_) _
    exact (aside_alter_anchors fun _ => _).bind fun _ => .pure _
  | releaseAnchorSegment =>
    rw [Call.perform]
    exact aside_acting (.reading fun _ => (aside_alter_anchors fun _ => _).bind fun _ => .lift _) _
  | addReceiver =>
    rw [Call.perform]
    exact aside_acting ((aside_alter_bus _).bind fun _ => .reading fun _ => .pure _) _
  | receive =>
    rw [Call.perform]
    exact aside_acting (.reading fun _ => (aside_alter_bus fun _ => _).bind fun _ => .pure _) _
  | takeSnapshot =>
    rw [Call.perform]
    exact .reading fun s => Aside.bind (.alter fun s => ⟨s.document.anchors, s.document.bus, rfl⟩)
      fun _ => .pure _
  | querySnapshot | snapshotVersion =>
    rw [Call.perform]
    exact aside_ofSnapshot _ _

end Call

end EditableText
