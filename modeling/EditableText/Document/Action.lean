import EditableText.Document

/-!
Calls that change a document: they succeed, are refused, or are abandoned because a listener
failed. In each case they leave a state behind and a record of what the listeners were told.
-/

namespace EditableText

structure Delivery where
  listener : Nat
  label : String
  event : DocumentEvent
  seen : Document

inductive Outcome (α : Type) where
  | ok (a : α)
  | refused (e : DocumentError)
  | abandoned
  deriving Repr

structure Run (σ α : Type) where
  outcome : Outcome α
  state : σ
  deliveries : List Delivery

def Action (σ α : Type) : Type := σ → Run σ α

class HasDocument (σ : Type) where
  document : σ → Document
  withDocument : σ → Document → σ

instance : HasDocument Document := ⟨id, fun _ doc => doc⟩

namespace Action

variable {σ α β : Type}

protected def pure (a : α) : Action σ α := fun s => ⟨.ok a, s, []⟩

protected def bind (x : Action σ α) (f : α → Action σ β) : Action σ β := fun s =>
  let first := x s
  match first.outcome with
  | .ok a =>
    let second := f a first.state
    { second with deliveries := first.deliveries ++ second.deliveries }
  | .refused e => ⟨.refused e, first.state, first.deliveries⟩
  | .abandoned => ⟨.abandoned, first.state, first.deliveries⟩

instance : Monad (Action σ) where
  pure := Action.pure
  bind := Action.bind

protected theorem bind_pure (x : Action σ α) : x.bind .pure = x := by
  funext s
  simp only [Action.bind, Action.pure]
  generalize x s = run
  obtain ⟨outcome, state, deliveries⟩ := run
  cases outcome <;> simp

protected theorem bind_assoc {γ : Type} (x : Action σ α) (f : α → Action σ β)
    (g : β → Action σ γ) : (x.bind f).bind g = x.bind fun a => (f a).bind g := by
  funext s
  simp only [Action.bind]
  generalize x s = run
  obtain ⟨outcome, state, deliveries⟩ := run
  cases outcome with
  | ok a =>
    simp only
    generalize f a state = second
    obtain ⟨outcome, state, deliveries⟩ := second
    cases outcome <;> simp
  | refused e => rfl
  | abandoned => rfl

instance : LawfulMonad (Action σ) :=
  .mk' _ Action.bind_pure (fun _ _ => rfl) Action.bind_assoc

def state : Action σ σ := fun s => ⟨.ok s, s, []⟩

def alter (f : σ → σ) : Action σ Unit := fun s => ⟨.ok (), f s, []⟩

def refuse (e : DocumentError) : Action σ α := fun s => ⟨.refused e, s, []⟩

def abandon : Action σ α := fun s => ⟨.abandoned, s, []⟩

def ofExcept : Except DocumentError α → Action σ α
  | .ok a => pure a
  | .error e => refuse e

def lift (x : Except TextError α) : Action σ α := ofExcept (x.mapError .text)

def alterExcept (f : σ → Except DocumentError σ) : Action σ Unit := fun s =>
  match f s with
  | .ok s => ⟨.ok (), s, []⟩
  | .error e => ⟨.refused e, s, []⟩

def attempt (x : Action σ α) : Action σ (Except DocumentError α) := fun s =>
  let run := x s
  match run.outcome with
  | .ok a => ⟨.ok (.ok a), run.state, run.deliveries⟩
  | .refused e => ⟨.ok (.error e), run.state, run.deliveries⟩
  | .abandoned => ⟨.abandoned, run.state, run.deliveries⟩

def onAbandoned (x : Action σ α) (mend : σ → σ) : Action σ α := fun s =>
  let run := x s
  match run.outcome with
  | .abandoned => { run with state := mend run.state }
  | _ => run

def ensuring (x : Action σ α) (finish : σ → σ) : Action σ α := fun s =>
  let run := x s
  { run with state := finish run.state }

section HasDocument

variable [HasDocument σ]

def onDocument (x : Action Document α) : Action σ α := fun s =>
  let run := x (HasDocument.document s)
  ⟨run.outcome, HasDocument.withDocument s run.state, run.deliveries⟩

def inDocument (f : Document → Document) (s : σ) : σ :=
  HasDocument.withDocument s (f (HasDocument.document s))

end HasDocument

end Action

end EditableText
