import EditableText.Document.Action

namespace EditableText

structure Hearing where
  listeners : List Listener
  deliveries : List Delivery
  failed : Bool

namespace Hearing

/-- A listener that fails keeps the event from those behind it. -/
def ofEvent (event : DocumentEvent) (seen : Document) : List Listener → Hearing
  | [] => ⟨[], [], false⟩
  | l :: rest =>
    let l := l.hear event
    let delivery : Delivery := ⟨l.token, l.label, event, seen⟩
    if l.hasFailed then ⟨l :: rest, [delivery], true⟩
    else
      let others := ofEvent event seen rest
      ⟨l :: others.listeners, delivery :: others.deliveries, others.failed⟩

end Hearing

namespace Document

def emit (event : DocumentEvent) : Action Document Unit := fun doc =>
  let hearing := Hearing.ofEvent event doc doc.listeners
  let doc := { doc with listeners := hearing.listeners }
  if hearing.failed then ⟨.abandoned, { doc with inChange := false }, hearing.deliveries⟩
  else ⟨.ok (), { doc with bus := doc.bus.emit ⟨doc.id, event⟩ }, hearing.deliveries⟩

def emitAll : List DocumentEvent → Action Document Unit
  | [] => pure ()
  | event :: rest => do
    emit event
    emitAll rest

def subscribe (label : String) (fails : List DocumentEvent → Bool) : Action Document Nat := do
  let doc ← .state
  let l : Listener := ⟨doc.nextToken, label, [], fails⟩
  .alter fun doc =>
    { doc with listeners := doc.listeners ++ [l], nextToken := doc.nextToken + 1 }
  return l.token

def unsubscribe (token : Nat) : Action Document Bool := do
  let doc ← .state
  let rest := doc.listeners.filter (·.token != token)
  .alter fun doc => { doc with listeners := rest }
  return rest.length != doc.listeners.length

def addReceiver : Action Document Nat := do
  .alter fun doc => { doc with bus := doc.bus.subscribe }
  return (← .state).bus.receiverCount

def receive (handler count : Nat) : Action Document (List (Received Notification)) := do
  let doc ← .state
  let (received, bus) := doc.bus.receive handler count
  .alter fun doc => { doc with bus }
  return received

end Document

end EditableText
