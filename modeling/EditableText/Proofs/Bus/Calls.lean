import EditableText.Proofs.Bus

namespace EditableText

inductive BusCall (α : Type) where
  | subscribe
  | emit (a : α)
  | drop (handler : Nat)
  | close
  | next (handler : Nat)
  deriving Repr, DecidableEq

namespace BusCall

variable {α : Type}

def subscribes : BusCall α → Bool
  | subscribe => true
  | _ => false

def emitted? : BusCall α → Option α
  | emit a => some a
  | _ => none

def polls (handler : Nat) : BusCall α → Bool
  | next other => other == handler
  | _ => false

def concerns (handler : Nat) : BusCall α → Bool
  | drop other | next other => other == handler
  | _ => true

def subscriptions (calls : List (BusCall α)) : Nat := calls.countP subscribes

def emitted (calls : List (BusCall α)) : List α := calls.filterMap emitted?

lemma eq_next_of_polls {handler : Nat} {call : BusCall α} (h : call.polls handler = true) :
    call = next handler := by
  cases call with
  | next other => rw [eq_of_beq h]
  | _ => cases h

lemma emitted_append (a b : List (BusCall α)) : emitted (a ++ b) = emitted a ++ emitted b := List.filterMap_append

lemma subscriptions_append (a b : List (BusCall α)) :
    subscriptions (a ++ b) = subscriptions a + subscriptions b := List.countP_append

end BusCall

namespace Bus

open BusCall

variable {α : Type} {bus other : Bus α} {handler : Nat} {call : BusCall α} {calls : List (BusCall α)}

def perform (bus : Bus α) : BusCall α → Option (Received α) × Bus α
  | .subscribe => (none, bus.subscribe)
  | .emit a => (none, bus.emit a)
  | .drop handler => (none, bus.drop handler)
  | .close => (none, bus.close)
  | .next handler => (some (bus.next handler).1, (bus.next handler).2)

def after (bus : Bus α) (calls : List (BusCall α)) : Bus α :=
  calls.foldl (fun bus call => (bus.perform call).2) bus

def record : Bus α → List (BusCall α) → List (BusCall α × Option (Received α))
  | _, [] => []
  | bus, call :: rest => (call, (bus.perform call).1) :: (bus.perform call).2.record rest

def replies (handler : Nat) (bus : Bus α) (calls : List (BusCall α)) : List (Received α) :=
  (bus.record calls).filterMap fun (call, reply) => if call.polls handler then reply else none

def yields (handler : Nat) (bus : Bus α) (calls : List (BusCall α)) : List α :=
  (bus.replies handler calls).filterMap Received.message?

lemma after_append (bus : Bus α) (a b : List (BusCall α)) : bus.after (a ++ b) = (bus.after a).after b :=
  List.foldl_append

lemma replies_cons_next (bus : Bus α) (rest : List (BusCall α)) :
    bus.replies handler (.next handler :: rest) =
      (bus.next handler).1 :: (bus.next handler).2.replies handler rest := by
  simp [replies, record, perform, polls]

lemma replies_cons_of_not_polls (h : call.polls handler = false) (rest : List (BusCall α)) :
    bus.replies handler (call :: rest) = (bus.perform call).2.replies handler rest := by
  simp [replies, record, h]

lemma record_append (bus : Bus α) (a b : List (BusCall α)) :
    bus.record (a ++ b) = bus.record a ++ (bus.after a).record b := by
  induction a generalizing bus with
  | nil => rfl
  | cons call rest ih => exact congrArg _ (ih _)

lemma yields_append (bus : Bus α) (a b : List (BusCall α)) :
    bus.yields handler (a ++ b) = bus.yields handler a ++ (bus.after a).yields handler b := by
  rw [yields, replies, record_append, List.filterMap_append, List.filterMap_append]
  rfl

lemma yields_next (bus : Bus α) : bus.yields handler [.next handler] = (bus.next handler).1.message?.toList := by
  rw [yields, replies_cons_next]
  cases (bus.next handler).1 <;> rfl

lemma yields_of_not_polls (bus : Bus α) (h : call.polls handler = false) : bus.yields handler [call] = [] := by
  rw [yields, replies_cons_of_not_polls h]
  rfl

section Next

variable {position : Nat} {a : α}

lemma next_of_message (hplace : bus.handlers[handler]? = some (some position))
    (ha : bus.sent[max position bus.oldestKept]? = some a) : bus.next handler = (.message a,
      { bus with handlers := bus.handlers.setIfInBounds handler (some (max position bus.oldestKept + 1)) }) := by
  simp only [next, hplace, ha]

lemma next_at_end (hplace : bus.handlers[handler]? = some (some position))
    (hend : bus.sent[max position bus.oldestKept]? = none) :
    bus.next handler = (if bus.isClosed then .closed else .pending, bus) := by
  simp only [next, hplace, hend]

lemma next_of_no_place (hplace : ∀ position, bus.handlers[handler]? ≠ some (some position)) :
    bus.next handler = (.closed, bus) := by
  rw [next]
  split
  case h_1 position hposition => exact absurd hposition (hplace position)
  case h_2 => rfl

end Next

lemma exists_of_next (bus : Bus α) (reader : Nat) : ∃ handlers, (bus.next reader).2 = { bus with handlers } ∧
    handlers.size = bus.handlers.size ∧ ∀ handler ≠ reader, handlers[handler]? = bus.handlers[handler]? := by
  rw [next]
  split
  case h_1 =>
    dsimp only
    split
    · exact ⟨_, rfl, Array.size_setIfInBounds, fun handler hne => Array.getElem?_setIfInBounds_ne hne.symm⟩
    · exact ⟨_, rfl, rfl, fun _ _ => rfl⟩
  case h_2 => exact ⟨_, rfl, rfl, fun _ _ => rfl⟩

section Perform

variable (bus : Bus α) (call : BusCall α)

lemma perform_capacity : (bus.perform call).2.capacity = bus.capacity := by
  cases call with
  | next reader =>
    obtain ⟨handlers, hnext, -⟩ := bus.exists_of_next reader
    rw [perform, hnext]
  | _ => rfl

lemma perform_sent : (bus.perform call).2.sent.toList = bus.sent.toList ++ (emitted [call]) := by
  cases call with
  | next reader =>
    obtain ⟨handlers, hnext, -⟩ := bus.exists_of_next reader
    exact (congrArg (·.sent.toList) hnext).trans (List.append_nil _).symm
  | emit a => exact Array.toList_push
  | _ => exact (List.append_nil _).symm

lemma perform_isClosed : (bus.perform call).2.isClosed = true ↔ bus.isClosed = true ∨ call = .close := by
  cases call with
  | next reader =>
    obtain ⟨handlers, hnext, -⟩ := bus.exists_of_next reader
    have hsame : (bus.perform (.next reader)).2.isClosed = bus.isClosed := by rw [perform, hnext]
    simp [hsame]
  | close => simp [perform, close]
  | _ => simp [perform, subscribe, emit, drop]

lemma perform_size :
    (bus.perform call).2.handlers.size = bus.handlers.size + subscriptions [call] := by
  cases call with
  | next reader =>
    obtain ⟨handlers, hnext, hsize, -⟩ := bus.exists_of_next reader
    exact (congrArg (·.handlers.size) hnext).trans hsize
  | subscribe => exact Array.size_push _
  | drop => exact Array.size_setIfInBounds
  | _ => rfl

end Perform

lemma perform_handler (hsize : handler < bus.handlers.size) (hpoll : call.polls handler = false)
    (hdrop : ∀ other, call = .drop other → other ≠ handler) :
    (bus.perform call).2.handlers[handler]? = bus.handlers[handler]? := by
  cases call with
  | next reader =>
    obtain ⟨handlers, hnext, -, hothers⟩ := bus.exists_of_next reader
    have hne : handler ≠ reader := fun h => by simp [polls, h] at hpoll
    exact (congrArg (·.handlers[handler]?) hnext).trans (hothers handler hne)
  | subscribe => exact (Array.getElem?_push_lt hsize).trans (Array.getElem?_eq_getElem hsize).symm
  | drop other => exact Array.getElem?_setIfInBounds_ne (hdrop other rfl)
  | _ => rfl

section After

variable (bus : Bus α) (calls : List (BusCall α))

lemma after_capacity : (bus.after calls).capacity = bus.capacity := by
  induction calls generalizing bus with
  | nil => rfl
  | cons call rest ih => exact (ih _).trans (bus.perform_capacity call)

lemma after_sent : (bus.after calls).sent.toList = bus.sent.toList ++ emitted calls := by
  induction calls generalizing bus with
  | nil => exact (List.append_nil _).symm
  | cons call rest ih =>
    refine (ih _).trans ?_
    rw [perform_sent, List.append_assoc, ← emitted_append]
    rfl

lemma after_isClosed : (bus.after calls).isClosed = true ↔ bus.isClosed = true ∨ .close ∈ calls := by
  induction calls generalizing bus with
  | nil => simp [after]
  | cons call rest ih =>
    refine (ih _).trans ?_
    rw [perform_isClosed, List.mem_cons, or_assoc, @eq_comm _ call]

lemma after_size : (bus.after calls).handlers.size = bus.handlers.size + subscriptions calls := by
  induction calls generalizing bus with
  | nil => rfl
  | cons call rest ih =>
    refine (ih _).trans ?_
    rw [perform_size, Nat.add_assoc, ← subscriptions_append]
    rfl

end After

structure SameFor (handler : Nat) (bus other : Bus α) : Prop where
  capacity_eq : other.capacity = bus.capacity
  sent_eq : other.sent = bus.sent
  isClosed_eq : other.isClosed = bus.isClosed
  size_eq : other.handlers.size = bus.handlers.size
  handler_eq : other.handlers[handler]? = bus.handlers[handler]?

namespace SameFor

lemma refl (handler : Nat) (bus : Bus α) : SameFor handler bus bus := ⟨rfl, rfl, rfl, rfl, rfl⟩

lemma placed (h : SameFor handler bus other) (place : Option Nat) :
    SameFor handler { bus with handlers := bus.handlers.setIfInBounds handler place }
      { other with handlers := other.handlers.setIfInBounds handler place } := by
  refine ⟨h.capacity_eq, h.sent_eq, h.isClosed_eq, ?_, ?_⟩
  · dsimp only
    rw [Array.size_setIfInBounds, Array.size_setIfInBounds, h.size_eq]
  · dsimp only
    rw [Array.getElem?_setIfInBounds_self, Array.getElem?_setIfInBounds_self, h.size_eq]

lemma next (h : SameFor handler bus other) :
    (other.next handler).1 = (bus.next handler).1 ∧
      SameFor handler (bus.next handler).2 (other.next handler).2 := by
  have holdest : other.oldestKept = bus.oldestKept := by rw [oldestKept, oldestKept, h.sent_eq, h.capacity_eq]
  by_cases hplace : ∃ position, bus.handlers[handler]? = some (some position)
  · obtain ⟨position, hplace⟩ := hplace
    have hother : other.handlers[handler]? = some (some position) := h.handler_eq.trans hplace
    cases hmessage : bus.sent[max position bus.oldestKept]? with
    | some a =>
      rw [next_of_message hplace hmessage, next_of_message (a := a) hother (by rw [h.sent_eq, holdest, hmessage]),
        holdest]
      exact ⟨rfl, h.placed _⟩
    | none =>
      rw [next_at_end hplace hmessage, next_at_end hother (by rw [h.sent_eq, holdest, hmessage]), h.isClosed_eq]
      exact ⟨rfl, h⟩
  · have hnone : ∀ position, bus.handlers[handler]? ≠ some (some position) := fun position hp => hplace ⟨_, hp⟩
    rw [next_of_no_place hnone, next_of_no_place fun position => h.handler_eq ▸ hnone position]
    exact ⟨rfl, h⟩

lemma perform (h : SameFor handler bus other) (hcall : call.concerns handler = true) :
    SameFor handler (bus.perform call).2 (other.perform call).2 := by
  cases call with
  | next reader =>
    obtain rfl : reader = handler := by simpa [concerns] using hcall
    exact h.next.2
  | subscribe =>
    refine ⟨h.capacity_eq, h.sent_eq, h.isClosed_eq, ?_, ?_⟩
    · simpa [Bus.perform, subscribe] using h.size_eq
    · simp [Bus.perform, subscribe, Array.getElem?_push, h.size_eq, h.sent_eq, h.handler_eq]
  | emit a => exact ⟨h.capacity_eq, by simp [Bus.perform, emit, h.sent_eq], h.isClosed_eq, h.size_eq, h.handler_eq⟩
  | drop dropped =>
    obtain rfl : dropped = handler := by simpa [concerns] using hcall
    exact h.placed none
  | close => exact ⟨h.capacity_eq, h.sent_eq, rfl, h.size_eq, h.handler_eq⟩

lemma skip (h : SameFor handler bus other) (hcall : call.concerns handler = false) :
    SameFor handler (bus.perform call).2 other := by
  cases call with
  | next reader =>
    obtain ⟨handlers, hnext, hsize, hothers⟩ := bus.exists_of_next reader
    have hne : handler ≠ reader := fun h => by simp [concerns, h] at hcall
    change SameFor handler (bus.next reader).2 other
    rw [hnext]
    exact ⟨h.capacity_eq, h.sent_eq, h.isClosed_eq, h.size_eq.trans hsize.symm,
      h.handler_eq.trans (hothers handler hne).symm⟩
  | drop dropped =>
    have hne : dropped ≠ handler := by simpa [concerns] using hcall
    exact ⟨h.capacity_eq, h.sent_eq, h.isClosed_eq, h.size_eq.trans Array.size_setIfInBounds.symm,
      h.handler_eq.trans (Array.getElem?_setIfInBounds_ne hne).symm⟩
  | subscribe | emit | close => cases hcall

lemma replies_eq (h : SameFor handler bus other) (calls : List (BusCall α)) :
    other.replies handler (calls.filter (concerns handler)) = bus.replies handler calls := by
  induction calls generalizing bus other with
  | nil => rfl
  | cons call rest ih =>
    by_cases hpoll : call.polls handler = true
    · obtain rfl := eq_next_of_polls hpoll
      rw [List.filter_cons_of_pos (by simp [concerns]), replies_cons_next, replies_cons_next, h.next.1,
        ih h.next.2]
    · have hother : call.polls handler = false := by simpa using hpoll
      rw [replies_cons_of_not_polls hother]
      by_cases hcall : call.concerns handler = true
      · rw [List.filter_cons_of_pos hcall, replies_cons_of_not_polls hother, ih (h.perform hcall)]
      · rw [List.filter_cons_of_neg hcall, ih (h.skip (by simpa using hcall))]

end SameFor

lemma replies_filter (bus : Bus α) (handler : Nat) (calls : List (BusCall α)) :
    bus.replies handler (calls.filter (concerns handler)) = bus.replies handler calls :=
  (SameFor.refl handler bus).replies_eq calls

end Bus

end EditableText
