/-!
A broadcast channel: every handler reads what was sent since it subscribed, in order, and a handler
that falls too far behind goes on with the oldest message still kept.
-/

namespace EditableText

structure Bus (α : Type) where
  capacity : Nat
  sent : Array α
  handlers : Array (Option Nat)
  isClosed : Bool
  deriving Repr

inductive Received (α : Type) where
  | message (a : α)
  | pending
  | closed
  deriving Repr, DecidableEq

namespace Bus

def defaultCapacity : Nat := 256

/-- Twice as many messages, of 64 bytes each, are more than a block of memory can hold. -/
def maxCapacity : Nat := 1 <<< 56

variable {α : Type}

def leastPowerOfTwo (n : Nat) : Nat := if n ≤ 1 then 1 else 1 <<< ((n - 1).log2 + 1)

def create? (capacity : Nat) : Option (Bus α) :=
  if capacity ≤ maxCapacity then
    some ⟨leastPowerOfTwo (max capacity 1), #[], #[], false⟩
  else none

variable (bus : Bus α)

def subscribe : Bus α :=
  { bus with handlers := bus.handlers.push (some bus.sent.size) }

def receiverCount : Nat := bus.handlers.countP Option.isSome

def emit (a : α) : Bus α := { bus with sent := bus.sent.push a }

def drop (handler : Nat) : Bus α :=
  { bus with handlers := bus.handlers.setIfInBounds handler none }

def close : Bus α := { bus with isClosed := true }

def oldestKept : Nat := bus.sent.size - bus.capacity

def next (handler : Nat) : Received α × Bus α :=
  match bus.handlers[handler]? with
  | some (some position) =>
    let position := max position bus.oldestKept
    match bus.sent[position]? with
    | some a =>
      (.message a,
        { bus with handlers := bus.handlers.setIfInBounds handler (some (position + 1)) })
    | none => (if bus.isClosed then .closed else .pending, bus)
  | _ => (.closed, bus)

def receive (bus : Bus α) (handler : Nat) : Nat → List (Received α) × Bus α
  | 0 => ([], bus)
  | count + 1 =>
    match bus.next handler with
    | (.message a, bus) =>
      let (rest, bus) := bus.receive handler count
      (.message a :: rest, bus)
    | (stopped, bus) => ([stopped], bus)

end Bus

end EditableText
