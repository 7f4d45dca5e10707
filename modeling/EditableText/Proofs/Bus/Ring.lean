import EditableText.Proofs.Bus.Calls

/-!
A ring of slots for the last messages. A reader who has been overtaken is told so, goes on at the oldest slot and
has to try again; in the end this tells him what the bus tells.
-/

namespace EditableText

inductive Attempt (α : Type) where
  | message (a : α)
  | lagged (missed : Nat)
  | pending
  | closed
  deriving Repr, DecidableEq

def Attempt.reply? {α : Type} : Attempt α → Option (Received α)
  | message a => some (.message a)
  | lagged _ => none
  | pending => some .pending
  | closed => some .closed

/-- Message number `p` is in slot `p` modulo the number of slots, until another one is put there. -/
structure Ring (α : Type) where
  slots : Array (Option (Nat × α))
  sent : Nat
  places : Array (Option Nat)
  isClosed : Bool
  deriving Repr

namespace Ring

open BusCall

variable {α : Type}

def ofCapacity (capacity : Nat) : Ring α := ⟨Array.replicate capacity none, 0, #[], false⟩

section Calls

variable (ring : Ring α)

def subscribe : Ring α := { ring with places := ring.places.push (some ring.sent) }

def emit (a : α) : Ring α :=
  { ring with
    slots := ring.slots.setIfInBounds (ring.sent % ring.slots.size) (some (ring.sent, a))
    sent := ring.sent + 1 }

def drop (handler : Nat) : Ring α := { ring with places := ring.places.setIfInBounds handler none }

def close : Ring α := { ring with isClosed := true }

def oldestKept : Nat := ring.sent - ring.slots.size

def message? (place : Nat) : Option α :=
  (ring.slots[place % ring.slots.size]?.join.filter (·.1 == place)).map (·.2)

def moveTo (handler place : Nat) : Ring α :=
  { ring with places := ring.places.setIfInBounds handler (some place) }

def attempt (handler : Nat) : Attempt α × Ring α :=
  match ring.places[handler]? with
  | some (some place) =>
    if place = ring.sent then (if ring.isClosed then .closed else .pending, ring)
    else
      match ring.message? place with
      | some a => (.message a, ring.moveTo handler (place + 1))
      | none => (.lagged (ring.oldestKept - place), ring.moveTo handler ring.oldestKept)
  | _ => (.closed, ring)

def perform : BusCall α → Option (Attempt α) × Ring α
  | .subscribe => (none, ring.subscribe)
  | .emit a => (none, ring.emit a)
  | .drop handler => (none, ring.drop handler)
  | .close => (none, ring.close)
  | .next handler => (some (ring.attempt handler).1, (ring.attempt handler).2)

def after (calls : List (BusCall α)) : Ring α := calls.foldl (fun ring call => (ring.perform call).2) ring

end Calls

def log : Ring α → List (BusCall α) → List (BusCall α × Option (Attempt α))
  | _, [] => []
  | ring, call :: rest => (call, (ring.perform call).1) :: (ring.perform call).2.log rest

/-- An attempt that has to be made again is kept from the one who asked. -/
def settled? : BusCall α × Option (Attempt α) → Option (BusCall α × Option (Received α))
  | (call, none) => some (call, none)
  | (call, some attempt) => attempt.reply?.map fun reply => (call, some reply)

/-- The calls as they look to those who make them, other calls coming in between the attempts of a poll or
not. -/
def heard (ring : Ring α) (calls : List (BusCall α)) : List (BusCall α × Option (Received α)) :=
  (ring.log calls).filterMap settled?

variable {ring : Ring α} {bus : Bus α} {handler place : Nat} {a : α}

def resumption (oldest : Nat) (place : Option (Option Nat)) : Option Nat := place.join.map (max oldest)

lemma resumption_of_le {oldest later : Nat} (hle : oldest ≤ later) (place : Option (Option Nat)) :
    resumption later place = (resumption oldest place).map (max later) := by
  rw [resumption, resumption, Option.map_map]
  refine congrArg (fun f => place.join.map f) (funext fun n => ?_)
  simp only [Function.comp_apply]
  omega

lemma mod_ne {p n capacity : Nat} (hlt : p < n) (hnear : n < p + capacity) : n % capacity ≠ p % capacity := by
  intro heq
  have hzero := Nat.sub_mod_eq_zero_of_mod_eq heq
  rw [Nat.mod_eq_of_lt (by omega)] at hzero
  omega

lemma exists_of_resumption {oldest n : Nat} {place : Option (Option Nat)} (h : resumption oldest place = some n) :
    ∃ position, place = some (some position) ∧ max oldest position = n := by
  obtain ⟨position, hposition, hmax⟩ := Option.map_eq_some_iff.mp h
  exact ⟨position, Option.join_eq_some_iff.mp hposition, hmax⟩

section Attempt

lemma attempt_at_end (hplace : ring.places[handler]? = some (some ring.sent)) :
    ring.attempt handler = (if ring.isClosed then .closed else .pending, ring) := by
  simp only [attempt, hplace, if_true]

lemma attempt_of_message (hplace : ring.places[handler]? = some (some place)) (hne : place ≠ ring.sent)
    (ha : ring.message? place = some a) :
    ring.attempt handler = (.message a, ring.moveTo handler (place + 1)) := by
  simp only [attempt, hplace, if_neg hne, ha]

lemma attempt_of_lost (hplace : ring.places[handler]? = some (some place)) (hne : place ≠ ring.sent)
    (hlost : ring.message? place = none) :
    ring.attempt handler = (.lagged (ring.oldestKept - place), ring.moveTo handler ring.oldestKept) := by
  simp only [attempt, hplace, if_neg hne, hlost]

lemma attempt_of_no_place (hplace : ∀ place, ring.places[handler]? ≠ some (some place)) :
    ring.attempt handler = (.closed, ring) := by
  rw [attempt]
  split
  case h_1 place hfound => exact absurd hfound (hplace place)
  case h_2 => rfl

end Attempt

/-- The ring keeps what the bus does, and each reader comes to the same message in both. -/
structure Carries (ring : Ring α) (bus : Bus α) : Prop where
  positive : 0 < bus.capacity
  size_eq : ring.slots.size = bus.capacity
  sent_eq : ring.sent = bus.sent.size
  isClosed_eq : ring.isClosed = bus.isClosed
  kept : ∀ p (h : p < bus.sent.size), bus.sent.size ≤ p + bus.capacity →
    ring.slots[p % bus.capacity]? = some (some (p, bus.sent[p]))
  recent : ∀ (i p : Nat) (a : α), ring.slots[i]? = some (some (p, a)) →
    p % bus.capacity = i ∧ bus.sent.size ≤ p + bus.capacity
  handlers_eq : ring.places.size = bus.handlers.size
  place_eq : ∀ handler : Nat,
    resumption bus.oldestKept ring.places[handler]? = resumption bus.oldestKept bus.handlers[handler]?
  place_le : ∀ handler place : Nat, ring.places[handler]? = some (some place) → place ≤ bus.sent.size

namespace Carries

lemma start (bus : Bus α) (hpositive : 0 < bus.capacity) (hsent : bus.sent = #[]) (hhandlers : bus.handlers = #[])
    (hopen : bus.isClosed = false) : (ofCapacity bus.capacity : Ring α).Carries bus where
  positive := hpositive
  size_eq := Array.size_replicate
  sent_eq := by simp [ofCapacity, hsent]
  isClosed_eq := hopen.symm
  kept p h := by simp [hsent] at h
  recent i p a h := by simp [ofCapacity, Array.getElem?_replicate] at h
  handlers_eq := by simp [ofCapacity, hhandlers]
  place_eq handler := by simp [ofCapacity, hhandlers]
  place_le handler place h := by simp [ofCapacity] at h

variable (h : ring.Carries bus)

include h

lemma oldestKept_eq : ring.oldestKept = bus.oldestKept := by
  rw [Ring.oldestKept, Bus.oldestKept, h.sent_eq, h.size_eq]

lemma message?_of_kept (hlt : place < bus.sent.size) (hkept : bus.sent.size ≤ place + bus.capacity) :
    ring.message? place = some bus.sent[place] := by
  simp [message?, h.size_eq, h.kept place hlt hkept]

lemma message?_of_lost (hlost : place + bus.capacity < bus.sent.size) : ring.message? place = none := by
  rw [message?, h.size_eq]
  cases hslot : ring.slots[place % bus.capacity]? with
  | none => rfl
  | some slot =>
    cases slot with
    | none => rfl
    | some stored =>
      obtain ⟨-, hrecent⟩ := h.recent _ stored.1 stored.2 hslot
      have hne : stored.1 ≠ place := by omega
      simp [hne]

lemma subscribe : ring.subscribe.Carries bus.subscribe where
  positive := h.positive
  size_eq := h.size_eq
  sent_eq := h.sent_eq
  isClosed_eq := h.isClosed_eq
  kept := h.kept
  recent := h.recent
  handlers_eq := by simp [Ring.subscribe, Bus.subscribe, h.handlers_eq]
  place_eq handler := by
    have hsame := h.place_eq handler
    simp only [Ring.subscribe, Bus.subscribe, Array.getElem?_push, h.handlers_eq, h.sent_eq] at hsame ⊢
    split
    · rfl
    · exact hsame
  place_le handler place hplace := by
    simp only [Ring.subscribe, Array.getElem?_push] at hplace
    split at hplace
    · obtain rfl := Option.some.inj (Option.some.inj hplace)
      exact Nat.le_of_eq h.sent_eq
    · exact h.place_le handler place hplace

lemma emit (a : α) : (ring.emit a).Carries (bus.emit a) := by
  have hslots : ∀ i : Nat, (ring.emit a).slots[i]? =
      if bus.sent.size % bus.capacity = i then some (some (bus.sent.size, a)) else ring.slots[i]? := by
    intro i
    rw [Ring.emit, h.size_eq, h.sent_eq, Array.getElem?_setIfInBounds, h.size_eq,
      if_pos (Nat.mod_lt _ h.positive)]
  have hsize : (bus.emit a).sent.size = bus.sent.size + 1 := Array.size_push _
  refine ⟨h.positive, ?_, ?_, h.isClosed_eq, fun p hlt hkept => ?_, fun i p b hslot => ?_, h.handlers_eq,
    fun handler => ?_, fun handler place hplace => ?_⟩
  · exact Array.size_setIfInBounds.trans h.size_eq
  · rw [hsize, ← h.sent_eq]
    rfl
  · rw [hsize] at hlt hkept
    change (ring.emit a).slots[p % bus.capacity]? = _
    -- Whatever is still kept is in another slot than the one that the new message takes.
    rcases Nat.lt_succ_iff_lt_or_eq.mp hlt with hold | rfl
    · have hnear : bus.sent.size < p + bus.capacity := hkept
      rw [hslots, if_neg (mod_ne hold hnear), h.kept p hold (Nat.le_of_succ_le hkept)]
      exact congrArg (fun b => some (some (p, b))) (Array.getElem_push_lt hold).symm
    · rw [hslots, if_pos rfl]
      exact congrArg (fun b => some (some (_, b))) Array.getElem_push_eq.symm
  · rw [hslots] at hslot
    rw [hsize]
    change p % bus.capacity = i ∧ bus.sent.size + 1 ≤ p + bus.capacity
    have hpositive := h.positive
    split at hslot
    case isTrue hi =>
      obtain ⟨rfl, rfl⟩ := Prod.mk.inj (Option.some.inj (Option.some.inj hslot))
      exact ⟨hi, by omega⟩
    case isFalse hi =>
      obtain ⟨hmod, hrecent⟩ := h.recent i p b hslot
      have hne : bus.sent.size ≠ p + bus.capacity := fun heq => hi (by rw [heq, Nat.add_mod_right, hmod])
      exact ⟨hmod, by omega⟩
  · have hle : bus.oldestKept ≤ (bus.emit a).oldestKept :=
      Nat.sub_le_sub_right (hsize ▸ Nat.le_succ _) bus.capacity
    exact (resumption_of_le hle _).trans ((congrArg _ (h.place_eq handler)).trans (resumption_of_le hle _).symm)
  · rw [hsize]
    exact Nat.le_succ_of_le (h.place_le handler place hplace)

lemma moved (handler : Nat) {place position : Option Nat}
    (heq : resumption bus.oldestKept (some place) = resumption bus.oldestKept (some position))
    (hle : ∀ p, place = some p → p ≤ bus.sent.size) :
    ({ ring with places := ring.places.setIfInBounds handler place } : Ring α).Carries
      { bus with handlers := bus.handlers.setIfInBounds handler position } := by
  refine { h with handlers_eq := ?_, place_eq := fun other => ?_, place_le := fun other p hother => ?_ }
  · simp [h.handlers_eq]
  · change resumption bus.oldestKept (ring.places.setIfInBounds handler place)[other]? =
      resumption bus.oldestKept (bus.handlers.setIfInBounds handler position)[other]?
    rw [Array.getElem?_setIfInBounds, Array.getElem?_setIfInBounds, h.handlers_eq]
    split
    · split
      · exact heq
      · rfl
    · exact h.place_eq other
  · dsimp only at hother
    rw [Array.getElem?_setIfInBounds] at hother
    split at hother
    · split at hother
      · exact hle p (Option.some.inj hother)
      · cases hother
    · exact h.place_le other p hother

lemma caughtUp {position : Nat} (hposition : bus.handlers[handler]? = some (some position))
    (hbehind : position ≤ bus.oldestKept) : (ring.moveTo handler bus.oldestKept).Carries bus := by
  have hresumption : resumption bus.oldestKept (some (some bus.oldestKept)) =
      resumption bus.oldestKept (some (some position)) := by simp [resumption, hbehind]
  have hmoved := h.moved handler hresumption fun p hp => Option.some.inj hp ▸ Nat.sub_le _ _
  have hsame : bus.handlers.setIfInBounds handler (some position) = bus.handlers := by
    obtain ⟨hlt, hget⟩ := Array.getElem?_eq_some_iff.mp hposition
    rw [← hget, Array.setIfInBounds_def, dif_pos hlt, Array.set_getElem_self]
  rwa [hsame] at hmoved

lemma close : ring.close.Carries bus.close := { h with isClosed_eq := rfl }

lemma drop (handler : Nat) : (ring.drop handler).Carries (bus.drop handler) :=
  h.moved handler rfl fun _ => by simp

lemma exists_position (hplace : ring.places[handler]? = some (some place)) :
    ∃ position, bus.handlers[handler]? = some (some position) ∧
      max position bus.oldestKept = max place bus.oldestKept := by
  have hsame := h.place_eq handler
  rw [hplace] at hsame
  obtain ⟨position, hposition, hmax⟩ := exists_of_resumption hsame.symm
  exact ⟨position, hposition, by rw [Nat.max_comm, hmax, Nat.max_comm]⟩

lemma no_position (hnone : ∀ place, ring.places[handler]? ≠ some (some place)) (position : Nat) :
    bus.handlers[handler]? ≠ some (some position) := by
  intro hposition
  have hsame := h.place_eq handler
  rw [hposition] at hsame
  obtain ⟨place, hplace, -⟩ := exists_of_resumption hsame
  exact hnone place hplace

lemma attempt (handler : Nat) :
    ((ring.attempt handler).1.reply? = some (bus.next handler).1 ∧
      (ring.attempt handler).2.Carries (bus.next handler).2) ∨
    ((∃ missed, 0 < missed ∧ (ring.attempt handler).1 = .lagged missed) ∧ (ring.attempt handler).2.Carries bus ∧
      (ring.attempt handler).2.places[handler]? = some (some bus.oldestKept) ∧
        bus.oldestKept < bus.sent.size) := by
  by_cases hreads : ∃ place, ring.places[handler]? = some (some place)
  swap
  · have hnone : ∀ place, ring.places[handler]? ≠ some (some place) := fun place hplace => hreads ⟨place, hplace⟩
    rw [attempt_of_no_place hnone, Bus.next_of_no_place (h.no_position hnone)]
    exact .inl ⟨rfl, h⟩
  obtain ⟨place, hplace⟩ := hreads
  obtain ⟨position, hposition, hmax⟩ := h.exists_position hplace
  have hle := h.place_le handler place hplace
  have holdest : bus.oldestKept = bus.sent.size - bus.capacity := rfl
  have hpositive := h.positive
  rcases Nat.lt_or_eq_of_le hle with hlt | hend
  · have hne : place ≠ ring.sent := h.sent_eq ▸ Nat.ne_of_lt hlt
    by_cases hkept : bus.sent.size ≤ place + bus.capacity
    · have hhere : max position bus.oldestKept = place := hmax.trans (Nat.max_eq_left (by omega))
      have hget : bus.sent[max position bus.oldestKept]? = some bus.sent[place] := by
        rw [hhere]
        exact Array.getElem?_eq_getElem hlt
      rw [attempt_of_message hplace hne (h.message?_of_kept hlt hkept), Bus.next_of_message hposition hget, hhere]
      exact .inl ⟨rfl, h.moved handler rfl fun p hp => Option.some.inj hp ▸ hlt⟩
    · have hlost : ring.message? place = none := h.message?_of_lost (Nat.not_le.mp hkept)
      have hlt' : handler < ring.places.size := (Array.getElem?_eq_some_iff.mp hplace).1
      rw [attempt_of_lost hplace hne hlost, h.oldestKept_eq]
      refine .inr ⟨⟨_, by omega, rfl⟩, h.caughtUp hposition (by omega), ?_, by omega⟩
      simp [moveTo, hlt']
  · have hget : bus.sent[max position bus.oldestKept]? = none := by
      rw [Array.getElem?_eq_none_iff, hmax]
      omega
    rw [hend, ← h.sent_eq] at hplace
    rw [attempt_at_end hplace, Bus.next_at_end hposition hget, h.isClosed_eq]
    refine .inl ⟨?_, h⟩
    cases bus.isClosed <;> rfl

lemma attempt_again (hplace : ring.places[handler]? = some (some bus.oldestKept))
    (hkept : bus.oldestKept < bus.sent.size) : ∃ a after, ring.attempt handler = (.message a, after) := by
  have holdest : bus.oldestKept = bus.sent.size - bus.capacity := rfl
  exact ⟨_, _, attempt_of_message hplace (h.sent_eq ▸ Nat.ne_of_lt hkept) (h.message?_of_kept hkept (by omega))⟩

lemma perform (call : BusCall α) :
    (settled? (call, (ring.perform call).1) = some (call, (bus.perform call).1) ∧
      (ring.perform call).2.Carries (bus.perform call).2) ∨
    (settled? (call, (ring.perform call).1) = none ∧ (ring.perform call).2.Carries bus) := by
  cases call with
  | subscribe => exact .inl ⟨rfl, h.subscribe⟩
  | emit a => exact .inl ⟨rfl, h.emit a⟩
  | drop handler => exact .inl ⟨rfl, h.drop handler⟩
  | close => exact .inl ⟨rfl, h.close⟩
  | next handler =>
    rcases h.attempt handler with ⟨hreply, hafter⟩ | ⟨⟨missed, -, hlagged⟩, hafter, -⟩
    · exact .inl ⟨by simp [settled?, Ring.perform, Bus.perform, hreply], hafter⟩
    · exact .inr ⟨by simp [settled?, Ring.perform, hlagged, Attempt.reply?], hafter⟩

end Carries

lemma Carries.after (h : ring.Carries bus) (calls : List (BusCall α)) :
    ∃ after, (ring.after calls).Carries after := by
  induction calls generalizing ring bus with
  | nil => exact ⟨bus, h⟩
  | cons call rest ih =>
    rcases h.perform call with ⟨-, hafter⟩ | ⟨-, hafter⟩
    · exact ih hafter
    · exact ih hafter

lemma Carries.record_heard (h : ring.Carries bus) (calls : List (BusCall α)) :
    bus.record ((ring.heard calls).map Prod.fst) = ring.heard calls := by
  induction calls generalizing ring bus with
  | nil => rfl
  | cons call rest ih =>
    rw [heard, log]
    rcases h.perform call with ⟨hsettled, hafter⟩ | ⟨hlagged, hafter⟩
    · rw [List.filterMap_cons_some hsettled, List.map_cons, Bus.record]
      exact congrArg _ (ih hafter)
    · rw [List.filterMap_cons_none hlagged]
      exact ih hafter

lemma Carries.attempt_of_lagged (h : ring.Carries bus) {missed : Nat} {after : Ring α}
    (hlagged : ring.attempt handler = (.lagged missed, after)) :
    0 < missed ∧ ∃ a last, after.attempt handler = (.message a, last) := by
  rcases h.attempt handler with ⟨hreply, -⟩ | ⟨⟨_, hpositive, hmissed⟩, hafter, hplace, hkept⟩
  · rw [hlagged] at hreply
    cases hreply
  · rw [hlagged] at hmissed hafter hplace
    obtain rfl := Attempt.lagged.inj hmissed
    exact ⟨hpositive, hafter.attempt_again hplace hkept⟩

end Ring

end EditableText
