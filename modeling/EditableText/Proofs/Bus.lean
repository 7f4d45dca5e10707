import EditableText.Bus
import Mathlib.Data.List.Basic
import Mathlib.Tactic.Common

namespace EditableText

def Received.message? {α : Type} : Received α → Option α
  | message a => some a
  | _ => none

namespace Bus

variable {α : Type} (bus : Bus α) (handler : Nat)

def emitAll (messages : List α) : Bus α := messages.foldl emit bus

def unread : List α :=
  match bus.handlers[handler]? with
  | some (some position) => bus.sent.toList.drop position
  | _ => []

def KeepsUp : Prop :=
  ∃ position, bus.handlers[handler]? = some (some position) ∧ bus.oldestKept ≤ position ∧
    position ≤ bus.sent.size

def Joined : Prop := ∃ position ≤ bus.sent.size, bus.handlers[handler]? = some (some position)

instance : Decidable (bus.KeepsUp handler) :=
  decidable_of_iff (bus.handlers[handler]?.join.any fun position =>
    bus.oldestKept ≤ position ∧ position ≤ bus.sent.size) (by
      simp [KeepsUp, Option.any_eq_true, Option.join_eq_some_iff])

variable {bus handler}

lemma emitAll_append (a b : List α) : bus.emitAll (a ++ b) = (bus.emitAll a).emitAll b :=
  List.foldl_append

lemma emitAll_eq (messages : List α) :
    (bus.emitAll messages).sent.toList = bus.sent.toList ++ messages ∧
      (bus.emitAll messages).handlers = bus.handlers ∧
      (bus.emitAll messages).capacity = bus.capacity := by
  induction messages generalizing bus with
  | nil => exact ⟨(List.append_nil _).symm, rfl, rfl⟩
  | cons a rest ih =>
    obtain ⟨hsent, hhandlers, hcapacity⟩ := @ih (bus.emit a)
    refine ⟨hsent.trans ?_, hhandlers, hcapacity⟩
    simp [emit]

lemma unread_eq {position : Nat} (h : bus.handlers[handler]? = some (some position)) :
    bus.unread handler = bus.sent.toList.drop position := by
  rw [unread, h]

namespace Joined

lemma lt_size (h : bus.Joined handler) : handler < bus.handlers.size := by
  obtain ⟨position, -, hhandler⟩ := h
  exact (Array.getElem?_eq_some_iff.mp hhandler).1

lemma unread_emitAll (h : bus.Joined handler) (messages : List α) :
    (bus.emitAll messages).unread handler = bus.unread handler ++ messages := by
  obtain ⟨position, hsize, hhandler⟩ := h
  obtain ⟨hsent, hhandlers, -⟩ := bus.emitAll_eq messages
  rw [unread_eq hhandler, unread_eq (hhandlers ▸ hhandler), hsent, List.drop_append_of_le_length]
  exact hsize

lemma emit (h : bus.Joined handler) (a : α) :
    (bus.emit a).Joined handler ∧ (bus.emit a).unread handler = bus.unread handler ++ [a] := by
  refine ⟨?_, h.unread_emitAll [a]⟩
  obtain ⟨position, hsize, hhandler⟩ := h
  exact ⟨position, by simp [Bus.emit, Nat.le_succ_of_le hsize], hhandler⟩

lemma subscribe (h : bus.Joined handler) :
    bus.subscribe.Joined handler ∧ bus.subscribe.unread handler = bus.unread handler := by
  have hsame : bus.subscribe.handlers[handler]? = bus.handlers[handler]? := by
    rw [Bus.subscribe, Array.getElem?_push_lt h.lt_size]
    simp [h.lt_size]
  obtain ⟨position, hsize, hhandler⟩ := h
  exact ⟨⟨position, hsize, hsame.trans hhandler⟩, by rw [unread, hsame]; rfl⟩

end Joined

lemma KeepsUp.joined (h : bus.KeepsUp handler) : bus.Joined handler :=
  let ⟨position, hhandler, _, hsize⟩ := h
  ⟨position, hsize, hhandler⟩

lemma next_cons (h : bus.KeepsUp handler) {a : α} {rest : List α} (hunread : bus.unread handler = a :: rest) :
    ∃ after, bus.next handler = (.message a, after) ∧ after.KeepsUp handler ∧
      after.unread handler = rest ∧ after.sent = bus.sent := by
  have hlt := h.joined.lt_size
  obtain ⟨position, hhandler, hkept, hsize⟩ := h
  rw [unread_eq hhandler] at hunread
  have hget : bus.sent[position]? = some a := by
    have := congrArg List.head? hunread
    rwa [List.head?_drop, Array.getElem?_toList] at this
  have hposition := (Array.getElem?_eq_some_iff.mp hget).1
  let after : Bus α := { bus with handlers := bus.handlers.setIfInBounds handler (some (position + 1)) }
  have hafter : after.handlers[handler]? = some (some (position + 1)) := by
    simp [after, hlt]
  refine ⟨after, ?_, ⟨position + 1, hafter, ?_, hposition⟩, ?_, rfl⟩
  · simp only [next, hhandler, Nat.max_eq_left hkept, hget, after]
  · exact Nat.le_succ_of_le hkept
  · rw [unread_eq hafter, ← List.drop_drop, hunread]
    rfl

lemma next_nil (h : bus.KeepsUp handler) (hunread : bus.unread handler = []) :
    ∃ stopped, bus.next handler = (stopped, bus) ∧ stopped.message? = none := by
  obtain ⟨position, hhandler, hkept, hsize⟩ := h
  rw [unread_eq hhandler, List.drop_eq_nil_iff] at hunread
  have hget : bus.sent[position]? = none := Array.getElem?_eq_none hunread
  simp only [next, hhandler, Nat.max_eq_left hkept, hget]
  refine ⟨_, rfl, ?_⟩
  split <;> rfl

theorem receive_eq (h : bus.KeepsUp handler) (count : Nat) :
    (bus.receive handler count).1.filterMap Received.message? = (bus.unread handler).take count ∧
      (bus.receive handler count).2.unread handler = (bus.unread handler).drop count := by
  induction count generalizing bus with
  | zero => exact ⟨rfl, rfl⟩
  | succ count ih =>
    cases hunread : bus.unread handler with
    | nil =>
      obtain ⟨stopped, hnext, hstopped⟩ := next_nil h hunread
      rw [receive, hnext]
      cases stopped with
      | message a => cases hstopped
      | pending | closed => exact ⟨rfl, hunread⟩
    | cons a rest =>
      obtain ⟨after, hnext, hafter, hrest, -⟩ := next_cons h hunread
      obtain ⟨hread, hleft⟩ := ih hafter
      rw [receive, hnext]
      rw [hrest] at hread hleft
      exact ⟨congrArg (a :: ·) hread, hleft⟩

variable (bus) in
lemma next_eq (reader : Nat) : (bus.next reader).2.sent = bus.sent ∧
    ∀ handler ≠ reader, (bus.next reader).2.handlers[handler]? = bus.handlers[handler]? := by
  rw [next]
  split
  case h_1 =>
    dsimp only
    split
    · exact ⟨rfl, fun handler hne => Array.getElem?_setIfInBounds_ne hne.symm⟩
    · exact ⟨rfl, fun _ _ => rfl⟩
  case h_2 => exact ⟨rfl, fun _ _ => rfl⟩

variable (bus) in
lemma receive_eq_of_ne (reader count : Nat) : (bus.receive reader count).2.sent = bus.sent ∧
    ∀ handler ≠ reader, (bus.receive reader count).2.handlers[handler]? = bus.handlers[handler]? := by
  induction count generalizing bus with
  | zero => exact ⟨rfl, fun _ _ => rfl⟩
  | succ count ih =>
    obtain ⟨hsent, hhandlers⟩ := bus.next_eq reader
    rw [receive]
    split
    case h_1 a after hnext =>
      rw [hnext] at hsent hhandlers
      obtain ⟨hsent', hhandlers'⟩ := ih after
      exact ⟨hsent'.trans hsent, fun handler hne => (hhandlers' handler hne).trans (hhandlers handler hne)⟩
    case h_2 stopped after _ hnext =>
      rw [hnext] at hsent hhandlers
      exact ⟨hsent, hhandlers⟩

lemma Joined.receive_of_ne {reader : Nat} (h : bus.Joined handler) (hne : handler ≠ reader) (count : Nat) :
    (bus.receive reader count).2.Joined handler ∧
      (bus.receive reader count).2.unread handler = bus.unread handler := by
  obtain ⟨hsent, hhandlers⟩ := bus.receive_eq_of_ne reader count
  obtain ⟨position, hsize, hhandler⟩ := h
  exact ⟨⟨position, hsent ▸ hsize, (hhandlers handler hne).trans hhandler⟩, by
    rw [unread, unread, hhandlers handler hne, hsent]⟩

lemma KeepsUp.receive (h : bus.KeepsUp handler) (count : Nat) : (bus.receive handler count).2.KeepsUp handler := by
  induction count generalizing bus with
  | zero => exact h
  | succ count ih =>
    cases hunread : bus.unread handler with
    | nil =>
      obtain ⟨stopped, hnext, hstopped⟩ := next_nil h hunread
      rw [Bus.receive, hnext]
      cases stopped with
      | message a => cases hstopped
      | pending | closed => exact h
    | cons a rest =>
      obtain ⟨after, hnext, hafter, -⟩ := next_cons h hunread
      rw [Bus.receive, hnext]
      exact ih hafter

end Bus

end EditableText
