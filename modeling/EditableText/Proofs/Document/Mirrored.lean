import EditableText.Proofs.Document.Anchoring
import EditableText.Proofs.Document.Endings

namespace EditableText

open EditableText.Action

def changesOn (messages : List Notification) : List Change := messages.filterMap (·.event.changed?)

lemma changesOn_append (a b : List Notification) : changesOn (a ++ b) = changesOn a ++ changesOn b :=
  List.filterMap_append

def SparesChanges (fails : List DocumentEvent → Bool) : Prop :=
  ∀ event heard, fails (event :: heard) = true → event.changed? = none

namespace Document

variable {steady : Prop} {first doc mid after : Document} {handler : Nat} {read owed : List Change} {c : Change}
  {move : Move} {deleted : List AnchorId}

/-- The changes that the handler has read and those it can still read are among the ones that were applied, in
order, and with what the bus is still owed they are all of them if the listeners let them through. -/
structure Mirrors (steady : Prop) (first : Document) (handler : Nat) (read owed : List Change) (doc : Document) :
    Prop where
  joined : doc.bus.Joined handler
  spares : steady → ∀ l ∈ doc.listeners, SparesChanges l.fails
  matched : ∃ moves, Along first moves doc ∧
    (read ++ changesOn (doc.bus.unread handler) ++ owed).Sublist (Move.changes moves) ∧
    (steady → read ++ changesOn (doc.bus.unread handler) ++ owed = Move.changes moves)

namespace Mirrors

lemma sturdy (h : Mirrors steady first handler read owed doc) : doc.Sturdy :=
  let ⟨_, halong, _⟩ := h.matched
  halong.toSturdy

lemma still (h : Mirrors steady first handler read owed doc) (hmatter : after.matter = doc.matter)
    (hh : after.history.OfChanges Change.Balanced) (hbus : after.bus = doc.bus)
    (hlisteners : after.listeners = doc.listeners) : Mirrors steady first handler read owed after := by
  obtain ⟨moves, halong, hmoves⟩ := h.matched
  refine ⟨hbus ▸ h.joined, hlisteners ▸ h.spares, moves, halong.still hmatter hh, ?_⟩
  rw [hbus]
  exact hmoves

lemma observed (h : Mirrors steady first handler read owed doc) {listeners : List Listener} (nextToken : Nat)
    {bus : Bus Notification} (hspares : steady → ∀ l ∈ listeners, SparesChanges l.fails)
    (hjoined : bus.Joined handler) (hunread : bus.unread handler = doc.bus.unread handler) :
    Mirrors steady first handler read owed { doc with listeners, nextToken, bus } := by
  obtain ⟨moves, halong, hmoves⟩ := h.matched
  refine ⟨hjoined, hspares, moves, halong.still rfl halong.balanced, ?_⟩
  rw [hunread]
  exact hmoves

lemma link (h : Mirrors steady first handler read owed doc) {anchors : AnchorTable}
    (hlink : Link doc move { doc with anchors }) (hwithin : anchors.Within doc.storage.content.length)
    (hmove : move.change? = none) : Mirrors steady first handler read owed { doc with anchors } := by
  obtain ⟨moves, halong, hmoves⟩ := h.matched
  refine ⟨h.joined, h.spares, moves ++ [move], halong.link hlink hwithin, ?_⟩
  rw [Move.changes_append, show Move.changes [move] = [] from List.filterMap_cons_none hmove, List.append_nil]
  exact hmoves

lemma triple_emit (event : DocumentEvent) :
    Triple (Mirrors steady first handler read event.changed?.toList) (emit event)
      (Mirrors steady first handler read []) (Mirrors steady first handler read []) := by
  refine (ends_emit (R := Mirrors steady first handler read [])
    (A := fun _ => Mirrors steady first handler read []) event (fun doc h => ?_)
    fun doc listeners h hfails hprofiles => ?_).triple (fun _ h => h) fun _ _ h => h
  · obtain ⟨moves, halong, hmoves⟩ := h.matched
    obtain ⟨hjoined, hunread⟩ := h.joined.emit ⟨doc.id, event⟩
    have hspares : steady → ∀ l ∈ (doc.tell event).listeners, SparesChanges l.fails := fun hsteady =>
      fails_of_profile (h.spares hsteady) (tell_profiles event doc)
    have hpaid : changesOn [⟨doc.id, event⟩] = event.changed?.toList := by
      cases event <;> rfl
    refine ⟨hjoined, hspares, moves, halong.still rfl halong.balanced, ?_⟩
    rw [tell, hunread, changesOn_append, hpaid, List.append_nil, ← List.append_assoc]
    exact hmoves
  · obtain ⟨moves, halong, hsublist, heq⟩ := h.matched
    obtain ⟨l, hl, hfails⟩ := hfails
    refine ⟨h.joined, fun hsteady => fails_of_profile (h.spares hsteady) hprofiles, moves,
      halong.still rfl halong.balanced, ?_, fun hsteady => ?_⟩
    · -- what was owed stays unpaid for good
      rw [List.append_nil]
      exact (List.sublist_append_left _ _).trans hsublist
    · have hnone : event.changed? = none := h.spares hsteady l hl event l.heard hfails
      rw [hnone] at heq
      exact heq hsteady

lemma keeps_emit {event : DocumentEvent} (hevent : ∀ c, event ≠ .changed c) :
    Keeps (Mirrors steady first handler read []) (emit event) := by
  have hnone : event.changed? = none := by
    cases event with
    | changed c => exact absurd rfl (hevent c)
    | _ => rfl
  have hemit : Triple (Mirrors steady first handler read event.changed?.toList) (emit event)
      (Mirrors steady first handler read []) (Mirrors steady first handler read []) := triple_emit event
  rwa [hnone] at hemit

lemma mutated (h : Mirrors steady first handler read [] doc) (hc : c.Balanced)
    (hok : doc.mutate c = .ok (deleted, after)) :
    Mirrors steady first handler read [c] (({ after with updateChangedText := true } : Document).record c).2 := by
  obtain ⟨moves, halong, hsublist, heq⟩ := h.matched
  -- it is made and recorded, but not told yet
  have hchanged := halong.change hc hok
  have hnoted : Along first (moves ++ [.change c]) { after with updateChangedText := true } :=
    hchanged.still rfl hchanged.balanced
  have hrecorded := inert_along.recorded hc hnoted
  obtain ⟨storage, lines, anchors, rfl⟩ := exists_of_mutate hok
  obtain ⟨history, hrecord⟩ := exists_of_record c
    { doc with storage, lines, anchors, version := doc.version + 1, updateChangedText := true }
  rw [hrecord] at hrecorded ⊢
  refine ⟨h.joined, h.spares, moves ++ [.change c], hrecorded, ?_⟩
  rw [Move.changes_append]
  rw [List.append_nil] at hsublist heq
  exact ⟨hsublist.append (List.Sublist.refl _), fun hsteady => congrArg (· ++ [c]) (heq hsteady)⟩

end Mirrors

lemma lasting_mirrors : Lasting (Mirrors steady first handler read []) where
  sturdy := Mirrors.sturdy
  emit := Mirrors.keeps_emit
  noted _ _ h := h.still rfl h.sturdy.balanced rfl rfl
  unmarked h := h.still rfl h.sturdy.balanced rfl rfl
  opened h := h.still rfl h.sturdy.balanced.startGroup rfl rfl
  left := by
    intro doc after h hafter
    rw [leaveUpdate] at hafter
    split at hafter
    case h_1 => cases hafter
    case h_2 =>
      obtain ⟨history, hhistory, hok⟩ := exists_of_bind_eq_ok hafter
      obtain rfl := Except.ok.inj hok
      exact h.still rfl (h.sturdy.balanced.endGroup (eq_ok_of_mapError_eq_ok hhistory)) rfl rfl
  rewound h hh := h.still rfl hh rfl rfl
  change hc := by
    have hmark (inChange : Bool) (doc : Document) (h : Mirrors steady first handler read [] doc) :
        Mirrors steady first handler read [] { doc with inChange } := h.still rfl h.sturdy.balanced rfl rfl
    exact triple_applyChange (hmark true) (Mirrors.keeps_emit (by simp)) (hmark false) (fun h => h.mutated hc)
      (Mirrors.triple_emit (.changed _)) (fun _ => Mirrors.keeps_emit (by simp)) (hmark false) fun _ h => h

lemma tended_mirrors : Tended (fun _ => True) (fun _ _ => True) (fun _ _ => True)
    (Mirrors steady first handler read []) :=
  .of_link Mirrors.sturdy fun h hlink hwithin hmove _ => h.link hlink hwithin hmove

end Document

open EditableText.Document

namespace Call

variable {steady : Prop} {first : Document} {handler : Nat} {read : List Change} {s : Session}
  {bringing : (List DocumentEvent → Bool) → Prop}

def LeavesReading (bringing : (List DocumentEvent → Bool) → Prop) (handler : Nat) : Call → Prop
  | runUpdate _ | group _ _ => False
  | subscribe _ fails => bringing fails
  | receive reader _ => reader ≠ handler
  | _ => True

lemma mirrors_observing (hbringing : steady → ∀ fails, bringing fails → SparesChanges fails) {c : Call}
    (hobservers : c.TendsObservers) (hc : c.LeavesReading bringing handler) :
    Keeps (Held (Mirrors steady first handler read [])) c.perform := by
  cases c with
  | subscribe label fails =>
    rw [perform]
    refine keeps_acting (.state_bind fun doc h => ?_) _
    refine Triple.bind (Q := Mirrors steady first handler read []) (.alter fun _ hs => ?_) fun _ =>
      .pure _ fun _ h => h
    subst hs
    refine h.observed _ (fun hsteady l hl => ?_) h.joined rfl
    rcases List.mem_append.mp hl with hold | hnew
    · exact h.spares hsteady l hold
    · obtain rfl := List.mem_singleton.mp hnew
      exact hbringing hsteady fails hc
  | unsubscribe token =>
    rw [perform]
    refine keeps_acting (.state_bind fun doc h => ?_) _
    refine Triple.bind (Q := Mirrors steady first handler read []) (.alter fun _ hs => ?_) fun _ =>
      .pure _ fun _ h => h
    subst hs
    exact h.observed _ (fun hsteady l hl => h.spares hsteady l (List.mem_of_mem_filter hl)) h.joined rfl
  | addReceiver =>
    rw [perform]
    refine keeps_acting (Keeps.bind (.alter fun doc h => ?_) fun _ => .reading fun _ => .pure _) _
    obtain ⟨hjoined, hunread⟩ := h.joined.subscribe
    exact h.observed _ h.spares hjoined hunread
  | receive reader count =>
    rw [perform]
    refine keeps_acting (.state_bind fun doc h => ?_) _
    refine Triple.bind (Q := Mirrors steady first handler read []) (.alter fun _ hs => ?_) fun _ =>
      .pure _ fun _ h => h
    subst hs
    obtain ⟨hjoined, hunread⟩ := h.joined.receive_of_ne (Ne.symm hc) count
    exact h.observed _ h.spares hjoined hunread
  | _ => exact hobservers.elim

lemma mirrors_perform (hbringing : steady → ∀ fails, bringing fails → SparesChanges fails)
    (h : Mirrors steady first handler read [] s.document) {c : Call}
    (hc : c.Each (fun c => ¬ c.Holds ∧ c.LeavesReading bringing handler) fun _ => True) :
    Mirrors steady first handler read [] (c.perform s).state.document := by
  have hrule := lasting_rule (Q := LeavesReading bringing handler)
    (lasting_mirrors : Lasting (Mirrors steady first handler read [])) fun {c} hleaves hsingle => ?_
  · exact (hrule.each c hc).state h
  refine keeps_single lasting_mirrors hsingle fun htends => htends.elim (fun hanchors => ?_) fun hobservers => ?_
  · refine keeps_tending tended_mirrors hanchors ?_
    cases c with
    | releaseAnchorSegment => exact ⟨trivial, trivial⟩
    | _ => trivial
  · exact mirrors_observing hbringing hobservers hleaves

lemma mirrors_receive (h : Mirrors steady first handler read [] s.document)
    (hkeeps : s.document.bus.KeepsUp handler) {count : Nat} {messages : List (Received Notification)}
    (hread : ((receive handler count).perform s).outcome = .ok (.received messages)) :
    Mirrors steady first handler (read ++ changesOn (messages.filterMap Received.message?)) []
      ((receive handler count).perform s).state.document := by
  obtain ⟨hmessages, hleft⟩ := Bus.receive_eq hkeeps count
  obtain rfl : (s.document.bus.receive handler count).1 = messages := by
    rw [perform, acting_eq] at hread
    injection hread with hreply
    injection hreply
  obtain ⟨moves, halong, hmoves⟩ := h.matched
  refine ⟨(hkeeps.receive count).joined, h.spares, moves, halong.still rfl halong.balanced, ?_⟩
  have hall : read ++ changesOn ((s.document.bus.receive handler count).1.filterMap Received.message?) ++
      changesOn ((s.document.bus.receive handler count).2.unread handler) =
        read ++ changesOn (s.document.bus.unread handler) := by
    rw [hmessages, hleft, List.append_assoc, ← changesOn_append, List.take_append_drop]
  have hbus : ((receive handler count).perform s).state.document.bus = (s.document.bus.receive handler count).2 :=
    rfl
  rw [hbus, hall]
  exact hmoves

end Call

namespace Document

variable {bringing : (List DocumentEvent → Bool) → Prop} {t : Text} {options : DocumentOptions}
  {first doc : Document} {handler : Nat} {read : List Change}

/-- A run that `handler` attends from `first` on: it has read these changes so far, and whenever it reads it is
not too far behind. -/
inductive Attended (bringing : (List DocumentEvent → Bool) → Prop) (handler : Nat) (first : Document) :
    List Change → Document → Prop
  | start (h : first.bus.handlers[handler]? = some (some first.bus.sent.size)) :
    Attended bringing handler first [] first
  | call {s : Session} {read : List Change} {c : Call} (h : Attended bringing handler first read s.document)
    (hc : c.Each (fun c => ¬ c.Holds ∧ c.LeavesReading bringing handler) fun _ => True) :
    Attended bringing handler first read (c.perform s).state.document
  | receive {s : Session} {read : List Change} {count : Nat} {messages : List (Received Notification)}
    (h : Attended bringing handler first read s.document) (hkeeps : s.document.bus.KeepsUp handler)
    (hread : ((Call.receive handler count).perform s).outcome = .ok (.received messages)) :
    Attended bringing handler first (read ++ changesOn (messages.filterMap Received.message?))
      ((Call.receive handler count).perform s).state.document
  | unwind {doc : Document} {read : List Change} (h : Attended bringing handler first read doc) :
    Attended bringing handler first read doc.closeSilently

lemma Attended.mirrors {steady : Prop} (h : Attended bringing handler first read doc) (hfirst : first.Sturdy)
    (hspares : steady → ∀ l ∈ first.listeners, SparesChanges l.fails)
    (hbringing : steady → ∀ fails, bringing fails → SparesChanges fails) :
    Mirrors steady first handler read [] doc := by
  induction h with
  | start hjoined =>
    have hunread : first.bus.unread handler = [] := by
      rw [Bus.unread_eq hjoined]
      exact List.drop_length
    refine ⟨⟨_, Nat.le_refl _, hjoined⟩, hspares, [], ⟨hfirst, .refl⟩, ?_⟩
    rw [hunread]
    exact ⟨.slnil, fun _ => rfl⟩
  | call _ hc ih => exact Call.mirrors_perform hbringing ih hc
  | receive _ hkeeps hread ih => exact Call.mirrors_receive ih hkeeps hread
  | unwind _ ih => exact lasting_mirrors.closeSilently ih

end Document

end EditableText
