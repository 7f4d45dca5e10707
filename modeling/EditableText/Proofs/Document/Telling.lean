import EditableText.Document.Listening
import EditableText.Proofs.Bus
import Mathlib.Tactic.Common

namespace EditableText

structure Notice where
  event : DocumentEvent
  seen : Document

def Listener.profile (l : Listener) : Nat × String × (List DocumentEvent → Bool) :=
  (l.token, l.label, l.fails)

def Notice.notification (n : Notice) (id : DocumentId) : Notification := ⟨id, n.event⟩

def Notice.deliveries (n : Notice) : List Delivery :=
  n.seen.listeners.map fun l => ⟨l.token, l.label, n.event, n.seen⟩

def deliveriesOf (log : List Notice) : List Delivery := log.flatMap Notice.deliveries

@[simp] lemma deliveriesOf_nil : deliveriesOf [] = [] := rfl

@[simp] lemma deliveriesOf_append (a b : List Notice) :
    deliveriesOf (a ++ b) = deliveriesOf a ++ deliveriesOf b := List.flatMap_append

def received (token : Nat) (deliveries : List Delivery) : List Notice :=
  (deliveries.filter (·.listener = token)).map fun d => ⟨d.event, d.seen⟩

@[simp] lemma received_append (token : Nat) (a b : List Delivery) :
    received token (a ++ b) = received token a ++ received token b := by
  simp [received]

lemma received_map (token : Nat) (n : Notice) (listeners : List Listener) :
    received token (listeners.map fun l => ⟨l.token, l.label, n.event, n.seen⟩) =
      List.replicate ((listeners.map (·.token)).count token) n := by
  induction listeners with
  | nil => rfl
  | cons l rest ih =>
    rw [List.map_cons, List.map_cons, ← List.singleton_append, received_append, ih, List.count_cons]
    by_cases h : l.token = token
    · simp [received, h, List.replicate_succ]
    · simp [received, h]

lemma received_deliveriesOf {token : Nat} {log : List Notice}
    (h : ∀ n ∈ log, (n.seen.listeners.map (·.token)).count token = 1) :
    received token (deliveriesOf log) = log := by
  induction log with
  | nil => rfl
  | cons n rest ih =>
    have hn := h n List.mem_cons_self
    rw [deliveriesOf, List.flatMap_cons, received_append, Notice.deliveries, received_map, hn]
    exact congrArg (n :: ·) (ih fun m hm => h m (List.mem_cons_of_mem _ hm))

namespace Outcome

variable {α : Type}

def ofExcept : Except DocumentError α → Outcome α
  | .ok a => ok a
  | .error e => refused e

def map {β : Type} (f : α → β) : Outcome α → Outcome β
  | ok a => ok (f a)
  | refused e => refused e
  | abandoned => abandoned

lemma ok_ne_abandoned (a : α) : ok a ≠ abandoned := by simp

lemma refused_ne_abandoned (e : DocumentError) : (refused e : Outcome α) ≠ abandoned := by simp

instance (o : Outcome α) : Decidable (o = abandoned) :=
  match o with
  | ok a => isFalse (ok_ne_abandoned a)
  | refused e => isFalse (refused_ne_abandoned e)
  | abandoned => isTrue rfl

instance [DecidableEq α] (o : Outcome α) (a : α) : Decidable (o = ok a) :=
  match o with
  | ok b => decidable_of_iff (b = a) ⟨congrArg ok, Outcome.ok.inj⟩
  | refused _ => isFalse (by simp)
  | abandoned => isFalse (by simp)

instance (o : Outcome α) (e : DocumentError) : Decidable (o = refused e) :=
  match o with
  | ok _ => isFalse (by simp)
  | refused e' => decidable_of_iff (e' = e) ⟨congrArg refused, Outcome.refused.inj⟩
  | abandoned => isFalse (by simp)

lemma ofExcept_ne_abandoned (r : Except DocumentError α) : ofExcept r ≠ abandoned := by
  cases r with
  | ok a => exact ok_ne_abandoned a
  | error e => exact refused_ne_abandoned e

lemma map_ne_abandoned {β : Type} (f : α → β) {o : Outcome α} (h : o ≠ abandoned) : o.map f ≠ abandoned := by
  cases o with
  | ok a => exact ok_ne_abandoned (f a)
  | refused e => exact refused_ne_abandoned e
  | abandoned => exact absurd rfl h

end Outcome

namespace Action

variable {σ α β : Type} {x : Action σ α} {f : α → Action σ β} {s s' s'' : σ} {log log' : List Notice}
  {o : Outcome β}

/-- From `s` the call comes to `s'` with this outcome, and the listeners are told of `log`. -/
def Runs (x : Action σ α) (s : σ) (log : List Notice) (o : Outcome α) (s' : σ) : Prop :=
  x s = ⟨o, s', deliveriesOf log⟩

namespace Runs

lemma pure (a : α) (s : σ) : (Pure.pure a : Action σ α).Runs s [] (.ok a) s := rfl

lemma alter (g : σ → σ) (s : σ) : (Action.alter g).Runs s [] (.ok ()) (g s) := rfl

lemma ofExcept (r : Except DocumentError α) (s : σ) :
    (Action.ofExcept r : Action σ α).Runs s [] (.ofExcept r) s := by
  cases r <;> rfl

lemma bind {a : α} (hx : x.Runs s log (.ok a) s') (hf : (f a).Runs s' log' o s'') :
    (x >>= f).Runs s (log ++ log') o s'' := by
  change Action.bind x f s = _
  rw [Runs] at hx hf
  simp [Action.bind, hx, hf]

lemma bind_silent {a : α} (hx : x.Runs s log (.ok a) s') (hf : (f a).Runs s' [] o s'') :
    (x >>= f).Runs s log o s'' := by
  rw [← List.append_nil log]
  exact hx.bind hf

lemma bind_refused {e : DocumentError} (hx : x.Runs s log (.refused e) s') :
    (x >>= f).Runs s log (.refused e) s' := by
  change Action.bind x f s = _
  rw [Runs] at hx
  simp [Action.bind, hx]

lemma state_bind {f : σ → Action σ β} (hf : (f s).Runs s log o s') :
    (Action.state >>= f).Runs s log o s' := (show Action.state.Runs s [] (.ok s) s from rfl).bind hf

lemma alter_bind {g : σ → σ} {f : Unit → Action σ β} (hf : (f ()).Runs (g s) log o s') :
    (Action.alter g >>= f).Runs s log o s' := (alter g s).bind hf

lemma ofExcept_bind {a : α} (hf : (f a).Runs s log o s') :
    (Action.ofExcept (.ok a) >>= f).Runs s log o s' := (ofExcept (.ok a) s).bind hf

lemma lift_bind {r : Except TextError α} {a : α} (hr : r = .ok a) (hf : (f a).Runs s log o s') :
    (Action.lift r >>= f).Runs s log o s' := by
  rw [hr]
  exact (ofExcept (.ok a) s).bind hf

lemma lift_bind_error {r : Except TextError α} {e : TextError} (hr : r = .error e) :
    (Action.lift r >>= f : Action σ β).Runs s [] (.refused (.text e)) s := by
  rw [hr]
  exact bind_refused rfl

lemma attempt {r : Except DocumentError α} (hx : x.Runs s log (.ofExcept r) s') :
    x.attempt.Runs s log (.ok r) s' := by
  rw [Runs] at hx ⊢
  rw [Action.attempt, hx]
  cases r <;> rfl

lemma onAbandoned {r : Except DocumentError α} {mend : σ → σ} (hx : x.Runs s log (.ofExcept r) s') :
    (x.onAbandoned mend).Runs s log (.ofExcept r) s' := by
  rw [Runs] at hx ⊢
  rw [Action.onAbandoned, hx]
  cases r <;> rfl

lemma ensuring {o : Outcome α} {finish : σ → σ} (hx : x.Runs s log o s') :
    (x.ensuring finish).Runs s log o (finish s') := by
  rw [Runs] at hx ⊢
  rw [Action.ensuring, hx]

lemma onDocument [HasDocument σ] {x : Action Document α} {o : Outcome α} {after : Document}
    (hx : x.Runs (HasDocument.document s) log o after) :
    (Action.onDocument x : Action σ α).Runs s log o (HasDocument.withDocument s after) := by
  rw [Runs] at hx ⊢
  rw [Action.onDocument, hx]

end Runs

end Action

namespace Document

def audience (doc : Document) : List (Nat × String × (List DocumentEvent → Bool)) :=
  doc.listeners.map Listener.profile

def Quiet (doc : Document) : Prop := ∀ l ∈ doc.listeners, ∀ heard, l.fails heard = false

lemma quiet_of_no_listeners {doc : Document} (h : doc.listeners.length = 0) : doc.Quiet := by
  rw [Quiet, List.eq_nil_of_length_eq_zero h]
  simp

def Told (doc : Document) (log : List Notice) (after : Document) : Prop :=
  ∃ listeners, listeners.map Listener.profile = doc.listeners.map Listener.profile ∧
    after = { doc with listeners, bus := doc.bus.emitAll (log.map (·.notification doc.id)) }

variable {doc mid after : Document} {log log' : List Notice}

lemma Told.refl (doc : Document) : doc.Told [] doc := ⟨doc.listeners, rfl, rfl⟩

lemma Told.trans (h : doc.Told log mid) (h' : mid.Told log' after) : doc.Told (log ++ log') after := by
  obtain ⟨_, hprofile, rfl⟩ := h
  obtain ⟨listeners, hprofile', rfl⟩ := h'
  refine ⟨listeners, hprofile'.trans hprofile, ?_⟩
  rw [List.map_append, Bus.emitAll_append]

lemma fails_of_profile {F : (List DocumentEvent → Bool) → Prop} {listeners listeners' : List Listener}
    (h : ∀ l ∈ listeners, F l.fails)
    (hprofile : listeners'.map Listener.profile = listeners.map Listener.profile) :
    ∀ l ∈ listeners', F l.fails := by
  intro l hl
  have hmem : l.profile ∈ listeners.map Listener.profile := hprofile ▸ List.mem_map_of_mem hl
  obtain ⟨original, horiginal, heq⟩ := List.mem_map.mp hmem
  have hfails : l.fails = original.fails := (congrArg (·.2.2) heq).symm
  rw [hfails]
  exact h original horiginal

lemma quiet_of_profile (h : doc.Quiet)
    (hprofile : after.listeners.map Listener.profile = doc.listeners.map Listener.profile) :
    after.Quiet :=
  fails_of_profile (F := fun fails => ∀ heard, fails heard = false) h hprofile

lemma Told.quiet (h : doc.Told log after) (hquiet : doc.Quiet) : after.Quiet := by
  obtain ⟨_, hprofile, rfl⟩ := h
  exact quiet_of_profile hquiet hprofile

lemma Told.audience_eq (h : doc.Told log after) : after.audience = doc.audience := by
  obtain ⟨_, hprofile, rfl⟩ := h
  exact hprofile

def tell (event : DocumentEvent) (doc : Document) : Document :=
  { doc with listeners := doc.listeners.map (·.hear event), bus := doc.bus.emit ⟨doc.id, event⟩ }

lemma tell_profiles (event : DocumentEvent) (doc : Document) :
    (doc.listeners.map (·.hear event)).map Listener.profile = doc.audience := by
  simp [audience, Function.comp_def, Listener.profile, Listener.hear]

lemma told_tell (event : DocumentEvent) (doc : Document) : doc.Told [⟨event, doc⟩] (doc.tell event) :=
  ⟨_, tell_profiles event doc, rfl⟩

lemma ofEvent_quiet {event : DocumentEvent} {seen : Document} {listeners : List Listener}
    (h : ∀ l ∈ listeners, ∀ heard, l.fails heard = false) :
    Hearing.ofEvent event seen listeners = ⟨listeners.map (·.hear event),
      listeners.map fun l => ⟨l.token, l.label, event, seen⟩, false⟩ := by
  induction listeners with
  | nil => rfl
  | cons l rest ih =>
    have hrest := ih fun l hl => h l (List.mem_cons_of_mem _ hl)
    have hl : (l.hear event).hasFailed = false := h l List.mem_cons_self _
    have htoken : (l.hear event).token = l.token := rfl
    have hlabel : (l.hear event).label = l.label := rfl
    simp [Hearing.ofEvent, hl, hrest, htoken, hlabel]

lemma Quiet.emit (h : doc.Quiet) (event : DocumentEvent) :
    (emit event).Runs doc [⟨event, doc⟩] (.ok ()) (doc.tell event) := by
  rw [Action.Runs, Document.emit, ofEvent_quiet h]
  simp [deliveriesOf, Notice.deliveries, tell]

lemma Quiet.emitWhen (h : doc.Quiet) (p : Prop) [Decidable p] (event : DocumentEvent) :
    ∃ log after, doc.Told log after ∧ log.map (·.event) = (if p then [event] else []) ∧
      (∀ n ∈ log, n.seen = doc) ∧
      ∀ {α : Type} {f : Unit → Action Document α} {log' : List Notice} {o : Outcome α} {final : Document},
        (f ()).Runs after log' o final →
          (if p then Document.emit event >>= f else f ()).Runs doc (log ++ log') o final := by
  by_cases hp : p
  · refine ⟨[⟨event, doc⟩], doc.tell event, told_tell event doc, by simp [hp], by simp, fun hf => ?_⟩
    rw [if_pos hp]
    exact (h.emit event).bind hf
  · refine ⟨[], doc, .refl doc, by simp [hp], by simp, fun hf => ?_⟩
    rw [if_neg hp]
    exact hf

lemma Quiet.emitAll (h : doc.Quiet) (events : List DocumentEvent) :
    ∃ log after, (emitAll events).Runs doc log (.ok ()) after ∧ doc.Told log after ∧
      log.map (·.event) = events ∧ ∀ n ∈ log, ∃ before, doc.Told before n.seen := by
  induction events generalizing doc with
  | nil => exact ⟨[], doc, .pure () doc, .refl doc, rfl, by simp⟩
  | cons event rest ih =>
    have htold := told_tell event doc
    obtain ⟨log, after, hrest, hafter, hevents, hseen⟩ := ih (htold.quiet h)
    refine ⟨⟨event, doc⟩ :: log, after, (h.emit event).bind hrest, htold.trans hafter, by simp [hevents], ?_⟩
    intro n hn
    rcases List.mem_cons.mp hn with rfl | hmem
    · exact ⟨[], .refl doc⟩
    · obtain ⟨before, hbefore⟩ := hseen n hmem
      exact ⟨_, htold.trans hbefore⟩

end Document

end EditableText
