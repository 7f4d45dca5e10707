import EditableText.Document.Update
import EditableText.Proofs.Document.Action
import EditableText.Proofs.Document.Telling

namespace EditableText

section Run

variable {σ α : Type} {Q Q' R R' : σ → Prop} {A A' : DocumentEvent → σ → Prop} {run : Run σ α}

def Run.EndsIn (run : Run σ α) (Q R : σ → Prop) (A : DocumentEvent → σ → Prop) : Prop :=
  match run.outcome with
  | .ok _ => Q run.state
  | .refused _ => R run.state
  | .abandoned => ∃ last, run.deliveries.getLast? = some last ∧ A last.event run.state

lemma Run.EndsIn.mono (h : run.EndsIn Q R A) (hq : ∀ s, Q s → Q' s) (hr : ∀ s, R s → R' s)
    (ha : ∀ e s, A e s → A' e s) : run.EndsIn Q' R' A' := by
  obtain ⟨outcome, state, deliveries⟩ := run
  cases outcome with
  | ok a => exact hq state h
  | refused e => exact hr state h
  | abandoned =>
    obtain ⟨last, hlast, hstate⟩ := h
    exact ⟨last, hlast, ha _ _ hstate⟩

lemma Run.EndsIn.after (h : run.EndsIn Q R A) (deliveries : List Delivery) :
    ({ run with deliveries := deliveries ++ run.deliveries } : Run σ α).EndsIn Q R A := by
  obtain ⟨outcome, state, told⟩ := run
  cases outcome with
  | ok a => exact h
  | refused e => exact h
  | abandoned =>
    obtain ⟨last, hlast, hstate⟩ := h
    exact ⟨last, by rw [List.getLast?_append, hlast]; rfl, hstate⟩

lemma Run.EndsIn.state (h : run.EndsIn Q Q fun _ => Q) : Q run.state := by
  obtain ⟨outcome, state, deliveries⟩ := run
  cases outcome with
  | ok a => exact h
  | refused e => exact h
  | abandoned =>
    obtain ⟨last, -, hstate⟩ := h
    exact hstate

lemma Run.EndsIn.and {S : σ → Prop} (h : run.EndsIn Q R A) (hs : S run.state) :
    run.EndsIn (fun s => Q s ∧ S s) (fun s => R s ∧ S s) fun e s => A e s ∧ S s := by
  obtain ⟨outcome, state, deliveries⟩ := run
  cases outcome with
  | ok a => exact ⟨h, hs⟩
  | refused e => exact ⟨h, hs⟩
  | abandoned =>
    obtain ⟨last, hlast, hstate⟩ := h
    exact ⟨last, hlast, hstate, hs⟩

lemma Run.EndsIn.both (h : run.EndsIn Q R A) (h' : run.EndsIn Q' R' A') :
    run.EndsIn (fun s => Q s ∧ Q' s) (fun s => R s ∧ R' s) fun e s => A e s ∧ A' e s := by
  obtain ⟨outcome, state, deliveries⟩ := run
  cases outcome with
  | ok a => exact ⟨h, h'⟩
  | refused e => exact ⟨h, h'⟩
  | abandoned =>
    obtain ⟨last, hlast, hstate⟩ := h
    obtain ⟨last', hlast', hstate'⟩ := h'
    obtain rfl := Option.some.inj (hlast.symm.trans hlast')
    exact ⟨last, hlast, hstate, hstate'⟩

lemma Run.EndsIn.of_abandoned (h : run.EndsIn Q R A) (ho : run.outcome = .abandoned) :
    ∃ last, run.deliveries.getLast? = some last ∧ A last.event run.state := by
  rwa [Run.EndsIn, ho] at h

lemma Run.EndsIn.leaves {E : σ → Prop} (h : run.EndsIn Q R A) (hr : ∀ s, R s → E s) (ha : ∀ e s, A e s → E s) :
    run.Leaves Q E := by
  rw [Run.Leaves]
  cases ho : run.outcome with
  | ok a =>
    rw [Run.EndsIn, ho] at h
    exact h
  | refused e =>
    rw [Run.EndsIn, ho] at h
    exact hr _ h
  | abandoned =>
    obtain ⟨last, -, hstate⟩ := h.of_abandoned ho
    exact ha _ _ hstate

lemma Run.EndsIn.succeeds (h : run.EndsIn Q (fun _ => False) A) (ha : ∀ e s, ¬ A e s) :
    ∃ a, run.outcome = .ok a ∧ Q run.state := by
  cases ho : run.outcome with
  | ok a =>
    rw [Run.EndsIn, ho] at h
    exact ⟨a, rfl, h⟩
  | refused e =>
    rw [Run.EndsIn, ho] at h
    exact h.elim
  | abandoned =>
    obtain ⟨last, -, hstate⟩ := h.of_abandoned ho
    exact absurd hstate (ha _ _)

end Run

namespace Action

variable {σ α β : Type} {P P' Q Q' R R' S : σ → Prop} {A A' : DocumentEvent → σ → Prop} {x : Action σ α}
  {f : α → Action σ β}

/-- From `P` the call comes to `Q` if it succeeds, to `R` if it is refused, and to `A e` if it is abandoned
at the event `e`. -/
def Ends (P : σ → Prop) (x : Action σ α) (Q R : σ → Prop) (A : DocumentEvent → σ → Prop) : Prop :=
  ∀ s, P s → (x s).EndsIn Q R A

namespace Ends

lemma mono (h : Ends P x Q R A) (hp : ∀ s, P' s → P s) (hq : ∀ s, Q s → Q' s) (hr : ∀ s, R s → R' s)
    (ha : ∀ e s, A e s → A' e s) : Ends P' x Q' R' A' :=
  fun s hs => (h s (hp s hs)).mono hq hr ha

lemma of_imp (h : Ends P x Q R A) (hp : ∀ s, P' s → P s) : Ends P' x Q R A := fun s hs => h s (hp s hs)

lemma of_eq {s : σ} (h : Ends P x Q R A) (hs : P s) : Ends (fun s' => s' = s) x Q R A :=
  h.of_imp fun _ he => he ▸ hs

lemma triple {E : σ → Prop} (h : Ends P x Q R A) (hr : ∀ s, R s → E s) (ha : ∀ e s, A e s → E s) :
    Triple P x Q E := fun s hs => (h s hs).leaves hr ha

lemma imp_cut (h : Ends P x Q R A) (ha : ∀ e s, A e s → A' e s) : Ends P x Q R A' :=
  h.mono (fun _ hs => hs) (fun _ hs => hs) (fun _ hs => hs) ha

lemma both (h : Ends P x Q R A) (h' : Ends P' x Q' R' A') :
    Ends (fun s => P s ∧ P' s) x (fun s => Q s ∧ Q' s) (fun s => R s ∧ R' s) fun e s => A e s ∧ A' e s :=
  fun s hs => (h s hs.1).both (h' s hs.2)

lemma keeping (h : Ends P x Q R A) (hkeeps : Keeps S x) :
    Ends (fun s => P s ∧ S s) x (fun s => Q s ∧ S s) (fun s => R s ∧ S s) fun e s => A e s ∧ S s :=
  fun s hs => (h s hs.1).and (hkeeps.state hs.2)

lemma bind (hx : Ends P x Q R A) (hf : ∀ a, Ends Q (f a) S R A) : Ends P (x >>= f) S R A := by
  intro s hs
  have hfirst := hx s hs
  change (Action.bind x f s).EndsIn S R A
  rw [Action.bind]
  rw [Run.EndsIn] at hfirst
  cases hout : (x s).outcome with
  | ok a =>
    rw [hout] at hfirst
    exact (hf a _ hfirst).after _
  | refused e =>
    rw [hout] at hfirst
    exact hfirst
  | abandoned =>
    rw [hout] at hfirst
    exact hfirst

lemma pure (a : α) (h : ∀ s, P s → Q s) : Ends P (Pure.pure a : Action σ α) Q R A := h

lemma refuse (e : DocumentError) (h : ∀ s, P s → R s) : Ends P (Action.refuse e : Action σ α) Q R A := h

lemma refuse_bind (e : DocumentError) (h : ∀ s, P s → R s) : Ends P (Action.refuse e >>= f) Q R A := h

lemma alter {g : σ → σ} (h : ∀ s, P s → Q (g s)) : Ends P (Action.alter g) Q R A := h

lemma alterExcept {g : σ → Except DocumentError σ} (h : ∀ s, P s → ∃ s', g s = .ok s' ∧ Q s') :
    Ends P (Action.alterExcept g) Q R A := by
  intro s hs
  obtain ⟨s', hg, hs'⟩ := h s hs
  rw [Action.alterExcept, hg]
  exact hs'

lemma ofExcept (r : Except DocumentError α) (h : ∀ s, P s → Q s) (hr : ∀ s, P s → R s) :
    Ends P (Action.ofExcept r : Action σ α) Q R A := by
  cases r with
  | ok a => exact pure a h
  | error e => exact refuse e hr

lemma lift_bind (r : Except TextError α) (h : ∀ a, r = .ok a → Ends P (f a) Q R A) (hr : ∀ s, P s → R s) :
    Ends P (Action.lift r >>= f) Q R A := by
  cases r with
  | ok a => exact h a rfl
  | error e => exact hr

lemma lift_bind_of_eq {r : Except TextError α} {a : α} (hr : r = .ok a) (h : Ends P (f a) Q R A) :
    Ends P (Action.lift r >>= f) Q R A := by
  rw [hr]
  exact h

lemma state_bind {f : σ → Action σ β} (h : ∀ s, P s → Ends (fun s' => s' = s) (f s) Q R A) :
    Ends P (Action.state >>= f) Q R A :=
  fun s hs => h s hs s rfl

lemma ite {c : Prop} [Decidable c] {y z : Action σ α} (hy : Ends P y Q R A) (hz : Ends P z Q R A) :
    Ends P (if c then y else z) Q R A := by
  split
  · exact hy
  · exact hz

lemma attempt (h : Ends P x Q Q A) : Ends P x.attempt Q R A := by
  intro s hs
  have hx := h s hs
  rw [Action.attempt]
  rw [Run.EndsIn] at hx ⊢
  cases hout : (x s).outcome <;> (rw [hout] at hx; exact hx)

lemma attempt_bind {g : Except DocumentError α → Action σ β} (hx : Ends P x Q R A)
    (hok : ∀ a, Ends Q (g (.ok a)) S R' A) (herror : ∀ e, Ends R (g (.error e)) S R' A) :
    Ends P (x.attempt >>= g) S R' A := by
  intro s hs
  have hfirst := hx s hs
  change (Action.bind x.attempt g s).EndsIn S R' A
  rw [Action.bind, Action.attempt]
  rw [Run.EndsIn] at hfirst
  cases hout : (x s).outcome with
  | ok a =>
    rw [hout] at hfirst
    exact (hok a _ hfirst).after _
  | refused e =>
    rw [hout] at hfirst
    exact (herror e _ hfirst).after _
  | abandoned =>
    rw [hout] at hfirst
    exact hfirst

lemma onAbandoned (h : Ends P x Q R A) {mend : σ → σ} (hmend : ∀ e s, A e s → A' e (mend s)) :
    Ends P (x.onAbandoned mend) Q R A' := by
  intro s hs
  have hx := h s hs
  rw [Action.onAbandoned]
  rw [Run.EndsIn] at hx ⊢
  cases hout : (x s).outcome with
  | ok a =>
    rw [hout] at hx
    simpa only [hout] using hx
  | refused e =>
    rw [hout] at hx
    simpa only [hout] using hx
  | abandoned =>
    rw [hout] at hx
    obtain ⟨last, hlast, hstate⟩ := hx
    simpa only [hout] using ⟨last, hlast, hmend _ _ hstate⟩

lemma ensuring (h : Ends P x Q R A) {finish : σ → σ} (hq : ∀ s, Q s → Q' (finish s))
    (hr : ∀ s, R s → R' (finish s)) (ha : ∀ e s, A e s → A' e (finish s)) :
    Ends P (x.ensuring finish) Q' R' A' := by
  intro s hs
  have hx := h s hs
  rw [Action.ensuring]
  rw [Run.EndsIn] at hx ⊢
  dsimp only
  cases hout : (x s).outcome with
  | ok a =>
    rw [hout] at hx
    exact hq _ hx
  | refused e =>
    rw [hout] at hx
    exact hr _ hx
  | abandoned =>
    rw [hout] at hx
    obtain ⟨last, hlast, hstate⟩ := hx
    exact ⟨last, hlast, ha _ _ hstate⟩

variable [HasDocument σ] [LawfulHolder σ] {P Q R : Document → Prop} {A : DocumentEvent → Document → Prop}

lemma onDocument {x : Action Document α} (h : Ends P x Q R A) :
    Ends (Held P) (Action.onDocument x : Action σ α) (Held Q) (Held R) fun e => Held (A e) := by
  intro s hs
  have hx := h _ hs
  rw [Action.onDocument]
  simp only [Run.EndsIn, Held, LawfulHolder.document_withDocument] at hx ⊢
  exact hx

end Ends

end Action

open EditableText.Action

namespace Document

variable {doc : Document} {P Q R : Document → Prop} {A : DocumentEvent → Document → Prop}

lemma ofEvent_profiles (event : DocumentEvent) (seen : Document) (listeners : List Listener) :
    (Hearing.ofEvent event seen listeners).listeners.map Listener.profile =
      listeners.map Listener.profile := by
  induction listeners with
  | nil => rfl
  | cons l rest ih =>
    rw [Hearing.ofEvent]
    split
    · rfl
    · exact congrArg (l.profile :: ·) ih

lemma ofEvent_failed {event : DocumentEvent} {seen : Document} {listeners : List Listener}
    (h : (Hearing.ofEvent event seen listeners).failed = true) :
    (∃ l ∈ listeners, l.fails (event :: l.heard) = true) ∧
      ∃ last, (Hearing.ofEvent event seen listeners).deliveries.getLast? = some last ∧ last.event = event := by
  induction listeners with
  | nil => cases h
  | cons l rest ih =>
    rw [Hearing.ofEvent] at h ⊢
    split at h
    case isTrue hfailed =>
      rw [if_pos hfailed]
      exact ⟨⟨l, List.mem_cons_self, hfailed⟩, _, rfl, rfl⟩
    case isFalse hlives =>
      rw [if_neg hlives]
      obtain ⟨⟨other, hother, hfails⟩, last, hlast, hevent⟩ := ih h
      refine ⟨⟨other, List.mem_cons_of_mem _ hother, hfails⟩, last, ?_, hevent⟩
      rw [List.getLast?_cons, hlast]
      rfl

lemma ofEvent_lived {event : DocumentEvent} {seen : Document} {listeners : List Listener}
    (h : (Hearing.ofEvent event seen listeners).failed = false) :
    (Hearing.ofEvent event seen listeners).listeners = listeners.map (·.hear event) := by
  induction listeners with
  | nil => rfl
  | cons l rest ih =>
    rw [Hearing.ofEvent] at h ⊢
    split at h
    case isTrue => cases h
    case isFalse hlives =>
      rw [if_neg hlives]
      exact congrArg (l.hear event :: ·) (ih h)

lemma ends_emit (event : DocumentEvent) (hok : ∀ doc, P doc → Q (doc.tell event))
    (hcut : ∀ doc listeners, P doc → (∃ l ∈ doc.listeners, l.fails (event :: l.heard) = true) →
      listeners.map Listener.profile = doc.audience → A event { doc with listeners, inChange := false }) :
    Ends P (emit event) Q R A := by
  intro doc h
  rw [emit]
  split
  case isTrue hfailed =>
    obtain ⟨hfails, last, hlast, hevent⟩ := ofEvent_failed hfailed
    exact ⟨last, hlast, hevent ▸ hcut doc _ h hfails (ofEvent_profiles event doc doc.listeners)⟩
  case isFalse hlived =>
    rw [ofEvent_lived (Bool.not_eq_true _ ▸ hlived)]
    exact hok doc h

lemma ends_emitAll {events : List DocumentEvent} (h : ∀ event ∈ events, Ends P (emit event) P R A) :
    Ends P (emitAll events) P R A := by
  induction events with
  | nil => exact .pure () fun _ hs => hs
  | cons event rest ih =>
    exact (h event List.mem_cons_self).bind fun _ => ih fun e he => h e (List.mem_cons_of_mem _ he)

lemma ends_checkNotInChange_of (h : ∀ doc, P doc → doc.inChange = false) : Ends P checkNotInChange P R A := by
  refine .state_bind fun doc hd => ?_
  rw [if_neg (by simp [h doc hd])]
  exact .pure () fun _ hs => hs ▸ hd

section Update

variable (hleave : ∀ doc, P doc → ∃ after, doc.leaveUpdate = .ok after ∧ Q after)
  (hforget : ∀ doc, Q doc → Q { doc with updateChangedText := false })

include hleave hforget

lemma ends_closeUpdate_of (hlines : ∀ old new, Ends Q (emit (.lineCountChanged old new)) Q R A)
    (hfinished : Ends Q (emit .updateFinished) Q R A) (hcompleted : Ends Q (emit .changeCompleted) Q R A) :
    Ends P closeUpdate Q R A := by
  refine Ends.bind (.alterExcept hleave) fun _ => .state_bind fun doc h => .of_eq (P := Q) ?_ h
  have hforgotten : Ends Q (.alter fun doc => { doc with updateChangedText := false }) Q R A := .alter hforget
  have hfinish := hfinished.bind fun _ => hforgotten.bind fun _ =>
    Ends.ite (c := doc.updateChangedText = true) hcompleted (.pure () fun _ h => h)
  refine .ite ?_ (.pure () fun _ h => h)
  dsimp only
  exact .ite ((hlines _ _).bind fun _ => hfinish) hfinish

lemma closeSilently_of (hunmark : P { doc with inChange := false }) : Q doc.closeSilently := by
  obtain ⟨after, hleft, hafter⟩ := hleave _ hunmark
  rw [closeSilently, hleft]
  dsimp only
  split
  · exact hforget _ hafter
  · exact hafter

end Update

section Update

variable {σ α : Type} [HasDocument σ] [LawfulHolder σ] {body : Action σ α} {O Q' R' : Document → Prop}
  {A' : DocumentEvent → Document → Prop}

lemma ends_runUpdate (hopen : Ends P beginUpdate O (fun _ => False) A')
    (hbody : Ends (Held O) body (Held Q) (Held R) fun e => Held (A e))
    (hclose : Ends Q endUpdate Q' (fun _ => False) A') (hclose' : Ends R endUpdate R' (fun _ => False) A')
    (hcut : ∀ e doc, A e doc → A' e doc.closeSilently) :
    Ends (Held P) (runUpdate body) (Held Q') (Held R') fun e => Held (A' e) := by
  have hguarded := hbody.onAbandoned fun e _ => held_inDocument (P := A e) (hcut e)
  have hopened : Ends (Held P) (onDocument beginUpdate : Action σ Unit) (Held O) (Held R')
      fun e => Held (A' e) :=
    hopen.onDocument.mono (fun _ h => h) (fun _ h => h) (fun _ => False.elim) fun _ _ h => h
  refine hopened.bind fun _ =>
    hguarded.attempt_bind (fun a => hclose.onDocument.attempt_bind (fun closed => ?_) fun _ _ => False.elim)
      fun e => hclose'.onDocument.attempt_bind (fun closed => ?_) fun _ _ => False.elim
  · exact .pure a fun _ h => h
  · exact .refuse_bind e fun _ h => h

end Update

end Document

end EditableText
