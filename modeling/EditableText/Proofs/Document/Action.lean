import EditableText.Document.Action
import Mathlib.Tactic.Common

namespace EditableText

section Run

variable {σ α : Type} {Q Q' E E' : σ → Prop} {run : Run σ α}

def Run.Leaves (run : Run σ α) (Q E : σ → Prop) : Prop :=
  match run.outcome with
  | .ok _ => Q run.state
  | _ => E run.state

lemma Run.Leaves.mono (h : run.Leaves Q E) (hq : ∀ s, Q s → Q' s) (he : ∀ s, E s → E' s) :
    run.Leaves Q' E' := by
  obtain ⟨outcome, state, deliveries⟩ := run
  cases outcome with
  | ok a => exact hq state h
  | refused e => exact he state h
  | abandoned => exact he state h

lemma Run.leaves_self {P : σ → Prop} : run.Leaves P P ↔ P run.state := by
  obtain ⟨outcome, state, deliveries⟩ := run
  cases outcome <;> rfl

end Run

namespace Action

variable {σ α β : Type} {P P' Q Q' R E E' : σ → Prop} {x : Action σ α} {f : α → Action σ β} {s : σ}

def Triple (P : σ → Prop) (x : Action σ α) (Q E : σ → Prop) : Prop := ∀ s, P s → (x s).Leaves Q E

abbrev Keeps (P : σ → Prop) (x : Action σ α) : Prop := Triple P x P P

lemma Keeps.state (h : Keeps P x) (hs : P s) : P (x s).state := Run.leaves_self.mp (h s hs)

lemma keeps_of_state (h : ∀ s, P s → P (x s).state) : Keeps P x := fun s hs =>
  Run.leaves_self.mpr (h s hs)

namespace Triple

lemma mono (h : Triple P x Q E) (hp : ∀ s, P' s → P s) (hq : ∀ s, Q s → Q' s) (he : ∀ s, E s → E' s) :
    Triple P' x Q' E' :=
  fun s hs => (h s (hp s hs)).mono hq he

lemma trivially : Triple P x (fun _ => True) fun _ => True := fun _ _ => Run.leaves_self.mpr trivial

lemma bind (hx : Triple P x Q E) (hf : ∀ a, Triple Q (f a) R E) : Triple P (x >>= f) R E := by
  intro s hs
  have hfirst := hx s hs
  change (Action.bind x f s).Leaves R E
  rw [Action.bind]
  cases hout : (x s).outcome with
  | ok a =>
    rw [Run.Leaves, hout] at hfirst
    exact hf a _ hfirst
  | refused e =>
    rw [Run.Leaves, hout] at hfirst
    exact hfirst
  | abandoned =>
    rw [Run.Leaves, hout] at hfirst
    exact hfirst

lemma pure (a : α) (h : ∀ s, P s → Q s) : Triple P (Pure.pure a : Action σ α) Q E := h

lemma refuse (e : DocumentError) (h : ∀ s, P s → E s) : Triple P (Action.refuse e : Action σ α) Q E := h

lemma refuse_bind (e : DocumentError) (h : ∀ s, P s → E s) : Triple P (Action.refuse e >>= f) Q E := h

lemma abandon (h : ∀ s, P s → E s) : Triple P (Action.abandon : Action σ α) Q E := h

lemma alter {g : σ → σ} (h : ∀ s, P s → Q (g s)) : Triple P (Action.alter g) Q E := h

lemma alterExcept {g : σ → Except DocumentError σ} (h : ∀ s s', P s → g s = .ok s' → Q s')
    (he : ∀ s, P s → E s) : Triple P (Action.alterExcept g) Q E := by
  intro s hs
  rw [Action.alterExcept]
  cases hg : g s with
  | ok s' => exact h s s' hs hg
  | error e => exact he s hs

lemma ofExcept (r : Except DocumentError α) (h : ∀ s, P s → Q s) (he : ∀ s, P s → E s) :
    Triple P (Action.ofExcept r : Action σ α) Q E := by
  cases r with
  | ok a => exact pure a h
  | error e => exact refuse e he

lemma lift (r : Except TextError α) (h : ∀ s, P s → Q s) (he : ∀ s, P s → E s) :
    Triple P (Action.lift r : Action σ α) Q E := ofExcept _ h he

lemma lift_bind (r : Except TextError α) (h : ∀ a, r = .ok a → Triple P (f a) Q E)
    (he : ∀ s, P s → E s) : Triple P (Action.lift r >>= f) Q E := by
  cases r with
  | ok a => exact h a rfl
  | error e => exact he

lemma state_bind {f : σ → Action σ β} (h : ∀ s, P s → Triple (fun s' => s' = s) (f s) Q E) :
    Triple P (Action.state >>= f) Q E :=
  fun s hs => h s hs s rfl

lemma ite {c : Prop} [Decidable c] {y z : Action σ α} (hy : Triple P y Q E) (hz : Triple P z Q E) :
    Triple P (if c then y else z) Q E := by
  split
  · exact hy
  · exact hz

lemma attempt (h : Triple P x Q Q) : Triple P x.attempt Q Q := by
  intro s hs
  have hx := h s hs
  rw [Action.attempt]
  rw [Run.leaves_self] at hx ⊢
  cases hout : (x s).outcome <;> exact hx

lemma onAbandoned (h : Triple P x Q E) {mend : σ → σ} (hmend : ∀ s, E s → E (mend s)) :
    Triple P (x.onAbandoned mend) Q E := by
  intro s hs
  have hx := h s hs
  rw [Action.onAbandoned]
  rw [Run.Leaves] at hx ⊢
  cases hout : (x s).outcome with
  | ok a =>
    rw [hout] at hx
    simpa only [hout] using hx
  | refused e =>
    rw [hout] at hx
    simpa only [hout] using hx
  | abandoned =>
    rw [hout] at hx
    simpa only [hout] using hmend _ hx

lemma ensuring (h : Triple P x Q E) {finish : σ → σ} (hq : ∀ s, Q s → R (finish s))
    (he : ∀ s, E s → E' (finish s)) : Triple P (x.ensuring finish) R E' := by
  intro s hs
  have hx := h s hs
  rw [Action.ensuring]
  rw [Run.Leaves] at hx ⊢
  dsimp only
  cases hout : (x s).outcome with
  | ok a =>
    rw [hout] at hx
    exact hq _ hx
  | refused e =>
    rw [hout] at hx
    exact he _ hx
  | abandoned =>
    rw [hout] at hx
    exact he _ hx

end Triple

namespace Keeps

lemma bind (hx : Keeps P x) (hf : ∀ a, Keeps P (f a)) : Keeps P (x >>= f) := Triple.bind hx hf

lemma pure (a : α) : Keeps P (Pure.pure a : Action σ α) := Triple.pure a fun _ h => h

lemma ofExcept (r : Except DocumentError α) : Keeps P (Action.ofExcept r : Action σ α) :=
  Triple.ofExcept r (fun _ h => h) fun _ h => h

lemma lift (r : Except TextError α) : Keeps P (Action.lift r : Action σ α) := ofExcept _

lemma reading {f : σ → Action σ β} (hf : ∀ s, Keeps P (f s)) : Keeps P (Action.state >>= f) :=
  Triple.state_bind fun s hs => (hf s).mono (fun _ h => h ▸ hs) (fun _ h => h) fun _ h => h

lemma attempt (h : Keeps P x) : Keeps P x.attempt := Triple.attempt h

lemma ensuring (h : Keeps P x) {finish : σ → σ} (hfinish : ∀ s, P s → P (finish s)) :
    Keeps P (x.ensuring finish) := Triple.ensuring h hfinish hfinish

end Keeps

section HasDocument

class LawfulHolder (σ : Type) [HasDocument σ] : Prop where
  document_withDocument (s : σ) (doc : Document) :
    HasDocument.document (HasDocument.withDocument s doc) = doc

instance : LawfulHolder Document := ⟨fun _ _ => rfl⟩

def Held [HasDocument σ] (P : Document → Prop) (s : σ) : Prop := P (HasDocument.document s)

variable [HasDocument σ] [LawfulHolder σ] {P : Document → Prop}

lemma Keeps.onDocument {x : Action Document α} (h : Keeps P x) :
    Keeps (Held P) (Action.onDocument x : Action σ α) := by
  refine keeps_of_state fun s hs => ?_
  rw [Held, Action.onDocument, LawfulHolder.document_withDocument]
  exact h.state hs

lemma held_inDocument {Q : Document → Prop} {g : Document → Document} (h : ∀ doc, P doc → Q (g doc)) {s : σ}
    (hs : Held P s) : Held Q (inDocument g s) := by
  rw [Held, inDocument, LawfulHolder.document_withDocument]
  exact h _ hs

end HasDocument

end Action

end EditableText
