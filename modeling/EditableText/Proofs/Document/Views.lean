import EditableText.Proofs.Document.Upkeep

namespace EditableText

namespace Action

variable {σ α β : Type} {P P' Q E : σ → Prop} {V V' : Delivery → Prop} {x : Action σ α} {f : α → Action σ β}

def Sees (P : σ → Prop) (x : Action σ α) (V : Delivery → Prop) : Prop := ∀ s, P s → ∀ d ∈ (x s).deliveries, V d

namespace Sees

lemma silent (h : ∀ s, (x s).deliveries = []) : Sees P x V := by
  intro s _ d hd
  rw [h s] at hd
  cases hd

lemma mono (h : Sees P x V) (hp : ∀ s, P' s → P s) (hv : ∀ d, V d → V' d) : Sees P' x V' :=
  fun s hs d hd => hv d (h s (hp s hs) d hd)

lemma bind (hx : Sees P x V) (hleaves : Triple P x Q E) (hf : ∀ a, Sees Q (f a) V) : Sees P (x >>= f) V := by
  intro s hs d hd
  have hfirst := hleaves s hs
  change d ∈ (Action.bind x f s).deliveries at hd
  rw [Action.bind] at hd
  cases hout : (x s).outcome with
  | ok a =>
    rw [Run.Leaves, hout] at hfirst
    rw [hout] at hd
    rcases List.mem_append.mp hd with hd | hd
    · exact hx s hs d hd
    · exact hf a _ hfirst d hd
  | refused e =>
    rw [hout] at hd
    exact hx s hs d hd
  | abandoned =>
    rw [hout] at hd
    exact hx s hs d hd

lemma pure (a : α) : Sees P (Pure.pure a : Action σ α) V := silent fun _ => rfl

lemma alter (g : σ → σ) : Sees P (Action.alter g) V := silent fun _ => rfl

lemma ofExcept (r : Except DocumentError α) : Sees P (Action.ofExcept r : Action σ α) V := by
  cases r <;> exact silent fun _ => rfl

lemma alter_bind {g : σ → σ} {f : Unit → Action σ β} (hg : ∀ s, P s → Q (g s)) (hf : Sees Q (f ()) V) :
    Sees P (Action.alter g >>= f) V := (alter g).bind (Triple.alter (E := fun _ => True) hg) fun _ => hf

lemma state_bind {f : σ → Action σ β} (h : ∀ s, P s → Sees (fun s' => s' = s) (f s) V) :
    Sees P (Action.state >>= f) V := fun s hs => h s hs s rfl

lemma lift_bind {r : Except TextError α} (h : ∀ a, r = .ok a → Sees P (f a) V) :
    Sees P (Action.lift r >>= f) V := by
  cases r with
  | ok a => exact h a rfl
  | error e => exact silent fun _ => rfl

lemma ite {c : Prop} [Decidable c] {y z : Action σ α} (hy : Sees P y V) (hz : Sees P z V) :
    Sees P (if c then y else z) V := by
  split
  · exact hy
  · exact hz

lemma attempt (h : Sees P x V) : Sees P x.attempt V := by
  intro s hs d hd
  refine h s hs d ?_
  rw [Action.attempt] at hd
  cases hout : (x s).outcome <;> (rw [hout] at hd; exact hd)

lemma onAbandoned (h : Sees P x V) (mend : σ → σ) : Sees P (x.onAbandoned mend) V := by
  intro s hs d hd
  refine h s hs d ?_
  rw [Action.onAbandoned] at hd
  cases hout : (x s).outcome <;> (rw [hout] at hd; exact hd)

lemma ensuring (h : Sees P x V) (finish : σ → σ) : Sees P (x.ensuring finish) V := h

lemma onDocument [HasDocument σ] {P : Document → Prop} {x : Action Document α} (h : Sees P x V) :
    Sees (Held P) (Action.onDocument x : Action σ α) V := fun s hs => h (HasDocument.document s) hs

end Sees

end Action

open EditableText.Action

namespace Document

variable {P Q : Document → Prop} {V : Delivery → Prop} {c : Change}

lemma sees_checkNotInChange : Sees P checkNotInChange V :=
  .state_bind fun _ _ => .ite (.silent fun _ => rfl) (.pure ())

lemma checked_sees {α : Type} {f : Unit → Action Document α} (hf : Sees P (f ()) V) :
    Sees P (checkNotInChange >>= f) V :=
  sees_checkNotInChange.bind keeps_checkNotInChange fun _ => hf

lemma seen_ofEvent {event : DocumentEvent} {seen : Document} {listeners : List Listener} :
    ∀ d ∈ (Hearing.ofEvent event seen listeners).deliveries, d.event = event ∧ d.seen = seen := by
  induction listeners with
  | nil => simp [Hearing.ofEvent]
  | cons l rest ih =>
    intro d hd
    rw [Hearing.ofEvent] at hd
    split at hd
    · obtain rfl := List.mem_singleton.mp hd
      exact ⟨rfl, rfl⟩
    · rcases List.mem_cons.mp hd with rfl | hd
      · exact ⟨rfl, rfl⟩
      · exact ih d hd

lemma sees_emit {event : DocumentEvent} (h : ∀ d : Delivery, d.event = event → P d.seen → V d) :
    Sees P (emit event) V := by
  intro doc hdoc d hd
  rw [emit] at hd
  split at hd <;>
    (obtain ⟨hevent, hseen⟩ := seen_ofEvent d hd; exact h d hevent (hseen ▸ hdoc))

lemma sees_emit_of {event : DocumentEvent} (hv : ∀ d : Delivery, d.event ≠ .textReplaced → P d.seen → V d)
    (hevent : event ≠ .textReplaced) : Sees P (emit event) V :=
  sees_emit fun d hd => hv d (hd ▸ hevent)

lemma sees_emitAll (hkeeps : ∀ event, Keeps P (emit event))
    (hv : ∀ d : Delivery, d.event ≠ .textReplaced → P d.seen → V d) {events : List DocumentEvent}
    (hevents : ∀ event ∈ events, event ≠ .textReplaced) : Sees P (emitAll events) V := by
  induction events with
  | nil => exact .pure ()
  | cons event rest ih =>
    exact (sees_emit_of hv (hevents event List.mem_cons_self)).bind (hkeeps event) fun _ =>
      ih fun other hmem => hevents other (List.mem_cons_of_mem _ hmem)

lemma Heeded.sees_applyChange (hp : Heeded P) (hq : Heeded Q)
    (hmake : ∀ {doc after : Document} {deleted : List AnchorId}, P doc → doc.mutate c = .ok (deleted, after) →
      Q (({ after with updateChangedText := true } : Document).record c).2)
    (hpv : ∀ d : Delivery, d.event ≠ .textReplaced → P d.seen → V d)
    (hqv : ∀ d : Delivery, d.event ≠ .textReplaced → Q d.seen → V d) : Sees P (Document.applyChange c) V := by
  refine .alter_bind (fun _ => hp.marked true) ((sees_emit_of hpv (by simp)).bind (hp.emit _) fun _ =>
    .state_bind fun doc h => ?_)
  split
  case h_1 e he => exact .silent fun _ => rfl
  case h_2 deleted after hafter =>
    refine .alter_bind (Q := Q) (fun _ _ => hmake h hafter) ?_
    refine (sees_emit_of hqv (by simp)).bind (hq.emit _) fun _ => ?_
    refine (sees_emitAll hq.emit hqv (by simp)).bind (triple_emitAll fun event _ => hq.emit event) fun _ => ?_
    exact .alter_bind (fun _ => hq.marked false) (.ofExcept _)

lemma sees_replaceWithMap {offset length : Nat} {inserted : Text} {map : OffsetMap}
    (hrun : ∀ {doc removed c}, P doc → offset + length ≤ doc.textLength → doc.slice offset length = .ok removed →
      Change.withMap offset removed inserted map = .ok c → Sees (fun doc' => doc' = doc) (runChange c) V) :
    Sees P (replaceWithMap offset length inserted map) V :=
  checked_sees (.state_bind fun _ h => .lift_bind fun _ hcheck => .ite (.pure ())
    (.lift_bind fun _ hslice => .lift_bind fun _ hmap => hrun h (checkRange_eq_ok.mp hcheck) hslice hmap))

namespace Upkeep

variable (h : Upkeep P) (hv : ∀ d : Delivery, d.event ≠ .textReplaced → P d.seen → V d)

include h hv

lemma sees_beginUpdate : Sees P beginUpdate V := by
  refine checked_sees (.state_bind fun doc hdoc => .alter_bind (Q := P) (fun _ hs => ?_) (.ite ?_ (.pure ())))
  · subst hs
    exact h.opened hdoc
  · exact .alter_bind (fun _ hd => h.noted _ _ hd) (sees_emit_of hv (by simp))

lemma sees_closeUpdate : Sees P closeUpdate V := by
  have hleave : Triple P (.alterExcept leaveUpdate) P P := .alterExcept (fun _ _ => h.left) fun _ hd => hd
  have hsilent : Sees P (.alterExcept leaveUpdate) V := by
    refine .silent fun doc => ?_
    rw [Action.alterExcept]
    cases doc.leaveUpdate <;> rfl
  refine hsilent.bind hleave fun _ => .state_bind fun doc hdoc => ?_
  have hcompleted : Sees P (if doc.updateChangedText then Document.emit .changeCompleted else pure ()) V :=
    .ite (sees_emit_of hv (by simp)) (.pure ())
  have hfinished : Keeps P (Document.emit .updateFinished) := h.emit (by simp)
  have hfinish : Sees P (do
      Document.emit .updateFinished
      .alter fun doc => { doc with updateChangedText := false }
      if doc.updateChangedText then Document.emit .changeCompleted) V :=
    (sees_emit_of hv (by simp)).bind hfinished fun _ =>
      .alter_bind (fun doc hd => h.noted false doc.lineCountAtUpdate hd) hcompleted
  refine Sees.mono (P := P) (.ite ?_ (.pure ())) (fun _ hs => hs ▸ hdoc) fun _ hd => hd
  dsimp only
  exact .ite ((sees_emit_of hv (by simp)).bind (h.emit (by simp)) fun _ => hfinish) hfinish

lemma sees_endUpdate : Sees P endUpdate V := checked_sees (h.sees_closeUpdate hv)

omit h hv in
lemma sees_runUpdate {σ α : Type} [HasDocument σ] [LawfulHolder σ] {body : Action σ α} (hp : Upkeep P)
    (hq : Upkeep Q) (hpq : ∀ doc, P doc → Q doc)
    (hbody : Triple (Held P) body (Held Q) (Held Q)) (hsees : Sees (Held P) body V)
    (hqv : ∀ d : Delivery, d.event ≠ .textReplaced → Q d.seen → V d) :
    Sees (Held P) (Document.runUpdate body) V := by
  have hguarded := (hbody.onAbandoned fun _ => held_inDocument fun _ hd => hq.closeSilently hd).attempt
  refine (hp.sees_beginUpdate fun d hevent hd => hqv d hevent (hpq _ hd)).onDocument.bind
    hp.keeps_beginUpdate.onDocument fun _ =>
    (hsees.onAbandoned _).attempt.bind hguarded fun result => ?_
  refine (hq.sees_endUpdate hqv).onDocument.attempt.bind hq.keeps_endUpdate.onDocument.attempt fun closed => ?_
  refine .silent fun s => ?_
  cases result with
  | error e => rfl
  | ok a => cases closed <;> rfl

end Upkeep

end Document

end EditableText
