import EditableText.Document.Call
import EditableText.Proofs.Document.Action
import EditableText.Proofs.Except

namespace EditableText

open EditableText.Action

instance : LawfulHolder Session := ⟨fun _ _ => rfl⟩

namespace Action.Triple

variable {σ α β : Type} {P Q R E E' : σ → Prop} {x : Action σ α}

lemma attempt_bind {g : Except DocumentError α → Action σ β} (hx : Triple P x Q E)
    (hok : ∀ a, Triple Q (g (.ok a)) R E') (herror : ∀ e, Triple E (g (.error e)) R E') (hcut : ∀ s, E s → E' s) :
    Triple P (x.attempt >>= g) R E' := by
  intro s hs
  have hfirst := hx s hs
  change (Action.bind x.attempt g s).Leaves R E'
  rw [Action.bind, Action.attempt]
  rw [Run.Leaves] at hfirst
  cases hout : (x s).outcome with
  | ok a =>
    rw [hout] at hfirst
    exact hok a _ hfirst
  | refused e =>
    rw [hout] at hfirst
    exact herror e _ hfirst
  | abandoned =>
    rw [hout] at hfirst
    exact hcut _ hfirst

lemma onDocument [HasDocument σ] [LawfulHolder σ] {P Q E : Document → Prop} {x : Action Document α}
    (h : Triple P x Q E) : Triple (Held P) (Action.onDocument x : Action σ α) (Held Q) (Held E) := by
  intro s hs
  have hx := h _ hs
  rw [Action.onDocument]
  simp only [Run.Leaves, Held, LawfulHolder.document_withDocument] at hx ⊢
  exact hx

end Action.Triple

namespace Document

variable {P Q E : Document → Prop} {doc after : Document} {c : Change}

lemma keeps_checkNotInChange : Keeps P checkNotInChange := by
  refine .reading fun doc => ?_
  split
  · exact .refuse _ fun _ h => h
  · exact .pure ()

structure Upkeep (P : Document → Prop) : Prop where
  emit {event : DocumentEvent} : (∀ c, event ≠ .changed c) → Keeps P (emit event)
  noted {doc : Document} (updateChangedText : Bool) (lineCountAtUpdate : Nat) :
    P doc → P { doc with updateChangedText, lineCountAtUpdate }
  unmarked {doc : Document} : P doc → P { doc with inChange := false }
  opened {doc : Document} :
    P doc → P { doc with history := doc.history.startGroup, updateDepth := doc.updateDepth + 1 }
  left {doc after : Document} : P doc → doc.leaveUpdate = .ok after → P after

namespace Upkeep

lemma keeps_beginUpdate (h : Upkeep P) : Keeps P beginUpdate := by
  refine keeps_checkNotInChange.bind fun _ => .state_bind fun doc hdoc => ?_
  refine Triple.bind (Q := P) (.alter fun _ hs => ?_) fun _ => .ite ?_ (Keeps.pure ())
  · subst hs
    exact h.opened hdoc
  · exact Keeps.bind (.alter fun doc hd => h.noted _ _ hd) fun _ => h.emit (by simp)

lemma keeps_closeUpdate (h : Upkeep P) : Keeps P closeUpdate := by
  refine Keeps.bind (.alterExcept (fun _ _ => h.left) fun _ hd => hd) fun _ => .reading fun doc => ?_
  have hforget : Keeps P (.alter fun doc => { doc with updateChangedText := false }) :=
    .alter fun doc hd => h.noted false doc.lineCountAtUpdate hd
  have hcompleted : Keeps P (if doc.updateChangedText then Document.emit .changeCompleted else pure ()) :=
    .ite (h.emit (by simp)) (Keeps.pure ())
  have hfinished : Keeps P (Document.emit .updateFinished) := h.emit (by simp)
  have hfinish := hfinished.bind fun _ => hforget.bind fun _ => hcompleted
  refine .ite ?_ (Keeps.pure ())
  dsimp only
  exact .ite ((h.emit (by simp)).bind fun _ => hfinish) hfinish

lemma keeps_endUpdate (h : Upkeep P) : Keeps P endUpdate :=
  keeps_checkNotInChange.bind fun _ => h.keeps_closeUpdate

lemma closeSilently (h : Upkeep P) (hdoc : P doc) : P doc.closeSilently := by
  rw [Document.closeSilently]
  split
  case h_1 after hafter =>
    have hleft := h.left (h.unmarked hdoc) hafter
    split
    · exact h.noted false after.lineCountAtUpdate hleft
    · exact hleft
  case h_2 => exact h.unmarked hdoc

section Update

variable {σ α : Type} [HasDocument σ] [LawfulHolder σ] {body : Action σ α}

/-- What the opening of the update leaves need not be kept up: it is for the calls inside to start from. -/
lemma runUpdate_of_opened {S O : σ → Prop} (hq : Upkeep Q) (he : Upkeep E)
    (hopen : Triple S (onDocument beginUpdate) O (Held E)) (hbody : Triple O body (Held Q) (Held E))
    (hqe : ∀ doc, Q doc → E doc) : Triple S (Document.runUpdate body) (Held Q) (Held E) := by
  have hguarded := hbody.onAbandoned fun _ => held_inDocument fun _ hd => he.closeSilently hd
  have hclose : Triple (Held Q) (onDocument endUpdate : Action σ Unit).attempt (Held Q) (Held E) :=
    hq.keeps_endUpdate.onDocument.attempt.mono (fun _ h => h) (fun _ h => h) fun _ h => hqe _ h
  refine hopen.bind fun _ => hguarded.attempt_bind (fun a => ?_) (fun e => ?_) fun _ h => h
  · refine hclose.bind fun closed => Triple.bind (.pure a fun _ h => h) fun a => ?_
    exact Triple.bind (.ofExcept closed (fun _ h => h) fun _ h => hqe _ h) fun _ => .pure a fun _ h => h
  · exact Triple.bind he.keeps_endUpdate.onDocument.attempt fun closed => .refuse_bind e fun _ h => h

lemma runUpdate (hp : Upkeep P) (hq : Upkeep Q) (he : Upkeep E) (hbody : Triple (Held P) body (Held Q) (Held E))
    (hpe : ∀ doc, P doc → E doc) (hqe : ∀ doc, Q doc → E doc) :
    Triple (Held P) (Document.runUpdate body) (Held Q) (Held E) :=
  runUpdate_of_opened hq he (hp.keeps_beginUpdate.onDocument.mono (fun _ h => h) (fun _ h => h) fun _ => hpe _)
    hbody hqe

lemma keeps_runUpdate (h : Upkeep P) (hbody : Keeps (Held P) body) : Keeps (Held P) (Document.runUpdate body) :=
  h.runUpdate h h hbody (fun _ hd => hd) fun _ hd => hd

end Update

lemma holding_of_opened (h : Upkeep P) {S O : Session → Prop} {body : Action Session Unit}
    (hopen : Triple S (onDocument beginUpdate) O (Held P)) (hbody : Triple O body (Held P) (Held P))
    (ending : GroupEnding) : Triple S (Call.holding body ending) (Held P) (Held P) := by
  have hsilent : ∀ s : Session, Held P s → Held P (inDocument Document.closeSilently s) := fun s =>
    held_inDocument fun _ => h.closeSilently
  have hguarded : Triple O (body.onAbandoned (inDocument Document.closeSilently)).attempt (Held P) (Held P) :=
    (hbody.onAbandoned hsilent).attempt
  cases ending with
  | close =>
    exact hopen.bind fun _ => hguarded.bind fun result => h.keeps_endUpdate.onDocument.bind fun _ =>
      .ofExcept result
  | drop =>
    exact hopen.bind fun _ => hguarded.bind fun result =>
      h.keeps_closeUpdate.onDocument.attempt.bind fun _ => .ofExcept result
  | fail =>
    exact hopen.bind fun _ =>
      Triple.onAbandoned (hbody.attempt.bind fun _ => .abandon fun _ hs => hs) hsilent

lemma keeps_holding (h : Upkeep P) {body : Action Session Unit} (hbody : Keeps (Held P) body)
    (ending : GroupEnding) : Keeps (Held P) (Call.holding body ending) :=
  h.holding_of_opened h.keeps_beginUpdate.onDocument hbody ending

lemma withText (h : Upkeep P) (t : Text) : Upkeep fun doc => P doc ∧ doc.text = t := by
  refine ⟨fun hevent => keeps_of_state fun doc hd => ⟨(h.emit hevent).state hd.1, ?_⟩,
    fun changed lines hd => ⟨h.noted changed lines hd.1, hd.2⟩, fun hd => ⟨h.unmarked hd.1, hd.2⟩,
    fun hd => ⟨h.opened hd.1, hd.2⟩, fun {doc after} hd hafter => ⟨h.left hd.1 hafter, ?_⟩⟩
  · rw [Document.emit]
    split <;> exact hd.2
  · rw [leaveUpdate] at hafter
    split at hafter
    case h_1 => cases hafter
    case h_2 =>
      obtain ⟨history, -, hok⟩ := exists_of_bind_eq_ok hafter
      obtain rfl := Except.ok.inj hok
      exact hd.2

end Upkeep

structure Heeded (P : Document → Prop) : Prop where
  emit (event : DocumentEvent) : Keeps P (emit event)
  marked {doc : Document} (inChange : Bool) : P doc → P { doc with inChange }

lemma Heeded.withText (h : Heeded P) (t : Text) : Heeded fun doc => P doc ∧ doc.text = t := by
  refine ⟨fun event => keeps_of_state fun doc hd => ⟨(h.emit event).state hd.1, ?_⟩,
    fun inChange hd => ⟨h.marked inChange hd.1, hd.2⟩⟩
  rw [Document.emit]
  split <;> exact hd.2

lemma triple_emitAll {events : List DocumentEvent} (h : ∀ event ∈ events, Triple P (emit event) P E) :
    Triple P (emitAll events) P E := by
  induction events with
  | nil => exact .pure () fun _ h => h
  | cons event rest ih =>
    exact (h event List.mem_cons_self).bind fun _ => ih fun other hmem => h other (List.mem_cons_of_mem _ hmem)

lemma triple_applyChange {M : Document → Prop} (hmark : ∀ doc, P doc → P { doc with inChange := true })
    (hchanging : Triple P (emit (.changing c)) P E) (hrefused : ∀ doc, P doc → E { doc with inChange := false })
    (hmake : ∀ {doc after : Document} {deleted : List AnchorId}, P doc → doc.mutate c = .ok (deleted, after) →
      M (({ after with updateChangedText := true } : Document).record c).2)
    (hchanged : Triple M (emit (.changed c)) Q E) (hdeleted : ∀ id, Triple Q (emit (.anchorDeleted id)) Q E)
    (hunmark : ∀ doc, Q doc → Q { doc with inChange := false }) (hqe : ∀ doc, Q doc → E doc) :
    Triple P (applyChange c) Q E := by
  refine Triple.bind (Q := P) (.alter hmark) fun _ => hchanging.bind fun _ => .state_bind fun doc h => ?_
  split
  case h_1 e he =>
    refine Triple.bind (Q := E) (.alter fun _ hs => ?_) fun _ => .refuse _ fun _ h => h
    subst hs
    exact hrefused _ h
  case h_2 deleted after hafter =>
    have hall : Triple Q (Document.emitAll (deleted.map .anchorDeleted)) Q E := by
      refine triple_emitAll fun event hmem => ?_
      obtain ⟨id, -, rfl⟩ := List.mem_map.mp hmem
      exact hdeleted id
    refine Triple.bind (Triple.alter fun _ _ => hmake h hafter) fun _ => hchanged.bind fun _ => hall.bind fun _ =>
      Triple.bind (Q := Q) (.alter hunmark) fun _ => ?_
    exact .lift _ (fun _ hs => hs) hqe

lemma Heeded.applyChange (hp : Heeded P) (hq : Heeded Q)
    (hmake : ∀ {doc after : Document} {deleted : List AnchorId}, P doc → doc.mutate c = .ok (deleted, after) →
      Q (({ after with updateChangedText := true } : Document).record c).2) :
    Triple P (applyChange c) Q fun doc => P doc ∨ Q doc := by
  have hemit (event : DocumentEvent) : Triple Q (Document.emit event) Q fun doc => P doc ∨ Q doc :=
    (hq.emit event).mono (fun _ h => h) (fun _ h => h) fun _ => .inr
  exact triple_applyChange (fun _ => hp.marked true) ((hp.emit _).mono (fun _ h => h) (fun _ h => h) fun _ => .inl)
    (fun _ h => .inl (hp.marked false h)) hmake (hemit _) (fun _ => hemit _)
      (fun _ => hq.marked false) fun _ => .inr

section Observers

variable (h : ∀ {doc : Document}, P doc → ∀ listeners nextToken bus, P { doc with listeners, nextToken, bus })

include h

lemma keeps_subscribe (label : String) (fails : List DocumentEvent → Bool) : Keeps P (subscribe label fails) :=
  .reading fun _ => Keeps.bind (.alter fun _ hd => h hd _ _ _) fun _ => .pure _

lemma keeps_unsubscribe (token : Nat) : Keeps P (unsubscribe token) :=
  .reading fun _ => Keeps.bind (.alter fun _ hd => h hd _ _ _) fun _ => .pure _

lemma keeps_addReceiver : Keeps P addReceiver :=
  Keeps.bind (.alter fun _ hd => h hd _ _ _) fun _ => .reading fun _ => .pure _

lemma keeps_receive (handler count : Nat) : Keeps P (receive handler count) :=
  .reading fun _ => Keeps.bind (.alter fun _ hd => h hd _ _ _) fun _ => .pure _

end Observers

end Document

end EditableText
