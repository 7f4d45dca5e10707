import EditableText.Proofs.Anchor.Placement
import EditableText.Proofs.Document.Settled

namespace EditableText

section Refusals

variable {σ α β : Type} {P Q R : σ → Prop} {A : DocumentEvent → σ → Prop} {E E' : DocumentError → Prop}
  {x : Action σ α} {f : α → Action σ β}

/-- From `P` the call is refused for no other reasons than `E`. -/
def Action.RefusesOnly (P : σ → Prop) (x : Action σ α) (E : DocumentError → Prop) : Prop :=
  ∀ s, P s → ∀ e, (x s).outcome = .refused e → E e

namespace Action.RefusesOnly

lemma of_ends (h : Ends P x Q (fun _ => False) A) : RefusesOnly P x E := fun s hs e ho => by
  have hends := h s hs
  rw [Run.EndsIn, ho] at hends
  exact hends.elim

lemma of_eq {s : σ} (h : RefusesOnly P x E) (hs : P s) : RefusesOnly (fun s' => s' = s) x E :=
  fun _ heq => heq ▸ h s hs

lemma bind (hx : RefusesOnly P x E) (hends : Ends P x Q R A) (hf : ∀ a, RefusesOnly Q (f a) E) :
    RefusesOnly P (x >>= f) E := by
  intro s hs e ho
  have hfirst := hends s hs
  change (Action.bind x f s).outcome = _ at ho
  rw [Action.bind] at ho
  rw [Run.EndsIn] at hfirst
  cases hout : (x s).outcome with
  | ok a =>
    rw [hout] at ho hfirst
    exact hf a _ hfirst e ho
  | refused e' =>
    rw [hout] at ho
    obtain rfl := Outcome.refused.inj ho
    exact hx s hs _ hout
  | abandoned =>
    rw [hout] at ho
    cases ho

lemma after (hends : Ends P x Q (fun _ => False) A) (hf : ∀ a, RefusesOnly Q (f a) E) :
    RefusesOnly P (x >>= f) E :=
  bind (of_ends hends) hends hf

lemma alter_bind {g : σ → σ} {f : Unit → Action σ β} (h : ∀ s, P s → Q (g s)) (hf : ∀ u, RefusesOnly Q (f u) E) :
    RefusesOnly P (Action.alter g >>= f) E :=
  have halter : Ends P (Action.alter g) Q (fun _ => False) fun _ _ => False := .alter h
  after halter hf

lemma pure (a : α) : RefusesOnly P (Pure.pure a : Action σ α) E := by
  rintro s - e ⟨⟩

lemma refuse_bind {e : DocumentError} (he : E e) : RefusesOnly P (Action.refuse e >>= f) E := by
  rintro s - e' ho
  exact Outcome.refused.inj ho ▸ he

lemma ofExcept {r : Except DocumentError α} (h : ∀ e, r = .error e → E e) :
    RefusesOnly P (Action.ofExcept r : Action σ α) E := by
  rintro s - e ho
  cases r with
  | ok a => cases ho
  | error e' => exact h e (congrArg _ (Outcome.refused.inj ho))

lemma lift_bind_of_eq {r : Except TextError α} {a : α} (hr : r = .ok a) (h : RefusesOnly P (f a) E) :
    RefusesOnly P (Action.lift r >>= f) E := by
  rw [hr]
  exact h

lemma state_bind {f : σ → Action σ β} (h : ∀ s, P s → RefusesOnly (fun s' => s' = s) (f s) E) :
    RefusesOnly P (Action.state >>= f) E := fun s hs => h s hs s rfl

lemma attempt_bind {g : Except DocumentError α → Action σ β} (hx : RefusesOnly P x E) (hends : Ends P x Q R A)
    (hok : ∀ a, RefusesOnly Q (g (.ok a)) E) (herror : ∀ e, E e → RefusesOnly R (g (.error e)) E) :
    RefusesOnly P (x.attempt >>= g) E := by
  intro s hs e ho
  have hfirst := hends s hs
  change (Action.bind x.attempt g s).outcome = _ at ho
  rw [Action.bind, Action.attempt] at ho
  rw [Run.EndsIn] at hfirst
  cases hout : (x s).outcome with
  | ok a =>
    rw [hout] at ho hfirst
    exact hok a _ hfirst e ho
  | refused e' =>
    rw [hout] at ho hfirst
    exact herror e' (hx s hs _ hout) _ hfirst e ho
  | abandoned =>
    rw [hout] at ho
    cases ho

lemma onAbandoned (h : RefusesOnly P x E) (mend : σ → σ) : RefusesOnly P (x.onAbandoned mend) E := by
  intro s hs e ho
  refine h s hs e ?_
  rw [Action.onAbandoned] at ho
  cases hout : (x s).outcome with
  | refused e' => simpa [hout] using ho
  | ok _ | abandoned => simp [hout] at ho

end Action.RefusesOnly

end Refusals

open EditableText.Action

namespace Document

section Update

variable {σ α : Type} [HasDocument σ] [LawfulHolder σ] {body : Action σ α} {O P Q R Q' R' : Document → Prop}
  {A A' : DocumentEvent → Document → Prop} {E : DocumentError → Prop}

lemma runUpdate_refusesOnly (hopen : Ends P beginUpdate O (fun _ => False) A')
    (hbody : RefusesOnly (Held O) body E) (hends : Ends (Held O) body (Held Q) (Held R) fun e => Held (A e))
    (hclose : Ends Q endUpdate Q' (fun _ => False) A') (hclose' : Ends R endUpdate R' (fun _ => False) A') :
    RefusesOnly (Held P) (runUpdate body) E := by
  have hguarded : Ends (Held O) (body.onAbandoned (inDocument closeSilently)) (Held Q) (Held R) fun _ _ => True :=
    hends.onAbandoned fun _ _ _ => trivial
  refine .after hopen.onDocument fun _ => (hbody.onAbandoned _).attempt_bind hguarded (fun a => ?_) fun e he => ?_
  · exact .attempt_bind (.of_ends hclose.onDocument) hclose.onDocument (fun _ => .pure a) fun _ _ _ => False.elim
  · refine .attempt_bind (.of_ends hclose'.onDocument) hclose'.onDocument (fun _ => .refuse_bind he) fun _ _ _ =>
      False.elim

end Update

variable {x : Contents} {c : Change} {f : Footing} {doc : Document} {offset length : Nat} {inserted : Text}
  {map : OffsetMap}

lemma eq_of_record_eq_error {e : DocumentError} (h : (doc.record c).1.mapError .text = .error e) :
    e = .text .changedDuringPlayback := by
  rw [record] at h
  by_cases hplaying : doc.history.IsPlayingBack
  · rw [History.push_eq_error hplaying] at h
    exact (Except.error.inj h).symm
  · obtain ⟨history, hpush⟩ := History.exists_push hplaying c
    rw [hpush] at h
    cases h

lemma applyChange_refusesOnly (hc : c.Balanced) (hrange : c.offset + c.removed.length ≤ x.text.length) :
    RefusesOnly (Bears x) (applyChange c) (· = .text .changedDuringPlayback) := by
  refine .alter_bind (Q := Bears x) (fun doc h => inert_bears.still h rfl h.balanced) fun _ =>
    .after (inert_bears.ends_emit _) fun _ => .state_bind fun doc h => ?_
  obtain ⟨deleted, next, hok, hnext⟩ := h.mutate hc hrange
  have hchanged : Bears (x.change c) { next with updateChangedText := true } :=
    inert_bears.still hnext rfl hnext.balanced
  rw [hok]
  refine .alter_bind (Q := Bears (x.change c)) (fun _ _ => inert_bears.recorded hc hchanged) fun _ =>
    .after (inert_bears.ends_emit _) fun _ =>
    .after (ends_emitAll fun event _ => inert_bears.ends_emit event) fun _ =>
    .alter_bind (Q := Bears (x.change c)) (fun doc h => inert_bears.still h rfl h.balanced) fun _ =>
      .ofExcept fun _ => eq_of_record_eq_error

lemma runChange_refusesOnly (hc : c.Balanced) (hrange : c.offset + c.removed.length ≤ x.text.length) :
    RefusesOnly (BearsAt x f) (runChange c) (· = .text .changedDuringPlayback) := by
  have hopen : Ends (BearsAt x f) beginUpdate (BearsAt x f.up) (fun _ => False) fun _ _ => True :=
    (ends_beginUpdate.keeping inert_bears.upkeep.keeps_beginUpdate).mono (fun _ h => h.symm) (fun _ h => h.symm)
      (fun _ h => h.1) fun _ _ _ => trivial
  have hbody : RefusesOnly (BearsAt x f.up) (applyChange c) (· = .text .changedDuringPlayback) :=
    fun doc h => applyChange_refusesOnly hc hrange doc h.1
  have hends : Ends (BearsAt x f.up) (applyChange c) (Rests False f.up) (Rests False f.up) (Cut False f.up) :=
    (restores_applyChange c f.up).of_imp fun _ h => h.2
  have hclose : Ends (Rests False f.up) endUpdate (Rests False f) (fun _ => False) fun _ _ => True :=
    ends_endUpdate.imp_cut fun _ _ _ => trivial
  exact runUpdate_refusesOnly hopen hbody hends hclose hclose

lemma replaceWithMap_refusesOnly (hrange : offset + length ≤ x.text.length)
    (hmap : map.fits offset length inserted.length = true) :
    RefusesOnly (BearsAt x f) (replaceWithMap offset length inserted map) (· = .text .changedDuringPlayback) := by
  have hcheck : Ends (BearsAt x f) checkNotInChange (BearsAt x f) (fun _ => False) fun _ _ => False :=
    ends_checkNotInChange_of fun _ h => h.2.inChange
  refine .after hcheck fun _ => .state_bind fun doc h => ?_
  obtain ⟨hcheck, hslice, hok⟩ := h.1.passes hrange hmap
  refine .lift_bind_of_eq hcheck ?_
  split
  case isTrue => exact .pure ()
  case isFalse =>
    have hrun := runChange_refusesOnly (x := x) (f := f) (Change.Built.withMap hok).balanced
      (by rwa [Text.length_take_drop hrange])
    exact .lift_bind_of_eq hslice (.lift_bind_of_eq hok (hrun.of_eq h))

variable {t : Text} {options : DocumentOptions}

lemma anchors_replaceWithMapping (h : Reachable t options doc) (hrange : offset + length ≤ doc.textLength)
    (hsome : ¬ (length = 0 ∧ inserted = [])) (mapping : ChangeMapping)
    (hword : mapping = .characterReplace → doc.textLength < UInt64.size)
    (hrun : ¬ (replaceWithMapping offset length inserted mapping doc).Foiled) :
    (replaceWithMapping offset length inserted mapping doc).state.anchors =
      (doc.anchors.follow (mapping.offsetMap offset length inserted.length)
        (doc.textLength - length + inserted.length)).2 := by
  have hlength : doc.textLength = doc.contents.text.length := h.atRest.textLength_eq_length
  rw [hlength] at hrange ⊢
  have htaken := Text.length_take_drop hrange
  have hfits :
      OffsetMap.fits (mapping.offsetMap offset length inserted.length) offset length inserted.length = true :=
    mapping.fits_offsetMap fun heq _ _ _ => by have := hword heq; omega
  have hreplaced := (h.sturdy.bearsAt h.atRest.inChange).replaceWithMap inserted hrange hfits hrun
  rw [replaceWithMapping, hreplaced.1.anchors_eq, Contents.edit_of_some hsome, Contents.change,
    Change.length_apply (by rwa [htaken]), htaken]
  rfl

/-- An anchor inside the removed text that survives is taken to where the new text is inserted, and goes on from
there as any anchor at an insertion does: only one that moves before insertions stays at the start of the new
text. -/
theorem inner_anchor_meets_insertion (h : Reachable t options doc) (hrange : offset + length ≤ doc.textLength)
    (hword : doc.textLength < UInt64.size) (hword' : doc.textLength - length + inserted.length < UInt64.size)
    (hinserted : inserted ≠ []) (hrun : ¬ (replaceWithMapping offset length inserted .removeAndInsert doc).Foiled)
    {id : AnchorId} {a : Anchor} (hget : doc.anchors.get id = .ok a) (hlive : a.isDeleted = false)
    (hsurvives : a.survivesDeletion = true) (hlow : offset < a.offset) (hhigh : a.offset < offset + length) :
    (replaceWithMapping offset length inserted .removeAndInsert doc).state.anchors.get id =
      .ok { a with offset := if a.movement = .beforeInsertion then offset else offset + inserted.length } := by
  have hboth : ¬ (length = 0 ∨ inserted.length = 0) := by
    rintro (hlength | hinserted')
    · omega
    · exact hinserted (List.length_eq_zero_iff.mp hinserted')
  rw [anchors_replaceWithMapping h hrange (fun hnone => hinserted hnone.2) .removeAndInsert nofun hrun,
    ChangeMapping.offsetMap_of_both hboth]
  exact AnchorTable.get_follow_removeAndInsert hrange (by omega) (by omega) hget hlive hsurvives hlow hhigh

theorem inner_anchors_meet_insertion :
    ∃ start s, ofText? ['a', 'b', 'c', 'd', 'e', 'f'] .default = some start ∧
      s = ((Call.createAnchor 3 .beforeInsertion true).perform
        ((Call.createAnchor 2 .byEdit true).perform (.start start)).state).state ∧
      let after := (replaceWithMapping 1 4 ['x', 'y'] .removeAndInsert s.document).state
      after.anchors.get ⟨0, 0⟩ = .ok ⟨⟨0, 0⟩, 3, .byEdit, true, false⟩ ∧
        after.anchors.get ⟨1, 0⟩ = .ok ⟨⟨1, 0⟩, 1, .beforeInsertion, true, false⟩ := by
  obtain ⟨start, hstart⟩ : ∃ start, ofText? ['a', 'b', 'c', 'd', 'e', 'f'] .default = some start := ⟨_, rfl⟩
  obtain ⟨s, hs⟩ : ∃ s, s = ((Call.createAnchor 3 .beforeInsertion true).perform
    ((Call.createAnchor 2 .byEdit true).perform (.start start)).state).state := ⟨_, rfl⟩
  have h : Reachable ['a', 'b', 'c', 'd', 'e', 'f'] .default s.document :=
    hs ▸ (Reachable.call (s := .start start) (.start hstart) (.createAnchor 2 .byEdit true)).call
      (.createAnchor 3 .beforeInsertion true)
  obtain ⟨hlength, hok, hfirst, hsecond⟩ : s.document.textLength = 6 ∧
      (replaceWithMapping 1 4 ['x', 'y'] .removeAndInsert s.document).outcome = .ok () ∧
      s.document.anchors.get ⟨0, 0⟩ = .ok ⟨⟨0, 0⟩, 2, .byEdit, true, false⟩ ∧
      s.document.anchors.get ⟨1, 0⟩ = .ok ⟨⟨1, 0⟩, 3, .beforeInsertion, true, false⟩ := by
    obtain rfl := Option.some.inj hstart
    subst hs
    decide +kernel
  have hrange : 1 + 4 ≤ s.document.textLength := by omega
  have hword : s.document.textLength < UInt64.size := by rw [hlength]; decide
  have hword' : s.document.textLength - 4 + ['x', 'y'].length < UInt64.size := by rw [hlength]; decide
  have hrun := Run.not_foiled_of_ok hok
  refine ⟨start, s, hstart, hs, ?_, ?_⟩
  · exact inner_anchor_meets_insertion h hrange hword hword' (by decide) hrun hfirst rfl rfl (by decide)
      (by decide)
  · exact inner_anchor_meets_insertion h hrange hword hword' (by decide) hrun hsecond rfl rfl (by decide)
      (by decide)

/-- The anchor leaves its movement to the edit, and is found behind the new text. -/
theorem inner_anchor_not_at_start :
    ∃ doc, Reachable ['a', 'b', 'c'] .default doc ∧ 0 + 3 ≤ doc.textLength ∧
      doc.anchors.get ⟨0, 0⟩ = .ok ⟨⟨0, 0⟩, 1, .byEdit, true, false⟩ ∧
      (replaceWithMapping 0 3 ['x', 'y'] .removeAndInsert doc).outcome = .ok () ∧
      (replaceWithMapping 0 3 ['x', 'y'] .removeAndInsert doc).state.anchors.get ⟨0, 0⟩ =
        .ok ⟨⟨0, 0⟩, 2, .byEdit, true, false⟩ := by
  obtain ⟨start, hstart⟩ : ∃ start, ofText? ['a', 'b', 'c'] .default = some start := ⟨_, rfl⟩
  refine ⟨_, Reachable.call (s := .start start) (.start hstart) (.createAnchor 1 .byEdit true), ?_⟩
  obtain rfl := Option.some.inj hstart
  decide +kernel

end Document

end EditableText
