import EditableText.Proofs.Document.Aside
import EditableText.Proofs.History

namespace EditableText

namespace History

variable {h after : History}

lemma pushGroup_footing (group : ChangeGroup) :
    (h.pushGroup group).depth = h.depth ∧ (h.pushGroup group).phase = h.phase := ⟨rfl, rfl⟩

lemma commit_footing : h.commit.depth = h.depth ∧ h.commit.phase = h.phase := by
  rw [commit]
  split <;> exact ⟨rfl, rfl⟩

lemma endGroup_footing {depth : Nat} (hd : h.depth = depth + 1) :
    ∃ after, h.endGroup = .ok after ∧ after.depth = depth ∧ after.phase = h.phase := by
  rw [endGroup, hd]
  dsimp only
  refine ⟨_, rfl, ?_⟩
  split
  · exact commit_footing
  · exact ⟨rfl, rfl⟩

lemma push_footing {c : Change} (hpush : h.push c = .ok after) :
    after.depth = h.depth ∧ after.phase = h.phase := by
  rw [push] at hpush
  split at hpush
  case h_1 =>
    obtain rfl := Except.ok.inj hpush
    exact ⟨rfl, rfl⟩
  case h_2 => cases hpush
  case h_3 =>
    split at hpush
    · obtain rfl := Except.ok.inj hpush
      exact ⟨rfl, rfl⟩
    · split at hpush
      · obtain rfl := Except.ok.inj hpush
        exact ⟨rfl, rfl⟩
      · obtain rfl := Except.ok.inj hpush
        exact pushGroup_footing [c]

lemma clear_footing (hclear : h.clear = .ok after) : after.depth = h.depth ∧ after.phase = h.phase := by
  rw [clear] at hclear
  split at hclear
  · cases hclear
  · obtain rfl := Except.ok.inj hclear
    exact ⟨rfl, rfl⟩

lemma enterModify_depth : h.enterModify.depth = h.depth := by
  rw [enterModify]
  split <;> rfl

lemma exitModify_depth : h.exitModify.depth = h.depth := by
  rw [exitModify]
  split <;> rfl

end History

structure Footing where
  depth : Nat
  groupDepth : Nat
  phase : Phase
  audience : List (Nat × String × (List DocumentEvent → Bool))

def Footing.up (f : Footing) : Footing := { f with depth := f.depth + 1, groupDepth := f.groupDepth + 1 }

namespace Document

def footing (doc : Document) : Footing :=
  ⟨doc.updateDepth, doc.history.depth, doc.history.phase, doc.audience⟩

/-- The phase of the history counts only if `p` holds. It does not during a playback. -/
structure Stands (p : Prop) (f : Footing) (doc : Document) : Prop where
  depth : doc.updateDepth = f.depth
  groupDepth : doc.history.depth = f.groupDepth
  phase : p → doc.history.phase = f.phase
  audience : doc.audience = f.audience

structure Rests (p : Prop) (f : Footing) (doc : Document) : Prop extends Stands p f doc where
  inChange : doc.inChange = false

structure Cut (p : Prop) (f : Footing) (e : DocumentEvent) (doc : Document) : Prop where
  rests : Rests p (if e = .updateStarted then f.up else f) doc
  outermost : e = .updateStarted → f.depth = 0

variable {p : Prop} {f : Footing} {doc after : Document} {e : DocumentEvent} {c : Change}

lemma Stands.congr (h : Stands p f doc) (hfooting : after.footing = doc.footing) : Stands p f after := by
  simp only [footing, Footing.mk.injEq] at hfooting
  obtain ⟨hdepth, hgroupDepth, hphase, haudience⟩ := hfooting
  exact ⟨hdepth.trans h.depth, hgroupDepth.trans h.groupDepth, fun hp => hphase.trans (h.phase hp),
    haudience.trans h.audience⟩

lemma Rests.cut (h : Rests p f doc) (he : e ≠ .updateStarted) : Cut p f e doc :=
  ⟨by rwa [if_neg he], fun hstarted => absurd hstarted he⟩

lemma Rests.footing_eq (h : Rests True f doc) : doc.footing = f := by
  rw [footing, h.depth, h.groupDepth, h.phase trivial, h.audience]

end Document

open EditableText.Action EditableText.Document

namespace Action

variable {σ α β : Type} [HasDocument σ] {p : Prop} {x : Action σ α}

/-- A call that closes what it opens, even if it is abandoned, unless that is when it says that it opens. -/
def Restores (p : Prop) (x : Action σ α) : Prop :=
  ∀ f, Ends (Held (Rests p f)) x (Held (Rests p f)) (Held (Rests p f)) fun e => Held (Cut p f e)

namespace Restores

lemma bind (hx : Restores p x) {g : α → Action σ β} (hg : ∀ a, Restores p (g a)) : Restores p (x >>= g) :=
  fun f => (hx f).bind fun a => hg a f

lemma pure (a : α) : Restores p (Pure.pure a : Action σ α) := fun _ => .pure a fun _ h => h

lemma refuse_bind (e : DocumentError) {g : β → Action σ α} : Restores p (Action.refuse e >>= g) := fun _ =>
  .refuse_bind e fun _ h => h

lemma ofExcept (r : Except DocumentError α) : Restores p (Action.ofExcept r : Action σ α) :=
  fun _ => .ofExcept r (fun _ h => h) fun _ h => h

lemma lift (r : Except TextError α) : Restores p (Action.lift r : Action σ α) := ofExcept _

lemma reading {g : σ → Action σ β} (hg : ∀ s, Restores p (g s)) : Restores p (Action.state >>= g) :=
  fun f => .state_bind fun s hs => (hg s f).of_eq hs

lemma alter {g : σ → σ} (h : ∀ f s, Held (Rests p f) s → Held (Rests p f) (g s)) :
    Restores p (Action.alter g) := fun f => .alter (h f)

lemma attempt (h : Restores p x) : Restores p x.attempt := fun f => (h f).attempt

lemma ite {c : Prop} [Decidable c] {y z : Action σ α} (hy : Restores p y) (hz : Restores p z) :
    Restores p (if c then y else z) := fun f => .ite (hy f) (hz f)

lemma onDocument [LawfulHolder σ] {x : Action Document α} (h : Restores p x) :
    Restores p (Action.onDocument x : Action σ α) := fun f => (h f).onDocument

end Restores

end Action

namespace Document

variable {p : Prop} {f : Footing} {doc after : Document} {e : DocumentEvent} {c : Change}
  {R : Document → Prop} {A : DocumentEvent → Document → Prop}

lemma Stands.observed (h : Stands p f doc) {listeners : List Listener}
    (hprofiles : listeners.map Listener.profile = doc.audience) (bus : Bus Notification) (inChange : Bool) :
    Stands p f { doc with listeners, bus, inChange } :=
  ⟨h.depth, h.groupDepth, h.phase, hprofiles.trans h.audience⟩

lemma Stands.withHistory (h : Stands p f doc) {history : History} (hdepth : history.depth = doc.history.depth)
    (hphase : p → history.phase = doc.history.phase) : Stands p f { doc with history } :=
  ⟨h.depth, hdepth.trans h.groupDepth, fun hp => (hphase hp).trans (h.phase hp), h.audience⟩

lemma Rests.withHistory (h : Rests p f doc) {history : History} (hdepth : history.depth = doc.history.depth)
    (hphase : p → history.phase = doc.history.phase) : Rests p f { doc with history } :=
  ⟨h.toStands.withHistory hdepth hphase, h.inChange⟩

lemma Stands.mutate (h : Stands p f doc) {deleted : List AnchorId} (hok : doc.mutate c = .ok (deleted, after)) :
    Stands p f after := by
  rw [Document.mutate] at hok
  obtain ⟨⟨_, cut⟩, -, hok⟩ := exists_of_bind_eq_ok hok
  obtain ⟨storage, -, hok⟩ := exists_of_bind_eq_ok hok
  obtain ⟨lines, -, hok⟩ := exists_of_bind_eq_ok hok
  obtain ⟨-, rfl⟩ := Prod.mk.inj (Except.ok.inj hok)
  exact h.congr rfl

lemma Stands.record (h : Stands p f doc) (c : Change) : Stands p f (doc.record c).2 := by
  rw [Document.record]
  split
  case h_1 history hpush =>
    obtain ⟨hdepth, hphase⟩ := History.push_footing hpush
    exact h.withHistory hdepth fun _ => hphase
  case h_2 => exact h

lemma ends_emit_stands (he : e ≠ .updateStarted) : Ends (Stands p f) (emit e) (Stands p f) R (Cut p f) :=
  ends_emit e (fun doc h => h.observed (tell_profiles e doc) _ _)
    fun _ _ h _ hprofiles => Rests.cut ⟨h.observed hprofiles _ false, rfl⟩ he

lemma ends_emit_rests (he : e ≠ .updateStarted) : Ends (Rests p f) (emit e) (Rests p f) R (Cut p f) :=
  ends_emit e (fun doc h => ⟨h.observed (tell_profiles e doc) _ _, h.inChange⟩)
    fun _ _ h _ hprofiles => Rests.cut ⟨h.observed hprofiles _ false, rfl⟩ he

lemma restores_applyChange (c : Change) : Restores p (applyChange c) := by
  intro f
  have hmark : Ends (Rests p f) (.alter fun doc => { doc with inChange := true }) (Stands p f) (Rests p f)
      (Cut p f) := .alter fun doc h => h.congr rfl
  have hunmark : Ends (Stands p f) (.alter fun doc => { doc with inChange := false }) (Rests p f) (Rests p f)
      (Cut p f) := .alter fun doc h => ⟨h.congr rfl, rfl⟩
  refine hmark.bind fun _ => (ends_emit_stands (by simp)).bind fun _ => .state_bind fun doc h => ?_
  split
  case h_1 e _ =>
    exact .of_eq (hunmark.bind fun _ => .refuse _ fun _ h => h) h
  case h_2 deleted after hafter =>
    have hmutated := h.mutate hafter
    have hchanged : Stands p f { after with updateChangedText := true } :=
      hmutated.congr rfl
    refine Ends.bind (Q := Stands p f) (.alter fun _ _ => hchanged.record c) fun _ =>
      (ends_emit_stands (by simp)).bind fun _ => Ends.bind (ends_emitAll fun event hevent => ?_) fun _ =>
      hunmark.bind fun _ => .ofExcept _ (fun _ h => h) fun _ h => h
    obtain ⟨id, -, rfl⟩ := List.mem_map.mp hevent
    exact ends_emit_stands (by simp)

lemma ends_checkNotInChange : Ends (Rests p f) checkNotInChange (Rests p f) R A :=
  ends_checkNotInChange_of fun _ h => h.inChange

lemma ends_beginUpdate : Ends (Rests p f) beginUpdate (Rests p f.up) R (Cut p f) := by
  refine ends_checkNotInChange.bind fun _ => .state_bind fun doc h => ?_
  refine Ends.bind (Q := fun after => Rests p f.up after ∧ after.updateDepth = doc.updateDepth + 1)
    (.alter fun after hs => ?_) fun _ => ?_
  · subst hs
    exact ⟨⟨⟨congrArg (· + 1) h.depth, congrArg (· + 1) h.groupDepth, h.phase, h.audience⟩, h.inChange⟩, rfl⟩
  split
  case isFalse => exact .pure () fun _ hs => hs.1
  case isTrue hclosed =>
    -- the update is open by now, and no guard holds it yet if a listener fails here
    refine Ends.bind (Q := Rests p f.up) (.alter fun after hs => ?_) fun _ => ends_emit _ ?_ ?_
    · exact ⟨hs.1.toStands.congr rfl, hs.1.inChange⟩
    · exact fun after hs => ⟨hs.observed (tell_profiles _ after) _ _, hs.inChange⟩
    · intro _ _ hs _ hprofiles
      exact ⟨⟨hs.observed hprofiles _ false, rfl⟩, fun _ => h.depth ▸ hclosed⟩

lemma Rests.leaveUpdate (h : Rests p f.up doc) : ∃ after, doc.leaveUpdate = .ok after ∧ Rests p f after := by
  obtain ⟨history, hend, hdepth, hphase⟩ := History.endGroup_footing h.groupDepth
  refine ⟨{ doc with history, updateDepth := f.depth }, ?_, ⟨rfl, hdepth, ?_, h.audience⟩, h.inChange⟩
  · rw [Document.leaveUpdate, h.depth]
    simp only [Footing.up, hend, Except.mapError, bind, Except.bind, pure, Except.pure]
  · exact fun hp => hphase.trans (h.phase hp)

lemma Rests.forget (h : Rests p f doc) : Rests p f { doc with updateChangedText := false } :=
  ⟨h.toStands.congr rfl, h.inChange⟩

lemma ends_closeUpdate : Ends (Rests p f.up) closeUpdate (Rests p f) R (Cut p f) :=
  ends_closeUpdate_of (fun _ h => h.leaveUpdate) (fun _ h => h.forget) (fun _ _ => ends_emit_rests (by simp))
    (ends_emit_rests (by simp)) (ends_emit_rests (by simp))

lemma ends_endUpdate : Ends (Rests p f.up) endUpdate (Rests p f) R (Cut p f) :=
  ends_checkNotInChange.bind fun _ => ends_closeUpdate

lemma Rests.closeSilently (h : Rests p f.up doc) : Rests p f doc.closeSilently :=
  closeSilently_of (P := Rests p f.up) (fun _ h => h.leaveUpdate) (fun _ h => h.forget)
    ⟨h.toStands.congr rfl, rfl⟩

lemma Cut.closeSilently (h : Cut p f.up e doc) : Cut p f e doc.closeSilently := by
  have he : e ≠ .updateStarted := fun hstarted => absurd (h.outermost hstarted) (Nat.succ_ne_zero _)
  have hrests := h.rests
  rw [if_neg he] at hrests
  exact hrests.closeSilently.cut he

section Guards

variable {σ α : Type} [HasDocument σ] [LawfulHolder σ] {body : Action σ α}

lemma ends_guarded (h : Restores p body) :
    Ends (Held (Rests p f.up)) (body.onAbandoned (inDocument Document.closeSilently)) (Held (Rests p f.up))
      (Held (Rests p f.up)) fun e => Held (Cut p f e) :=
  (h f.up).onAbandoned fun e _ => held_inDocument (P := Cut p f.up e) fun _ hd => hd.closeSilently

lemma restores_runUpdate (h : Restores p body) : Restores p (runUpdate body) := fun f =>
  ends_runUpdate ends_beginUpdate (h f.up) ends_endUpdate ends_endUpdate fun _ _ hcut => hcut.closeSilently

end Guards

lemma restores_replaceWithMap (offset length : Nat) (t : Text) (map : OffsetMap) :
    Restores p (replaceWithMap offset length t map) := by
  refine Restores.bind (fun _ => ends_checkNotInChange) fun _ => .reading fun doc =>
    (Restores.lift _).bind fun _ => .ite (.pure ()) ?_
  exact (Restores.lift _).bind fun removed => (Restores.lift _).bind fun c =>
    restores_runUpdate (restores_applyChange c)

lemma restores_replaceWithMapping (offset length : Nat) (t : Text) (mapping : ChangeMapping) :
    Restores p (replaceWithMapping offset length t mapping) := restores_replaceWithMap _ _ _ _

lemma restores_replaceAll (t : Text) : Restores p (runUpdate do
    let doc ← .state
    remove 0 doc.textLength
    insert 0 t : Action Document Unit) :=
  restores_runUpdate (.reading fun _ => (restores_replaceWithMapping _ _ _ _).bind fun _ =>
    restores_replaceWithMapping _ _ _ _)

lemma restores_setText (t : Text) : Restores p (setText t) := by
  have haccepts (accepts : Bool) : Restores p (.alter (setAcceptsChanges accepts)) :=
    .alter fun _ _ h => Rests.withHistory h rfl fun _ => rfl
  refine Restores.bind (fun _ => ends_checkNotInChange) fun _ => .reading fun doc => ?_
  refine .ite (.refuse_bind _) ?_
  refine (haccepts false).bind fun _ => (Restores.attempt (restores_replaceAll t)).bind fun replaced => ?_
  refine (haccepts _).bind fun _ => (Restores.ofExcept _).bind fun _ f => .state_bind fun doc h => ?_
  refine .lift_bind _ (fun history hclear => ?_) fun _ hs => hs ▸ h
  refine Ends.bind (Q := Rests p f) (.alter fun _ hs => ?_) fun _ => ends_emit_rests (by simp)
  obtain ⟨hdepth, hphase⟩ := History.clear_footing hclear
  exact Rests.withHistory (hs ▸ h) (hs ▸ hdepth) fun _ => hs ▸ hphase

lemma restores_replay (c : Change) : Restores False (replay c) := by
  refine Restores.bind (.alter fun f doc h => ?_) fun _ => (restores_applyChange c).attempt.bind fun applied =>
    Restores.bind (.alter fun f doc h => ?_) fun _ => .ofExcept applied
  · exact Rests.withHistory h History.enterModify_depth False.elim
  · exact Rests.withHistory h History.exitModify_depth False.elim

lemma restores_replayAll (changes : List Change) : Restores False (replayAll changes) := by
  induction changes with
  | nil => exact .pure ()
  | cons c rest ih => exact (restores_replay c).bind fun _ => ih

section Playback

variable {finish : History → History}

lemma Rests.played (h : Rests False f doc) (hidle : f.phase = .idle)
    (hfinish : ∀ history, (finish history).depth = history.depth ∧ (finish history).phase = .idle) :
    Rests True f (doc.onHistory finish) :=
  have ⟨hdepth, hphase⟩ := hfinish doc.history
  ⟨⟨h.depth, hdepth.trans h.groupDepth, fun _ => hphase.trans hidle.symm, h.audience⟩, h.inChange⟩

lemma Cut.played (h : Cut False f e doc) (hidle : f.phase = .idle)
    (hfinish : ∀ history, (finish history).depth = history.depth ∧ (finish history).phase = .idle) :
    Cut True f e (doc.onHistory finish) := by
  refine ⟨h.rests.played ?_ hfinish, h.outermost⟩
  split <;> exact hidle

lemma ends_playGroup (d : Direction) (h : Rests True f doc) (hidle : doc.history.phase = .idle)
    (group : ChangeGroup) {handed : History} (hdepth : handed.depth = doc.history.depth) :
    Ends (fun s => s = doc) (playGroup d group handed) (Rests True f) (Rests True f) (Cut True f) := by
  have hidle' : f.phase = .idle := (h.phase trivial).symm.trans hidle
  have hfinish (history : History) :
      (d.finish history).depth = history.depth ∧ (d.finish history).phase = .idle := by simp
  have hplayed := fun doc (hd : Rests False f doc) => hd.played hidle' hfinish
  refine Ends.bind (Q := Rests False f) (.alter fun _ hs => ?_) fun _ => Ends.bind
    ((restores_runUpdate (restores_replayAll _) f).ensuring hplayed hplayed fun e doc hd => ?_)
    fun _ => .pure true fun _ hd => hd
  · subst hs
    exact ⟨⟨h.depth, hdepth.trans h.groupDepth, False.elim, h.audience⟩, h.inChange⟩
  · exact Cut.played hd hidle' hfinish

end Playback

lemma restores_playBack (d : Direction) : Restores True (playBack d) := by
  refine Restores.bind (fun _ => ends_checkNotInChange) fun _ f => .state_bind fun doc h => ?_
  refine .lift_bind _ (fun given hok => ?_) fun _ hs => hs ▸ h
  obtain ⟨_ | group, handed⟩ := given
  · exact .pure _ fun _ hs => hs ▸ h
  rcases Direction.handOut_eq_ok hok with ⟨-, hnone, -⟩ | ⟨top, rest, -, -, rfl⟩
  · cases hnone
  · exact ends_playGroup d h (Direction.idle_of_handOut hok).2 group (Direction.handed_depth ..)

end Document

lemma Action.Aside.restores {σ α : Type} [HasDocument σ] {x : Action σ α} (h : x.Aside) {p : Prop} :
    Restores p x := fun _ => h.ends fun _ _ _ hd => ⟨hd.toStands.congr rfl, hd.inChange⟩

end EditableText
