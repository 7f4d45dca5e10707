import EditableText.Proofs.Document.Groups

namespace EditableText

def Call.Contained (c : Call) : Prop := c.Simple ∧ c ≠ .beginUpdate ∧ c ≠ .endUpdate

open EditableText.Action EditableText.Document

namespace Action

variable {σ α β : Type} {x : Action σ α} {f : α → Action σ β} {s t : σ} {deliveries : List Delivery}

lemma bind_state_of_ok {a : α} (hx : x s = ⟨.ok a, t, deliveries⟩) : ((x >>= f) s).state = (f a t).state := by
  change (Action.bind x f s).state = _
  rw [Action.bind, hx]

lemma bind_state_of_abandoned (hx : x s = ⟨.abandoned, t, deliveries⟩) : ((x >>= f) s).state = t := by
  change (Action.bind x f s).state = _
  rw [Action.bind, hx]

lemma ofExcept_state (r : Except DocumentError α) (s : σ) : (Action.ofExcept r s).state = s := by
  cases r <;> rfl

lemma bind_pure_state (x : Action σ α) (b : β) (s : σ) : ((x >>= fun _ => pure b) s).state = (x s).state := by
  change (Action.bind x (fun _ => Action.pure b) s).state = _
  rw [Action.bind]
  cases (x s).outcome <;> rfl

lemma onAbandoned_attempt_eq (x : Action σ α) (mend : σ → σ) (s : σ) :
    (∃ r, (x.onAbandoned mend).attempt s = ⟨.ok r, (x s).state, (x s).deliveries⟩) ∨
      (x.onAbandoned mend).attempt s = ⟨.abandoned, mend (x s).state, (x s).deliveries⟩ := by
  rcases hx : x s with ⟨outcome, state, deliveries⟩
  cases outcome with
  | ok a =>
    left
    exact ⟨.ok a, by simp [Action.attempt, Action.onAbandoned, hx]⟩
  | refused e =>
    left
    exact ⟨.error e, by simp [Action.attempt, Action.onAbandoned, hx]⟩
  | abandoned =>
    right
    simp [Action.attempt, Action.onAbandoned, hx]

lemma onAbandoned_abandon_state (x : Action σ α) (mend : σ → σ) (s : σ) :
    ((do
      let _ ← x.attempt
      abandon : Action σ β).onAbandoned mend s).state = mend (x s).state := by
  change (Action.onAbandoned (Action.bind x.attempt fun _ => abandon) mend s).state = _
  rcases hx : x s with ⟨outcome, state, deliveries⟩
  cases outcome <;> simp [Action.onAbandoned, Action.bind, Action.attempt, hx, abandon]

end Action

namespace Document

variable {doc mid after opened : Document} {log : List Notice}

lemma Step.ofRuns {c : Call} {s : Session} (hc : c.Simple) {α : Type} {x : Action Document α}
    {reply : α → Reply} (hperform : c.perform = Call.acting x reply) {a : α}
    (hrun : x.Runs s.document log (.ok a) after) :
    Step s.document (.call c (.ok (reply a))) (deliveriesOf log) after := by
  have hacting : c.perform.Runs s log (.ok (reply a)) { s with document := after } := by
    rw [hperform]
    exact Action.Runs.bind_silent hrun.onDocument (.pure _ _)
  have hstep := Step.call (s := s) hc
  rw [Action.Runs] at hacting
  rwa [hacting] at hstep

lemma Sound.runs_endUpdate (h : doc.Sound) {depth : Nat} (hd : doc.updateDepth = depth + 1) :
    ∃ log after, endUpdate.Runs doc log (.ok ()) after ∧ closeUpdate.Runs doc log (.ok ()) after ∧
      after.updateDepth = depth := by
  obtain ⟨log, after, hrun, -, hafter⟩ :=
    runs_closeUpdate h.quiet hd (History.endGroup_eq (h.depth.trans hd) h.single)
  exact ⟨log, after, runs_checkNotInChange h.inChange hrun, hrun, hafter⟩

end Document

namespace Call

variable {s : Session} {body : Action Session Unit}

def Stays (doc : Document) (_ : List Delivery) (after : Document) : Prop :=
  (doc.Sound → after.Sound) ∧
    (0 < doc.updateDepth → (∃ deeds, Inside doc deeds after) ∧ after.updateDepth = doc.updateDepth)

lemma composes_stays : Composes Stays where
  refl doc := ⟨fun h => h, fun _ => ⟨⟨[], .refl doc⟩, rfl⟩⟩
  trans h h' := by
    refine ⟨fun hd => h'.1 (h.1 hd), fun hopen => ?_⟩
    obtain ⟨⟨_, hinside⟩, hdepth⟩ := h.2 hopen
    obtain ⟨⟨_, hinside'⟩, hdepth'⟩ := h'.2 (hdepth ▸ hopen)
    exact ⟨⟨_, hinside.trans hinside'⟩, hdepth'.trans hdepth⟩
  sound h := h.1

lemma exists_opened (hbody : Follows True Stays body) (hs : s.document.Sound) :
    ∃ log inner, (onDocument Document.beginUpdate).Runs s log (.ok ()) inner ∧
      (∃ deeds, Bracketed s.document deeds (body inner).state.document.closeSilently) ∧
      ∃ log final, Document.endUpdate.Runs (body inner).state.document log (.ok ()) final ∧
        Document.closeUpdate.Runs (body inner).state.document log (.ok ()) final ∧
        ∃ deeds, Bracketed s.document deeds final := by
  obtain ⟨log, opened, hbegin, ho⟩ := runs_beginUpdate hs.quiet hs.inChange
  have hstep := Step.ofRuns (c := .beginUpdate) trivial rfl hbegin
  let inner : Session := { s with document := opened }
  have hsound : inner.document.Sound := (hs.opened ho).1
  obtain ⟨⟨hkept, hstays⟩, -⟩ := hbody inner hsound
  obtain ⟨⟨_, hinside⟩, hdepth⟩ := hstays ho.depth_pos
  -- the body comes back to the depth that it began with, so there is an update to let go of
  have hdone := hkept hsound
  have hd : (body inner).state.document.updateDepth = s.document.updateDepth + 1 := hdepth.trans ho.depth
  have hopen : 0 < (body inner).state.document.updateDepth := hd ▸ Nat.succ_pos _
  refine ⟨log, inner, hbegin.onDocument, ?_, ?_⟩
  · have hleft := left_closeSilently hdone.inChange hd (History.endGroup_eq (hdone.depth.trans hd) hdone.single)
    exact ⟨_, .mk hstep (hinside.step hopen (.unwind _)) (Nat.succ.inj (hleft.depth.symm.trans hd))⟩
  · obtain ⟨log', final, hend, hclose, hfinal⟩ := hdone.runs_endUpdate hd
    exact ⟨log', final, hend, hclose,
      _, .mk hstep (hinside.step hopen (Step.ofRuns (c := .endUpdate) trivial rfl hend)) hfinal⟩

lemma bracketed_runUpdate (hbody : Follows True Stays body) (hs : s.document.Sound) :
    ∃ deeds, Bracketed s.document deeds (Document.runUpdate body s).state.document := by
  obtain ⟨_, inner, hbegin, hsilent, _, final, hend, -, hfinal⟩ := exists_opened hbody hs
  rw [Document.runUpdate, bind_state_of_ok hbegin]
  rcases onAbandoned_attempt_eq body (inDocument closeSilently) inner with ⟨r, hattempt⟩ | hattempt
  · rw [bind_state_of_ok hattempt, bind_state_of_ok (hend.onDocument.attempt (r := .ok ()))]
    cases r with
    | ok a => exact hfinal
    | error e => exact hfinal
  · rw [bind_state_of_abandoned hattempt]
    exact hsilent

lemma bracketed_holding (hbody : Follows True Stays body) (ending : GroupEnding) (hs : s.document.Sound) :
    ∃ deeds, Bracketed s.document deeds (holding body ending s).state.document := by
  obtain ⟨_, inner, hbegin, hsilent, _, final, hend, hclose, hfinal⟩ := exists_opened hbody hs
  have hguard := onAbandoned_attempt_eq body (inDocument closeSilently) inner
  cases ending with
  | close =>
    rw [holding, bind_state_of_ok hbegin]
    rcases hguard with ⟨r, hattempt⟩ | hattempt
    · rw [bind_state_of_ok hattempt, bind_state_of_ok hend.onDocument, ofExcept_state]
      exact hfinal
    · rw [bind_state_of_abandoned hattempt]
      exact hsilent
  | drop =>
    rw [holding, bind_state_of_ok hbegin]
    rcases hguard with ⟨r, hattempt⟩ | hattempt
    · rw [bind_state_of_ok hattempt, bind_state_of_ok (hclose.onDocument.attempt (r := .ok ())), ofExcept_state]
      exact hfinal
    · rw [bind_state_of_abandoned hattempt]
      exact hsilent
  | fail =>
    rw [holding, bind_state_of_ok hbegin, onAbandoned_abandon_state]
    exact hsilent

lemma Follows.ofBracketed {α : Type} {x : Action Session α}
    (h : ∀ s : Session, s.document.Sound → ∃ deeds, Bracketed s.document deeds (x s).state.document) :
    Follows True Stays x := by
  intro s hs
  obtain ⟨deeds, hb⟩ := h s hs
  exact ⟨⟨hb.sound, fun hopen => ⟨⟨deeds, hb.inside hopen⟩, hb.depth_eq⟩⟩, fun _ => trivial⟩

lemma Contained.stays {c : Call} (hc : c.Contained) : Follows True Stays c.perform := by
  obtain ⟨hsimple, hbegin, hend⟩ := hc
  intro s hs
  have hstep : Step s.document _ _ _ := .call hsimple
  obtain ⟨log, -, hstepped⟩ := hstep.stepped hs
  refine ⟨⟨fun _ => hstepped.sound, fun hopen => ⟨⟨_, (Inside.refl _).step hopen hstep⟩, ?_⟩⟩, fun _ => trivial⟩
  cases hstepped.effect with
  | aside ha => exact ha.depth
  | edited _ he => exact he.depth_eq
  | opened _ hdeed => exact absurd (Deed.call.inj hdeed).1 hbegin
  | closed _ hdeed => exact absurd (Deed.call.inj hdeed).1 hend
  | unwound _ _ hdeed => cases hdeed
  | undone hd | redone hd | replaced hd => exact absurd hd (Nat.ne_of_gt hopen)

lemma carries_stays : Carries Contained (fun _ => True) True Stays where
  toComposes := composes_stays
  call := Contained.stays
  update hbody := .ofBracketed fun _ => bracketed_runUpdate hbody
  group _ hbody := .ofBracketed fun _ => bracketed_holding hbody _

theorem bracketed_perform {c : Call} {calls : List Call} (hcalls : EachOf Contained (fun _ => True) calls)
    (hc : c = .runUpdate calls ∨ ∃ ending, c = .group calls ending) (hs : s.document.Sound) :
    ∃ deeds, Bracketed s.document deeds (c.perform s).state.document := by
  have hbody := carries_stays.performAll calls hcalls
  rcases hc with rfl | ⟨ending, rfl⟩
  · rw [perform, bind_pure_state]
    exact bracketed_runUpdate hbody hs
  · rw [perform, bind_pure_state]
    exact bracketed_holding hbody ending hs

end Call

end EditableText
