import EditableText.Proofs.Document.Recording

namespace EditableText

namespace Action

variable {σ α : Type} {P S Q R : σ → Prop} {A : DocumentEvent → σ → Prop} {x : Action σ α} {V : Delivery → Prop}

lemma Ends.seeing (h : Ends P x Q R A) (hsees : Sees S x V) :
    Ends (fun s => P s ∧ S s) x Q R fun e s => A e s ∧ ∃ d, d.event = e ∧ V d := by
  intro s hs
  have hrun := h s hs.1
  rw [Run.EndsIn] at hrun ⊢
  cases ho : (x s).outcome with
  | ok a => rwa [ho] at hrun
  | refused e => rwa [ho] at hrun
  | abandoned =>
    rw [ho] at hrun
    obtain ⟨last, hlast, hstate⟩ := hrun
    exact ⟨last, hlast, hstate, last, rfl, hsees s hs.2 last (List.mem_of_getLast? hlast)⟩

end Action

open EditableText.Action

namespace History

variable {h after : History}

lemma commit_acceptsChanges : h.commit.acceptsChanges = h.acceptsChanges := by
  rw [commit]
  split <;> rfl

lemma endGroup_acceptsChanges (hend : h.endGroup = .ok after) : after.acceptsChanges = h.acceptsChanges := by
  rw [endGroup] at hend
  split at hend
  case h_1 => cases hend
  case h_2 =>
    obtain rfl := Except.ok.inj hend
    dsimp only
    split
    · exact commit_acceptsChanges
    · rfl

lemma push_acceptsChanges {c : Change} (hpush : h.push c = .ok after) :
    after.acceptsChanges = h.acceptsChanges := by
  rw [push] at hpush
  split at hpush
  case h_1 => exact Except.ok.inj hpush ▸ rfl
  case h_2 => cases hpush
  case h_3 =>
    split at hpush
    · exact Except.ok.inj hpush ▸ rfl
    · split at hpush <;> exact Except.ok.inj hpush ▸ rfl

lemma clear_acceptsChanges (hclear : h.clear = .ok after) : after.acceptsChanges = h.acceptsChanges := by
  rw [clear] at hclear
  split at hclear
  · cases hclear
  · exact Except.ok.inj hclear ▸ rfl

end History

namespace Document

variable {doc start : Document} {t : Text} {options : DocumentOptions} {f : Footing} {accepts : Bool}

lemma handled_accepts (accepts : Bool) : Handled fun h => h.acceptsChanges = accepts where
  startGroup h := h
  endGroup h hend := (History.endGroup_acceptsChanges hend).trans h
  push h hpush := (History.push_acceptsChanges hpush).trans h
  enterModify {h} hh := by
    rw [History.enterModify]
    split <;> exact hh
  exitModify {h} hh := by
    rw [History.exitModify]
    split <;> exact hh

def Accepts (accepts : Bool) (doc : Document) : Prop := doc.history.acceptsChanges = accepts

lemma ends_replaceAll_accepts (inserted : Text) :
    Ends (fun doc => Rests True f doc ∧ Accepts accepts doc) (runUpdate do
      let doc ← .state
      remove 0 doc.textLength
      insert 0 inserted : Action Document Unit) (Accepts accepts) (Accepts accepts)
      fun e doc => e ≠ .textReplaced ∧ Accepts accepts doc := by
  have hkeeps := (handled_accepts accepts).keeps_replaceAll inserted
  have hsees := (handled_accepts accepts).sees_replaceAll (V := fun d => d.event ≠ .textReplaced)
    (fun _ hevent _ => hevent) inserted
  refine (((restores_replaceAll inserted f).keeping hkeeps).seeing hsees).mono (fun _ h => ⟨h, h.2⟩)
    (fun _ h => h.2) (fun _ h => h.2) fun e _ ⟨⟨_, haccepts⟩, d, hd, hevent⟩ => ⟨hd ▸ hevent, haccepts⟩

lemma ends_setText_accepts (h : Rests True f doc) (inserted : Text) :
    Ends (fun doc' => doc' = doc) (setText inserted) (Accepts doc.history.acceptsChanges)
      (Accepts doc.history.acceptsChanges)
      fun e => Accepts (if e = .textReplaced then doc.history.acceptsChanges else false) := by
  let before := doc.history.acceptsChanges
  have hback : Ends (Accepts false) (.alter (setAcceptsChanges before)) (Accepts before) (Accepts before)
      fun e => Accepts (if e = .textReplaced then before else false) := .alter fun _ _ => rfl
  have hreplace : Ends (fun doc => Rests True f doc ∧ Accepts false doc) (runUpdate do
      let doc ← .state
      remove 0 doc.textLength
      insert 0 inserted : Action Document Unit) (Accepts false) (Accepts false)
      fun e => Accepts (if e = .textReplaced then before else false) := by
    refine (ends_replaceAll_accepts inserted).imp_cut fun e doc hcut => ?_
    rw [if_neg hcut.1]
    exact hcut.2
  have hcheck : ∀ doc', doc' = doc → doc'.inChange = false := fun _ hs => hs ▸ h.inChange
  refine (ends_checkNotInChange_of hcheck).bind fun _ => .state_bind fun doc' hs => ?_
  subst hs
  refine .ite (.refuse_bind _ fun _ hs => hs ▸ rfl) ?_
  refine Ends.bind (Q := fun doc => Rests True f doc ∧ Accepts false doc) (.alter fun _ hs => ?_) fun _ =>
    hreplace.attempt_bind (fun _ => hback.bind fun _ => ?_) fun e => hback.bind fun _ =>
      .refuse_bind e fun _ h => h
  · subst hs
    exact ⟨h.withHistory rfl fun _ => rfl, rfl⟩
  refine Ends.bind (Q := Accepts before) (.pure () fun _ h => h) fun _ => .state_bind fun doc haccepts => ?_
  refine .lift_bind _ (fun history hclear => ?_) fun _ hs => hs ▸ haccepts
  refine Ends.bind (Q := Accepts before) (.alter fun _ _ => ?_) fun _ =>
    ends_emit _ (fun _ h => h) fun _ _ h _ _ => ?_
  · exact (History.clear_acceptsChanges hclear).trans haccepts
  · rw [if_pos rfl]
    exact h

/-- The switch is as it was once the whole text is replaced, and so it is if this is refused or if a listener
fails when it hears that it is done. If a listener fails before, recording stays off. -/
theorem replacing_turns_recording_on_again (h : Reachable t options doc) (inserted : Text) :
    let run := setText inserted doc
    (run.outcome ≠ .abandoned → run.state.history.acceptsChanges = doc.history.acceptsChanges) ∧
      (run.outcome = .abandoned → ∃ last, run.deliveries.getLast? = some last ∧
        run.state.history.acceptsChanges =
          if last.event = .textReplaced then doc.history.acceptsChanges else false) := by
  intro run
  have hrests : Rests True doc.footing doc := ⟨⟨rfl, rfl, fun _ => rfl, rfl⟩, h.atRest.inChange⟩
  have hends : run.EndsIn _ _ _ := ends_setText_accepts hrests inserted doc rfl
  refine ⟨fun ho => ?_, hends.of_abandoned⟩
  rw [Run.EndsIn] at hends
  cases hout : run.outcome with
  | ok a => rwa [hout] at hends
  | refused e => rwa [hout] at hends
  | abandoned => exact absurd hout ho

theorem replacing_turns_recording_on_again_if_told :
    ∃ start listened, ofText? ['b'] .default = some start ∧
      listened =
        ((Call.subscribe "log" fun heard => heard.head? == some .textReplaced).perform (.start start)).state ∧
      (setText ['a'] listened.document).outcome = .abandoned ∧
      (setText ['a'] listened.document).state.text = ['a'] ∧
      (setText ['a'] listened.document).state.history.acceptsChanges = true := by
  obtain ⟨start, hstart⟩ : ∃ start, ofText? ['b'] .default = some start := ⟨_, rfl⟩
  obtain ⟨listened, hlisten⟩ : ∃ s,
      s = ((Call.subscribe "log" fun heard => heard.head? == some .textReplaced).perform (.start start)).state :=
    ⟨_, rfl⟩
  have h : Reachable ['b'] .default listened.document :=
    hlisten ▸ Reachable.call (s := .start start) (.start hstart) _
  obtain ⟨ho, htext, hevent, haccepts⟩ : (setText ['a'] listened.document).outcome = .abandoned ∧
      (setText ['a'] listened.document).state.text = ['a'] ∧
      (setText ['a'] listened.document).deliveries.getLast?.map (·.event) = some .textReplaced ∧
      listened.document.history.acceptsChanges = true := by
    obtain rfl := Option.some.inj hstart
    subst hlisten
    decide +kernel
  obtain ⟨last, hlast, hafter⟩ := (replacing_turns_recording_on_again h ['a']).2 ho
  rw [hlast, Option.map_some, Option.some.injEq] at hevent
  rw [if_pos hevent, haccepts] at hafter
  exact ⟨start, listened, hstart, hlisten, ho, htext, hafter⟩

/-- The listener fails when it hears of the change, and recording stays off. -/
theorem recording_stays_off_if_listener_fails :
    ∃ doc, Reachable [] .default doc ∧ doc.history.acceptsChanges = true ∧
      (setText ['a'] doc).outcome = .abandoned ∧ (setText ['a'] doc).state.history.acceptsChanges = false := by
  obtain ⟨start, hstart⟩ : ∃ start, ofText? [] .default = some start := ⟨_, rfl⟩
  let fails (heard : List DocumentEvent) : Bool := heard.head?.any (·.name == "changed")
  refine ⟨_, Reachable.call (s := .start start) (.start hstart) (.subscribe "log" fails), ?_⟩
  obtain rfl := Option.some.inj hstart
  decide +kernel

end Document

end EditableText
