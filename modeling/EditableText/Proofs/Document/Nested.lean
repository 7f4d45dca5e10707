import EditableText.Proofs.Document.Paths
import EditableText.Proofs.Document.Views

namespace EditableText

open EditableText.Action

namespace Call

variable {s : Session} {saved saved' : Text} {P : Call → Prop}

def opened (s : Session) : Session := ((onDocument Document.beginUpdate : Action Session Unit) s).state

lemma performAll_cons (c : Call) (rest : List Call) (s : Session) :
    performAll (c :: rest) s = match (c.perform s).outcome with
      | .ok reply =>
        let later := performAll rest ((c.perform s).state.addReply (.ok reply))
        { later with deliveries := (c.perform s).deliveries ++ later.deliveries }
      | .refused e => ⟨.refused e, (c.perform s).state.addReply (.error e), (c.perform s).deliveries⟩
      | .abandoned => ⟨.abandoned, (c.perform s).state, (c.perform s).deliveries⟩ := by
  rw [performAll]
  change Action.bind (c.perform).attempt _ s = _
  simp only [Action.bind, Action.attempt]
  cases (c.perform s).outcome with
  | ok reply => rfl
  | refused e =>
    change Run.mk _ _ (_ ++ ([] ++ [])) = _
    rw [List.append_nil, List.append_nil]
    rfl
  | abandoned => rfl

lemma replying (x : Action Session Unit) (s : Session) : ∃ o, (do
    x
    return .nothing : Action Session Reply) s = ⟨o, (x s).state, (x s).deliveries⟩ := by
  change ∃ o, Action.bind x _ s = _
  simp only [Action.bind]
  cases (x s).outcome with
  | ok a => exact ⟨_, congrArg (Run.mk _ _) (List.append_nil _)⟩
  | refused e => exact ⟨_, rfl⟩
  | abandoned => exact ⟨_, rfl⟩

/-- How the text that counts as saved is known from call to call, also in the calls that another one holds. -/
structure Tracks (one : Call → Session → Text → Option Text) (all : List Call → Session → Text → Option Text) :
    Prop where
  runUpdate (calls : List Call) (s : Session) (saved : Text) :
    one (runUpdate calls) s saved = all calls (opened s) saved
  group (calls : List Call) (ending : GroupEnding) (s : Session) (saved : Text) :
    one (group calls ending) s saved = all calls (opened s) saved
  nil (s : Session) (saved : Text) : all [] s saved = some saved
  cons (c : Call) (rest : List Call) (s : Session) (saved : Text) :
    all (c :: rest) s saved = (one c s saved).bind fun saved =>
      match (perform c s).outcome with
      | .ok reply => all rest ((perform c s).state.addReply (.ok reply)) saved
      | _ => some saved

structure Sustains (I : Text → Document → Prop) (V : Delivery → Prop) : Prop where
  begins {saved : Text} {doc : Document} : I saved doc → ∃ a, (Document.beginUpdate doc).outcome = .ok a
  beginUpdate (saved : Text) : Keeps (I saved) Document.beginUpdate ∧ Sees (I saved) Document.beginUpdate V
  endUpdate (saved : Text) : Keeps (I saved) Document.endUpdate ∧ Sees (I saved) Document.endUpdate V
  closeUpdate (saved : Text) : Keeps (I saved) Document.closeUpdate ∧ Sees (I saved) Document.closeUpdate V
  unwound {saved : Text} {doc : Document} : I saved doc → I saved doc.closeSilently

namespace Sustains

variable {I : Text → Document → Prop} {V : Delivery → Prop} (h : Sustains I V)

include h

lemma triple_opened {E : Session → Prop} (hs : I saved s.document) :
    Triple (fun s' => s' = s) (onDocument Document.beginUpdate) (fun s' => s' = opened s) E ∧
      Sees (fun s' => s' = s) (onDocument Document.beginUpdate : Action Session Unit) V ∧
        I saved (opened s).document := by
  refine ⟨?_, ?_, (h.beginUpdate saved).1.state hs⟩
  · intro s' heq
    obtain ⟨a, ha⟩ := h.begins hs
    have hout : ((onDocument Document.beginUpdate : Action Session Unit) s).outcome = .ok a := ha
    rw [heq, Run.Leaves, hout]
    rfl
  · rintro _ rfl
    exact (h.beginUpdate saved).2 _ hs

section Body

variable {body : Action Session Unit} (hs : I saved s.document)
  (hbody : I saved (opened s).document → I saved' (body (opened s)).state.document ∧
    ∀ d ∈ (body (opened s)).deliveries, V d)

include hs hbody

lemma inside : Triple (fun s' => s' = opened s) (body.onAbandoned (inDocument Document.closeSilently)).attempt
      (Held (I saved')) (Held (I saved')) ∧
    Sees (fun s' => s' = opened s) (body.onAbandoned (inDocument Document.closeSilently)).attempt V := by
  obtain ⟨hstate, hsees⟩ := hbody (h.triple_opened (E := fun _ => True) hs).2.2
  have hleaves : Triple (fun s' => s' = opened s) body (Held (I saved')) (Held (I saved')) := by
    rintro _ rfl
    exact Run.leaves_self.mpr hstate
  have htold : Sees (fun s' => s' = opened s) body V := by
    rintro _ rfl
    exact hsees
  exact ⟨(hleaves.onAbandoned fun _ => held_inDocument fun _ => h.unwound).attempt, (htold.onAbandoned _).attempt⟩

lemma runUpdate : I saved' (Document.runUpdate body s).state.document ∧
    ∀ d ∈ (Document.runUpdate body s).deliveries, V d := by
  obtain ⟨hopen, hopened, -⟩ := h.triple_opened (E := Held (I saved')) hs
  obtain ⟨hguarded, hguardedSees⟩ := h.inside hs hbody
  obtain ⟨hclose, hcloseSees⟩ := h.endUpdate saved'
  have hleaves : Triple (fun s' => s' = s) (Document.runUpdate body) (Held (I saved')) (Held (I saved')) :=
    hopen.bind fun _ => hguarded.bind fun result => hclose.onDocument.attempt.bind fun closed =>
      (Keeps.ofExcept result).bind fun _ => (Keeps.ofExcept closed).bind fun _ => .pure _
  have hsees : Sees (fun s' => s' = s) (Document.runUpdate body) V := by
    refine hopened.bind hopen fun _ => hguardedSees.bind hguarded fun result =>
      hcloseSees.onDocument.attempt.bind hclose.onDocument.attempt fun closed => .silent fun s => ?_
    cases result with
    | error e => rfl
    | ok a => cases closed <;> rfl
  exact ⟨Run.leaves_self.mp (hleaves s rfl), hsees s rfl⟩

lemma holding (ending : GroupEnding) : I saved' (Call.holding body ending s).state.document ∧
    ∀ d ∈ (Call.holding body ending s).deliveries, V d := by
  obtain ⟨hopen, hopened, hinner⟩ := h.triple_opened (E := Held (I saved')) hs
  obtain ⟨hguarded, hguardedSees⟩ := h.inside hs hbody
  suffices hholding : Triple (fun s' => s' = s) (Call.holding body ending) (Held (I saved')) (Held (I saved')) ∧
      Sees (fun s' => s' = s) (Call.holding body ending) V from
    ⟨Run.leaves_self.mp (hholding.1 s rfl), hholding.2 s rfl⟩
  cases ending with
  | close =>
    obtain ⟨hclose, hcloseSees⟩ := h.endUpdate saved'
    exact ⟨hopen.bind fun _ => hguarded.bind fun result => hclose.onDocument.bind fun _ => .ofExcept result,
      hopened.bind hopen fun _ => hguardedSees.bind hguarded fun result =>
        hcloseSees.onDocument.bind hclose.onDocument fun _ => .ofExcept result⟩
  | drop =>
    obtain ⟨hclose, hcloseSees⟩ := h.closeUpdate saved'
    exact ⟨hopen.bind fun _ => hguarded.bind fun result =>
        hclose.onDocument.attempt.bind fun _ => .ofExcept result,
      hopened.bind hopen fun _ => hguardedSees.bind hguarded fun result =>
        hcloseSees.onDocument.attempt.bind hclose.onDocument.attempt fun _ => .ofExcept result⟩
  | fail =>
    obtain ⟨hstate, hsees⟩ := hbody hinner
    have hleaves : Triple (fun s' => s' = opened s) (do
        let _ ← body.attempt
        .abandon : Action Session Unit) (Held (I saved')) (Held (I saved')) := by
      refine Triple.bind (Q := Held (I saved')) (Triple.attempt ?_) fun _ => .abandon fun _ hs => hs
      rintro _ rfl
      exact Run.leaves_self.mpr hstate
    have htold : Sees (fun s' => s' = opened s) (do
        let _ ← body.attempt
        .abandon : Action Session Unit) V := by
      refine Sees.bind (Q := fun _ => True) (E := fun _ => True) (Sees.attempt ?_)
        (Triple.attempt fun _ _ => Run.leaves_self.mpr trivial) fun _ => .silent fun _ => rfl
      rintro _ rfl
      exact hsees
    exact ⟨hopen.bind fun _ => hleaves.onAbandoned fun _ => held_inDocument fun _ => h.unwound,
      hopened.bind hopen fun _ => htold.onAbandoned _⟩

end Body

lemma rule {one : Call → Session → Text → Option Text} {all : List Call → Session → Text → Option Text}
    (ht : Tracks one all) (hsingle : ∀ {c s saved saved'}, P c → I saved s.document →
      one c s saved = some saved' → I saved' (c.perform s).state.document ∧ ∀ d ∈ (c.perform s).deliveries, V d) :
    EachRule P (fun _ => True)
      (fun c => ∀ s saved saved', I saved s.document → one c s saved = some saved' →
        I saved' (c.perform s).state.document ∧ ∀ d ∈ (c.perform s).deliveries, V d)
      fun calls => ∀ s saved saved', I saved s.document → all calls s saved = some saved' →
        I saved' (performAll calls s).state.document ∧ ∀ d ∈ (performAll calls s).deliveries, V d := by
  constructor
  case single => exact fun hc s saved saved' => hsingle hc
  case runUpdate =>
    intro calls hcalls s saved saved' hs hsaved
    rw [ht.runUpdate] at hsaved
    obtain ⟨hstate, hsees⟩ := h.runUpdate hs fun hopened => hcalls _ saved saved' hopened hsaved
    rw [perform]
    obtain ⟨o, hreply⟩ := replying (Document.runUpdate (performAll calls)) s
    rw [hreply]
    exact ⟨hstate, hsees⟩
  case group =>
    intro calls ending _ hcalls s saved saved' hs hsaved
    rw [ht.group] at hsaved
    obtain ⟨hstate, hsees⟩ := h.holding hs (fun hopened => hcalls _ saved saved' hopened hsaved) ending
    rw [perform]
    obtain ⟨o, hreply⟩ := replying (Call.holding (performAll calls) ending) s
    rw [hreply]
    exact ⟨hstate, hsees⟩
  case nil =>
    intro s saved saved' hs hsaved
    obtain rfl := Option.some.inj ((ht.nil s saved).symm.trans hsaved)
    rw [performAll]
    exact ⟨hs, by simp [Pure.pure, Action.pure]⟩
  case cons =>
    intro c rest hc hrest s saved saved' hs hsaved
    rw [ht.cons] at hsaved
    obtain ⟨between, hbetween, hsaved⟩ := Option.bind_eq_some_iff.mp hsaved
    obtain ⟨hfirst, hsees⟩ := hc s saved between hs hbetween
    rw [performAll_cons]
    cases hout : (c.perform s).outcome with
    | ok reply =>
      rw [hout] at hsaved
      obtain ⟨hlater, hlaterSees⟩ := hrest ((c.perform s).state.addReply (.ok reply)) between saved' hfirst hsaved
      exact ⟨hlater, fun d hd => (List.mem_append.mp hd).elim (hsees d) (hlaterSees d)⟩
    | refused e =>
      rw [hout] at hsaved
      obtain rfl := Option.some.inj hsaved
      exact ⟨hfirst, hsees⟩
    | abandoned =>
      rw [hout] at hsaved
      obtain rfl := Option.some.inj hsaved
      exact ⟨hfirst, hsees⟩

end Sustains

end Call

end EditableText
