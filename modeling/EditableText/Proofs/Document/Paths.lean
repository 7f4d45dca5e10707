import EditableText.Proofs.Document.Steps

/-!
Runs of calls as paths of steps. A call that holds other calls is a path as well: it opens an update,
goes through the calls one by one, and lets go of the update.
-/

namespace EditableText

mutual

def Call.Each (P : Call → Prop) (E : GroupEnding → Prop) : Call → Prop
  | .runUpdate calls => Call.EachOf P E calls
  | .group calls ending => Call.EachOf P E calls ∧ E ending
  | c => P c

def Call.EachOf (P : Call → Prop) (E : GroupEnding → Prop) : List Call → Prop
  | [] => True
  | c :: rest => c.Each P E ∧ Call.EachOf P E rest

end

structure Call.EachRule (P : Call → Prop) (E : GroupEnding → Prop) (X : Call → Prop) (Y : List Call → Prop) :
    Prop where
  single {c : Call} : P c → X c
  runUpdate {calls : List Call} : Y calls → X (.runUpdate calls)
  group {calls : List Call} {ending : GroupEnding} : E ending → Y calls → X (.group calls ending)
  nil : Y []
  cons {c : Call} {rest : List Call} : X c → Y rest → Y (c :: rest)

section EachRule

variable {P X : Call → Prop} {E : GroupEnding → Prop} {Y : List Call → Prop} (h : Call.EachRule P E X Y)

include h

mutual

theorem Call.EachRule.each : (c : Call) → c.Each P E → X c
  | .runUpdate calls, hc => h.runUpdate (Call.EachRule.eachOf calls hc)
  | .group calls _, hc => h.group hc.2 (Call.EachRule.eachOf calls hc.1)
  | .insert _ _, hc | .insertWithMovement _ _ _, hc | .remove _ _, hc | .replace _ _ _ _, hc
  | .replaceWithMap _ _ _ _, hc | .setText _, hc | .beginUpdate, hc | .endUpdate, hc | .undo, hc
  | .redo, hc | .canPlayBack, hc | .history _, hc | .query _, hc | .textLength, hc | .slice _ _, hc
  | .charAt _, hc | .line _, hc | .lineAt _, hc | .lineText _, hc | .location _, hc | .offsetOf _ _, hc
  | .newlineForLine _, hc | .options, hc | .identities, hc | .describe _, hc | .createAnchor _ _ _, hc
  | .releaseAnchor _, hc | .anchor _, hc | .anchorOffset _, hc | .anchorLocation _, hc
  | .isAnchorDeleted _, hc | .setAnchorMovement _ _, hc | .setAnchorSurvivesDeletion _ _, hc
  | .createAnchorSegment _ _, hc | .anchorSegment _, hc | .releaseAnchorSegment _, hc
  | .subscribe _ _, hc | .unsubscribe _, hc | .addReceiver, hc | .receive _ _, hc | .takeSnapshot, hc
  | .querySnapshot _ _, hc | .snapshotVersion _, hc => h.single hc

theorem Call.EachRule.eachOf : (calls : List Call) → Call.EachOf P E calls → Y calls
  | [], _ => h.nil
  | c :: rest, hc => h.cons (Call.EachRule.each c hc.1) (Call.EachRule.eachOf rest hc.2)

end

end EachRule

def Call.Holds : Call → Prop
  | .runUpdate _ | .group _ _ => True
  | _ => False

section Every

variable {P : Call → Prop} {E : GroupEnding → Prop}

mutual

theorem Call.each_of_single (h : ∀ c : Call, ¬ c.Holds → P c) (he : ∀ ending, E ending) :
    (c : Call) → c.Each P E
  | .runUpdate calls => Call.eachOf_of_single h he calls
  | .group calls _ => ⟨Call.eachOf_of_single h he calls, he _⟩
  | .insert _ _ | .insertWithMovement _ _ _ | .remove _ _ | .replace _ _ _ _ | .replaceWithMap _ _ _ _
  | .setText _ | .beginUpdate | .endUpdate | .undo | .redo | .canPlayBack | .history _ | .query _
  | .textLength | .slice _ _ | .charAt _ | .line _ | .lineAt _ | .lineText _ | .location _ | .offsetOf _ _
  | .newlineForLine _ | .options | .identities | .describe _ | .createAnchor _ _ _ | .releaseAnchor _
  | .anchor _ | .anchorOffset _ | .anchorLocation _ | .isAnchorDeleted _ | .setAnchorMovement _ _
  | .setAnchorSurvivesDeletion _ _ | .createAnchorSegment _ _ | .anchorSegment _ | .releaseAnchorSegment _
  | .subscribe _ _ | .unsubscribe _ | .addReceiver | .receive _ _ | .takeSnapshot | .querySnapshot _ _
  | .snapshotVersion _ => h _ id

theorem Call.eachOf_of_single (h : ∀ c : Call, ¬ c.Holds → P c) (he : ∀ ending, E ending) :
    (calls : List Call) → Call.EachOf P E calls
  | [] => trivial
  | c :: rest => ⟨Call.each_of_single h he c, Call.eachOf_of_single h he rest⟩

end

end Every

namespace Document

variable {doc mid after : Document} {deeds deeds' : List (Deed × List Delivery)}

inductive Path : Document → List (Deed × List Delivery) → Document → Prop
  | refl (doc : Document) : Path doc [] doc
  | step {doc mid after : Document} {deeds : List (Deed × List Delivery)} {deed : Deed}
    {deliveries : List Delivery} (h : Path doc deeds mid) (hs : Step mid deed deliveries after) :
    Path doc (deeds ++ [(deed, deliveries)]) after

namespace Path

lemma trans (h : Path doc deeds mid) (h' : Path mid deeds' after) : Path doc (deeds ++ deeds') after := by
  induction h' with
  | refl => simpa using h
  | step _ hs ih => exact List.append_assoc .. ▸ ih.step hs

lemma sound (h : Path doc deeds after) (hd : doc.Sound) : after.Sound := by
  induction h with
  | refl => exact hd
  | step _ hs ih =>
    obtain ⟨_, -, hstepped⟩ := hs.stepped ih
    exact hstepped.sound

end Path

end Document

open EditableText.Action EditableText.Document

namespace Document

def Trace (P : Deed → Prop) (doc : Document) (deliveries : List Delivery) (after : Document) : Prop :=
  ∃ deeds, Path doc deeds after ∧ deliveries = deeds.flatMap (·.2) ∧ ∀ d ∈ deeds, P d.1

lemma Step.trace {P : Deed → Prop} {deed : Deed} {deliveries : List Delivery}
    (h : Step doc deed deliveries after) (hdeed : P deed) : Trace P doc deliveries after :=
  ⟨[(deed, deliveries)], (Path.refl doc).step h, by simp, by simpa using hdeed⟩

end Document

structure Composes (R : Document → List Delivery → Document → Prop) : Prop where
  refl (doc : Document) : R doc [] doc
  trans {doc mid after : Document} {a b : List Delivery} : R doc a mid → R mid b after → R doc (a ++ b) after
  sound {doc after : Document} {a : List Delivery} : R doc a after → doc.Sound → after.Sound

lemma composes_trace (P : Deed → Prop) : Composes (Trace P) where
  refl doc := ⟨[], .refl doc, rfl, by simp⟩
  trans := by
    rintro doc mid after a b ⟨first, hfirst, rfl, hall⟩ ⟨second, hsecond, rfl, hall'⟩
    refine ⟨first ++ second, hfirst.trans hsecond, by simp, fun d hd => ?_⟩
    exact (List.mem_append.mp hd).elim (hall d) (hall' d)
  sound := by
    rintro doc after a ⟨deeds, h, -⟩ hd
    exact h.sound hd

namespace Call

variable {α β : Type} {x : Action Session α} {R : Document → List Delivery → Document → Prop} {A : Prop}

def Follows (A : Prop) (R : Document → List Delivery → Document → Prop) (x : Action Session α) : Prop :=
  ∀ s : Session, s.document.Sound →
    R s.document (x s).deliveries (x s).state.document ∧ ((x s).outcome = .abandoned → A)

namespace Follows

lemma still (hR : Composes R) (h : ∀ s, ∃ o, x s = ⟨o, s, []⟩ ∧ (o = .abandoned → A)) : Follows A R x := by
  intro s _
  obtain ⟨o, hx, ho⟩ := h s
  rw [hx]
  exact ⟨hR.refl _, ho⟩

lemma pure (hR : Composes R) (a : α) : Follows A R (Pure.pure a : Action Session α) :=
  still hR fun _ => ⟨.ok a, rfl, (Outcome.ok_ne_abandoned a).elim⟩

lemma ofExcept (hR : Composes R) (r : Except DocumentError α) : Follows A R (Action.ofExcept r) := by
  cases r with
  | ok a => exact .pure hR a
  | error e => exact still hR fun _ => ⟨.refused e, rfl, (Outcome.refused_ne_abandoned e).elim⟩

lemma bind (hR : Composes R) (hx : Follows A R x) {f : α → Action Session β} (hf : ∀ a, Follows A R (f a)) :
    Follows A R (x >>= f) := by
  intro s hs
  obtain ⟨hfirst, habandoned⟩ := hx s hs
  change R s.document (Action.bind x f s).deliveries (Action.bind x f s).state.document ∧
    ((Action.bind x f s).outcome = .abandoned → A)
  rw [Action.bind]
  cases hout : (x s).outcome with
  | ok a =>
    obtain ⟨hsecond, habandoned'⟩ := hf a (x s).state (hR.sound hfirst hs)
    exact ⟨hR.trans hfirst hsecond, habandoned'⟩
  | refused e => exact ⟨hfirst, by simp⟩
  | abandoned => exact ⟨hfirst, fun _ => habandoned hout⟩

lemma attempt (hx : Follows A R x) : Follows A R x.attempt := by
  intro s hs
  obtain ⟨hfirst, habandoned⟩ := hx s hs
  rw [Action.attempt]
  cases hout : (x s).outcome with
  | ok a => exact ⟨hfirst, by simp⟩
  | refused e => exact ⟨hfirst, by simp⟩
  | abandoned => exact ⟨hfirst, fun _ => habandoned hout⟩

lemma addReply (hR : Composes R) (reply : Except DocumentError Reply) :
    Follows A R (Action.alter (Session.addReply reply)) := by
  intro s _
  exact ⟨hR.refl _, (Outcome.ok_ne_abandoned ()).elim⟩

end Follows

/-- What holds of single calls, and of an update if it holds of what is done in it, holds of all calls. -/
structure Carries (P : Call → Prop) (E : GroupEnding → Prop) (A : Prop)
    (R : Document → List Delivery → Document → Prop) : Prop extends Composes R where
  call {c : Call} : P c → Follows A R c.perform
  update {body : Action Session Unit} : Follows A R body → Follows A R (Document.runUpdate body)
  group {body : Action Session Unit} {ending : GroupEnding} :
    E ending → Follows A R body → Follows A R (holding body ending)

section Carries

variable {P : Call → Prop} {E : GroupEnding → Prop} (h : Carries P E A R)

include h

lemma Carries.rule :
    EachRule P E (fun c => Follows A R c.perform) fun calls => Follows A R (performAll calls) := by
  have hR := h.toComposes
  refine ⟨h.call, fun {calls} hcalls => ?_, fun {calls ending} hending hcalls => ?_, ?_,
    fun {c rest} hc hrest => ?_⟩
  · rw [Call.perform]
    exact (h.update hcalls).bind hR fun _ => .pure hR _
  · rw [Call.perform]
    exact (h.group hending hcalls).bind hR fun _ => .pure hR _
  · rw [Call.performAll]
    exact .pure hR ()
  · rw [Call.performAll]
    exact hc.attempt.bind hR fun reply => (Follows.addReply hR reply).bind hR fun _ =>
      (Follows.ofExcept hR reply).bind hR fun _ => hrest

theorem Carries.perform (c : Call) (hc : c.Each P E) : Follows A R c.perform := h.rule.each c hc

theorem Carries.performAll (calls : List Call) (hcalls : Call.EachOf P E calls) : Follows A R (performAll calls) :=
  h.rule.eachOf calls hcalls

end Carries

structure Admits (P : Call → Prop) (A : Prop) (Q : Deed → Prop) : Prop where
  simple {c : Call} : P c → c.Simple
  call {c : Call} (o : Outcome Reply) : P c → Q (.call c o)
  beginUpdate (o : Outcome Reply) : Q (.call .beginUpdate o)
  endUpdate (o : Outcome Reply) : Q (.call .endUpdate o)
  unwind : A → Q .unwind

section Traces

variable {P : Call → Prop} {Q : Deed → Prop}

lemma Follows.onAbandoned (hx : Follows A (Trace Q) x) (hunwind : A → Q .unwind) :
    Follows A (Trace Q) (x.onAbandoned (inDocument closeSilently)) := by
  intro s hs
  obtain ⟨hfirst, habandoned⟩ := hx s hs
  rw [Action.onAbandoned]
  cases hout : (x s).outcome with
  | ok a => exact ⟨hfirst, habandoned⟩
  | refused e => exact ⟨hfirst, habandoned⟩
  | abandoned =>
    have hmay := habandoned hout
    have hboth := (composes_trace Q).trans hfirst ((Step.unwind _).trace (hunwind hmay))
    rw [List.append_nil] at hboth
    exact ⟨hboth, fun _ => hmay⟩

lemma follows_of_simple {c : Call} (hc : c.Simple) (hQ : ∀ o, Q (.call c o)) : Follows A (Trace Q) c.perform := by
  intro s hs
  obtain ⟨_, -, -, hlives⟩ := hs.explained hc
  exact ⟨(Step.call hc).trace (hQ _), fun habandoned => absurd habandoned hlives⟩

lemma follows_onDocument {c : Call} (hc : c.Simple) (hQ : ∀ o, Q (.call c o)) {x : Action Document α}
    {reply : α → Reply} (hperform : c.perform = acting x reply) :
    Follows A (Trace Q) (Action.onDocument x : Action Session α) := by
  intro s hs
  have htrace := follows_of_simple (A := A) hc hQ s hs
  have hsame : (c.perform s).state = (Action.onDocument x s).state ∧
      (c.perform s).deliveries = (Action.onDocument x s).deliveries ∧
      ((Action.onDocument x s).outcome = .abandoned → (c.perform s).outcome = .abandoned) := by
    rw [hperform]
    change (Action.bind _ _ s).state = _ ∧ (Action.bind _ _ s).deliveries = _ ∧
      (_ → (Action.bind _ _ s).outcome = _)
    rw [Action.bind]
    cases hout : (Action.onDocument x s).outcome with
    | ok a => exact ⟨rfl, List.append_nil _, by simp⟩
    | refused e => exact ⟨rfl, rfl, by simp⟩
    | abandoned => exact ⟨rfl, rfl, fun _ => rfl⟩
  obtain ⟨hstate, hdeliveries, houtcome⟩ := hsame
  rw [hstate, hdeliveries] at htrace
  exact ⟨htrace.1, fun habandoned => htrace.2 (houtcome habandoned)⟩

namespace Admits

variable (h : Admits P A Q) {body : Action Session Unit}

include h

lemma follows_beginUpdate : Follows A (Trace Q) (onDocument Document.beginUpdate) :=
  follows_onDocument (c := .beginUpdate) trivial h.beginUpdate rfl

lemma follows_endUpdate : Follows A (Trace Q) (onDocument Document.endUpdate) :=
  follows_onDocument (c := .endUpdate) trivial h.endUpdate rfl

lemma follows_closeUpdate : Follows A (Trace Q) (onDocument Document.closeUpdate) := by
  intro s hs
  have htrace := h.follows_endUpdate s hs
  rw [Action.onDocument] at htrace ⊢
  exact endUpdate_eq hs.inChange ▸ htrace

lemma follows_runUpdate (hbody : Follows A (Trace Q) body) : Follows A (Trace Q) (Document.runUpdate body) := by
  have hR := composes_trace Q
  exact h.follows_beginUpdate.bind hR fun _ => (hbody.onAbandoned h.unwind).attempt.bind hR fun result =>
    h.follows_endUpdate.attempt.bind hR fun closed => (Follows.ofExcept hR result).bind hR fun _ =>
      (Follows.ofExcept hR closed).bind hR fun _ => .pure hR _

lemma follows_holding {ending : GroupEnding} (hending : ending = .fail → A)
    (hbody : Follows A (Trace Q) body) : Follows A (Trace Q) (holding body ending) := by
  have hR := composes_trace Q
  have hguarded := (hbody.onAbandoned h.unwind).attempt
  cases ending with
  | close =>
    exact h.follows_beginUpdate.bind hR fun _ => hguarded.bind hR fun result =>
      h.follows_endUpdate.bind hR fun _ => .ofExcept hR result
  | drop =>
    exact h.follows_beginUpdate.bind hR fun _ => hguarded.bind hR fun result =>
      h.follows_closeUpdate.attempt.bind hR fun _ => .ofExcept hR result
  | fail =>
    have hfails : Follows A (Trace Q) (Action.abandon : Action Session Unit) :=
      .still hR fun _ => ⟨.abandoned, rfl, fun _ => hending rfl⟩
    exact h.follows_beginUpdate.bind hR fun _ =>
      Follows.onAbandoned (hbody.attempt.bind hR fun _ => hfails) h.unwind

lemma carries {E : GroupEnding → Prop} (hending : E .fail → A) : Carries P E A (Trace Q) where
  toComposes := composes_trace Q
  call hc := follows_of_simple (h.simple hc) fun o => h.call o hc
  update := h.follows_runUpdate
  group he := h.follows_holding fun hfail => hending (hfail ▸ he)

end Admits

lemma admits_simple : Admits Simple True fun _ => True :=
  ⟨fun h => h, fun _ _ => trivial, fun _ => trivial, fun _ => trivial, fun _ => trivial⟩

end Traces

end Call

end EditableText
