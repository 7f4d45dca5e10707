import EditableText.Document.Anchors
import EditableText.Proofs.Document.Alike
import EditableText.Proofs.Document.Directions

namespace EditableText

open EditableText.Action

namespace Document

variable {doc doc' : Document}

lemma ofEvent_alike (event : DocumentEvent) (h : doc.Alike doc') (listeners : List Listener) :
    (Hearing.ofEvent event doc listeners).listeners = (Hearing.ofEvent event doc' listeners).listeners ∧
      (Hearing.ofEvent event doc listeners).failed = (Hearing.ofEvent event doc' listeners).failed ∧
      List.Forall₂ Delivery.Alike (Hearing.ofEvent event doc listeners).deliveries
        (Hearing.ofEvent event doc' listeners).deliveries := by
  induction listeners with
  | nil => exact ⟨rfl, rfl, .nil⟩
  | cons l rest ih =>
    obtain ⟨hlisteners, hfailed, hdeliveries⟩ := ih
    simp only [Hearing.ofEvent]
    split
    · exact ⟨rfl, rfl, .cons ⟨rfl, rfl, rfl, h⟩ .nil⟩
    · exact ⟨by rw [hlisteners], hfailed, .cons ⟨rfl, rfl, rfl, h⟩ hdeliveries⟩

lemma blind_emit (event : DocumentEvent) : Blind Alike (emit event) := by
  intro doc doc' h
  obtain ⟨storage, buffer, hs, rfl⟩ := alike_iff.mp h
  obtain ⟨hlisteners, hfailed, hdeliveries⟩ := ofEvent_alike event h doc.listeners
  rw [emit, emit]
  dsimp only
  rw [← hfailed, ← hlisteners]
  split
  · exact .abandoned ⟨hs, rfl⟩ hdeliveries
  · exact .ok rfl ⟨hs, rfl⟩ hdeliveries

lemma blind_emitAll (events : List DocumentEvent) : Blind Alike (emitAll events) := by
  induction events with
  | nil => exact .pure ()
  | cons event rest ih => exact (blind_emit event).bind fun _ => ih

lemma mutate_alike (h : doc.Alike doc') (c : Change) :
    Except.Alike (fun r r' => r.1 = r'.1 ∧ r.2.Alike r'.2) (doc.mutate c) (doc'.mutate c) := by
  obtain ⟨storage, buffer, hs, rfl⟩ := alike_iff.mp h
  rw [mutate, mutate]
  refine (hs.remove c.offset c.removed.length).bind fun r r' hr => ?_
  refine (hr.2.insert c.offset c.inserted).bind fun after after' hafter => ?_
  dsimp only
  rw [LineTable.applyEdit_congr hafter.charsFrom_eq, hafter.length_eq]
  refine (Except.Alike.refl _).bind fun lines _ hlines => ?_
  subst hlines
  exact .ok ⟨rfl, hafter, rfl⟩

lemma record_alike (h : doc.Alike doc') (c : Change) :
    (doc.record c).1 = (doc'.record c).1 ∧ (doc.record c).2.Alike (doc'.record c).2 := by
  obtain ⟨storage, buffer, hs, rfl⟩ := alike_iff.mp h
  rw [record, record]
  dsimp only
  cases doc.history.push c with
  | ok history => exact ⟨rfl, hs, rfl⟩
  | error e => exact ⟨rfl, hs, rfl⟩

def Uniform (f : Document → Document) : Prop := ∀ doc storage buffer,
  f { doc with storage, options := { doc.options with buffer } } =
      { f doc with storage, options := { (f doc).options with buffer } } ∧ (f doc).storage = doc.storage

lemma Uniform.alike {f : Document → Document} (hf : Uniform f) (h : doc.Alike doc') : (f doc).Alike (f doc') := by
  obtain ⟨storage, buffer, hs, rfl⟩ := alike_iff.mp h
  obtain ⟨hafter, hsame⟩ := hf doc storage buffer
  rw [hafter]
  exact ⟨hsame ▸ hs, rfl⟩

lemma blind_alter {f : Document → Document} (hf : Uniform f) : Blind Alike (.alter f) := .alter fun _ _ => hf.alike

lemma uniform_onHistory (f : History → History) : Uniform (onHistory f) := fun _ _ _ => ⟨rfl, rfl⟩

lemma blind_applyChange (c : Change) : Blind Alike (applyChange c) := by
  rw [applyChange]
  refine Blind.bind (blind_alter fun _ _ _ => ⟨rfl, rfl⟩) fun _ => (blind_emit _).bind fun _ => ?_
  refine Blind.reading fun doc doc' h => ?_
  have hmutated := mutate_alike h c
  generalize doc.mutate c = mutated, doc'.mutate c = mutated' at hmutated ⊢
  cases hmutated with
  | error e => exact Blind.bind (blind_alter fun _ _ _ => ⟨rfl, rfl⟩) fun _ => .refuse (.text e)
  | @ok mutated mutated' hmutated =>
    obtain ⟨deleted, doc⟩ := mutated
    obtain ⟨deleted', doc'⟩ := mutated'
    obtain ⟨hdeleted, h⟩ := hmutated
    obtain rfl : deleted = deleted' := hdeleted
    have hchanged : Uniform fun doc => { doc with updateChangedText := true } := fun _ _ _ => ⟨rfl, rfl⟩
    obtain ⟨hrecorded, hafter⟩ := record_alike (hchanged.alike h) c
    dsimp only
    rw [← hrecorded]
    refine Agree.bind (.alter fun _ _ _ => hafter) fun _ _ _ => ?_
    refine (blind_emit _).bind fun _ => (blind_emitAll _).bind fun _ => ?_
    exact Blind.bind (blind_alter fun _ _ _ => ⟨rfl, rfl⟩) fun _ => .lift _

def Shared {α : Type} (f : Document → α) : Prop := ∀ doc doc', doc.Alike doc' → f doc = f doc'

lemma shared_of {α : Type} {f : Document → α} (h : ∀ doc storage buffer,
    f doc = f { doc with storage, options := { doc.options with buffer } }) : Shared f := by
  intro doc doc' halike
  obtain ⟨storage, buffer, -, rfl⟩ := alike_iff.mp halike
  exact h doc storage buffer

lemma blind_reading {α : Type} {f : Document → Action Document α} (hf : Shared f)
    (h : ∀ doc, Blind Alike (f doc)) : Blind Alike (Action.state >>= f) := by
  refine Blind.reading fun doc doc' halike => ?_
  rw [← hf doc doc' halike]
  exact h doc

lemma blind_checkNotInChange : Blind Alike checkNotInChange := by
  refine blind_reading (shared_of fun _ _ _ => rfl) fun doc => ?_
  split
  · exact .refuse .changeInProgress
  · exact .pure ()

lemma blind_beginUpdate : Blind Alike beginUpdate := by
  refine blind_checkNotInChange.bind fun _ => blind_reading (shared_of fun _ _ _ => rfl) fun doc => ?_
  refine Blind.bind (blind_alter fun _ _ _ => ⟨rfl, rfl⟩) fun _ => ?_
  split
  · exact Blind.bind (blind_alter fun _ _ _ => ⟨rfl, rfl⟩) fun _ => blind_emit _
  · exact .pure ()

lemma leaveUpdate_alike (h : doc.Alike doc') : Except.Alike Alike doc.leaveUpdate doc'.leaveUpdate := by
  obtain ⟨storage, buffer, hs, rfl⟩ := alike_iff.mp h
  rw [leaveUpdate, leaveUpdate]
  dsimp only
  split
  · exact .error _
  · refine (Except.Alike.refl _).bind fun history _ hhistory => ?_
    subst hhistory
    exact .ok ⟨hs, rfl⟩

lemma uniform_forget : Uniform fun doc => { doc with updateChangedText := false } := fun _ _ _ => ⟨rfl, rfl⟩

lemma blind_closeUpdate : Blind Alike closeUpdate := by
  refine Blind.bind (.alterExcept fun _ _ => leaveUpdate_alike) fun _ => ?_
  refine blind_reading (shared_of fun _ _ _ => rfl) fun doc => ?_
  have hcompleted : Blind Alike (if doc.updateChangedText = true then emit .changeCompleted else pure ()) := by
    split
    · exact blind_emit _
    · exact .pure ()
  have hfinish := (blind_emit .updateFinished).bind fun _ => (blind_alter uniform_forget).bind fun _ => hcompleted
  split
  · dsimp only
    split
    · exact (blind_emit _).bind fun _ => hfinish
    · exact hfinish
  · exact .pure ()

lemma blind_endUpdate : Blind Alike endUpdate := blind_checkNotInChange.bind fun _ => blind_closeUpdate

lemma closeSilently_alike (h : doc.Alike doc') : doc.closeSilently.Alike doc'.closeSilently := by
  have hunmark : Uniform fun doc => { doc with inChange := false } := fun _ _ _ => ⟨rfl, rfl⟩
  have hleft := leaveUpdate_alike (hunmark.alike h)
  rw [closeSilently, closeSilently]
  generalize leaveUpdate { doc with inChange := false } = left at hleft ⊢
  generalize leaveUpdate { doc' with inChange := false } = left' at hleft ⊢
  cases hleft with
  | error e => exact hunmark.alike h
  | @ok after after' hafter =>
    obtain ⟨storage, buffer, hs, rfl⟩ := alike_iff.mp hafter
    dsimp only
    split
    · exact ⟨hs, rfl⟩
    · exact hafter

end Document

section Holder

variable {σ α : Type} [HasDocument σ]

structure Holding (R : σ → σ → Prop) : Prop where
  document {s s' : σ} (h : R s s') : (HasDocument.document s).Alike (HasDocument.document s')
  withDocument {s s' : σ} {doc doc' : Document} (h : R s s') (hd : doc.Alike doc') :
    R (HasDocument.withDocument s doc) (HasDocument.withDocument s' doc')

lemma holding_alike : Holding Document.Alike := ⟨id, fun _ hd => hd⟩

namespace Holding

variable {R : σ → σ → Prop} (hR : Holding R)

include hR

lemma onDocument {x : Action Document α} (h : Blind Document.Alike x) : Blind R (Action.onDocument x) := by
  intro s s' hs
  have hrun := h _ _ (hR.document hs)
  rw [Action.onDocument, Action.onDocument]
  generalize x (HasDocument.document s) = run, x (HasDocument.document s') = run' at hrun ⊢
  cases hrun with
  | ok h hd ht => exact .ok h (hR.withDocument hs hd) ht
  | refused e hd ht => exact .refused e (hR.withDocument hs hd) ht
  | abandoned hd ht => exact .abandoned (hR.withDocument hs hd) ht

lemma inDocument {f : Document → Document} (hf : ∀ doc doc', doc.Alike doc' → (f doc).Alike (f doc')) {s s' : σ}
    (hs : R s s') : R (Action.inDocument f s) (Action.inDocument f s') :=
  hR.withDocument hs (hf _ _ (hR.document hs))

lemma guarded {body : Action σ α} (h : Blind R body) :
    Blind R (body.onAbandoned (Action.inDocument Document.closeSilently)).attempt :=
  Blind.attempt (Agree.onAbandoned h fun _ _ => hR.inDocument fun _ _ => Document.closeSilently_alike)

lemma runUpdate {body : Action σ α} (h : Blind R body) : Blind R (Document.runUpdate body) := by
  refine (hR.onDocument Document.blind_beginUpdate).bind fun _ => (hR.guarded h).bind fun result => ?_
  refine (Blind.attempt (hR.onDocument Document.blind_endUpdate)).bind fun closed => ?_
  exact (Blind.ofExcept result).bind fun a => (Blind.ofExcept closed).bind fun _ => .pure a

end Holding

end Holder

namespace Document

lemma blind_runUpdate {α : Type} {body : Action Document α} (h : Blind Alike body) :
    Blind Alike (runUpdate body) :=
  holding_alike.runUpdate h

lemma shared_textLength : Shared textLength := fun _ _ h => h.storage.length_eq.symm

lemma blind_replaceWithMap (offset length : Nat) (t : Text) (map : OffsetMap) :
    Blind Alike (replaceWithMap offset length t map) := by
  refine blind_checkNotInChange.bind fun _ => blind_reading ?_ fun doc => ?_
  · intro doc doc' h
    have hslice : doc.slice offset length = doc'.slice offset length := (h.storage.slice_eq offset length).symm
    dsimp only
    rw [shared_textLength doc doc' h, hslice]
  · refine (Blind.lift _).bind fun _ => ?_
    split
    · exact .pure ()
    · refine (Blind.lift _).bind fun removed => (Blind.lift _).bind fun c => ?_
      exact blind_runUpdate (blind_applyChange c)

lemma blind_replaceWithMapping (offset length : Nat) (t : Text) (mapping : ChangeMapping) :
    Blind Alike (replaceWithMapping offset length t mapping) := blind_replaceWithMap _ _ _ _

lemma blind_setText (t : Text) : Blind Alike (setText t) := by
  have hreplaceAll : Blind Alike (do
      let doc ← .state
      remove 0 doc.textLength
      insert 0 t : Action Document Unit) := by
    refine blind_reading ?_ fun doc => ?_
    · intro doc doc' h
      dsimp only
      rw [shared_textLength doc doc' h]
    · exact (blind_replaceWithMapping _ _ _ _).bind fun _ => blind_replaceWithMapping _ _ _ _
  refine blind_checkNotInChange.bind fun _ => blind_reading (shared_of fun _ _ _ => rfl) fun doc => ?_
  split
  · exact .refuse .replacedInUpdate
  refine Blind.bind (blind_alter fun _ _ _ => ⟨rfl, rfl⟩) fun _ => ?_
  refine (Blind.attempt (blind_runUpdate hreplaceAll)).bind fun replaced => ?_
  refine Blind.bind (blind_alter fun _ _ _ => ⟨rfl, rfl⟩) fun _ => (Blind.ofExcept replaced).bind fun _ => ?_
  refine blind_reading (shared_of fun _ _ _ => rfl) fun doc => (Blind.lift _).bind fun history => ?_
  exact Blind.bind (blind_alter fun _ _ _ => ⟨rfl, rfl⟩) fun _ => blind_emit .textReplaced

lemma blind_replayAll (changes : List Change) : Blind Alike (replayAll changes) := by
  induction changes with
  | nil => exact .pure ()
  | cons c rest ih =>
    refine Blind.bind ?_ fun _ => ih
    refine (blind_alter (uniform_onHistory _)).bind fun _ => ?_
    refine (Blind.attempt (blind_applyChange c)).bind fun applied => ?_
    exact (blind_alter (uniform_onHistory _)).bind fun _ => .ofExcept applied

lemma blind_playBack (d : Direction) : Blind Alike (playBack d) := by
  refine blind_checkNotInChange.bind fun _ => blind_reading (shared_of fun _ _ _ => rfl) fun doc => ?_
  refine (Blind.lift _).bind fun given => ?_
  obtain ⟨_ | group, handed⟩ := given
  · exact .pure false
  refine Blind.bind (blind_alter fun _ _ _ => ⟨rfl, rfl⟩) fun _ => Blind.bind ?_ fun _ => .pure true
  exact Agree.ensuring (blind_runUpdate (blind_replayAll _)) fun _ _ => (uniform_onHistory d.finish).alike

lemma blind_adding {α : Type} (check : Nat → Except TextError Unit) (add : AnchorTable → α × AnchorTable) :
    Blind Alike (do
      let doc ← .state
      .lift (check doc.textLength)
      let (a, anchors) := add doc.anchors
      .alter fun doc => { doc with anchors }
      return a) := by
  refine blind_reading ?_ fun doc => ?_
  · intro doc doc' h
    have hanchors : doc.anchors = doc'.anchors := by rw [h.rest]
    dsimp only
    rw [shared_textLength doc doc' h, hanchors]
  · refine (Blind.lift _).bind fun _ => ?_
    exact Blind.bind (blind_alter fun _ _ _ => ⟨rfl, rfl⟩) fun _ => .pure _

lemma blind_createAnchor (offset : Nat) (movement : AnchorMovement) (survivesDeletion : Bool) :
    Blind Alike (createAnchor offset movement survivesDeletion) :=
  blind_adding (checkOffset offset) (·.create offset movement survivesDeletion)

lemma blind_createAnchorSegment (offset length : Nat) : Blind Alike (createAnchorSegment offset length) :=
  blind_adding (checkRange offset length) fun anchors => AnchorSegment.create anchors ⟨offset, length⟩ true

lemma blind_changeAnchors (f : AnchorTable → Except TextError AnchorTable) : Blind Alike (changeAnchors f) := by
  refine blind_reading (shared_of fun _ _ _ => rfl) fun doc => (Blind.lift _).bind fun anchors => ?_
  exact blind_alter fun _ _ _ => ⟨rfl, rfl⟩

lemma blind_releaseAnchorSegment (s : AnchorSegment) : Blind Alike (releaseAnchorSegment s) := by
  refine blind_reading (shared_of fun _ _ _ => rfl) fun doc => ?_
  exact Blind.bind (blind_alter fun _ _ _ => ⟨rfl, rfl⟩) fun _ => .lift _

lemma blind_subscribe (label : String) (fails : List DocumentEvent → Bool) :
    Blind Alike (subscribe label fails) := by
  refine blind_reading (shared_of fun _ _ _ => rfl) fun doc => ?_
  exact Blind.bind (blind_alter fun _ _ _ => ⟨rfl, rfl⟩) fun _ => .pure _

lemma blind_unsubscribe (token : Nat) : Blind Alike (unsubscribe token) := by
  refine blind_reading (shared_of fun _ _ _ => rfl) fun doc => ?_
  exact Blind.bind (blind_alter fun _ _ _ => ⟨rfl, rfl⟩) fun _ => .pure _

lemma blind_addReceiver : Blind Alike addReceiver := by
  rw [addReceiver]
  refine Blind.bind (blind_alter fun _ _ _ => ⟨rfl, rfl⟩) fun _ => ?_
  exact blind_reading (shared_of fun _ _ _ => rfl) fun doc => .pure _

lemma blind_receive (handler count : Nat) : Blind Alike (receive handler count) := by
  refine blind_reading (shared_of fun _ _ _ => rfl) fun doc => ?_
  exact Blind.bind (blind_alter fun _ _ _ => ⟨rfl, rfl⟩) fun _ => .pure _

lemma shared_slice (offset length : Nat) : Shared (·.slice offset length) :=
  fun _ _ h => (h.storage.slice_eq offset length).symm

lemma shared_lineText (number : Nat) : Shared (·.lineText number) := by
  intro doc doc' h
  have hlines : doc.lines = doc'.lines := by rw [h.rest]
  have hslice := fun line : Line => shared_slice line.offset line.length doc doc' h
  simp only [lineText, ← hlines, hslice]

lemma shared_delimiterOf (line : Line) : Shared (·.delimiterOf line) := by
  intro doc doc' h
  simp only [delimiterOf, h.storage.charAt_eq]

lemma shared_newlineForLine (number : Nat) : Shared (·.newlineForLine number) := by
  intro doc doc' h
  have hlines : doc.lines = doc'.lines := by rw [h.rest]
  have hending : doc.options.lineEnding = doc'.options.lineEnding := by rw [h.rest]
  have hdelimiter := fun line : Line => shared_delimiterOf line doc doc' h
  simp only [newlineForLine, ← hlines, ← hending, hdelimiter]

lemma shared_snapshot : Shared snapshot := by
  intro doc doc' h
  have hversion : doc.version = doc'.version := by rw [h.rest]
  rw [snapshot, snapshot, Storage.snapshot, Storage.snapshot, h.storage.text_eq, hversion]

lemma shared_answer (q : Query) : Shared fun doc => q.answer doc := by
  intro doc doc' h
  obtain ⟨t, hs, hs'⟩ := h.storage.reads
  have hreads {doc : Document} (hs : TextSource.Reads doc.storage t) : TextSource.Reads doc t :=
    ⟨hs.length_eq, hs.charAt_eq, hs.slice_eq, hs.charsFrom_eq, hs.charsBefore_eq⟩
  dsimp only
  rw [(hreads hs).answer_eq, (hreads hs').answer_eq]

end Document

end EditableText
