import EditableText.Proofs.Document.Following

namespace EditableText

open EditableText.Action EditableText.Document

namespace Document

variable {P : Document → Prop} {doc after : Document} {c : Change} {cs : List Change}

structure Lasting (P : Document → Prop) : Prop extends Upkeep P where
  sturdy {doc : Document} : P doc → doc.Sturdy
  rewound {doc : Document} {history : History} : P doc → history.OfChanges Change.Balanced → P { doc with history }
  change {c : Change} : c.Balanced → Keeps P (applyChange c)

lemma keeps_replaceWithMap_of {offset length : Nat} {t : Text} {map : OffsetMap}
    (hrun : ∀ {c : Change}, c.Balanced → Keeps P (runChange c)) :
    Keeps P (replaceWithMap offset length t map) := by
  refine keeps_checkNotInChange.bind fun _ => .reading fun doc => (Keeps.lift _).bind fun _ => ?_
  refine .ite (Keeps.pure ()) ((Keeps.lift _).bind fun removed => .lift_bind _ (fun c hok => ?_) fun _ hs => hs)
  exact hrun (Change.Built.withMap hok).balanced

namespace Lasting

lemma keeps_runChange (h : Lasting P) (hc : c.Balanced) : Keeps P (runChange c) :=
  h.keeps_runUpdate (σ := Document) (h.change hc)

lemma keeps_replaceWithMap (h : Lasting P) (offset length : Nat) (t : Text) (map : OffsetMap) :
    Keeps P (replaceWithMap offset length t map) := keeps_replaceWithMap_of h.keeps_runChange

lemma keeps_onHistory (h : Lasting P) {f : History → History}
    (hf : ∀ {history : History}, history.OfChanges Change.Balanced → (f history).OfChanges Change.Balanced) :
    ∀ doc, P doc → P (doc.onHistory f) :=
  fun _ hdoc => h.rewound hdoc (hf (h.sturdy hdoc).balanced)

lemma keeps_replayAll (h : Lasting P) (hcs : ∀ c ∈ cs, c.Balanced) : Keeps P (replayAll cs) := by
  induction cs with
  | nil => exact .pure ()
  | cons c rest ih =>
    refine Keeps.bind ?_ fun _ => ih fun c hmem => hcs c (List.mem_cons_of_mem _ hmem)
    refine Keeps.bind (.alter (h.keeps_onHistory History.OfChanges.enterModify)) fun _ => ?_
    refine (h.change (hcs c List.mem_cons_self)).attempt.bind fun _ => ?_
    exact Keeps.bind (.alter (h.keeps_onHistory History.OfChanges.exitModify)) fun _ => .ofExcept _

lemma keeps_playBack (h : Lasting P) (d : Direction) : Keeps P (playBack d) := by
  refine keeps_playBack_of fun hdoc hok => ?_
  obtain ⟨hhanded, hgroup⟩ := (h.sturdy hdoc).balanced.handOut hok
  refine Triple.bind (.alter fun _ hs => h.rewound (hs ▸ hdoc) hhanded) fun _ => Keeps.bind ?_ fun _ => .pure true
  exact Keeps.ensuring (h.keeps_runUpdate (σ := Document) (h.keeps_replayAll (d.changes_balanced (hgroup _ rfl))))
    (h.keeps_onHistory fun hh => hh.finish d)

lemma keeps_setText (h : Lasting P) (t : Text) : Keeps P (setText t) := by
  have hreplace : Keeps P (runUpdate do
      let doc ← .state
      remove 0 doc.textLength
      insert 0 t : Action Document Unit) := by
    refine h.keeps_runUpdate (σ := Document) (.reading fun doc => ?_)
    exact (h.keeps_replaceWithMap _ _ _ _).bind fun _ => h.keeps_replaceWithMap _ _ _ _
  have haccepts (b : Bool) (doc : Document) (hdoc : P doc) : P (setAcceptsChanges b doc) :=
    h.rewound hdoc ((h.sturdy hdoc).balanced.setAcceptsChanges b)
  refine keeps_checkNotInChange.bind fun _ => .reading fun doc => .ite (.refuse_bind _ fun _ hs => hs) ?_
  refine Keeps.bind (.alter (haccepts false)) fun _ => hreplace.attempt.bind fun replaced => ?_
  refine Keeps.bind (.alter (haccepts _)) fun _ => (Keeps.ofExcept _).bind fun _ => .state_bind fun doc hdoc => ?_
  refine .lift_bind _ (fun history hclear => ?_) fun _ hs => hs ▸ hdoc
  refine Triple.bind (.alter fun _ hs => ?_) fun _ => h.emit (by simp)
  subst hs
  exact h.rewound hdoc ((h.sturdy hdoc).balanced.clear hclear).markSaved

end Lasting

structure Material (P : Document → Prop) : Prop where
  sturdy {doc : Document} : P doc → doc.Sturdy
  still {doc after : Document} :
    P doc → after.matter = doc.matter → after.history.OfChanges Change.Balanced → P after
  applied {doc after : Document} {c : Change} : P doc → Applied c doc after → after.Sturdy → P after

namespace Material

lemma inert (h : Material P) : Inert P := ⟨h.sturdy, h.still⟩

lemma mutated (h : Material P) (hc : c.Balanced) {deleted : List AnchorId} (hdoc : P doc)
    (hok : doc.mutate c = .ok (deleted, after)) :
    P (({ after with updateChangedText := true } : Document).record c).2 := by
  have hsturdy := (h.sturdy hdoc).mutate hc hok
  have hafter : P after := h.applied hdoc ((h.sturdy hdoc).applied hc hok rfl) hsturdy
  exact h.inert.recorded hc (h.still hafter rfl hsturdy.balanced)

lemma lasting (h : Material P) : Lasting P where
  toUpkeep := h.inert.upkeep
  sturdy := h.sturdy
  rewound hdoc hh := h.still hdoc rfl hh
  change hc := (h.inert.heeded.applyChange h.inert.heeded (h.mutated hc)).mono (fun _ hs => hs) (fun _ hs => hs)
    fun _ hs => hs.elim (fun hdoc => hdoc) fun hdoc => hdoc

lemma withObservers (h : Material P) (hdoc : P doc) (listeners : List Listener) (nextToken : Nat)
    (bus : Bus Notification) : P { doc with listeners, nextToken, bus } :=
  h.still hdoc rfl (h.sturdy hdoc).balanced

end Material

structure Tended (releasing : AnchorId → Prop) (moving : AnchorId → AnchorMovement → Prop)
    (surviving : AnchorId → Bool → Prop) (P : Document → Prop) : Prop where
  sturdy {doc : Document} : P doc → doc.Sturdy
  create {doc : Document} {offset : Nat} (movement : AnchorMovement) (survives : Bool) : P doc →
    offset ≤ doc.text.length → P { doc with anchors := (doc.anchors.create offset movement survives).2 }
  release {doc : Document} {id : AnchorId} {anchors : AnchorTable} : P doc → releasing id →
    doc.anchors.release id = .ok anchors → P { doc with anchors }
  setMovement {doc : Document} {id : AnchorId} {movement : AnchorMovement} {anchors : AnchorTable} : P doc →
    moving id movement → doc.anchors.setMovement id movement = .ok anchors → P { doc with anchors }
  setSurvivesDeletion {doc : Document} {id : AnchorId} {survives : Bool} {anchors : AnchorTable} : P doc →
    surviving id survives → doc.anchors.setSurvivesDeletion id survives = .ok anchors → P { doc with anchors }

namespace Tended

variable {releasing : AnchorId → Prop} {moving : AnchorId → AnchorMovement → Prop}
  {surviving : AnchorId → Bool → Prop}

lemma of_link (hsturdy : ∀ {doc : Document}, P doc → doc.Sturdy)
    (hlink : ∀ {doc : Document} {move : Move} {anchors : AnchorTable}, P doc →
      Link doc move { doc with anchors } → anchors.Within doc.storage.content.length →
      move.change? = none → (∀ id, move = .release id → releasing id) → P { doc with anchors }) :
    Tended releasing (fun _ _ => True) (fun _ _ => True) P := by
  have hadjust {doc : Document} {id : AnchorId} {f : AnchorSlot → AnchorSlot} {anchors : AnchorTable}
      (hdoc : P doc) (hf : ∀ slot, (f slot).offset = slot.offset ∧ (f slot).state = slot.state ∧
        (f slot).generation = slot.generation) (hanchors : doc.anchors.modify id f = .ok anchors) :
      P { doc with anchors } :=
    hlink hdoc (.adjust hanchors hf rfl) ((hsturdy hdoc).coherent.anchors.modify (fun slot => (hf slot).1)
      (fun slot => (hf slot).2.1) hanchors) rfl fun _ => by simp
  refine ⟨hsturdy, fun movement survives hdoc ho => ?_, fun {doc id anchors} hdoc hid hanchors => ?_,
    fun hdoc _ => hadjust hdoc fun _ => ⟨rfl, rfl, rfl⟩, fun hdoc _ => hadjust hdoc fun _ => ⟨rfl, rfl, rfl⟩⟩
  · have hcoherent := (hsturdy hdoc).coherent
    have hwithin := hcoherent.anchors.create (hcoherent.text_eq ▸ ho) movement survives
    exact hlink hdoc (.create rfl) hwithin rfl fun _ => by simp
  · have hwithin := (hsturdy hdoc).coherent.anchors.release hanchors
    refine hlink hdoc (.release hanchors rfl) hwithin rfl fun other hother => ?_
    obtain rfl := Move.release.inj hother
    exact hid

variable (h : Tended releasing moving surviving P)

include h

lemma textLength_eq (hdoc : P doc) : doc.textLength = doc.text.length := by
  have hcoherent := (h.sturdy hdoc).coherent
  rw [hcoherent.textLength_eq, ← hcoherent.text_eq]

lemma keeps_createAnchor (offset : Nat) (movement : AnchorMovement) (survives : Bool) :
    Keeps P (createAnchor offset movement survives) := by
  refine .state_bind fun doc hdoc => .lift_bind _ (fun _ hcheck => ?_) fun _ hs => hs ▸ hdoc
  have ho : offset ≤ doc.text.length := h.textLength_eq hdoc ▸ checkOffset_eq_ok.mp hcheck
  refine Triple.bind (.alter fun _ hs => ?_) fun _ => .pure _ fun _ h => h
  subst hs
  exact h.create movement survives hdoc ho

lemma keeps_createAnchorSegment (offset length : Nat) : Keeps P (createAnchorSegment offset length) := by
  refine .state_bind fun doc hdoc => .lift_bind _ (fun _ hcheck => ?_) fun _ hs => hs ▸ hdoc
  have ho : offset + length ≤ doc.text.length := h.textLength_eq hdoc ▸ checkRange_eq_ok.mp hcheck
  refine Triple.bind (.alter fun _ hs => ?_) fun _ => .pure _ fun _ h => h
  subst hs
  exact h.create .afterInsertion true
    (h.create .beforeInsertion true hdoc (Nat.le_trans (Nat.le_add_right _ _) ho))
    (Nat.le_trans (Word.add_le _ _) ho)

omit h in
lemma keeps_changeAnchors {f : AnchorTable → Except TextError AnchorTable}
    (hf : ∀ {doc : Document} {anchors}, P doc → f doc.anchors = .ok anchors → P { doc with anchors }) :
    Keeps P (changeAnchors f) := by
  refine .state_bind fun doc hdoc => .lift_bind _ (fun anchors hok => ?_) fun _ hs => hs ▸ hdoc
  exact .alter fun _ hs => hs ▸ hf hdoc hok

lemma releaseSegment (hdoc : P doc) {s : AnchorSegment} (hstart : releasing s.start) (hstop : releasing s.stop) :
    P { doc with anchors := (s.release doc.anchors).2 } := by
  rw [AnchorSegment.release]
  cases hstarted : doc.anchors.release s.start with
  | error e => exact hdoc
  | ok started =>
    have hfirst := h.release hdoc hstart hstarted
    cases hstopped : started.release s.stop with
    | error e => simpa [hstopped] using hfirst
    | ok released => simpa [hstopped] using h.release hfirst hstop hstopped

lemma keeps_releaseAnchorSegment {s : AnchorSegment} (hstart : releasing s.start) (hstop : releasing s.stop) :
    Keeps P (releaseAnchorSegment s) := by
  refine .state_bind fun doc hdoc => Triple.bind (Triple.alter fun _ hs => ?_) fun _ => Keeps.lift _
  subst hs
  exact h.releaseSegment hdoc hstart hstop

end Tended

end Document

namespace Call

variable {P : Document → Prop} {Q : Call → Prop}

def TendsAnchors : Call → Prop
  | createAnchor _ _ _ | releaseAnchor _ | setAnchorMovement _ _ | setAnchorSurvivesDeletion _ _
  | createAnchorSegment _ _ | releaseAnchorSegment _ => True
  | _ => False

def TendsObservers : Call → Prop
  | subscribe _ _ | unsubscribe _ | addReceiver | receive _ _ => True
  | _ => False

lemma keeps_performHistory_of_lasting (h : Lasting P) (call : HistoryCall) :
    Keeps (Held P) (performHistory call) := by
  refine .state_bind fun s hs => ?_
  split
  case h_1 reply after hok =>
    refine Triple.bind (Triple.alter fun _ hs' => ?_) fun _ => .pure _ fun _ hs' => hs'
    subst hs'
    exact h.rewound hs ((h.sturdy hs).balanced.perform (fun _ _ _ => (Change.Built.ofEdit _ _ _).balanced) hok)
  case h_2 e => exact .pure _ fun _ hs' => hs' ▸ hs

lemma keeps_single (h : Lasting P) {c : Call} (hsingle : ¬ c.Holds)
    (htends : c.TendsAnchors ∨ c.TendsObservers → Keeps (Held P) c.perform) : Keeps (Held P) c.perform := by
  cases c with
  | insert | insertWithMovement | remove | replace | replaceWithMap =>
    rw [perform]
    exact keeps_acting (h.keeps_replaceWithMap _ _ _ _) _
  | setText t =>
    rw [perform]
    exact keeps_acting (h.keeps_setText t) _
  | undo =>
    rw [perform]
    exact keeps_acting (h.keeps_playBack .back) _
  | redo =>
    rw [perform]
    exact keeps_acting (h.keeps_playBack .forth) _
  | runUpdate | group => exact absurd trivial hsingle
  | beginUpdate =>
    rw [perform]
    exact keeps_acting h.keeps_beginUpdate _
  | endUpdate =>
    rw [perform]
    exact keeps_acting h.keeps_endUpdate _
  | canPlayBack | query | textLength | options | identities | describe =>
    rw [perform]
    exact keeps_telling _
  | history call =>
    rw [perform]
    exact keeps_performHistory_of_lasting h call
  | slice | charAt | line | lineAt | lineText | location | offsetOf | newlineForLine | anchor | anchorOffset
  | anchorLocation | isAnchorDeleted | anchorSegment =>
    rw [perform]
    exact keeps_reading _ _
  | createAnchor | releaseAnchor | setAnchorMovement | setAnchorSurvivesDeletion | createAnchorSegment
  | releaseAnchorSegment => exact htends (.inl trivial)
  | subscribe | unsubscribe | addReceiver | receive => exact htends (.inr trivial)
  | takeSnapshot =>
    rw [perform]
    exact .reading fun _ => Keeps.bind (.alter fun _ h => h) fun _ => .pure _
  | querySnapshot | snapshotVersion =>
    rw [perform]
    exact keeps_ofSnapshot _ _

lemma keeps_observing (h : ∀ {doc : Document}, P doc → ∀ listeners nextToken bus,
    P { doc with listeners, nextToken, bus }) {c : Call} (hc : c.TendsObservers) : Keeps (Held P) c.perform := by
  cases c with
  | subscribe =>
    rw [perform]
    exact keeps_acting (keeps_subscribe h _ _) _
  | unsubscribe =>
    rw [perform]
    exact keeps_acting (keeps_unsubscribe h _) _
  | addReceiver =>
    rw [perform]
    exact keeps_acting (keeps_addReceiver h) _
  | receive =>
    rw [perform]
    exact keeps_acting (keeps_receive h _ _) _
  | _ => exact hc.elim

def TendsOnly (releasing : AnchorId → Prop) (moving : AnchorId → AnchorMovement → Prop)
    (surviving : AnchorId → Bool → Prop) : Call → Prop
  | releaseAnchor released => releasing released
  | releaseAnchorSegment s => releasing s.start ∧ releasing s.stop
  | setAnchorMovement set movement => moving set movement
  | setAnchorSurvivesDeletion set survives => surviving set survives
  | _ => True

lemma keeps_tending {releasing : AnchorId → Prop} {moving : AnchorId → AnchorMovement → Prop}
    {surviving : AnchorId → Bool → Prop} (h : Tended releasing moving surviving P) {c : Call}
    (htends : c.TendsAnchors) (hc : c.TendsOnly releasing moving surviving) : Keeps (Held P) c.perform := by
  cases c with
  | createAnchor =>
    rw [perform]
    exact keeps_acting (h.keeps_createAnchor _ _ _) _
  | releaseAnchor =>
    rw [perform]
    exact keeps_acting (Tended.keeps_changeAnchors fun hdoc => h.release hdoc hc) _
  | setAnchorMovement =>
    rw [perform]
    exact keeps_acting (Tended.keeps_changeAnchors fun hdoc => h.setMovement hdoc hc) _
  | setAnchorSurvivesDeletion =>
    rw [perform]
    exact keeps_acting (Tended.keeps_changeAnchors fun hdoc => h.setSurvivesDeletion hdoc hc) _
  | createAnchorSegment =>
    rw [perform]
    exact keeps_acting (h.keeps_createAnchorSegment _ _) _
  | releaseAnchorSegment =>
    rw [perform]
    exact keeps_acting (h.keeps_releaseAnchorSegment hc.1 hc.2) _
  | _ => exact htends.elim

lemma lasting_rule (h : Lasting P) (hQ : ∀ {c : Call}, Q c → ¬ c.Holds → Keeps (Held P) c.perform) :
    EachRule (fun c => ¬ c.Holds ∧ Q c) (fun _ => True) (fun c => Keeps (Held P) c.perform)
      fun calls => Keeps (Held P) (performAll calls) := by
  refine ⟨fun hc => hQ hc.2 hc.1, fun hcalls => ?_, fun _ hcalls => ?_, ?_, fun hc hrest => ?_⟩
  · rw [perform]
    exact (h.keeps_runUpdate hcalls).bind fun _ => .pure _
  · rw [perform]
    exact (h.keeps_holding hcalls _).bind fun _ => .pure _
  · rw [performAll]
    exact .pure ()
  · rw [performAll]
    refine hc.attempt.bind fun _ => Keeps.bind (.alter fun _ h => h) fun _ => ?_
    exact (Keeps.ofExcept _).bind fun _ => hrest

end Call

end EditableText
