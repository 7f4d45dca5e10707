import EditableText.Proofs.Document.Playback
import EditableText.Proofs.Document.Replacing
import EditableText.Proofs.Document.Reachable

namespace EditableText

namespace Call

/-- A call that holds no other calls, leaves the history to the document, and brings no listener that
can fail. -/
def Simple : Call → Prop
  | runUpdate _ | group _ _ | history _ => False
  | subscribe _ fails => ∀ heard, fails heard = false
  | _ => True

def IsEmptyEdit : Call → Prop
  | insert _ t | insertWithMovement _ t _ => t = []
  | remove _ length => length = 0
  | replace _ length t _ | replaceWithMap _ length t _ => length = 0 ∧ t = []
  | _ => False

lemma acting_eq {α : Type} (x : Action Document α) (reply : α → Reply) (s : Session) :
    acting x reply s = ⟨(x s.document).outcome.map reply, { s with document := (x s.document).state },
      (x s.document).deliveries⟩ := by
  change Action.bind (Action.onDocument x) (fun a => Action.pure (reply a)) s = _
  simp only [Action.bind, Action.onDocument, HasDocument.document, HasDocument.withDocument]
  cases (x s.document).outcome with
  | ok a => simp [Action.pure, Outcome.map]
  | refused e => rfl
  | abandoned => rfl

end Call

/-- A step of a run: a call with its outcome, or the failure of a holder of an open update, which lets
go of the update. -/
inductive Deed
  | call (call : Call) (outcome : Outcome Reply)
  | unwind

namespace Deed

def created : Deed → List AnchorId
  | call _ (.ok (.anchorId id)) => [id]
  | call _ (.ok (.anchorSegment s)) => [s.start, s.stop]
  | _ => []

def replaces : Deed → Bool
  | call (.setText _) (.ok _) => true
  | _ => false

def Unsubscribes (token : Nat) : Deed → Prop
  | call (.unsubscribe other) _ => other = token
  | _ => False

def readsBus : Deed → Bool
  | call .addReceiver _ | call (.receive _ _) _ => true
  | _ => false

/-- Calls that have nothing to tell: those that are refused, edits of nothing, and playbacks of
nothing. -/
def IsSilent : Deed → Prop
  | call _ (.refused _) => True
  | call .undo (.ok (.flag false)) | call .redo (.ok (.flag false)) => True
  | call c _ => c.IsEmptyEdit
  | unwind => True

lemma replaces_refused (c : Call) (e : DocumentError) : (call c (.refused e)).replaces = false := by
  cases c <;> rfl

end Deed

namespace Document

variable {doc mid after : Document} {log log' : List Notice} {deed : Deed}

inductive Step : Document → Deed → List Delivery → Document → Prop
  | call {s : Session} {c : Call} (h : c.Simple) :
    Step s.document (.call c (c.perform s).outcome) (c.perform s).deliveries (c.perform s).state.document
  | unwind (doc : Document) : Step doc .unwind [] doc.closeSilently

lemma Step.of_perform {s s' : Session} {c : Call} (h : s' = (c.perform s).state) (hc : c.Simple) :
    Step s.document (.call c (c.perform s).outcome) (c.perform s).deliveries s'.document :=
  h ▸ .call hc

structure Aside (doc after : Document) : Prop where
  storage : after.storage = doc.storage
  lines : after.lines = doc.lines
  history : after.history = doc.history
  version : after.version = doc.version
  depth : after.updateDepth = doc.updateDepth
  changedText : after.updateChangedText = doc.updateChangedText
  lineCountAtUpdate : after.lineCountAtUpdate = doc.lineCountAtUpdate

inductive Effect (doc : Document) (deed : Deed) (log : List Notice) (after : Document) : Prop
  | aside (h : doc.Aside after) (hlog : log = []) (hdeed : deed.replaces = false)
  | edited {c : Change} (hc : c.Fits doc.text) (h : Edited c doc log after) (hdeed : deed.replaces = false)
  | opened (h : doc.Opened log after) (hdeed : deed = .call .beginUpdate (.ok .nothing))
  | closed (h : doc.Closed log after) (hdeed : deed = .call .endUpdate (.ok .nothing))
  | unwound (h : doc.Left log after) (hlog : log = []) (hdeed : deed = .unwind)
  | undone {line : Timeline} (hd : doc.updateDepth = 0) (hline : doc.timeline.back = some line)
    (h : PlayedBack line doc log after) (hdeed : deed = .call .undo (.ok (.flag true)))
  | redone {line : Timeline} (hd : doc.updateDepth = 0) (hline : doc.timeline.forth = some line)
    (h : PlayedBack line doc log after) (hdeed : deed = .call .redo (.ok (.flag true)))
  | replaced {t : Text} (hd : doc.updateDepth = 0) (h : Replaced t doc log after)
    (hdeed : deed = .call (.setText t) (.ok .nothing))

structure Stepped (doc : Document) (deed : Deed) (log : List Notice) (after : Document) : Prop where
  sound : after.Sound
  id : after.id = doc.id
  options : after.options = doc.options
  seen : ∀ n ∈ log, n.seen.audience = doc.audience
  stays : ∀ token ∈ doc.listeners.map (·.token), ¬ deed.Unsubscribes token →
    token ∈ after.listeners.map (·.token)
  tallied : ∀ id, reports id log + after.anchors.liveAt id ≤ doc.anchors.liveAt id + deed.created.count id
  silent : deed.IsSilent → log = []
  bus : after.bus = doc.bus.emitAll (log.map (·.notification doc.id)) ∨ deed.readsBus = true ∧ log = []
  faithful : Faithful doc log after
  effect : Effect doc deed log after

lemma Aside.refl (doc : Document) : doc.Aside doc := ⟨rfl, rfl, rfl, rfl, rfl, rfl, rfl⟩

lemma Aside.text_eq (h : doc.Aside after) : after.text = doc.text := by
  rw [text, text, h.storage]

lemma Aside.timeline_eq (h : doc.Aside after) : after.timeline = doc.timeline := by
  rw [timeline, timeline, h.text_eq, h.history]

lemma Sound.still (h : doc.Sound) (hdeed : deed.replaces = false) : Stepped doc deed [] doc where
  sound := h
  id := rfl
  options := rfl
  seen := by simp
  stays _ hmem _ := hmem
  tallied id := by
    simp only [reports, List.map_nil, List.count_nil]
    omega
  silent _ := rfl
  bus := .inl rfl
  faithful := .nil (.refl doc)
  effect := .aside (.refl doc) rfl hdeed

lemma Kept.stays (h : doc.Kept log after) : ∀ token ∈ doc.listeners.map (·.token),
    ¬ deed.Unsubscribes token → token ∈ after.listeners.map (·.token) :=
  fun _ hmem _ => h.tokens_eq ▸ hmem

lemma Kept.stepped (h : doc.Kept log after) (hs : after.Sound) (ht : doc.Tallied log after)
    (hsilent : deed.IsSilent → log = []) (he : Effect doc deed log after) : Stepped doc deed log after where
  sound := hs
  id := h.id
  options := h.options
  seen := h.seen
  stays := h.stays
  tallied id := Nat.le_trans (ht id) (Nat.le_add_right _ _)
  silent := hsilent
  bus := .inl h.bus
  faithful := h.faithful
  effect := he

lemma Sound.withAnchors (h : doc.Sound) {anchors : AnchorTable}
    (ha : anchors.Within doc.storage.content.length) : ({ doc with anchors } : Document).Sound :=
  ⟨⟨h.toAtRest.withAnchors ha, h.quiet, h.tokens, h.fresh, h.idle, h.single, h.depth, h.limit, h.room,
    h.closed⟩, h.accepts, h.leads⟩

lemma Sound.anchored (h : doc.Sound) {anchors : AnchorTable}
    (ha : anchors.Within doc.storage.content.length)
    (hcount : ∀ id, anchors.liveAt id ≤ doc.anchors.liveAt id + deed.created.count id)
    (hdeed : deed.replaces = false) : Stepped doc deed [] { doc with anchors } where
  sound := h.withAnchors ha
  id := rfl
  options := rfl
  seen := by simp
  stays _ hmem _ := hmem
  tallied id := by
    simp only [reports, List.map_nil, List.count_nil, Nat.zero_add]
    exact hcount id
  silent _ := rfl
  bus := .inl rfl
  faithful := .nil ⟨rfl, rfl, rfl, rfl⟩
  effect := .aside ⟨rfl, rfl, rfl, rfl, rfl, rfl, rfl⟩ rfl hdeed

def Explained (c : Call) (s : Session) : Prop :=
  ∃ log, (c.perform s).deliveries = deliveriesOf log ∧
    Stepped s.document (.call c (c.perform s).outcome) log (c.perform s).state.document ∧
    (c.perform s).outcome ≠ .abandoned

lemma Sound.explained_reading {c : Call} {s : Session} (h : s.document.Sound) {α : Type}
    {f : Document → Except TextError α} {reply : α → Reply} (hc : c.perform = Call.reading f reply)
    (hdeed : ∀ o, (Deed.call c o).replaces = false) : Explained c s := by
  have hrun : (Call.reading f reply).Runs s []
      ((Outcome.ofExcept ((f s.document).mapError .text)).map reply) s := by
    refine .state_bind ?_
    cases hf : f s.document with
    | ok a => exact .lift_bind rfl (.pure _ s)
    | error e => exact .lift_bind_error rfl
  rw [← hc, Action.Runs] at hrun
  refine ⟨[], by rw [hrun], by rw [hrun]; exact h.still (hdeed _), ?_⟩
  rw [hrun]
  exact Outcome.map_ne_abandoned reply (Outcome.ofExcept_ne_abandoned _)

lemma explained_acting {c : Call} {s : Session} {α : Type} {x : Action Document α} {reply : α → Reply}
    {o : Outcome α} (hrun : x.Runs s.document log o after) (ho : o ≠ .abandoned)
    (hs : Stepped s.document (.call c (o.map reply)) log after) (hc : c.perform = Call.acting x reply) :
    Explained c s := by
  have hacting : (Call.acting x reply).Runs s log (o.map reply) { s with document := after } := by
    cases o with
    | ok a => exact Action.Runs.bind_silent hrun.onDocument (.pure _ _)
    | refused e => exact .bind_refused hrun.onDocument
    | abandoned => exact absurd rfl ho
  rw [← hc, Action.Runs] at hacting
  refine ⟨log, by rw [hacting], by rw [hacting]; exact hs, ?_⟩
  rw [hacting]
  exact Outcome.map_ne_abandoned reply ho

lemma explained_ok {c : Call} {s : Session} {α : Type} {x : Action Document α} {reply : α → Reply} {a : α}
    (hrun : x.Runs s.document log (.ok a) after)
    (hs : Stepped s.document (.call c (.ok (reply a))) log after) (hc : c.perform = Call.acting x reply) :
    Explained c s :=
  explained_acting hrun (Outcome.ok_ne_abandoned a) hs hc

lemma Sound.explained_refused {c : Call} {s : Session} (h : s.document.Sound) {α : Type}
    {x : Action Document α} {reply : α → Reply} {e : DocumentError}
    (hrun : x.Runs s.document [] (.refused e) s.document) (hc : c.perform = Call.acting x reply) :
    Explained c s :=
  explained_acting hrun (Outcome.refused_ne_abandoned e) (h.still (Deed.replaces_refused c e)) hc

lemma Sound.explained_edit {c : Call} {s : Session} (h : s.document.Sound) {offset length : Nat} {t : Text}
    {map : OffsetMap} (hc : c.perform = Call.doing (replaceWithMap offset length t map))
    (hempty : c.IsEmptyEdit → length = 0 ∧ t = []) (hdeed : ∀ o, (Deed.call c o).replaces = false)
    (hplain : (Deed.call c (.ok .nothing)).IsSilent → c.IsEmptyEdit) : Explained c s := by
  obtain ⟨o, log, after, hrun, hcases⟩ := h.runs_replaceWithMap offset length t map
  have ho : o ≠ .abandoned := by
    rcases hcases with ⟨⟨e, rfl⟩, -⟩ | ⟨rfl, -⟩ | ⟨rfl, -⟩ <;> simp
  refine explained_acting hrun ho ?_ hc
  rcases hcases with ⟨-, -, rfl, rfl⟩ | ⟨-, -, -, rfl, rfl⟩ | ⟨rfl, -, hsome, c, -, hfits, -, hedited⟩
  · exact h.still (hdeed _)
  · exact h.still (hdeed _)
  · exact hedited.kept.stepped (hedited.sound h hfits).1 hedited.tallied
      (fun hsilent => absurd (hempty (hplain hsilent)) hsome) (.edited hfits hedited (hdeed _))

section Anchors

variable {s : Session} (h : s.document.Sound)

include h

lemma Sound.explained_createAnchor (offset : Nat) (movement : AnchorMovement) (survives : Bool) :
    Explained (.createAnchor offset movement survives) s := by
  by_cases ho : offset ≤ s.document.textLength
  · have hrun : (createAnchor offset movement survives).Runs s.document []
        (.ok (s.document.anchors.create offset movement survives).1)
        { s.document with anchors := (s.document.anchors.create offset movement survives).2 } :=
      .state_bind (.lift_bind (checkOffset_eq_ok.mpr ho) (.alter_bind (.pure _ _)))
    refine explained_ok hrun (h.anchored ?_ ?_ rfl) rfl
    · exact h.anchors.create (h.textLength_eq ▸ ho) movement survives
    · exact fun id => AnchorTable.liveAt_create_le id offset movement survives
  · have herror : checkOffset offset s.document.textLength = .error (.offsetOutOfRange offset _) := if_neg ho
    exact h.explained_refused (.state_bind (.lift_bind_error herror)) rfl

lemma Sound.explained_changeAnchors {c : Call} {f : AnchorTable → Except TextError AnchorTable}
    (hc : c.perform = Call.doing (changeAnchors f))
    (hf : ∀ {table after : AnchorTable} {n}, table.Within n → f table = .ok after → after.Within n)
    (hcount : ∀ {table after : AnchorTable} id, f table = .ok after → after.liveAt id ≤ table.liveAt id)
    (hdeed : ∀ o, (Deed.call c o).replaces = false) : Explained c s := by
  cases hok : f s.document.anchors with
  | ok anchors =>
    have hrun : (changeAnchors f).Runs s.document [] (.ok ()) { s.document with anchors } :=
      .state_bind (.lift_bind hok (.alter _ _))
    refine explained_ok hrun (h.anchored (hf h.anchors hok) (fun id => ?_) (hdeed _)) hc
    exact Nat.le_trans (hcount id hok) (Nat.le_add_right _ _)
  | error e =>
    exact h.explained_refused (.state_bind (.lift_bind_error hok)) hc

lemma Sound.explained_createAnchorSegment (offset length : Nat) :
    Explained (.createAnchorSegment offset length) s := by
  by_cases ho : offset + length ≤ s.document.textLength
  · have hrun : (createAnchorSegment offset length).Runs s.document []
        (.ok (AnchorSegment.create s.document.anchors ⟨offset, length⟩ true).1)
        { s.document with
          anchors := (AnchorSegment.create s.document.anchors ⟨offset, length⟩ true).2 } :=
      .state_bind (.lift_bind (checkRange_eq_ok.mpr ho) (.alter_bind (.pure _ _)))
    refine explained_ok hrun (h.anchored ?_ ?_ rfl) rfl
    · exact h.anchors.createSegment (s := ⟨offset, length⟩) (h.textLength_eq ▸ ho) true
    · exact fun id => AnchorTable.liveAt_createSegment_le id ⟨offset, length⟩ true
  · have herror : checkRange offset length s.document.textLength =
        .error (.rangeOutOfRange offset length _) := if_neg ho
    exact h.explained_refused (.state_bind (.lift_bind_error herror)) rfl

lemma Sound.explained_releaseAnchorSegment (segment : AnchorSegment) :
    Explained (.releaseAnchorSegment segment) s := by
  have hwithin := h.anchors.releaseSegment segment
  have hcount (id : AnchorId) := s.document.anchors.liveAt_releaseSegment_le id segment
  have hrun : (releaseAnchorSegment segment).Runs s.document []
      (.ofExcept ((segment.release s.document.anchors).1.mapError .text))
      { s.document with anchors := (segment.release s.document.anchors).2 } :=
    .state_bind (.alter_bind (.ofExcept _ _))
  refine explained_acting hrun ?_ (h.anchored hwithin (fun id => ?_) ?_) rfl
  · exact Outcome.ofExcept_ne_abandoned _
  · exact Nat.le_trans (hcount id) (Nat.le_add_right _ _)
  · rfl

end Anchors

lemma Sound.observed (h : doc.Sound) {listeners : List Listener} {nextToken : Nat}
    {bus : Bus Notification} (hquiet : ∀ l ∈ listeners, ∀ heard, l.fails heard = false)
    (htokens : (listeners.map (·.token)).Nodup) (hfresh : ∀ l ∈ listeners, l.token < nextToken)
    (hstays : ∀ token ∈ doc.listeners.map (·.token), ¬ deed.Unsubscribes token →
      token ∈ listeners.map (·.token))
    (hbus : bus = doc.bus ∨ deed.readsBus = true) (hdeed : deed.replaces = false) :
    Stepped doc deed [] { doc with listeners, nextToken, bus } where
  sound := ⟨⟨h.toAtRest.withObservers _ _ _, hquiet, htokens, hfresh, h.idle, h.single, h.depth, h.limit,
    h.room, h.closed⟩, h.accepts, h.leads⟩
  id := rfl
  options := rfl
  seen := by simp
  stays := hstays
  tallied id := by
    simp only [reports, List.map_nil, List.count_nil]
    omega
  silent _ := rfl
  bus := hbus.imp_right fun hreads => ⟨hreads, rfl⟩
  faithful := .nil ⟨rfl, rfl, rfl, rfl⟩
  effect := .aside ⟨rfl, rfl, rfl, rfl, rfl, rfl, rfl⟩ rfl hdeed

section Observers

variable {s : Session} (h : s.document.Sound)

include h

lemma Sound.explained_subscribe (label : String) {fails : List DocumentEvent → Bool}
    (hfails : ∀ heard, fails heard = false) : Explained (.subscribe label fails) s := by
  have hrun : (subscribe label fails).Runs s.document [] (.ok s.document.nextToken)
      { s.document with
        listeners := s.document.listeners ++ [⟨s.document.nextToken, label, [], fails⟩]
        nextToken := s.document.nextToken + 1 } := .state_bind (.alter_bind (.pure _ _))
  refine explained_ok hrun (h.observed ?_ ?_ ?_ ?_ (.inl rfl) rfl) rfl
  · intro l hl
    rcases List.mem_append.mp hl with hold | hnew
    · exact h.quiet l hold
    · obtain rfl := List.mem_singleton.mp hnew
      exact hfails
  · rw [List.map_append, List.nodup_append]
    refine ⟨h.tokens, by simp, ?_⟩
    intro token hold other hnew
    obtain ⟨l, hl, rfl⟩ := List.mem_map.mp hold
    have hlt := h.fresh l hl
    obtain rfl : other = s.document.nextToken := by simpa using hnew
    exact Nat.ne_of_lt hlt
  · intro l hl
    rcases List.mem_append.mp hl with hold | hnew
    · exact Nat.lt_succ_of_lt (h.fresh l hold)
    · obtain rfl := List.mem_singleton.mp hnew
      exact Nat.lt_succ_self _
  · intro token hmem _
    rw [List.map_append]
    exact List.mem_append_left _ hmem

lemma Sound.explained_unsubscribe (token : Nat) : Explained (.unsubscribe token) s := by
  have hsub : s.document.listeners.filter (·.token != token) |>.Sublist s.document.listeners :=
    List.filter_sublist
  have hrun : (unsubscribe token).Runs s.document []
      (.ok ((s.document.listeners.filter (·.token != token)).length != s.document.listeners.length))
      { s.document with listeners := s.document.listeners.filter (·.token != token) } :=
    .state_bind (.alter_bind (.pure _ _))
  refine explained_ok hrun (h.observed ?_ ?_ ?_ ?_ (.inl rfl) rfl) rfl
  · exact fun l hl => h.quiet l (hsub.subset hl)
  · exact h.tokens.sublist (hsub.map _)
  · exact fun l hl => h.fresh l (hsub.subset hl)
  · intro other hmem hother
    obtain ⟨l, hl, rfl⟩ := List.mem_map.mp hmem
    refine List.mem_map_of_mem (List.mem_filter.mpr ⟨hl, ?_⟩)
    simpa using fun heq => hother heq.symm

lemma Sound.explained_bus {c : Call} {α : Type} {x : Action Document α} {reply : α → Reply} {a : α}
    {bus : Bus Notification} (hrun : x.Runs s.document [] (.ok a) { s.document with bus })
    (hc : c.perform = Call.acting x reply)
    (hdeed : ∀ o, (Deed.call c o).readsBus = true ∧ (Deed.call c o).replaces = false) : Explained c s :=
  have ⟨hreads, hreplaces⟩ := hdeed (.ok (reply a))
  explained_ok hrun (h.observed h.quiet h.tokens h.fresh (fun _ hmem _ => hmem) (.inr hreads) hreplaces) hc

lemma Sound.explained_addReceiver : Explained .addReceiver s := by
  have hrun : addReceiver.Runs s.document [] (.ok s.document.bus.subscribe.receiverCount)
      { s.document with bus := s.document.bus.subscribe } :=
    .alter_bind (.state_bind (.pure _ _))
  exact h.explained_bus hrun rfl fun _ => ⟨rfl, rfl⟩

lemma Sound.explained_receive (handler count : Nat) : Explained (.receive handler count) s := by
  have hrun : (receive handler count).Runs s.document [] (.ok (s.document.bus.receive handler count).1)
      { s.document with bus := (s.document.bus.receive handler count).2 } :=
    .state_bind (.alter_bind (.pure _ _))
  exact h.explained_bus hrun rfl fun _ => ⟨rfl, rfl⟩

end Observers

section Updates

variable {s : Session} (h : s.document.Sound)

include h

lemma Sound.explained_beginUpdate : Explained .beginUpdate s := by
  obtain ⟨log, after, hrun, ho⟩ := runs_beginUpdate h.quiet h.inChange
  refine explained_ok hrun (ho.toKept.stepped (h.opened ho).1 ho.tallied ?_ ?_) rfl
  · exact fun hsilent => hsilent.elim
  · exact .opened ho rfl

lemma Sound.explained_endUpdate : Explained .endUpdate s := by
  cases hd : s.document.updateDepth with
  | zero => exact h.explained_refused (runs_endUpdate_closed h.inChange hd) rfl
  | succ depth =>
    obtain ⟨log, after, hrun, hc, -⟩ := runs_endUpdate h.quiet h.inChange hd
      (History.endGroup_eq (h.depth.trans hd) h.single)
    refine explained_ok hrun (hc.toKept.stepped (h.left hc.toLeft).1 hc.tallied ?_ ?_) rfl
    · exact fun hsilent => hsilent.elim
    · exact .closed hc rfl

lemma Sound.explained_setText (t : Text) : Explained (.setText t) s := by
  rcases Nat.eq_zero_or_pos s.document.updateDepth with hd | hd
  · obtain ⟨log, after, hrun, hr⟩ := h.runs_setText hd t
    refine explained_ok hrun (hr.toKept.stepped hr.sound hr.tallied ?_ (.replaced hd hr rfl)) rfl
    exact fun hsilent => hsilent.elim
  · exact h.explained_refused (h.runs_setText_in_update hd t) rfl

lemma Sound.explained_playBack (d : Direction) : Explained d.call s := by
  rcases Nat.eq_zero_or_pos s.document.updateDepth with hd | hd
  · cases halong : d.along s.document.timeline with
    | none =>
      exact explained_ok (h.runs_playBack_nothing hd halong) (h.still (by cases d <;> rfl)) (perform_call d)
    | some line =>
      obtain ⟨log, after, hrun, hp⟩ := h.runs_playBack hd halong
      refine explained_ok hrun (hp.toKept.stepped hp.sound hp.tallied ?_ ?_) (perform_call d)
      · cases d <;> exact fun hsilent => hsilent.elim
      · cases d with
        | back => exact .undone hd halong hp rfl
        | forth => exact .redone hd halong hp rfl
  · exact h.explained_refused (h.runs_playBack_in_update d hd) (perform_call d)

end Updates

lemma Sound.explained_snapshot {c : Call} {s : Session} (h : s.document.Sound)
    (hstate : (c.perform s).state.document = s.document) (hdeliveries : (c.perform s).deliveries = [])
    (houtcome : (c.perform s).outcome ≠ .abandoned) (hdeed : ∀ o, (Deed.call c o).replaces = false) :
    Explained c s :=
  ⟨[], hdeliveries, hstate ▸ h.still (hdeed _), houtcome⟩

lemma ofSnapshot_eq (index : Nat) (f : Snapshot → Reply) (s : Session) :
    (Call.ofSnapshot index f s).state = s ∧ (Call.ofSnapshot index f s).deliveries = [] ∧
      (Call.ofSnapshot index f s).outcome ≠ .abandoned := by
  cases hs : s.snapshots[index]? with
  | none => simp [Call.ofSnapshot, Action.state, bind, Action.bind, hs, pure, Action.pure]
  | some snapshot => simp [Call.ofSnapshot, Action.state, bind, Action.bind, hs, pure, Action.pure]

theorem Sound.explained {c : Call} {s : Session} (h : s.document.Sound) (hc : c.Simple) : Explained c s := by
  cases c with
  | insert _ _ | insertWithMovement _ _ _ =>
    exact h.explained_edit rfl (fun hempty => ⟨rfl, hempty⟩) (fun _ => rfl) fun hsilent => hsilent
  | remove _ _ =>
    exact h.explained_edit rfl (fun hempty => ⟨hempty, rfl⟩) (fun _ => rfl) fun hsilent => hsilent
  | replace _ _ _ _ | replaceWithMap _ _ _ _ =>
    exact h.explained_edit rfl (fun hempty => hempty) (fun _ => rfl) fun hsilent => hsilent
  | setText t => exact h.explained_setText t
  | beginUpdate => exact h.explained_beginUpdate
  | endUpdate => exact h.explained_endUpdate
  | runUpdate _ | group _ _ | history _ => exact hc.elim
  | undo => exact h.explained_playBack .back
  | redo => exact h.explained_playBack .forth
  | canPlayBack | query _ | textLength | options | identities | describe _ =>
    exact h.explained_reading (by rw [Call.perform, Call.telling]) fun _ => rfl
  | slice _ _ | charAt _ | line _ | lineAt _ | lineText _ | location _ | offsetOf _ _ | newlineForLine _
  | anchor _ | anchorOffset _ | anchorLocation _ | isAnchorDeleted _ | anchorSegment _ =>
    exact h.explained_reading (by rw [Call.perform]) fun _ => rfl
  | createAnchor offset movement survives => exact h.explained_createAnchor offset movement survives
  | releaseAnchor id =>
    exact h.explained_changeAnchors rfl (fun hw hok => hw.release hok)
      (fun id hok => AnchorTable.liveAt_release_le id hok) fun _ => rfl
  | setAnchorMovement id movement =>
    exact h.explained_changeAnchors rfl (fun hw hok => hw.setMovement hok)
      (fun id hok => AnchorTable.liveAt_modify_le (f := fun slot => { slot with movement }) id
        (fun _ => rfl) (fun _ => rfl) hok) fun _ => rfl
  | setAnchorSurvivesDeletion id survives =>
    exact h.explained_changeAnchors rfl (fun hw hok => hw.setSurvivesDeletion hok)
      (fun id hok => AnchorTable.liveAt_modify_le
        (f := fun slot => { slot with survivesDeletion := survives }) id
        (fun _ => rfl) (fun _ => rfl) hok) fun _ => rfl
  | createAnchorSegment offset length => exact h.explained_createAnchorSegment offset length
  | releaseAnchorSegment segment => exact h.explained_releaseAnchorSegment segment
  | subscribe label fails => exact h.explained_subscribe label hc
  | unsubscribe token => exact h.explained_unsubscribe token
  | addReceiver => exact h.explained_addReceiver
  | receive handler count => exact h.explained_receive handler count
  | takeSnapshot => exact h.explained_snapshot rfl rfl (Outcome.ok_ne_abandoned _) fun _ => rfl
  | querySnapshot index q =>
    obtain ⟨hstate, hdeliveries, houtcome⟩ := ofSnapshot_eq index (fun snapshot => .found (q.answer snapshot)) s
    exact h.explained_snapshot (congrArg Session.document hstate) hdeliveries houtcome fun _ => rfl
  | snapshotVersion index =>
    obtain ⟨hstate, hdeliveries, houtcome⟩ := ofSnapshot_eq index (fun snapshot => .count snapshot.version) s
    exact h.explained_snapshot (congrArg Session.document hstate) hdeliveries houtcome fun _ => rfl

lemma Sound.unwound (h : doc.Sound) : Stepped doc .unwind [] doc.closeSilently := by
  cases hd : doc.updateDepth with
  | zero =>
    have hleave : leaveUpdate { doc with inChange := false } = .error .noOpenUpdate := by
      simp only [leaveUpdate, hd]
    have hsame : doc.closeSilently = doc := by
      rw [closeSilently, hleave]
      obtain ⟨_, _, _, _, _, _, _, _, _, _, _, inChange, _, _⟩ := doc
      obtain rfl : inChange = false := h.inChange
      rfl
    rw [hsame]
    exact h.still rfl
  | succ depth =>
    have hleft := left_closeSilently h.inChange hd (History.endGroup_eq (h.depth.trans hd) h.single)
    refine hleft.toKept.stepped (h.left hleft).1 (fun id => ?_) (fun _ => rfl) (.unwound hleft rfl rfl)
    rw [hleft.anchors]
    simp [reports]

theorem Step.stepped {deliveries : List Delivery} (hs : Step doc deed deliveries after) (h : doc.Sound) :
    ∃ log, deliveries = deliveriesOf log ∧ Stepped doc deed log after := by
  cases hs with
  | call hc =>
    obtain ⟨log, hdeliveries, hstepped, -⟩ := h.explained hc
    exact ⟨log, hdeliveries, hstepped⟩
  | unwind => exact ⟨[], rfl, h.unwound⟩

end Document

end EditableText
