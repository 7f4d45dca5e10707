import EditableText.Proofs.Document.Nested
import EditableText.Proofs.Document.Tracking
import EditableText.Proofs.Document.Unrecorded
import EditableText.Proofs.History.Saved

namespace EditableText

open EditableText.Action

section Standing

variable {saved : Text} {f : Standing} {c : Change} {history : History}

structure Standing.Saves (saved : Text) (f : Standing) : Prop where
  records : f.history.Records saved f.text
  groups : f.depth ≤ f.history.depth

namespace Standing.Saves

lemma opened (h : f.Saves saved) : f.opened.Saves saved :=
  ⟨h.records.startGroup, Nat.succ_le_succ h.groups⟩

lemma left {depth : Nat} (h : f.Saves saved) (hd : f.depth = depth + 1) :
    ∃ history, f.history.endGroup = .ok history ∧ ({ f with depth, history } : Standing).Saves saved := by
  have hgroups := h.groups
  obtain ⟨outer, houter⟩ : ∃ outer, f.history.depth = outer + 1 := ⟨f.history.depth - 1, by omega⟩
  obtain ⟨history, hend⟩ : ∃ history, f.history.endGroup = .ok history := by
    rw [History.endGroup, houter]
    exact ⟨_, rfl⟩
  obtain ⟨hrecords, hdepth⟩ := h.records.endGroup hend
  exact ⟨history, hend, hrecords, by dsimp only; omega⟩

lemma changed (h : f.Saves saved) (hc : c.Fits f.text) :
    ∃ history, f.history.push c = .ok history ∧ (f.played [c] history).Saves saved := by
  obtain ⟨history, hpush, hrecords, hdepth⟩ := h.records.push hc
  exact ⟨history, hpush, hrecords, Nat.le_trans h.groups (Nat.le_of_eq hdepth.symm)⟩

lemma perform {call : HistoryCall} {reply : HistoryReply} (h : f.Saves saved) (hc : call.IsTame)
    (hspare : call = .endGroup → f.depth < f.history.depth) (hok : call.perform f.history = .ok (reply, history)) :
    ({ f with history } : Standing).Saves saved := by
  obtain ⟨hrecords, hkept | ⟨hend, hdepth⟩⟩ := h.records.perform hc hok
  · exact ⟨hrecords, Nat.le_trans h.groups hkept⟩
  · have hgroups := hspare hend
    exact ⟨hrecords, by dsimp only; omega⟩

lemma markSaved (h : f.Saves saved) :
    ({ f with history := f.history.markSaved } : Standing).Saves (f.history.baseOf f.text) :=
  ⟨h.records.markSaved, h.groups⟩

section Closed

variable {group : ChangeGroup} {rest : List ChangeGroup} (h : f.Saves saved) (hd : f.history.depth = 0)

include h hd

lemma played {d : Direction} (hgroups : d.groups f.history = group :: rest) :
    Change.FitAll (d.changes group) f.text ∧
      (f.played (d.changes group) (d.finish (d.handed group rest f.history.singled))).Saves saved := by
  have hsingled : d.groups f.history.singled = group :: rest := by cases d <;> exact hgroups
  obtain ⟨hfits, hrecords⟩ := h.records.singled.played hd hsingled
  exact ⟨hfits, hrecords, by simpa [Standing.played, History.singled, hd] using h.groups⟩

lemma restarted (t : Text) (version : Nat) :
    ({ f with text := t, version, history := f.history.restarted } : Standing).Saves t :=
  ⟨h.records.restarted hd t, h.groups⟩

end Closed

end Standing.Saves

namespace Document

variable {doc after : Document}

/-- The text without the changes that wait for their group to be closed. -/
def baseText (doc : Document) : Text := doc.history.baseOf doc.text

def Saves (saved : Text) (doc : Document) : Prop := ∃ f : Standing, f.Saves saved ∧ Rested True f doc

lemma upkeep_saves : Upkeep (Saves saved) where
  emit {event} _ := fun doc ⟨f, hs, hr⟩ =>
    (Rested.ends_emit_calm event).triple (fun _ => False.elim) (fun _ _ => False.elim) doc hr |>.mono
      (fun _ h => ⟨f, hs, h⟩) fun _ h => h
  noted _ _ := fun ⟨f, hs, hr⟩ => ⟨f, hs, hr.still rfl rfl rfl hr.inChange⟩
  unmarked := fun ⟨f, hs, hr⟩ => ⟨f, hs, hr.still rfl rfl rfl rfl⟩
  opened := fun ⟨f, hs, hr⟩ => ⟨f.opened, hs.opened, hr.opened⟩
  left := by
    rintro doc after ⟨f, hs, hr⟩ hleave
    have hdepth : doc.updateDepth = f.depth := congrArg Standing.depth hr.standing_eq
    cases hd : f.depth with
    | zero =>
      rw [leaveUpdate, hdepth, hd] at hleave
      cases hleave
    | succ depth =>
      obtain ⟨history, hend, hleft⟩ := hs.left hd
      obtain ⟨after', hleave', hafter⟩ := hr.leaveUpdate hd hend
      obtain rfl := Except.ok.inj (hleave.symm.trans hleave')
      exact ⟨_, hleft, hafter⟩

lemma saves_runChange (hb : c.Balanced) (hs : f.Saves saved) (hc : c.Fits f.text) :
    Triple (Rested True f) (runChange c) (Saves saved) (Saves saved) := by
  obtain ⟨history, hpush, hchanged⟩ := hs.opened.changed hc
  have hopen : Triple (Rested True f) beginUpdate (Rested True f.opened) (Saves saved) :=
    Rested.ends_beginUpdate.triple (fun _ => False.elim) fun _ _ => False.elim
  have hbody : Triple (Rested True f.opened) (applyChange c) (Saves saved) (Saves saved) := by
    refine ((Rested.ends_applyChange (f := f.opened) hb hc.le_length hpush).triple (fun _ => False.elim)
      fun _ _ hcut => absurd trivial hcut.1).mono (fun _ h => h) (fun _ h => ⟨_, hchanged, h⟩) fun _ h => h
  exact Upkeep.runUpdate_of_opened (σ := Document) upkeep_saves upkeep_saves hopen hbody fun _ h => h

lemma saves_replaceWithMap (offset length : Nat) (t : Text) (map : OffsetMap) :
    Keeps (Saves saved) (replaceWithMap offset length t map) := by
  refine keeps_checkNotInChange.bind fun _ => .state_bind fun doc h => ?_
  refine .lift_bind _ (fun _ hcheck => .ite (.pure () fun _ he => he ▸ h) ?_) fun _ he => he ▸ h
  have hrange := checkRange_eq_ok.mp hcheck
  refine .lift_bind _ (fun removed hslice => .lift_bind _ (fun c hmap => ?_) fun _ he => he ▸ h) fun _ he => he ▸ h
  obtain ⟨f, hs, hr⟩ := h
  obtain rfl := Except.ok.inj ((hr.slice_eq hrange).symm.trans hslice)
  have hfits : c.Fits f.text := hr.toWatched.text_eq ▸ hr.fits_of_withMap hrange hmap
  exact (saves_runChange (Change.Built.withMap hmap).balanced hs hfits).mono (fun _ he => he ▸ hr) (fun _ h => h)
    fun _ h => h

lemma saves_of_rested {σ α : Type} [HasDocument σ] {x : Action σ α}
    (h : ∀ f : Standing, Ends (Held (Rested True f)) x (Held (Rested True f)) (Held (Rested True f))
      fun _ => Held (Rested True f)) : Keeps (Held (Saves saved)) x := by
  rintro s ⟨f, hs, hr⟩
  exact ((h f s hr).leaves (fun _ h => h) fun _ _ h => h).mono (fun _ h => ⟨f, hs, h⟩) fun _ h => ⟨f, hs, h⟩

lemma saves_playBack (d : Direction) : Keeps (Saves saved) (playBack d) := by
  refine keeps_of_state fun doc ⟨f, hs, hr⟩ => ?_
  by_cases hd : f.history.depth = 0
  · have hclosed := hs.records.isClosed hd
    cases hgroups : d.groups f.history with
    | nil =>
      rw [hr.playBack_eq_nothing hclosed hgroups]
      exact ⟨f, hs, hr⟩
    | cons group rest =>
      obtain ⟨hfits, hplayed⟩ := hs.played hd hgroups
      obtain ⟨after, deliveries, heq, hafter⟩ := hr.playBack_ok hclosed hgroups hfits.inRange
      rw [heq]
      exact ⟨_, hplayed, hafter⟩
  · have hends : Ends (Rested True f) (playBack d) (Rested True f) (Rested True f) fun _ => Rested True f :=
      Rested.ends_playBack_in_group d (Nat.pos_of_ne_zero hd)
    exact ⟨f, hs, (hends doc hr).state⟩

lemma Saves.setText (h : Saves saved doc) (hd : doc.history.depth = 0) (t : Text) :
    (∃ a, (Document.setText t doc).outcome = .ok a) ∧ Saves t (Document.setText t doc).state := by
  obtain ⟨f, hs, hr⟩ := h
  have hhistory : f.history.depth = 0 := hr.history_eq ▸ hd
  have hgroups := hs.groups
  have hends := Rested.ends_setText (hs.records.isClosed hhistory) (by omega) t doc hr
  obtain ⟨a, ha, version, hafter⟩ := hends.succeeds fun _ _ => False.elim
  exact ⟨⟨a, ha⟩, _, hs.restarted hhistory t version, hafter⟩

lemma Saves.baseText_eq (h : Saves saved doc) (hd : doc.history.depth = 0) : doc.baseText = doc.text := by
  obtain ⟨f, hs, hr⟩ := h
  obtain rfl := hr.standing_eq
  exact History.baseOf_nil (hs.records.closed hd) _

lemma Saves.markSaved (h : Saves saved doc) :
    Saves doc.baseText { doc with history := doc.history.markSaved } := by
  obtain ⟨f, hs, hr⟩ := h
  have hsaves := hs.markSaved
  rw [baseText, hr.text_eq, hr.history_eq]
  exact ⟨_, hsaves, hr.withHistory (hr.history_eq ▸ hr.history.markSaved)⟩

lemma Saves.perform {call : HistoryCall} {reply : HistoryReply} (h : Saves saved doc) (hc : call.IsTame)
    (hspare : call = .endGroup → doc.updateDepth < doc.history.depth)
    (hok : call.perform doc.history = .ok (reply, history)) : Saves saved { doc with history } := by
  obtain ⟨f, hs, hr⟩ := h
  have hdepth : doc.updateDepth = f.depth := congrArg Standing.depth hr.standing_eq
  have hbalanced := hr.history.perform (fun _ _ _ => (Change.Built.ofEdit _ _ _).balanced) hok
  rw [hr.history_eq] at hspare hok
  exact ⟨_, hs.perform hc (hdepth ▸ hspare) hok, hr.withHistory hbalanced⟩

end Document

end Standing

open EditableText.Document

namespace Call

/-- A call that holds no others and leaves the recording of changes to the document. The listeners that it
brings never fail. -/
def LeavesRecording : Call → Prop
  | runUpdate _ | group _ _ => False
  | history call => call.IsTame ∨ call = .markSaved
  | subscribe _ fails => ∀ heard, fails heard = false
  | _ => True

mutual

/-- The text that was saved last when the call has been made, if the call is in order: by hand no group is
closed that an update has opened, and nothing is saved while a group is open. -/
def savedAfter : Call → Session → Text → Option Text
  | history .endGroup, s, saved =>
    if s.document.updateDepth < s.document.history.depth then some saved else none
  | history .markSaved, s, _ => if s.document.history.depth = 0 then some s.document.text else none
  | setText t, s, saved =>
    if s.document.history.depth = 0 then
      match (perform (setText t) s).outcome with
      | .ok _ => some t
      | _ => some saved
    else none
  | runUpdate calls, s, saved | group calls _, s, saved => savedAfterAll calls (opened s) saved
  | _, _, saved => some saved

def savedAfterAll : List Call → Session → Text → Option Text
  | [], _, saved => some saved
  | c :: rest, s, saved => do
    let saved ← savedAfter c s saved
    match (perform c s).outcome with
    | .ok reply => savedAfterAll rest ((perform c s).state.addReply (.ok reply)) saved
    | _ => some saved

end

variable {s : Session} {saved saved' : Text} {c : Call} {calls rest : List Call}

lemma saves_of_aside (h : c.IsAside) : Keeps (Held (Saves saved)) c.perform :=
  saves_of_rested fun _ => h.perform.ends_rested c.keeps_perform

lemma performHistory_state (call : HistoryCall) (s : Session) :
    (performHistory call s).state.document = match call.perform s.document.history with
      | .ok (_, after) => { s.document with history := after }
      | .error _ => s.document := by
  change (Action.bind (Action.state : Action Session Session) _ s).state.document = _
  simp only [Action.bind, Action.state]
  cases call.perform s.document.history with
  | ok performed => rfl
  | error e => rfl

lemma saves_performHistory {call : HistoryCall} (hc : call.IsTame)
    (hspare : call = .endGroup → s.document.updateDepth < s.document.history.depth) (hs : Held (Saves saved) s) :
    Held (Saves saved) (performHistory call s).state := by
  change Saves saved (performHistory call s).state.document
  rw [performHistory_state]
  cases hok : call.perform s.document.history with
  | ok performed => exact Saves.perform hs hc hspare hok
  | error e => exact hs

lemma saves_kept (hc : c.LeavesRecording) (ht : ∀ t, c ≠ setText t) (hh : ∀ call, c ≠ .history call) :
    Keeps (Held (Saves saved)) c.perform := by
  by_cases haside : c.IsAside
  · exact saves_of_aside haside
  cases c with
  | insert | insertWithMovement | remove | replace =>
    rw [perform]
    exact keeps_acting (saves_replaceWithMap _ _ _ _) _
  | replaceWithMap =>
    rw [perform]
    exact keeps_acting (saves_replaceWithMap _ _ _ _) _
  | beginUpdate =>
    rw [perform]
    exact keeps_acting upkeep_saves.keeps_beginUpdate _
  | endUpdate =>
    rw [perform]
    exact keeps_acting upkeep_saves.keeps_endUpdate _
  | undo =>
    rw [perform]
    exact keeps_acting (saves_playBack .back) _
  | redo =>
    rw [perform]
    exact keeps_acting (saves_playBack .forth) _
  | subscribe label =>
    rw [perform]
    exact keeps_acting (saves_of_rested (σ := Document) fun _ =>
      Rested.ends_subscribe label (absurd trivial) fun _ => hc) _
  | unsubscribe token =>
    rw [perform]
    exact keeps_acting (saves_of_rested (σ := Document) fun _ => Rested.ends_unsubscribe token) _
  | setText t => exact absurd rfl (ht t)
  | history call => exact absurd rfl (hh call)
  | runUpdate | group => exact hc.elim
  | _ => exact absurd trivial haside

lemma savedAfter_of_tame {call : HistoryCall} (hc : call.IsTame)
    (hsaved : (Call.history call).savedAfter s saved = some saved') :
    saved' = saved ∧ (call = .endGroup → s.document.updateDepth < s.document.history.depth) := by
  cases call with
  | push | beginUndo | endUndo | beginRedo | endRedo | enterModify | exitModify | setAcceptsChanges | markSaved =>
    exact hc.elim
  | endGroup =>
    rw [savedAfter] at hsaved
    split at hsaved
    case isTrue hspare => exact ⟨(Option.some.inj hsaved).symm, fun _ => hspare⟩
    case isFalse => cases hsaved
  | startGroup | startContinuedGroup | setLimit | discardSaved | clear | clearRedo =>
    exact ⟨(Option.some.inj hsaved).symm, by simp⟩

lemma saves_single (hc : c.LeavesRecording) (hs : Held (Saves saved) s)
    (hsaved : c.savedAfter s saved = some saved') : Held (Saves saved') (c.perform s).state := by
  have hdoc : Saves saved s.document := hs
  cases c with
  | setText t =>
    rw [savedAfter] at hsaved
    split at hsaved
    case isTrue hd =>
      obtain ⟨⟨a, ha⟩, hafter⟩ := hdoc.setText hd t
      rw [perform, doing, acting_eq] at hsaved ⊢
      rw [ha] at hsaved
      obtain rfl := Option.some.inj hsaved
      exact hafter
    case isFalse => cases hsaved
  | history call =>
    rw [perform]
    rcases hc with htame | rfl
    · obtain ⟨rfl, hspare⟩ := savedAfter_of_tame htame hsaved
      exact saves_performHistory htame hspare hs
    · rw [savedAfter] at hsaved
      split at hsaved
      case isTrue hd =>
        obtain rfl := Option.some.inj hsaved
        rw [Held, show HasDocument.document _ = _ from performHistory_state .markSaved s]
        exact hdoc.baseText_eq hd ▸ hdoc.markSaved
      case isFalse => cases hsaved
  | runUpdate | group => exact hc.elim
  | _ =>
    obtain rfl := Option.some.inj hsaved
    exact (saves_kept hc (fun _ => by simp) fun _ => by simp).state hs

lemma begins_saves {doc : Document} (h : Saves saved doc) : ∃ a, (Document.beginUpdate doc).outcome = .ok a := by
  obtain ⟨f, -, hr⟩ := h
  have hends : Ends (Rested True f) Document.beginUpdate (Rested True f.opened) (fun _ => False)
      fun _ _ => False := Rested.ends_beginUpdate
  obtain ⟨a, ha, -⟩ := (hends _ hr).succeeds fun _ _ => id
  exact ⟨a, ha⟩

lemma sustains_saves : Sustains Saves fun _ => True where
  begins := begins_saves
  beginUpdate _ := ⟨upkeep_saves.keeps_beginUpdate, fun _ _ _ _ => trivial⟩
  endUpdate _ := ⟨upkeep_saves.keeps_endUpdate, fun _ _ _ _ => trivial⟩
  closeUpdate _ := ⟨upkeep_saves.keeps_closeUpdate, fun _ _ _ _ => trivial⟩
  unwound := upkeep_saves.closeSilently

lemma tracks_savedAfter : Tracks savedAfter savedAfterAll where
  runUpdate _ _ _ := by rw [savedAfter]
  group _ _ _ _ := by rw [savedAfter]
  nil _ _ := by rw [savedAfterAll]
  cons _ _ _ _ := by
    rw [savedAfterAll]
    rfl

lemma saves_perform {c : Call} (hc : c.Each LeavesRecording fun _ => True) (hs : Saves saved s.document)
    (hsaved : c.savedAfter s saved = some saved') : Saves saved' (c.perform s).state.document := by
  have hrule := sustains_saves.rule tracks_savedAfter fun hc hs hsaved =>
    ⟨saves_single hc hs hsaved, fun _ _ => trivial⟩
  exact (hrule.each c hc s saved saved' hs hsaved).1

end Call

namespace Document

variable {t saved : Text} {options : DocumentOptions} {doc : Document}

/-- The document began as `t`, and of the texts that were saved since then `saved` is the last one: at the
beginning, when the history was told so, or when the whole text was replaced. -/
inductive LastSaved (t : Text) (options : DocumentOptions) : Text → Document → Prop
  | start {doc : Document} (h : ofText? t options = some doc) : LastSaved t options t doc
  | call {s : Session} {saved saved' : Text} {c : Call} (h : LastSaved t options saved s.document)
    (hc : c.Each Call.LeavesRecording fun _ => True) (hsaved : c.savedAfter s saved = some saved') :
    LastSaved t options saved' (c.perform s).state.document
  | unwind {saved : Text} {doc : Document} (h : LastSaved t options saved doc) :
    LastSaved t options saved doc.closeSilently

lemma saves_ofText (h : ofText? t options = some doc) : Saves t doc := by
  have hhistory : doc.history = .withLimit options.undoLimit := by
    obtain ⟨bus, -, hok⟩ := Option.bind_eq_some_iff.mp h
    obtain rfl := Option.some.inj hok
    rfl
  refine ⟨doc.standing, ⟨?_, ?_⟩, (sound_ofText h).1.rested⟩
  · change doc.history.Records t doc.text
    rw [hhistory, text_ofText h]
    exact .withLimit _ _
  · exact Nat.le_trans (Nat.le_of_eq (begins_ofText h).1) (Nat.zero_le _)

lemma LastSaved.saves (h : LastSaved t options saved doc) : Saves saved doc := by
  induction h with
  | start h => exact saves_ofText h
  | @call s saved saved' c _ hc hsaved ih => exact Call.saves_perform hc ih hsaved
  | unwind _ ih => exact upkeep_saves.closeSilently ih

end Document

end EditableText
