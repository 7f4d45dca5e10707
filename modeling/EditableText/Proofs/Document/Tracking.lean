import EditableText.Proofs.Document.Aside
import EditableText.Proofs.Document.Interrupted
import EditableText.Proofs.Document.Paths

namespace EditableText

open EditableText.Action

variable {first : Text} {depth : Nat} {f : Standing} {c : Change}

structure Standing.InStep (first : Text) (depth : Nat) (f : Standing) : Prop where
  history : f.history.InStep first f.text
  depth_eq : f.depth = depth
  groupDepth : f.history.depth = depth
  room : 0 < depth → f.history.undo.length < f.history.limit

namespace Standing.InStep

lemma opened (h : f.InStep first depth) (hroom : f.history.undo.length < f.history.limit) :
    f.opened.InStep first (depth + 1) :=
  ⟨h.history.startGroup, congrArg (· + 1) h.depth_eq, congrArg (· + 1) h.groupDepth, fun _ => hroom⟩

lemma changed (h : f.InStep first (depth + 1)) (hc : c.Fits f.text) :
    ∃ history, f.history.push c = .ok history ∧ (f.played [c] history).InStep first (depth + 1) := by
  obtain ⟨hpush, hinStep⟩ := h.history.push (h.groupDepth ▸ Nat.succ_pos depth) hc
  exact ⟨_, hpush, hinStep, h.depth_eq, h.groupDepth, h.room⟩

lemma closed (h : f.InStep first (depth + 1)) :
    ∃ history, f.history.endGroup = .ok history ∧
      ({ f with depth, history } : Standing).InStep first depth := by
  obtain ⟨history, hend, hinStep, hdepth, hroom⟩ :=
    h.history.endGroup h.groupDepth (h.room (Nat.succ_pos depth))
  exact ⟨history, hend, hinStep, rfl, hdepth, hroom⟩

lemma isClosed (h : f.InStep first 0) : f.history.Closed := h.history.isClosed h.groupDepth

section Playback

variable {group : ChangeGroup} {rest : List ChangeGroup}

lemma played {d : Direction} (h : f.InStep first 0) (hgroups : d.groups f.history = group :: rest) :
    let after := f.played (d.changes group) (d.finish (d.handed group rest f.history))
    after.InStep first 0 ∧ d.along (f.history.timeline f.text) = some (after.history.timeline after.text) := by
  obtain ⟨-, hinStep, halong⟩ := h.history.played h.groupDepth hgroups
  exact ⟨⟨hinStep, h.depth_eq, by simpa [Standing.played] using h.groupDepth,
    fun hpos => absurd hpos (Nat.lt_irrefl 0)⟩, halong⟩

end Playback

end Standing.InStep

namespace Action

variable {σ α β : Type} {s s' : σ}

lemma bind_eq_of_silent {x : Action σ α} {f : α → Action σ β} {a : α} (hx : x s = ⟨.ok a, s', []⟩) :
    (x >>= f) s = f a s' := by
  change Action.bind x f s = _
  rw [Action.bind, hx]
  rfl

lemma eq_of_bind_pure {x : Action σ α} {a b : β} (h : ((x >>= fun _ => pure b) s).outcome = .ok a) : a = b := by
  change (Action.bind x (fun _ => Action.pure b) s).outcome = _ at h
  rw [Action.bind] at h
  cases hx : (x s).outcome with
  | ok c =>
    rw [hx] at h
    exact (Outcome.ok.inj h).symm
  | refused e =>
    rw [hx] at h
    cases h
  | abandoned =>
    rw [hx] at h
    cases h

end Action

namespace Document

variable {calm : Prop} {doc : Document} {A : DocumentEvent → Document → Prop} {R : Document → Prop}

section Checked

variable {γ β : Type} (begin : History → Except TextError γ) (k : γ → Action Document β)
  (hmark : doc.inChange = false)

include hmark

lemma checked_eq :
    (do checkNotInChange
        let doc ← .state
        let handed ← .lift (begin doc.history)
        k handed) doc = (Action.lift (begin doc.history) >>= k) doc := by
  rw [bind_eq_of_silent (checkNotInChange_runs hmark),
    bind_eq_of_silent (show Action.state doc = ⟨.ok doc, doc, []⟩ from rfl)]

lemma checked_bind {handed : γ} (hbegin : begin doc.history = .ok handed) :
    (do checkNotInChange
        let doc ← .state
        let handed ← .lift (begin doc.history)
        k handed) doc = k handed doc := by
  rw [checked_eq begin k hmark, hbegin]
  exact bind_eq_of_silent rfl

end Checked

namespace Rested

variable {d : Direction} {group : ChangeGroup} {rest : List ChangeGroup}

lemma ends_playBack_in_step (hs : f.InStep first 0) (hgroups : d.groups f.history = group :: rest) :
    let final := d.finish (d.handed group rest f.history)
    Ends (Rested calm f) (playBack d) (Rested calm (f.played (d.changes group) final)) (fun _ => False)
      fun _ => CutInPlayback calm (d.changes group) final f := by
  obtain ⟨hfits, -⟩ := hs.history.played hs.groupDepth hgroups
  have hends : Ends (Rested calm f) (playBack d) _ _ _ := ends_playBack hs.isClosed hgroups hfits.inRange
  rwa [History.singled_eq hs.history.single] at hends

lemma playBack_eq_nothing (h : Rested calm f doc) (hclosed : f.history.Closed)
    (hgroups : d.groups f.history = []) : playBack d doc = ⟨.ok false, doc, []⟩ := by
  have hok := hclosed.handOut_eq_none hgroups
  rw [← h.history_eq] at hok
  exact checked_bind d.handOut _ h.inChange hok

lemma playBack_eq_true (h : Rested calm f doc) (hclosed : f.history.Closed)
    (hgroups : d.groups f.history = group :: rest) {a : Bool} (ha : (playBack d doc).outcome = .ok a) :
    a = true := by
  have hok := hclosed.handOut_eq hgroups
  rw [← h.history_eq] at hok
  rw [show playBack d doc = _ from checked_bind d.handOut _ h.inChange hok] at ha
  exact eq_of_bind_pure ha

lemma playBack_ok (h : Rested True f doc) (hclosed : f.history.Closed)
    (hgroups : d.groups f.history = group :: rest) (hc : Change.InRangeAll (d.changes group) f.text) :
    ∃ after deliveries, playBack d doc = ⟨.ok true, after, deliveries⟩ ∧
      Rested True (f.played (d.changes group) (d.finish (d.handed group rest f.history.singled))) after := by
  obtain ⟨a, ha, hafter⟩ := (ends_playBack hclosed hgroups hc doc h).succeeds fun _ _ hcut => hcut.1 trivial
  obtain rfl := h.playBack_eq_true hclosed hgroups ha
  exact ⟨(playBack d doc).state, (playBack d doc).deliveries, by rw [← ha], hafter⟩

lemma ends_playBack_in_group {Q : Document → Prop} (d : Direction) (hd : 0 < f.history.depth) :
    Ends (Rested calm f) (playBack d) Q (Rested calm f) A := by
  refine ends_checkNotInChange.bind fun _ => .state_bind fun doc h => ?_
  refine .lift_bind _ (fun _ hok => ?_) fun _ he => he ▸ h
  have hclosed := (Direction.idle_of_handOut hok).1
  rw [h.history_eq] at hclosed
  exact absurd hclosed (Nat.ne_of_gt hd)

lemma ends_subscribe (label : String) {fails : List DocumentEvent → Bool} (hspares : ¬ calm → Spares fails)
    (hcalm : calm → ∀ heard, fails heard = false) :
    Ends (Rested calm f) (subscribe label fails) (Rested calm f) R A := by
  refine .state_bind fun doc h => ?_
  refine Ends.bind (Q := Rested calm f) (.alter fun _ he => ?_) fun _ => .pure _ fun _ h => h
  subst he
  refine ⟨h.toAtRest.withObservers _ _ _, h.standing_eq, fun hnot l hl => ?_, fun hyes l hl => ?_⟩
  · rcases List.mem_append.mp hl with hold | hnew
    · exact h.spares hnot l hold
    · obtain rfl := List.mem_singleton.mp hnew
      exact hspares hnot
  · rcases List.mem_append.mp hl with hold | hnew
    · exact h.calm hyes l hold
    · obtain rfl := List.mem_singleton.mp hnew
      exact fun _ _ => hcalm hyes _

lemma ends_unsubscribe (token : Nat) : Ends (Rested calm f) (unsubscribe token) (Rested calm f) R A := by
  refine .state_bind fun doc h => ?_
  refine Ends.bind (Q := Rested calm f) (.alter fun _ he => ?_) fun _ => .pure _ fun _ h => h
  subst he
  exact ⟨h.toAtRest.withObservers _ _ _, h.standing_eq,
    fun hnot l hl => h.spares hnot l (List.mem_filter.mp hl).1,
    fun hyes l hl => h.calm hyes l (List.mem_filter.mp hl).1⟩

end Rested

lemma Sound.rested (h : doc.Sound) : Rested calm doc.standing doc := by
  refine ⟨h.toAtRest, rfl, fun _ l hl event heard hfails => ?_, fun _ l hl event more => h.quiet l hl _⟩
  rw [h.quiet l hl] at hfails
  cases hfails

def Tracked (calm : Prop) (first : Text) (depth : Nat) (doc : Document) : Prop :=
  ∃ f, f.InStep first depth ∧ Rested calm f doc

def Ready (calm : Prop) (first : Text) (depth : Nat) (doc : Document) : Prop :=
  ∃ f : Standing, f.InStep first depth ∧ f.history.undo.length < f.history.limit ∧ Rested calm f doc

namespace Tracked

lemma ready (h : Tracked calm first (depth + 1) doc) : Ready calm first (depth + 1) doc :=
  let ⟨f, hs, hr⟩ := h
  ⟨f, hs, hs.room (Nat.succ_pos depth), hr⟩

lemma ends_closeUpdate : Ends (Tracked calm first (depth + 1)) closeUpdate (Tracked calm first depth) R A := by
  rintro doc ⟨f, hs, hr⟩
  obtain ⟨history, hend, hafter⟩ := hs.closed
  exact (Rested.ends_closeUpdate hs.depth_eq hend doc hr).mono (fun _ h => ⟨_, hafter, h⟩) (fun _ h => h)
    fun _ _ h => h

lemma ends_endUpdate : Ends (Tracked calm first (depth + 1)) endUpdate (Tracked calm first depth) R A := by
  rintro doc ⟨f, hs, hr⟩
  obtain ⟨history, hend, hafter⟩ := hs.closed
  exact (Rested.ends_endUpdate hs.depth_eq hend doc hr).mono (fun _ h => ⟨_, hafter, h⟩) (fun _ h => h)
    fun _ _ h => h

lemma closeSilently (h : Tracked calm first (depth + 1) doc) : Tracked calm first depth doc.closeSilently := by
  obtain ⟨f, hs, hr⟩ := h
  obtain ⟨history, hend, hafter⟩ := hs.closed
  exact ⟨_, hafter, hr.closeSilently hs.depth_eq hend⟩

end Tracked

namespace Ready

lemma tracked (h : Ready calm first depth doc) : Tracked calm first depth doc :=
  let ⟨f, hs, _, hr⟩ := h
  ⟨f, hs, hr⟩

lemma ends_beginUpdate : Ends (Ready calm first depth) beginUpdate (Tracked calm first (depth + 1)) R A := by
  rintro doc ⟨f, hs, hroom, hr⟩
  exact (Rested.ends_beginUpdate doc hr).mono (fun _ h => ⟨_, hs.opened hroom, h⟩) (fun _ h => h) fun _ _ h => h

end Ready

def Tracks {σ α : Type} [HasDocument σ] (first : Text) (depth : Nat) (x : Action σ α) : Prop :=
  Ends (Held (Ready False first depth)) x (Held (Tracked False first depth)) (Held (Tracked False first depth))
    fun _ => Held (Tracked False first depth)

section Update

variable {σ α : Type} [HasDocument σ] [LawfulHolder σ] {body : Action σ α}

lemma tracks_runUpdate (h : Tracks first (depth + 1) body) : Tracks first depth (runUpdate body) :=
  ends_runUpdate Ready.ends_beginUpdate (h.of_imp fun _ => Tracked.ready) Tracked.ends_endUpdate
    Tracked.ends_endUpdate fun _ _ h => h.closeSilently

end Update

lemma tracks_runChange (hb : c.Balanced) {f : Standing} (hc : c.Fits f.text) (hs : f.InStep first depth)
    (hroom : f.history.undo.length < f.history.limit) :
    Ends (Rested False f) (runChange c) (Tracked False first depth) (Tracked False first depth)
      fun _ => Tracked False first depth := by
  have hopened := hs.opened hroom
  obtain ⟨history, hpush, hchanged⟩ := hopened.changed hc
  have hbody : Ends (Held (Rested False f.opened)) (applyChange c) (Held (Tracked False first (depth + 1)))
      (Held (Tracked False first (depth + 1))) fun _ => Held (Tracked False first (depth + 1)) := by
    refine (Rested.ends_applyChange (f := f.opened) hb hc.le_length hpush).mono (fun _ h => h)
      (fun _ h => ⟨_, hchanged, h⟩) (fun _ h => h) ?_
    rintro - doc ⟨-, g, rfl | rfl, hr⟩
    · exact ⟨_, hopened, hr⟩
    · exact ⟨_, hchanged, hr⟩
  exact ends_runUpdate (σ := Document) Rested.ends_beginUpdate hbody Tracked.ends_endUpdate
    Tracked.ends_endUpdate fun _ _ h => h.closeSilently

lemma tracks_replaceWithMap (offset length : Nat) (t : Text) (map : OffsetMap) :
    Tracks first depth (replaceWithMap offset length t map) := by
  rintro doc ⟨f, hs, hroom, hr⟩
  refine Ends.bind (P := Rested False f) Rested.ends_checkNotInChange (fun _ => ?_) doc hr
  refine .state_bind fun doc h => ?_
  have htracked : Tracked False first depth doc := ⟨f, hs, h⟩
  refine .lift_bind _ (fun _ hcheck => .ite (.pure () fun _ he => he ▸ htracked) ?_) fun _ he => he ▸ htracked
  have hrange := checkRange_eq_ok.mp hcheck
  refine .lift_bind _ (fun removed hslice => .lift_bind _ (fun c hmap => ?_) fun _ he => he ▸ htracked)
    fun _ he => he ▸ htracked
  obtain rfl := Except.ok.inj ((h.slice_eq hrange).symm.trans hslice)
  have htext := h.toWatched.text_eq
  have hfits : c.Fits f.text := htext ▸ h.fits_of_withMap hrange hmap
  exact (tracks_runChange (Change.Built.withMap hmap).balanced hfits hs hroom).of_eq h

lemma tracks_of_rested {σ α : Type} [HasDocument σ] {x : Action σ α}
    (h : ∀ {f : Standing}, f.InStep first depth → Ends (Held (Rested False f)) x (Held (Rested False f))
      (Held (Rested False f)) fun _ => Held (Rested False f)) : Tracks first depth x := by
  rintro s ⟨f, hs, -, hr⟩
  exact (h hs s hr).mono (fun _ h => ⟨f, hs, h⟩) (fun _ h => ⟨f, hs, h⟩) fun _ _ h => ⟨f, hs, h⟩

lemma tracks_playBack_in_update (d : Direction) (hd : 0 < depth) : Tracks first depth (playBack d) :=
  tracks_of_rested (σ := Document) fun hs => Rested.ends_playBack_in_group d (hs.groupDepth ▸ hd)

lemma tracks_subscribe (label : String) {fails : List DocumentEvent → Bool} (hfails : Spares fails) :
    Tracks first depth (subscribe label fails) :=
  tracks_of_rested (σ := Document) fun _ => Rested.ends_subscribe label (fun _ => hfails) False.elim

lemma tracks_unsubscribe (token : Nat) : Tracks first depth (unsubscribe token) :=
  tracks_of_rested (σ := Document) fun _ => Rested.ends_unsubscribe token

end Document

open EditableText.Document

lemma Action.Aside.ends_rested {calm : Prop} {σ α : Type} [HasDocument σ] {x : Action σ α} (h : x.Aside)
    (hk : Keeps (Held AtRest) x) {A : DocumentEvent → σ → Prop} :
    Ends (Held (Rested calm f)) x (Held (Rested calm f)) (Held (Rested calm f)) A := by
  intro s hr
  have hwatched := h.ends (A := A) (fun _ _ _ hw => Watched.moved hw hw.standing_eq rfl) s hr.toWatched
  have hboth := hwatched.and (S := Held AtRest) (hk.state hr.toAtRest)
  exact hboth.mono (fun _ h => ⟨h.2, h.1⟩) (fun _ h => ⟨h.2, h.1⟩) fun _ _ h => h.1

namespace Call

/-- A call that holds no others and leaves the history to the document. The listeners that it brings fail
only while a change is under way. -/
def Retraceable : Call → Prop
  | runUpdate _ | group _ _ | setText _ | beginUpdate | endUpdate | history _ => False
  | subscribe _ fails => Spares fails
  | _ => True

def IsPlayback : Call → Prop
  | undo | redo => True
  | _ => False

lemma tracks_acting {α : Type} {x : Action Document α} (h : Tracks first depth x) (reply : α → Reply) :
    Tracks first depth (acting x reply) :=
  Ends.bind (Ends.onDocument h) fun _ => .pure _ fun _ h => h

lemma tracks_holding {body : Action Session Unit} (h : Tracks first (depth + 1) body) {ending : GroupEnding}
    (hending : ending ≠ .fail) : Tracks first depth (holding body ending) := by
  have hbegin : Ends (Held (Ready False first depth)) (onDocument Document.beginUpdate : Action Session Unit)
      (Held (Ready False first (depth + 1))) (Held (Tracked False first depth))
      fun _ => Held (Tracked False first depth) :=
    Ready.ends_beginUpdate.onDocument.mono (fun _ h => h) (fun _ => Tracked.ready) (fun _ h => h) fun _ _ h => h
  have hguarded : Ends (Held (Ready False first (depth + 1))) (body.onAbandoned (inDocument closeSilently))
      (Held (Tracked False first (depth + 1))) (Held (Tracked False first (depth + 1)))
      fun _ => Held (Tracked False first depth) :=
    h.onAbandoned fun _ _ => held_inDocument fun _ => Tracked.closeSilently
  cases ending with
  | close =>
    exact hbegin.bind fun _ => hguarded.attempt.bind fun result =>
      Tracked.ends_endUpdate.onDocument.bind fun _ => .ofExcept result (fun _ h => h) fun _ h => h
  | drop =>
    exact hbegin.bind fun _ => hguarded.attempt.bind fun result =>
      Tracked.ends_closeUpdate.onDocument.attempt.bind fun _ => .ofExcept result (fun _ h => h) fun _ h => h
  | fail => exact absurd rfl hending

lemma Retraceable.tracks {c : Call} (h : c.Retraceable) (hc : 0 < depth ∨ ¬ c.IsPlayback) :
    Tracks first depth c.perform := by
  by_cases haside : c.IsAside
  · exact tracks_of_rested fun _ => haside.perform.ends_rested c.keeps_perform
  cases c with
  | insert | insertWithMovement | remove | replace =>
    rw [perform]
    exact tracks_acting (tracks_replaceWithMap _ _ _ _) _
  | replaceWithMap =>
    rw [perform]
    exact tracks_acting (tracks_replaceWithMap _ _ _ _) _
  | undo =>
    rw [perform]
    exact tracks_acting (tracks_playBack_in_update .back (hc.resolve_right fun hc => hc trivial)) _
  | redo =>
    rw [perform]
    exact tracks_acting (tracks_playBack_in_update .forth (hc.resolve_right fun hc => hc trivial)) _
  | subscribe label fails =>
    rw [perform]
    exact tracks_acting (tracks_subscribe label h) _
  | unsubscribe token =>
    rw [perform]
    exact tracks_acting (tracks_unsubscribe token) _
  | runUpdate | group | setText | beginUpdate | endUpdate | history => exact h.elim
  | _ => exact absurd trivial haside

lemma tracks_rule (first : Text) : EachRule Retraceable (· ≠ .fail)
    (fun c => ∀ depth, 0 < depth ∨ ¬ c.IsPlayback → Tracks first depth c.perform)
    fun calls => ∀ depth, Tracks first (depth + 1) (performAll calls) := by
  refine ⟨fun {c} hc depth => hc.tracks, fun {calls} hcalls depth _ => ?_,
    fun {calls ending} hending hcalls depth _ => ?_, fun depth => ?_, fun {c rest} hc hrest depth => ?_⟩
  · rw [perform]
    exact (tracks_runUpdate (hcalls depth)).bind fun _ => .pure _ fun _ h => h
  · rw [perform]
    exact (tracks_holding (hcalls depth) hending).bind fun _ => .pure _ fun _ h => h
  · rw [performAll]
    exact .pure () fun _ => Ready.tracked
  · rw [performAll]
    refine (hc (depth + 1) (.inl (Nat.succ_pos depth))).attempt.bind fun reply =>
      Ends.bind (.alter fun _ h => ?_) fun _ =>
        Ends.bind (.ofExcept reply (fun _ h => Tracked.ready h) fun _ h => h) fun _ => hrest depth
    exact h

end Call

end EditableText
