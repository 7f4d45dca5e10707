import EditableText.Document.Call
import EditableText.Proofs.Document.Blind
import EditableText.Proofs.Document.Paths

namespace EditableText

open EditableText.Action EditableText.Document

/-- Replies that differ only in naming how the characters are kept. -/
inductive Reply.Alike : Reply → Reply → Prop
  | same (reply : Reply) : Alike reply reply
  | options (options : DocumentOptions) (buffer : BufferStrategy) :
    Alike (.options options) (.options { options with buffer })
  | description {doc doc' : Document} (h : doc.Alike doc') (idText : String) :
    Alike (.description (doc.describe idText)) (.description (doc'.describe idText))

structure Session.Alike (s s' : Session) : Prop where
  document : s.document.Alike s'.document
  snapshots : s.snapshots = s'.snapshots
  replies : List.Forall₂ (Except.Alike Reply.Alike) s.replies s'.replies

lemma Session.holding_alike : Holding Session.Alike where
  document h := h.document
  withDocument h hd := ⟨hd, h.snapshots, h.replies⟩

namespace Call

def NamesBuffer : Call → Prop
  | options | describe _ => True
  | _ => False

def Answers (call : Call) (reply reply' : Reply) : Prop :=
  reply.Alike reply' ∧ (¬ call.NamesBuffer → reply = reply')

lemma agree_of_blind {call : Call} (h : Blind Session.Alike call.perform) :
    Agree Session.Alike call.Answers call.perform call.perform := by
  apply Agree.mono h
  rintro reply _ rfl
  exact ⟨.same reply, fun _ => rfl⟩

lemma blind_acting {α : Type} {x : Action Document α} (h : Blind Document.Alike x) (reply : α → Reply) :
    Blind Session.Alike (acting x reply) :=
  (Session.holding_alike.onDocument h).bind fun a => .pure (reply a)

lemma blind_reading {α : Type} {f : Document → Except TextError α} (hf : Shared f) (reply : α → Reply) :
    Blind Session.Alike (reading f reply) := by
  refine Blind.reading fun s s' h => ?_
  rw [← hf _ _ h.document]
  exact (Blind.lift _).bind fun a => .pure (reply a)

lemma blind_telling {f : Document → Reply} (hf : Shared f) : Blind Session.Alike (telling f) :=
  blind_reading (fun doc doc' h => congrArg Except.ok (hf doc doc' h)) id

lemma blind_ofSnapshot (index : Nat) (f : Snapshot → Reply) : Blind Session.Alike (ofSnapshot index f) := by
  refine Blind.reading fun s s' h => ?_
  rw [← h.snapshots]
  split <;> exact .pure rfl

lemma blind_performHistory (call : HistoryCall) : Blind Session.Alike (performHistory call) := by
  refine Blind.reading fun s s' h => ?_
  have hhistory : s.document.history = s'.document.history := by rw [h.document.rest]
  rw [← hhistory]
  split
  case h_1 reply after _ =>
    have huniform : Uniform fun doc => { doc with history := after } := fun _ _ _ => ⟨rfl, rfl⟩
    refine Blind.bind (.alter fun _ _ => ?_) fun _ => .pure _
    exact Session.holding_alike.inDocument fun _ _ => huniform.alike
  case h_2 => exact .pure rfl

lemma blind_holding {body : Action Session Unit} (h : Blind Session.Alike body) (ending : GroupEnding) :
    Blind Session.Alike (holding body ending) := by
  have hbegin := Session.holding_alike.onDocument blind_beginUpdate
  cases ending with
  | close =>
    refine hbegin.bind fun _ => (Session.holding_alike.guarded h).bind fun result => ?_
    exact (Session.holding_alike.onDocument blind_endUpdate).bind fun _ => .ofExcept result
  | drop =>
    refine hbegin.bind fun _ => (Session.holding_alike.guarded h).bind fun result => ?_
    exact (Session.holding_alike.onDocument blind_closeUpdate).attempt.bind fun _ => .ofExcept result
  | fail =>
    refine hbegin.bind fun _ => Agree.onAbandoned (Blind.bind h.attempt fun _ => .abandon) fun _ _ => ?_
    exact Session.holding_alike.inDocument fun _ _ => closeSilently_alike

lemma blind_perform {call : Call} (hsingle : ¬ call.Holds) (hnames : ¬ call.NamesBuffer) :
    Blind Session.Alike call.perform := by
  cases call with
  | runUpdate | group => exact absurd trivial hsingle
  | options | describe => exact absurd trivial hnames
  | insert | insertWithMovement | remove | replace | replaceWithMap =>
    rw [perform]
    exact blind_acting (blind_replaceWithMap _ _ _ _) _
  | setText t => rw [perform]; exact blind_acting (blind_setText t) _
  | beginUpdate => rw [perform]; exact blind_acting blind_beginUpdate _
  | endUpdate => rw [perform]; exact blind_acting blind_endUpdate _
  | undo => rw [perform]; exact blind_acting (blind_playBack .back) _
  | redo => rw [perform]; exact blind_acting (blind_playBack .forth) _
  | history call => rw [perform]; exact blind_performHistory call
  | canPlayBack | identities =>
    rw [perform]
    exact blind_telling (shared_of fun _ _ _ => rfl)
  | textLength =>
    rw [perform]
    exact blind_telling fun doc doc' h => congrArg Reply.count (shared_textLength doc doc' h)
  | query q =>
    rw [perform]
    exact blind_telling fun doc doc' h => congrArg Reply.found (shared_answer q doc doc' h)
  | slice => rw [perform]; exact blind_reading (shared_slice _ _) _
  | charAt offset => rw [perform]; exact blind_reading (fun _ _ h => (h.storage.charAt_eq offset).symm) _
  | lineText => rw [perform]; exact blind_reading (shared_lineText _) _
  | newlineForLine => rw [perform]; exact blind_reading (shared_newlineForLine _) _
  | line | lineAt | location | offsetOf | anchor | anchorOffset | anchorLocation | isAnchorDeleted
  | anchorSegment =>
    rw [perform]
    exact blind_reading (shared_of fun _ _ _ => rfl) _
  | createAnchor => rw [perform]; exact blind_acting (blind_createAnchor _ _ _) _
  | releaseAnchor | setAnchorMovement | setAnchorSurvivesDeletion =>
    rw [perform]
    exact blind_acting (blind_changeAnchors _) _
  | createAnchorSegment => rw [perform]; exact blind_acting (blind_createAnchorSegment _ _) _
  | releaseAnchorSegment => rw [perform]; exact blind_acting (blind_releaseAnchorSegment _) _
  | subscribe => rw [perform]; exact blind_acting (blind_subscribe _ _) _
  | unsubscribe => rw [perform]; exact blind_acting (blind_unsubscribe _) _
  | addReceiver => rw [perform]; exact blind_acting blind_addReceiver _
  | receive => rw [perform]; exact blind_acting (blind_receive _ _) _
  | takeSnapshot =>
    rw [perform]
    refine Blind.reading fun s s' h => ?_
    rw [shared_snapshot _ _ h.document]
    refine Blind.bind (.alter fun s s' h => ?_) fun _ => .pure _
    exact ⟨h.document, congrArg (Array.push · _) h.snapshots, h.replies⟩
  | querySnapshot | snapshotVersion => rw [perform]; exact blind_ofSnapshot _ _

lemma answers_of_namesBuffer {call : Call} (h : call.NamesBuffer) :
    Agree Session.Alike call.Answers call.perform call.perform := by
  intro s s' hs
  cases call with
  | options =>
    refine .ok ⟨?_, fun hnot => absurd h hnot⟩ hs .nil
    have halike := Reply.Alike.options s.document.options s'.document.options.buffer
    have hoptions : s'.document.options = { s.document.options with buffer := s'.document.options.buffer } := by
      rw [hs.document.rest]
    rw [← hoptions] at halike
    exact halike
  | describe idText => exact .ok ⟨.description hs.document idText, fun hnot => absurd h hnot⟩ hs .nil
  | _ => exact h.elim

lemma alike_rule : EachRule (¬ ·.Holds) (fun _ => True)
    (fun call => Agree Session.Alike call.Answers call.perform call.perform)
    fun calls => Blind Session.Alike (performAll calls) := by
  refine ⟨fun {call} hsingle => ?_, fun {calls} hcalls => ?_, fun {calls ending} _ hcalls => ?_, ?_,
    fun {call rest} hcall hrest => ?_⟩
  · by_cases hnames : call.NamesBuffer
    · exact answers_of_namesBuffer hnames
    · exact agree_of_blind (blind_perform hsingle hnames)
  · apply agree_of_blind
    rw [perform]
    exact (Session.holding_alike.runUpdate hcalls).bind fun _ => .pure Reply.nothing
  · apply agree_of_blind
    rw [perform]
    exact (blind_holding hcalls ending).bind fun _ => .pure Reply.nothing
  · rw [performAll]
    exact .pure ()
  · rw [performAll]
    refine Agree.bind hcall.attempt fun reply reply' hreply => ?_
    refine Agree.bind (.alter fun s s' hs => ?_) fun _ _ _ => Agree.bind (.ofExcept hreply) fun _ _ _ => hrest
    refine ⟨hs.document, hs.snapshots, List.rel_append hs.replies (.cons ?_ .nil)⟩
    cases hreply with
    | ok h => exact .ok h.1
    | error e => exact .error e

lemma agree_perform (call : Call) : Agree Session.Alike call.Answers call.perform call.perform :=
  alike_rule.each call (each_of_single (fun _ h => h) (fun _ => trivial) call)

end Call

namespace Session

def Alongside : List Call → Session → Session → Prop
  | [], _, _ => True
  | call :: rest, s, s' =>
    (call.perform s).Alike Session.Alike call.Answers (call.perform s') ∧
      (call.perform s).state.document.text = (call.perform s').state.document.text ∧
      Alongside rest (call.perform s).state (call.perform s').state

lemma Alike.alongside {s s' : Session} (h : s.Alike s') (calls : List Call) : Alongside calls s s' := by
  induction calls generalizing s s' with
  | nil => trivial
  | cons call rest ih =>
    have hrun := call.agree_perform s s' h
    have hstate := hrun.state
    exact ⟨hrun, hstate.document.storage.text_eq.symm, ih hstate⟩

end Session

/-- Of two documents that are made with the same options but for how they keep their characters, neither shows
which of them it is. -/
theorem strategy_unobservable (t : Text) (options : DocumentOptions)
    (buffer : BufferStrategy) (calls : List Call) :
    Option.Rel
      (fun doc doc' => doc.Alike doc' ∧ doc.text = doc'.text ∧ Session.Alongside calls (.start doc) (.start doc'))
      (Document.ofText? t options) (Document.ofText? t { options with buffer }) := by
  rw [ofText?, ofText?]
  dsimp only
  cases Bus.create? options.eventCapacity with
  | none => exact .none
  | some bus =>
    have halike := Storage.alike_ofText t options.buffer buffer
    refine .some ⟨⟨halike, rfl⟩, halike.text_eq.symm, Session.Alike.alongside ?_ calls⟩
    exact ⟨⟨halike, rfl⟩, rfl, .nil⟩

end EditableText
