import EditableText.Proofs.Document.Guards
import EditableText.Proofs.Document.Paths

namespace EditableText

open EditableText.Action EditableText.Document

namespace Call

def SelfContained : Call → Prop
  | runUpdate _ | group _ _ | beginUpdate | endUpdate | history _ | subscribe _ _ | unsubscribe _ => False
  | _ => True

variable {α : Type}

lemma restores_acting {x : Action Document α} (h : Restores True x) (reply : α → Reply) :
    Restores True (acting x reply) :=
  h.onDocument.bind fun a => .pure (reply a)

lemma restores_holding {body : Action Session Unit} (h : Restores True body) {ending : GroupEnding}
    (hending : ending ≠ .fail) : Restores True (holding body ending) := by
  intro f
  have hbegin : Ends (Held (Rests True f)) (onDocument Document.beginUpdate : Action Session Unit) _
      (Held (Rests True f)) _ := ends_beginUpdate.onDocument
  cases ending with
  | close =>
    exact hbegin.bind fun _ => (ends_guarded h).attempt.bind fun result =>
      ends_endUpdate.onDocument.bind fun _ => .ofExcept result (fun _ h => h) fun _ h => h
  | drop =>
    exact hbegin.bind fun _ => (ends_guarded h).attempt.bind fun result =>
      ends_closeUpdate.onDocument.attempt.bind fun _ => .ofExcept result (fun _ h => h) fun _ h => h
  | fail => exact absurd rfl hending

lemma SelfContained.restores {c : Call} (h : c.SelfContained) : Restores True c.perform := by
  by_cases haside : c.IsAside
  · exact haside.perform.restores
  cases c with
  | insert | insertWithMovement | remove | replace =>
    rw [perform]
    exact restores_acting (restores_replaceWithMapping _ _ _ _) _
  | replaceWithMap =>
    rw [perform]
    exact restores_acting (restores_replaceWithMap _ _ _ _) _
  | setText t =>
    rw [perform]
    exact restores_acting (restores_setText t) _
  | undo =>
    rw [perform]
    exact restores_acting (restores_playBack .back) _
  | redo =>
    rw [perform]
    exact restores_acting (restores_playBack .forth) _
  | runUpdate | group | beginUpdate | endUpdate | history | subscribe | unsubscribe => exact h.elim
  | _ => exact absurd trivial haside

lemma restores_rule : EachRule SelfContained (· ≠ .fail) (fun c => Restores True c.perform)
    fun calls => Restores True (performAll calls) := by
  refine ⟨SelfContained.restores, fun {calls} hcalls => ?_, fun {calls ending} hending hcalls => ?_, ?_,
    fun {c rest} hc hrest => ?_⟩
  · rw [perform]
    exact (restores_runUpdate hcalls).bind fun _ => .pure _
  · rw [perform]
    exact (restores_holding hcalls hending).bind fun _ => .pure _
  · rw [performAll]
    exact .pure ()
  · rw [performAll]
    refine hc.attempt.bind fun reply => Restores.bind (.alter fun _ _ h => ?_) fun _ =>
      (Restores.ofExcept reply).bind fun _ => hrest
    exact h

end Call

namespace Document

variable {t : Text} {options : DocumentOptions}

/-- A listener that brings down a call leaves the updates, the history and the listeners as the call found
them. There is one exception: what it fails at is that the outermost update begins. That one stays open. -/
theorem abandoned_calls_close_what_they_open {s : Session} (h : Reachable t options s.document) {c : Call}
    (hc : c.Each Call.SelfContained (· ≠ .fail)) (ho : (c.perform s).outcome = .abandoned) :
    (c.perform s).state.document.inChange = s.document.inChange ∧
      ∃ last, (c.perform s).deliveries.getLast? = some last ∧
        (last.event ≠ .updateStarted → (c.perform s).state.document.footing = s.document.footing) ∧
        (last.event = .updateStarted → s.document.updateDepth = 0 ∧
          (c.perform s).state.document.footing = s.document.footing.up) := by
  have hrests : Held (Rests True s.document.footing) s := ⟨⟨rfl, rfl, fun _ => rfl, rfl⟩, h.atRest.inChange⟩
  obtain ⟨last, hlast, hcut⟩ := (Call.restores_rule.each c hc _ s hrests).of_abandoned ho
  have hafter := hcut.rests.footing_eq
  refine ⟨hcut.rests.inChange.trans h.atRest.inChange.symm, last, hlast, fun he => ?_, fun he => ?_⟩
  · rwa [if_neg he] at hafter
  · rw [if_pos he] at hafter
    exact ⟨hcut.outermost he, hafter⟩

theorem abandoned_calls_close_what_they_open_in_update :
    ∃ start listened failed, ofText? [] .default = some start ∧
      listened = ((Call.subscribe "log" fun heard => 5 ≤ heard.length).perform (.start start)).state ∧
      failed = (Call.runUpdate [.insert 0 ['a'], .group [.insert 1 ['b']] .close]).perform listened ∧
      failed.state.document.text = ['a', 'b'] ∧ failed.state.document.footing = listened.document.footing := by
  obtain ⟨start, hstart⟩ : ∃ start, ofText? [] .default = some start := ⟨_, rfl⟩
  obtain ⟨listened, hlisten⟩ :
      ∃ s, s = ((Call.subscribe "log" fun heard => 5 ≤ heard.length).perform (.start start)).state := ⟨_, rfl⟩
  have h : Reachable [] .default listened.document :=
    hlisten ▸ Reachable.call (s := .start start) (.start hstart) _
  have hc : (Call.runUpdate [.insert 0 ['a'], .group [.insert 1 ['b']] .close]).Each Call.SelfContained
      (· ≠ .fail) := ⟨trivial, ⟨⟨trivial, trivial⟩, by decide⟩, trivial⟩
  obtain ⟨failed, hfail⟩ :
      ∃ run, run = (Call.runUpdate [.insert 0 ['a'], .group [.insert 1 ['b']] .close]).perform listened :=
    ⟨_, rfl⟩
  obtain ⟨ho, htext, hevent⟩ : failed.outcome = .abandoned ∧ failed.state.document.text = ['a', 'b'] ∧
      failed.deliveries.getLast?.map (·.event) ≠ some .updateStarted := by
    obtain rfl := Option.some.inj hstart
    subst hfail hlisten
    decide +kernel
  obtain ⟨-, last, hlast, hrestored, -⟩ := abandoned_calls_close_what_they_open h hc (hfail ▸ ho)
  rw [← hfail] at hlast hrestored
  refine ⟨start, listened, failed, hstart, hlisten, hfail, htext, hrestored fun he => hevent ?_⟩
  rw [hlast, Option.map_some, he]

/-- A listener that fails as the update of an insertion begins leaves this update open. -/
theorem update_stays_open_if_listener_fails_at_start :
    ∃ start listened failed, ofText? [] .default = some start ∧
      listened = ((Call.subscribe "log" fun _ => true).perform (.start start)).state ∧
      failed = (Call.insert 0 ['a']).perform listened ∧ listened.document.updateDepth = 0 ∧
      failed.state.document.updateDepth = 1 ∧ failed.state.document.history.depth = 1 ∧
      failed.state.document.text = [] := by
  refine ⟨_, _, _, rfl, rfl, rfl, ?_⟩
  decide +kernel

end Document

end EditableText
