import EditableText.Proofs.Document.Update
import EditableText.Proofs.History.Timeline

/-!
Documents whose history was never driven directly: what it keeps can be played back, and the steps of
an update keep that so.
-/

namespace EditableText.Document

variable {doc mid after : Document} {log log' : List Notice} {c : Change} {history : History}

structure Steady (doc : Document) : Prop extends AtRest doc where
  quiet : doc.Quiet
  tokens : (doc.listeners.map (·.token)).Nodup
  fresh : ∀ l ∈ doc.listeners, l.token < doc.nextToken
  idle : doc.history.phase = .idle
  single : doc.history.continuesTop = false
  depth : doc.history.depth = doc.updateDepth
  limit : doc.history.limit = doc.options.undoLimit
  room : doc.history.undo.length + doc.history.redo.length ≤ doc.options.undoLimit
  closed : doc.updateDepth = 0 → doc.history.pending = []

def timeline (doc : Document) : Timeline := doc.history.timeline doc.text

structure Sound (doc : Document) : Prop extends Steady doc where
  accepts : doc.history.acceptsChanges = true
  leads : doc.history.Leads doc.text

lemma Kept.tokens_eq (h : doc.Kept log after) :
    after.listeners.map (·.token) = doc.listeners.map (·.token) := by
  have haudience := congrArg (List.map (·.1)) h.audience
  simpa [Document.audience, Function.comp_def, Listener.profile] using haudience

lemma Kept.fresh (h : doc.Kept log after) (hf : ∀ l ∈ doc.listeners, l.token < doc.nextToken) :
    ∀ l ∈ after.listeners, l.token < after.nextToken := by
  intro l hl
  have hmem : l.token ∈ doc.listeners.map (·.token) := h.tokens_eq ▸ List.mem_map_of_mem hl
  obtain ⟨original, horiginal, heq⟩ := List.mem_map.mp hmem
  rw [← heq, h.nextToken]
  exact hf original horiginal

namespace Steady

lemma opened (h : doc.Steady) (ho : doc.Opened log after) : after.Steady where
  toAtRest := ho.toSameParts.atRest ho.options h.toAtRest (ho.history ▸ h.history.startGroup)
  quiet := ho.toKept.quiet h.quiet
  tokens := ho.toKept.tokens_eq ▸ h.tokens
  fresh := ho.toKept.fresh h.fresh
  idle := ho.history ▸ h.idle
  single := by
    rw [ho.history]
    simp [History.startGroup, h.single]
  depth := by
    rw [ho.history, ho.depth, ← h.depth]
    rfl
  limit := by
    rw [ho.history, ho.options, ← h.limit]
    rfl
  room := by
    rw [ho.history, ho.options]
    exact h.room
  closed hz := by
    rw [ho.depth] at hz
    omega

lemma push_eq (h : doc.Steady) (hd : 0 < doc.updateDepth) (c : Change) :
    doc.history.push c = .ok { doc.history with
      pending := if doc.history.acceptsChanges then doc.history.pending ++ [c]
        else doc.history.pending } :=
  History.push_eq h.idle (h.depth ▸ hd) c

lemma changed (h : doc.Steady) (hd : 0 < doc.updateDepth) (hpush : doc.history.push c = .ok history)
    (hc : doc.Changed c history log after) : after.Steady := by
  rw [h.push_eq hd, Except.ok.injEq] at hpush
  have hhistory := hc.history
  rw [← hpush] at hhistory
  exact
    { toAtRest := hc.atRest
      quiet := hc.toKept.quiet h.quiet
      tokens := hc.toKept.tokens_eq ▸ h.tokens
      fresh := hc.toKept.fresh h.fresh
      idle := hhistory ▸ h.idle
      single := hhistory ▸ h.single
      depth := by
        rw [hhistory, hc.depth]
        exact h.depth
      limit := by
        rw [hhistory, hc.options]
        exact h.limit
      room := by
        rw [hhistory, hc.options]
        exact h.room
      closed := fun hz => by
        rw [hc.depth] at hz
        omega }

lemma endGroup_eq (h : doc.Steady) (hc : doc.Left log after) :
    after.history = if after.updateDepth = 0 ∧ doc.history.pending ≠ [] then
      ({ doc.history with depth := after.updateDepth, pending := [] } : History).pushGroup
        doc.history.pending
      else { doc.history with depth := after.updateDepth } := by
  have hend := hc.history
  rw [History.endGroup_eq (h.depth.trans hc.depth) h.single] at hend
  exact (Except.ok.inj hend).symm

lemma left (h : doc.Steady) (hc : doc.Left log after) : after.Steady := by
  have hhistory := h.endGroup_eq hc
  have hrest : after.AtRest :=
    hc.toSameParts.atRest hc.options h.toAtRest (h.history.endGroup hc.history)
  have hquiet := hc.toKept.quiet h.quiet
  have htokens : (after.listeners.map (·.token)).Nodup := hc.toKept.tokens_eq ▸ h.tokens
  have hfresh := hc.toKept.fresh h.fresh
  by_cases hp : after.updateDepth = 0 ∧ doc.history.pending ≠ []
  · rw [if_pos hp] at hhistory
    have hroom : after.history.undo.length + after.history.redo.length ≤ after.options.undoLimit := by
      rw [hhistory, hc.options]
      change ((_ :: doc.history.undo).take doc.history.limit).length + 0 ≤ _
      rw [h.limit, List.length_take]
      omega
    refine ⟨hrest, hquiet, htokens, hfresh, ?_, ?_, ?_, ?_, hroom, fun _ => ?_⟩
    · exact hhistory ▸ h.idle
    · exact hhistory ▸ h.single
    · rw [hhistory]
      rfl
    · rw [hhistory, hc.options]
      exact h.limit
    · rw [hhistory]
      rfl
  · rw [if_neg hp] at hhistory
    refine ⟨hrest, hquiet, htokens, hfresh, ?_, ?_, ?_, ?_, ?_, fun hz => ?_⟩
    · exact hhistory ▸ h.idle
    · exact hhistory ▸ h.single
    · rw [hhistory]
    · rw [hhistory, hc.options]
      exact h.limit
    · rw [hhistory, hc.options]
      exact h.room
    · rw [hhistory]
      exact not_not.mp fun hne => hp ⟨hz, hne⟩

end Steady

namespace Sound

lemma opened (h : doc.Sound) (ho : doc.Opened log after) : after.Sound ∧ after.timeline = doc.timeline := by
  have hcongr := h.leads.congr after.history (by rw [ho.history]; rfl) (by rw [ho.history]; rfl)
    (by rw [ho.history]; rfl)
  rw [← ho.toSameParts.text_eq] at hcongr
  refine ⟨⟨h.toSteady.opened ho, ?_, hcongr.1⟩, ?_⟩
  · rw [ho.history]
    exact h.accepts
  · rw [timeline, hcongr.2, timeline, ho.toSameParts.text_eq]

lemma changed (h : doc.Sound) (hd : 0 < doc.updateDepth) (hfits : c.Fits doc.text)
    (hpush : doc.history.push c = .ok history) (hc : doc.Changed c history log after) :
    after.Sound ∧ after.timeline = doc.timeline ∧
      after.history.pending = doc.history.pending ++ [c] := by
  have hsteady := h.toSteady.changed hd hpush hc
  have hhistory : after.history = { doc.history with pending := doc.history.pending ++ [c] } := by
    rw [h.push_eq hd, if_pos h.accepts, Except.ok.injEq] at hpush
    rw [hc.history, hpush]
  obtain ⟨hleads, htimeline⟩ := h.leads.pend hfits
  rw [← hc.text] at hleads htimeline
  refine ⟨⟨hsteady, ?_, ?_⟩, ?_, ?_⟩
  · rw [hhistory]
    exact h.accepts
  · rw [hhistory]
    exact hleads
  · rw [timeline, hhistory]
    exact htimeline
  · rw [hhistory]

lemma left (h : doc.Sound) (hc : doc.Left log after) :
    after.Sound ∧ after.timeline =
      if after.updateDepth = 0 ∧ doc.history.pending ≠ [] then
        doc.timeline.record doc.options.undoLimit doc.text
      else doc.timeline := by
  have hsteady := h.toSteady.left hc
  have hhistory := h.toSteady.endGroup_eq hc
  have htext := hc.toSameParts.text_eq
  by_cases hp : after.updateDepth = 0 ∧ doc.history.pending ≠ []
  · rw [if_pos hp] at hhistory ⊢
    have hinner := h.leads.congr { doc.history with depth := after.updateDepth } rfl rfl rfl
    obtain ⟨hleads, htimeline⟩ := hinner.1.pushPending
    rw [hinner.2] at htimeline
    refine ⟨⟨hsteady, ?_, ?_⟩, ?_⟩
    · rw [hhistory]
      exact h.accepts
    · rw [hhistory, htext]
      exact hleads
    · rw [timeline, hhistory, htext, ← h.limit]
      exact htimeline
  · rw [if_neg hp] at hhistory ⊢
    obtain ⟨hleads, htimeline⟩ := h.leads.congr after.history (by rw [hhistory])
      (by rw [hhistory]) (by rw [hhistory])
    refine ⟨⟨hsteady, ?_, htext ▸ hleads⟩, ?_⟩
    · rw [hhistory]
      exact h.accepts
    · rw [timeline, htext, htimeline]
      rfl

end Sound

lemma begins_ofText {t : Text} {options : DocumentOptions} (h : ofText? t options = some doc) :
    doc.updateDepth = 0 ∧ doc.options = options ∧ doc.anchors = .empty := by
  obtain ⟨bus, -, hok⟩ := Option.bind_eq_some_iff.mp h
  obtain rfl := Option.some.inj hok
  exact ⟨rfl, rfl, rfl⟩

lemma text_ofText {t : Text} {options : DocumentOptions} (h : ofText? t options = some doc) : doc.text = t := by
  obtain ⟨bus, -, hok⟩ := Option.bind_eq_some_iff.mp h
  obtain rfl := Option.some.inj hok
  exact (Storage.wellFormed_ofText t options.buffer).reads.text_eq.trans (Storage.content_ofText t _)

lemma sound_ofText {t : Text} {options : DocumentOptions} (h : ofText? t options = some doc) :
    doc.Sound ∧ doc.timeline = ⟨[], t, []⟩ := by
  have hrest := atRest_ofText h
  have htext := text_ofText h
  obtain ⟨bus, -, hok⟩ := Option.bind_eq_some_iff.mp h
  obtain rfl := Option.some.inj hok
  obtain ⟨hleads, htimeline⟩ := History.Leads.cleared (h := .withLimit options.undoLimit) rfl rfl rfl t
  refine ⟨⟨⟨hrest, by simp [Quiet], by simp, by simp, rfl, rfl, rfl, rfl, by simp [History.withLimit],
    fun _ => rfl⟩, rfl, ?_⟩, ?_⟩
  · rw [htext]
    exact hleads
  · rw [timeline, htext]
    exact htimeline

end EditableText.Document
