import EditableText.Proofs.Document.Brackets

namespace EditableText.Document

open Call

variable {t : Text} {options : DocumentOptions} {start doc after : Document} {line : Timeline}
  {deeds : List (Deed × List Delivery)} {log : List Notice}

structure At (line : Timeline) (doc : Document) : Prop where
  depth : doc.updateDepth = 0
  timeline : doc.timeline = line
  text : doc.text = line.present
  lines : doc.lines.lines = (LineTable.ofText line.present doc.options.lineBreaks).lines
  undo : doc.history.undo.length = line.past.length
  redo : doc.history.redo.length = line.future.length

structure Walks (doc : Document) : Prop where
  stands : At doc.timeline doc
  undo : match doc.timeline.back with
    | none => Document.undo doc = ⟨.ok false, doc, []⟩
    | some line => ∃ after deliveries, Document.undo doc = ⟨.ok true, after, deliveries⟩ ∧ At line after
  redo : match doc.timeline.forth with
    | none => Document.redo doc = ⟨.ok false, doc, []⟩
    | some line => ∃ after deliveries, Document.redo doc = ⟨.ok true, after, deliveries⟩ ∧ At line after
  setText (t : Text) :
    ∃ after deliveries, Document.setText t doc = ⟨.ok (), after, deliveries⟩ ∧ At ⟨[], t, []⟩ after
  group {deeds : List (Deed × List Delivery)} {after : Document} (h : Grouped doc deeds after)
    (hclosed : after.updateDepth = 0) :
    At (if after.version = doc.version then doc.timeline
      else doc.timeline.record doc.options.undoLimit after.text) after
  held {s : Session} {c : Call} {calls : List Call} (hs : s.document = doc)
    (hcalls : EachOf Contained (fun _ => True) calls)
    (hc : c = .runUpdate calls ∨ ∃ ending, c = .group calls ending) :
    (∃ deeds, Grouped doc deeds (c.perform s).state.document) ∧
      (c.perform s).state.document.updateDepth = 0

namespace Sound

lemma at_timeline (h : doc.Sound) (hclosed : doc.updateDepth = 0) : At doc.timeline doc := by
  have hpresent : doc.text = doc.timeline.present :=
    (History.baseOf_nil (h.closed hclosed) doc.text).symm
  refine ⟨hclosed, rfl, hpresent, hpresent ▸ h.lines_eq, ?_, ?_⟩
  · rw [timeline, History.timeline, length_textsAlong, History.backward, List.length_map]
  · rw [timeline, History.timeline, length_textsAlong]

lemma at_of_timeline_eq (h : doc.Sound) (hclosed : doc.updateDepth = 0) (hline : doc.timeline = line) :
    At line doc :=
  hline ▸ h.at_timeline hclosed

theorem walks (h : doc.Sound) (hclosed : doc.updateDepth = 0) : doc.Walks where
  stands := h.at_timeline hclosed
  undo := by
    split
    case h_1 hnone => exact h.runs_playBack_nothing (d := .back) hclosed hnone
    case h_2 line hline =>
      obtain ⟨log, after, hrun, hp⟩ := h.runs_playBack (d := .back) hclosed hline
      exact ⟨after, _, hrun, hp.sound.at_of_timeline_eq hp.depth hp.timeline⟩
  redo := by
    split
    case h_1 hnone => exact h.runs_playBack_nothing (d := .forth) hclosed hnone
    case h_2 line hline =>
      obtain ⟨log, after, hrun, hp⟩ := h.runs_playBack (d := .forth) hclosed hline
      exact ⟨after, _, hrun, hp.sound.at_of_timeline_eq hp.depth hp.timeline⟩
  setText t := by
    obtain ⟨log, after, hrun, hr⟩ := h.runs_setText hclosed t
    exact ⟨after, _, hrun, hr.sound.at_of_timeline_eq hr.depth hr.timeline⟩
  group hg hafter := by
    have hrecorded := h.grouped hg
    exact hrecorded.sound.at_of_timeline_eq hafter (hrecorded.moves hafter)
  held hs hcalls hc := by
    subst hs
    obtain ⟨deeds, hbracketed⟩ := bracketed_perform hcalls hc h
    exact ⟨⟨deeds, hbracketed.grouped hclosed⟩, hbracketed.depth_eq.trans hclosed⟩

end Sound

lemma Path.options_eq (h : Path start deeds doc) (hs : start.Sound) : doc.options = start.options := by
  induction h with
  | refl => rfl
  | step hpath hstep ih =>
    obtain ⟨log, -, hstepped⟩ := hstep.stepped (hpath.sound hs)
    exact hstepped.options.trans ih

end EditableText.Document
