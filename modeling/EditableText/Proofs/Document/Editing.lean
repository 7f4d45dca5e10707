import EditableText.Proofs.Document.Soundness
import EditableText.Proofs.Document.Stream

namespace EditableText

open EditableText.Action

namespace Document

variable {doc mid after opened : Document} {log log' : List Notice} {c : Change} {history : History}

lemma runs_endUpdate (hq : doc.Quiet) (h : doc.inChange = false) {depth : Nat}
    (hd : doc.updateDepth = depth + 1) (hh : doc.history.endGroup = .ok history) :
    ∃ log after, endUpdate.Runs doc log (.ok ()) after ∧ doc.Closed log after ∧
      after.updateDepth = depth := by
  obtain ⟨log, after, hrun, hclosed⟩ := runs_closeUpdate hq hd hh
  exact ⟨log, after, runs_checkNotInChange h hrun, hclosed⟩

lemma runs_endUpdate_closed (h : doc.inChange = false) (hd : doc.updateDepth = 0) :
    endUpdate.Runs doc [] (.refused .noOpenUpdate) doc := by
  refine runs_checkNotInChange h (.bind_refused ?_)
  simp [Action.Runs, Action.alterExcept, leaveUpdate, hd]

lemma runs_runUpdate {σ α : Type} [HasDocument σ] {body : Action σ α} {s t : σ} {final : Document}
    {first second third : List Notice} {r : Except DocumentError α} {e : Except DocumentError Unit}
    (hbegin : beginUpdate.Runs (HasDocument.document s) first (.ok ()) opened)
    (hbody : body.Runs (HasDocument.withDocument s opened) second (.ofExcept r) t)
    (hend : endUpdate.Runs (HasDocument.document t) third (.ofExcept e) final) :
    (runUpdate body).Runs s (first ++ (second ++ third)) (.ofExcept (r.bind fun a => e.map fun _ => a))
      (HasDocument.withDocument t final) := by
  refine hbegin.onDocument.bind (hbody.onAbandoned.attempt.bind (hend.onDocument.attempt.bind_silent ?_))
  cases r with
  | error e => exact .bind_refused rfl
  | ok a =>
    refine .ofExcept_bind ?_
    cases e with
    | error e => exact .bind_refused rfl
    | ok => exact .ofExcept_bind (.pure a _)

def Edited (c : Change) (doc : Document) (log : List Notice) (after : Document) : Prop :=
  ∃ opened changed first second third, log = first ++ (second ++ third) ∧ doc.Opened first opened ∧
    opened.history.push c = .ok changed.history ∧ opened.Changed c changed.history second changed ∧
    changed.Closed third after ∧ after.updateDepth = doc.updateDepth

namespace Edited

lemma moves (h : Edited c doc log after) (hd : 0 < doc.updateDepth) : Moves doc log after := by
  obtain ⟨opened, changed, first, second, third, rfl, ho, -, hc, hcl, hdepth⟩ := h
  rw [← List.append_assoc]
  have hopened : Moves doc ([] ++ first) opened := .opened (.refl doc) hd ho
  exact .closed (.changed hopened hc) hcl (hdepth ▸ hd)

lemma block (h : Edited c doc log after) (hd : doc.updateDepth = 0) : Block log := by
  obtain ⟨opened, changed, first, second, third, rfl, ho, -, hc, hcl, hdepth⟩ := h
  rw [← List.append_assoc]
  exact hcl.block (hdepth.trans hd) (hc.inBlock (ho.inBlock hd))

lemma kept (h : Edited c doc log after) : doc.Kept log after := by
  obtain ⟨opened, changed, first, second, third, rfl, ho, -, hc, hcl, -⟩ := h
  exact ho.toKept.trans (hc.toKept.trans hcl.toKept)

lemma tallied (h : Edited c doc log after) : doc.Tallied log after := by
  obtain ⟨opened, changed, first, second, third, rfl, ho, -, hc, hcl, -⟩ := h
  exact ho.tallied.trans (hc.tallied.trans hcl.tallied)

lemma depth_eq (h : Edited c doc log after) : after.updateDepth = doc.updateDepth := by
  obtain ⟨-, -, -, -, -, -, -, -, -, -, hdepth⟩ := h
  exact hdepth

lemma text_eq (h : Edited c doc log after) : after.text = c.apply doc.text := by
  obtain ⟨opened, changed, first, second, third, rfl, ho, -, hc, hcl, -⟩ := h
  rw [hcl.toSameParts.text_eq, hc.text, ho.toSameParts.text_eq]

lemma version_eq (h : Edited c doc log after) : after.version = doc.version + 1 := by
  obtain ⟨opened, changed, first, second, third, rfl, ho, -, hc, hcl, -⟩ := h
  rw [hcl.version, hc.version, ho.version]

lemma steady (h : Edited c doc log after) (hs : doc.Steady) : after.Steady := by
  obtain ⟨opened, changed, first, second, third, rfl, ho, hpush, hc, hcl, -⟩ := h
  exact ((hs.opened ho).changed ho.depth_pos hpush hc).left hcl.toLeft

lemma sound (h : Edited c doc log after) (hs : doc.Sound) (hfits : c.Fits doc.text) :
    after.Sound ∧ (doc.updateDepth = 0 →
      after.timeline = doc.timeline.record doc.options.undoLimit after.text) ∧
    (0 < doc.updateDepth → after.timeline = doc.timeline ∧
      after.history.pending = doc.history.pending ++ [c]) := by
  obtain ⟨opened, changed, first, second, third, rfl, ho, hpush, hc, hcl, hdepth⟩ := h
  obtain ⟨hopened, htimeline⟩ := hs.opened ho
  have hkept : opened.history.pending = doc.history.pending := by
    rw [ho.history]
    rfl
  obtain ⟨hchanged, hsame, hpending⟩ :=
    hopened.changed ho.depth_pos (ho.toSameParts.text_eq ▸ hfits) hpush hc
  obtain ⟨hclosed, hmoved⟩ := hchanged.left hcl.toLeft
  have hend := hchanged.toSteady.endGroup_eq hcl.toLeft
  refine ⟨hclosed, fun hz => ?_, fun hpos => ?_⟩
  · rw [if_pos ⟨hdepth.trans hz, by simp [hpending]⟩] at hmoved
    rw [hmoved, hsame, htimeline, hc.options, ho.options, hcl.toSameParts.text_eq]
  · have hopen : ¬ (after.updateDepth = 0 ∧ changed.history.pending ≠ []) := by omega
    rw [if_neg hopen] at hmoved hend
    rw [hmoved, hend]
    exact ⟨hsame.trans htimeline, hpending.trans (hkept ▸ rfl)⟩

end Edited

lemma Steady.runs_runChange (h : doc.Steady) (hb : c.Balanced) (hc : c.Fits doc.text) :
    ∃ log after, (runChange c).Runs doc log (.ok ()) after ∧ Edited c doc log after := by
  obtain ⟨first, opened, hbegin, ho⟩ := runs_beginUpdate h.quiet h.inChange
  have hopened := h.opened ho
  have hd : 0 < opened.updateDepth := ho.depth ▸ Nat.succ_pos _
  have hpush := hopened.push_eq hd c
  obtain ⟨second, changed, hbody, hch⟩ :=
    runs_applyChange hopened.toCoherent hopened.quiet hb (ho.toSameParts.text_eq ▸ hc) hpush
  have hchanged := hopened.changed hd hpush hch
  have hdepth : changed.updateDepth = doc.updateDepth + 1 := hch.depth.trans ho.depth
  obtain ⟨third, after, hend, hcl, hafter⟩ := runs_endUpdate hchanged.quiet hchanged.inChange hdepth
    (History.endGroup_eq (hchanged.depth.trans hdepth) hchanged.single)
  have hrun := runs_runUpdate (s := doc) (r := .ok ()) (e := .ok ()) hbegin hbody hend
  exact ⟨_, after, hrun, opened, changed, first, second, third, rfl, ho, hch.history ▸ hpush,
    hch.history ▸ hch, hcl, hafter⟩

/-- The range is in the text, and the map belongs to the edit unless there is nothing to edit. -/
def Admissible (doc : Document) (offset length : Nat) (t : Text) (map : OffsetMap) : Prop :=
  offset + length ≤ doc.textLength ∧ (length = 0 ∧ t = [] ∨ map.fits offset length t.length = true)

lemma AtRest.textLength_eq_length (h : doc.AtRest) : doc.textLength = doc.text.length :=
  h.textLength_eq.trans (congrArg List.length h.text_eq.symm)

section Replacing

variable {offset length : Nat} {t : Text} {map : OffsetMap}

lemma AtRest.withMap_eq (h : doc.AtRest) (hadmissible : doc.Admissible offset length t map)
    (hsome : ¬ (length = 0 ∧ t = [])) :
    Change.withMap offset ((doc.text.drop offset).take length) t map =
      .ok ⟨offset, (doc.text.drop offset).take length, t, map⟩ := by
  have hlength : ((doc.text.drop offset).take length).length = length :=
    Text.length_take_drop (h.textLength_eq_length ▸ hadmissible.1)
  rw [Change.withMap, hlength, if_pos (hadmissible.2.resolve_left hsome)]

lemma AtRest.runs_replaceWithMap_refused (h : doc.AtRest) (hnot : ¬ doc.Admissible offset length t map) :
    ∃ e, (replaceWithMap offset length t map).Runs doc [] (.refused e) doc := by
  by_cases hrange : offset + length ≤ doc.textLength
  swap
  · have herror : checkRange offset length doc.textLength =
        .error (.rangeOutOfRange offset length doc.textLength) := if_neg hrange
    exact ⟨_, runs_checkNotInChange h.inChange (.state_bind (.lift_bind_error herror))⟩
  have hsome : ¬ (length = 0 ∧ t = []) := fun hempty => hnot ⟨hrange, .inl hempty⟩
  have hlength : ((doc.text.drop offset).take length).length = length :=
    Text.length_take_drop (h.textLength_eq_length ▸ hrange)
  obtain ⟨e, hmap⟩ : ∃ e, Change.withMap offset ((doc.text.drop offset).take length) t map = .error e :=
    ⟨_, if_neg (by rw [hlength]; exact fun hfits => hnot ⟨hrange, .inr hfits⟩)⟩
  refine ⟨.text e, runs_checkNotInChange h.inChange (.state_bind (.lift_bind (checkRange_eq_ok.mpr hrange) ?_))⟩
  rw [if_neg hsome]
  exact .lift_bind (h.slice_eq hrange) (.lift_bind_error hmap)

lemma AtRest.runs_replaceWithMap_nothing (h : doc.AtRest) (hrange : offset + length ≤ doc.textLength)
    (hnothing : length = 0 ∧ t = []) : (replaceWithMap offset length t map).Runs doc [] (.ok ()) doc := by
  refine runs_checkNotInChange h.inChange (.state_bind (.lift_bind (checkRange_eq_ok.mpr hrange) ?_))
  rw [if_pos hnothing]
  exact .pure () doc

lemma AtRest.runs_replaceWithMap_of_runChange (h : doc.AtRest) (hadmissible : doc.Admissible offset length t map)
    (hsome : ¬ (length = 0 ∧ t = [])) {o : Outcome Unit}
    (hrun : (runChange ⟨offset, (doc.text.drop offset).take length, t, map⟩).Runs doc log o after) :
    (replaceWithMap offset length t map).Runs doc log o after := by
  refine runs_checkNotInChange h.inChange (.state_bind (.lift_bind (checkRange_eq_ok.mpr hadmissible.1) ?_))
  rw [if_neg hsome]
  exact .lift_bind (h.slice_eq hadmissible.1) (.lift_bind (h.withMap_eq hadmissible hsome) hrun)

lemma Steady.runs_replaceWithMap (h : doc.Steady) (offset length : Nat) (t : Text) (map : OffsetMap) :
    ∃ o log after, (replaceWithMap offset length t map).Runs doc log o after ∧
      ((∃ e, o = .refused e) ∧ ¬ doc.Admissible offset length t map ∧ log = [] ∧ after = doc ∨
        o = .ok () ∧ doc.Admissible offset length t map ∧ (length = 0 ∧ t = []) ∧ log = [] ∧ after = doc ∨
        o = .ok () ∧ doc.Admissible offset length t map ∧ ¬ (length = 0 ∧ t = []) ∧
          ∃ c, c.Balanced ∧ c.Fits doc.text ∧ c.apply doc.text = doc.text.splice offset length t ∧
            Edited c doc log after) := by
  by_cases hadmissible : doc.Admissible offset length t map
  swap
  · obtain ⟨e, hrun⟩ := h.runs_replaceWithMap_refused hadmissible
    exact ⟨_, [], doc, hrun, .inl ⟨⟨e, rfl⟩, hadmissible, rfl, rfl⟩⟩
  by_cases hempty : length = 0 ∧ t = []
  · have hrun : (replaceWithMap offset length t map).Runs doc [] (.ok ()) doc :=
      h.runs_replaceWithMap_nothing hadmissible.1 hempty
    exact ⟨_, [], doc, hrun, .inr (.inl ⟨rfl, hadmissible, hempty, rfl, rfl⟩)⟩
  have hmap := h.withMap_eq hadmissible hempty
  have hb := (Change.Built.withMap hmap).balanced
  have hfits := h.fits_of_withMap hadmissible.1 hmap
  obtain ⟨log, after, hrun, hedited⟩ := h.runs_runChange hb hfits
  refine ⟨_, log, after, h.runs_replaceWithMap_of_runChange hadmissible hempty hrun,
    .inr (.inr ⟨rfl, hadmissible, hempty, _, hb, hfits, ?_, hedited⟩)⟩
  rw [Change.apply, Text.length_take_drop (h.textLength_eq_length ▸ hadmissible.1)]

end Replacing

end Document

end EditableText
