import EditableText.Proofs.Anchor.Stepwise
import EditableText.Proofs.Change.Confined
import EditableText.Proofs.Document.Anchoring
import EditableText.Proofs.Document.Guards

namespace EditableText

namespace ChangeMapping

variable {offset removal insertion : Nat}

lemma offsetMap_of_one (h : removal = 0 ∨ insertion = 0) :
    removeAndInsert.offsetMap offset removal insertion = [.plain offset removal insertion] := if_pos h

lemma offsetMap_of_both (h : ¬ (removal = 0 ∨ insertion = 0)) :
    removeAndInsert.offsetMap offset removal insertion = [.plain offset removal 0, .plain offset 0 insertion] :=
  if_neg h

end ChangeMapping

structure Contents where
  text : Text
  anchors : AnchorTable
  options : DocumentOptions

namespace Contents

open Document (edits)

variable {x : Contents} {c : Change} {offset length : Nat} {inserted : Text} {map : OffsetMap}

def change (x : Contents) (c : Change) : Contents :=
  { x with text := c.apply x.text, anchors := (x.anchors.follow c.map (c.apply x.text).length).2 }

def edit (x : Contents) (offset length : Nat) (inserted : Text) (map : OffsetMap) : Contents :=
  (edits x.text offset length inserted map).foldl change x

lemma edit_nothing (x : Contents) (offset : Nat) (map : OffsetMap) : x.edit offset 0 [] map = x := by
  rw [edit, edits, if_pos ⟨rfl, rfl⟩]
  rfl

lemma edit_of_some (h : ¬ (length = 0 ∧ inserted = [])) :
    x.edit offset length inserted map = x.change ⟨offset, (x.text.drop offset).take length, inserted, map⟩ := by
  rw [edit, edits, if_neg h]
  rfl

lemma le_length_edit (x : Contents) (h : offset + length ≤ x.text.length) :
    offset ≤ (x.edit offset length inserted map).text.length := by
  by_cases hsome : length = 0 ∧ inserted = []
  · obtain ⟨rfl, rfl⟩ := hsome
    rwa [edit_nothing]
  · have htaken := Text.length_take_drop h
    rw [edit_of_some hsome, change, Change.length_apply (by rwa [htaken]), htaken]
    omega

/-- All the same, but for where a deleted anchor was. -/
structure Matches (x y : Contents) : Prop where
  text_eq : x.text = y.text
  options_eq : x.options = y.options
  live_eq : x.anchors.live = y.anchors.live
  isDeleted_eq : ∀ id, x.anchors.isDeleted id = y.anchors.isDeleted id

lemma Matches.refl (x : Contents) : x.Matches x := ⟨rfl, rfl, rfl, fun _ => rfl⟩

lemma exact_removeAndInsert {offset removal insertion : Nat} (hword : offset + removal < UInt64.size)
    (hword' : offset + insertion < UInt64.size) :
    OffsetMap.Exact offset 0 (offset + insertion) [.plain offset removal 0, .plain offset 0 insertion]
      (offset + removal) := by
  refine ⟨⟨Nat.le_refl _, Nat.le_refl _, hword, ?_⟩, ⟨Nat.le_refl _, ?_, ?_, ?_⟩, ?_⟩
  all_goals
    dsimp only [OffsetStep.plain, OffsetMap.Exact]
    omega

lemma change_matches (hrange : c.offset + c.removed.length ≤ x.text.length)
    (hmap : c.map = [.plain c.offset c.removed.length 0, .plain c.offset 0 c.inserted.length])
    (hword : c.offset + c.removed.length < UInt64.size) (hword' : c.offset + c.inserted.length < UInt64.size)
    (hwithin : x.anchors.Within x.text.length) :
    (x.change c).Matches
      ((x.change ⟨c.offset, c.removed, [], [.plain c.offset c.removed.length 0]⟩).change
        ⟨c.offset, [], c.inserted, [.plain c.offset 0 c.inserted.length]⟩) := by
  let cut : Change := ⟨c.offset, c.removed, [], [.plain c.offset c.removed.length 0]⟩
  let fill : Change := ⟨c.offset, [], c.inserted, [.plain c.offset 0 c.inserted.length]⟩
  have htext : fill.apply (cut.apply x.text) = c.apply x.text := Change.splice_remove_insert hrange
  have hcut : (cut.apply x.text).length = x.text.length - c.removed.length := Change.length_apply hrange
  have hlength : (c.apply x.text).length =
      x.text.length - (c.offset + c.removed.length) + (c.offset + c.inserted.length) := by
    rw [Change.length_apply hrange]
    omega
  have hfill : (c.apply x.text).length = x.text.length - c.removed.length - 0 + c.inserted.length :=
    Change.length_apply hrange
  obtain ⟨-, hlive, hdeleted⟩ := AnchorTable.follow_agrees_followEach hwithin
    (exact_removeAndInsert hword hword') hrange
  have heach : (x.anchors.followEach x.text.length
      [.plain c.offset c.removed.length 0, .plain c.offset 0 c.inserted.length]).2 =
      ((x.change cut).change fill).anchors := by
    simp only [change, htext, hcut, hfill]
    rfl
  rw [heach, ← hlength, ← hmap] at hlive hdeleted
  exact ⟨htext.symm, rfl, hlive, hdeleted⟩

lemma removeAndInsert_matches (hrange : offset + length ≤ x.text.length) (inserted : Text)
    (hword : offset + length < UInt64.size) (hword' : offset + inserted.length < UInt64.size)
    (hwithin : x.anchors.Within x.text.length) :
    (x.edit offset length inserted (ChangeMapping.removeAndInsert.offsetMap offset length inserted.length)).Matches
      ((x.edit offset length [] (ChangeMapping.normal.offsetMap offset length 0)).edit offset 0 inserted
        (ChangeMapping.normal.offsetMap offset 0 inserted.length)) := by
  by_cases hlength : length = 0
  · rw [hlength, edit_nothing, ChangeMapping.offsetMap_of_one (.inl rfl)]
    exact .refl _
  by_cases hinserted : inserted = []
  · rw [hinserted, edit_nothing, List.length_nil, ChangeMapping.offsetMap_of_one (.inr rfl)]
    exact .refl _
  have hboth : ¬ (length = 0 ∨ inserted.length = 0) := by simp [hlength, hinserted]
  have htaken := Text.length_take_drop hrange
  rw [edit_of_some fun h => hlength h.1, edit_of_some fun h => hlength h.1, edit_of_some fun h => hinserted h.2,
    ChangeMapping.offsetMap_of_both hboth]
  have hmatches := change_matches (x := x) (c := ⟨offset, (x.text.drop offset).take length, inserted,
    [.plain offset length 0, .plain offset 0 inserted.length]⟩) (by rwa [htaken]) (by rw [htaken])
    (by rwa [htaken]) hword' hwithin
  rwa [htaken] at hmatches

end Contents

def DocumentEvent.announces : DocumentEvent → Bool
  | updateStarted | changing _ => true
  | _ => false

/-- The call was abandoned when a change of it had been announced at most. -/
def Run.Foiled {σ α : Type} (run : Run σ α) : Prop :=
  run.outcome = .abandoned ∧ ∃ last, run.deliveries.getLast? = some last ∧ last.event.announces = true

lemma Run.not_foiled_of_ok {σ α : Type} {run : Run σ α} {a : α} (h : run.outcome = .ok a) : ¬ run.Foiled :=
  fun hfoiled => by
    rw [hfoiled.1] at h
    cases h

lemma Run.EndsIn.of_not_foiled {σ α : Type} {run : Run σ α} {Q : σ → Prop}
    (h : run.EndsIn Q Q fun e s => e.announces = true ∨ Q s) (hrun : ¬ run.Foiled) : Q run.state := by
  rw [Run.EndsIn] at h
  cases ho : run.outcome with
  | ok a => rwa [ho] at h
  | refused e => rwa [ho] at h
  | abandoned =>
    rw [ho] at h
    obtain ⟨last, hlast, hannounced | hstate⟩ := h
    · exact absurd ⟨ho, last, hlast, hannounced⟩ hrun
    · exact hstate

open EditableText.Action

namespace Document

variable {x : Contents} {c : Change} {f : Footing} {doc after : Document} {P R : Document → Prop}
  {offset length : Nat} {inserted : Text} {map : OffsetMap}

def contents (doc : Document) : Contents := ⟨doc.text, doc.anchors, doc.options⟩

structure Bears (x : Contents) (doc : Document) : Prop extends Sturdy doc where
  contents_eq : doc.contents = x

lemma inert_bears : Inert (Bears x) where
  sturdy := Bears.toSturdy
  still {doc after} h hmatter hh := by
    refine ⟨h.toSturdy.congr hmatter hh, Eq.trans ?_ h.contents_eq⟩
    rw [contents, text_eq_of_matter hmatter, anchors_eq_of_matter hmatter]
    simp only [matter, Prod.mk.injEq] at hmatter
    rw [hmatter.2.2.1, contents]

lemma Inert.ends_emit (h : Inert P) (event : DocumentEvent) : Ends P (emit event) P R fun _ => P :=
  Document.ends_emit event (fun _ hdoc => h.still hdoc rfl (h.sturdy hdoc).balanced)
    fun _ _ hdoc _ _ => h.still hdoc rfl (h.sturdy hdoc).balanced

namespace Bears

lemma text_eq (h : Bears x doc) : doc.text = x.text := congrArg Contents.text h.contents_eq

lemma anchors_eq (h : Bears x doc) : doc.anchors = x.anchors := congrArg Contents.anchors h.contents_eq

lemma options_eq (h : Bears x doc) : doc.options = x.options := congrArg Contents.options h.contents_eq

lemma within (h : Bears x doc) : x.anchors.Within x.text.length := by
  have hwithin := h.coherent.anchors
  rwa [← h.coherent.text_eq, h.text_eq, h.anchors_eq] at hwithin

lemma lines_eq (h : Bears x doc) : doc.lines.lines = (LineTable.ofText x.text x.options.lineBreaks).lines := by
  rw [h.coherent.lines_eq, h.text_eq, h.options_eq]

lemma passes (h : Bears x doc) (hrange : offset + length ≤ x.text.length)
    (hmap : map.fits offset length inserted.length = true) :
    checkRange offset length doc.textLength = .ok () ∧
      doc.slice offset length = .ok ((x.text.drop offset).take length) ∧
      Change.withMap offset ((x.text.drop offset).take length) inserted map =
        .ok ⟨offset, (x.text.drop offset).take length, inserted, map⟩ := by
  have hinside : offset + length ≤ doc.textLength := by
    rw [h.coherent.textLength_eq, ← h.coherent.text_eq, h.text_eq]
    exact hrange
  refine ⟨checkRange_eq_ok.mpr hinside, ?_, if_pos (by rwa [Text.length_take_drop hrange])⟩
  rw [h.coherent.slice_eq hinside, h.text_eq]

lemma mutate (h : Bears x doc) (hc : c.Balanced) (hrange : c.offset + c.removed.length ≤ x.text.length) :
    ∃ deleted next, doc.mutate c = .ok (deleted, next) ∧ Bears (x.change c) next := by
  obtain rfl := h.contents_eq
  obtain ⟨storage, lines, hok, hwf, hcontent, -⟩ := h.coherent.mutate_eq hrange
  refine ⟨_, _, hok, h.toSturdy.mutate hc hok, ?_⟩
  have htext : TextSource.text storage = c.apply doc.text := hwf.reads.text_eq.trans hcontent
  simp only [contents, Contents.change, text, htext]

end Bears

lemma ends_applyChange_bears (hc : c.Balanced) (hrange : c.offset + c.removed.length ≤ x.text.length) :
    Ends (Bears x) (applyChange c) (Bears (x.change c)) (Bears (x.change c))
      fun e doc => e.announces = true ∨ Bears (x.change c) doc := by
  have hmade (event : DocumentEvent) : Ends (Bears (x.change c)) (emit event) (Bears (x.change c))
      (Bears (x.change c)) fun e doc => e.announces = true ∨ Bears (x.change c) doc :=
    (inert_bears.ends_emit event).imp_cut fun _ _ => .inr
  have hannounce : Ends (Bears x) (emit (.changing c)) (Bears x) (Bears (x.change c))
      fun e doc => e.announces = true ∨ Bears (x.change c) doc :=
    ends_emit _ (fun doc h => inert_bears.still h rfl h.balanced) fun _ _ _ _ _ => .inl rfl
  refine Ends.bind (Q := Bears x) (.alter fun doc h => inert_bears.still h rfl h.balanced) fun _ =>
    hannounce.bind fun _ => .state_bind fun doc h => ?_
  obtain ⟨deleted, next, hok, hnext⟩ := h.mutate hc hrange
  have hchanged : Bears (x.change c) { next with updateChangedText := true } :=
    inert_bears.still hnext rfl hnext.balanced
  rw [hok]
  refine Ends.bind (Q := Bears (x.change c)) (.alter fun _ _ => inert_bears.recorded hc hchanged) fun _ =>
    (hmade _).bind fun _ => (ends_emitAll fun event _ => hmade event).bind fun _ =>
    Ends.bind (Q := Bears (x.change c)) (.alter fun doc h => inert_bears.still h rfl h.balanced) fun _ => ?_
  exact .ofExcept _ (fun _ h => h) fun _ h => h

abbrev BearsAt (x : Contents) (f : Footing) (doc : Document) : Prop := Bears x doc ∧ Rests False f doc

lemma ends_beginUpdate_announced :
    Ends (fun doc => doc.inChange = false) beginUpdate (fun _ => True) (fun _ => False)
      fun e _ => e.announces = true := by
  refine (ends_checkNotInChange_of fun _ h => h).bind fun _ => .state_bind fun doc _ => ?_
  refine Ends.bind (Q := fun _ => True) (.alter fun _ _ => trivial) fun _ => .ite ?_ (.pure () fun _ h => h)
  exact Ends.bind (Q := fun _ => True) (.alter fun _ _ => trivial) fun _ =>
    ends_emit _ (fun _ _ => trivial) fun _ _ _ _ _ => rfl

lemma Cut.announced_or_rests {p : Prop} {e : DocumentEvent} (h : Cut p f e doc) :
    e.announces = true ∨ Rests p f doc := by
  by_cases he : e = .updateStarted
  · exact .inl (he ▸ rfl)
  · have hrests := h.rests
    rw [if_neg he] at hrests
    exact .inr hrests

lemma ends_runChange_bears (hc : c.Balanced) (hrange : c.offset + c.removed.length ≤ x.text.length) :
    Ends (BearsAt x f) (runChange c) (BearsAt (x.change c) f) (BearsAt (x.change c) f)
      fun e doc => e.announces = true ∨ BearsAt (x.change c) f doc := by
  have hupkeep {y : Contents} : Upkeep (Bears y) := inert_bears.upkeep
  have hopen : Ends (BearsAt x f) beginUpdate (BearsAt x f.up) (fun _ => False)
      fun e doc => e.announces = true ∨ BearsAt (x.change c) f doc :=
    (((ends_beginUpdate (R := fun _ => False)).keeping hupkeep.keeps_beginUpdate).both
      ends_beginUpdate_announced).mono (fun _ h => ⟨⟨h.2, h.1⟩, h.2.inChange⟩) (fun _ h => ⟨h.1.2, h.1.1⟩)
        (fun _ h => h.2) fun _ _ h => .inl h.2
  have hbody : Ends (Held (BearsAt x f.up)) (applyChange c) (Held (BearsAt (x.change c) f.up))
      (Held (BearsAt (x.change c) f.up))
      fun e => Held fun doc => e.announces = true ∨ Bears (x.change c) doc ∧ Cut False f.up e doc :=
    ((ends_applyChange_bears hc hrange).both (restores_applyChange c f.up)).mono (fun _ h => h) (fun _ h => h)
      (fun _ h => h) fun _ _ ⟨hbears, hcut⟩ => hbears.imp_right fun hbears => ⟨hbears, hcut⟩
  have hclose : Ends (BearsAt (x.change c) f.up) endUpdate (BearsAt (x.change c) f) (fun _ => False)
      fun e doc => e.announces = true ∨ BearsAt (x.change c) f doc :=
    ((ends_endUpdate (R := fun _ => False)).keeping hupkeep.keeps_endUpdate).mono (fun _ h => ⟨h.2, h.1⟩)
      (fun _ h => ⟨h.2, h.1⟩) (fun _ h => h.1) fun _ _ ⟨hcut, hbears⟩ =>
        hcut.announced_or_rests.imp_right fun hrests => ⟨hbears, hrests⟩
  refine ends_runUpdate hopen hbody hclose hclose fun e doc hcut => ?_
  rcases hcut with hannounced | ⟨hbears, hcut⟩
  · exact .inl hannounced
  · exact hcut.closeSilently.announced_or_rests.imp_right fun hrests => ⟨hupkeep.closeSilently hbears, hrests⟩

lemma ends_replaceWithMap_bears (hrange : offset + length ≤ x.text.length)
    (hmap : map.fits offset length inserted.length = true) :
    Ends (BearsAt x f) (replaceWithMap offset length inserted map) (BearsAt (x.edit offset length inserted map) f)
      (BearsAt (x.edit offset length inserted map) f)
      fun e doc => e.announces = true ∨ BearsAt (x.edit offset length inserted map) f doc := by
  refine (ends_checkNotInChange_of fun _ h => h.2.inChange).bind fun _ => .state_bind fun doc h => ?_
  obtain ⟨hcheck, hslice, hok⟩ := h.1.passes hrange hmap
  refine .lift_bind_of_eq hcheck ?_
  split
  case isTrue hnothing =>
    obtain ⟨rfl, rfl⟩ := hnothing
    rw [Contents.edit_nothing]
    exact .pure () fun _ hs => hs ▸ h
  case isFalse hsome =>
    refine .lift_bind_of_eq hslice (.lift_bind_of_eq hok ?_)
    rw [Contents.edit_of_some hsome]
    exact (ends_runChange_bears (Change.Built.withMap hok).balanced
      (by rwa [Text.length_take_drop hrange])).of_eq h

lemma Sturdy.bearsAt (h : doc.Sturdy) (hrest : doc.inChange = false) : BearsAt doc.contents doc.footing doc :=
  ⟨⟨h, rfl⟩, ⟨⟨rfl, rfl, False.elim, rfl⟩, hrest⟩⟩

lemma BearsAt.replaceWithMap (h : BearsAt x f doc) (inserted : Text) (hrange : offset + length ≤ x.text.length)
    (hmap : map.fits offset length inserted.length = true)
    (hrun : ¬ (Document.replaceWithMap offset length inserted map doc).Foiled) :
    BearsAt (x.edit offset length inserted map) f (Document.replaceWithMap offset length inserted map doc).state :=
  (ends_replaceWithMap_bears hrange hmap doc h).of_not_foiled hrun

lemma runs_replaceWithMap_outside (hrest : doc.inChange = false) (h : doc.textLength < offset + length)
    (inserted : Text) (map : OffsetMap) : (replaceWithMap offset length inserted map).Runs doc []
      (.refused (.text (.rangeOutOfRange offset length doc.textLength))) doc :=
  runs_checkNotInChange hrest (.state_bind (.lift_bind_error (if_neg (Nat.not_le.mpr h))))

variable {t : Text} {options : DocumentOptions}

lemma Bears.alike {y : Contents} {other : Document} (h : Bears x doc) (h' : Bears y other)
    (hmatches : x.Matches y) :
    doc.text = other.text ∧ doc.lines.lines = other.lines.lines ∧
      (∀ id, doc.anchors.isDeleted id = other.anchors.isDeleted id) ∧
      doc.anchors.live = other.anchors.live := by
  refine ⟨?_, ?_, ?_, ?_⟩
  · rw [h.text_eq, h'.text_eq, hmatches.text_eq]
  · rw [h.lines_eq, h'.lines_eq, hmatches.text_eq, hmatches.options_eq]
  · rw [h.anchors_eq, h'.anchors_eq]
    exact hmatches.isDeleted_eq
  · rw [h.anchors_eq, h'.anchors_eq, hmatches.live_eq]

end Document

end EditableText
