import EditableText.Proofs.Document.Course
import EditableText.Proofs.Document.Paths

namespace EditableText

open EditableText.Action

namespace Document

variable {first doc after next : Document} {c : Change} {cs : List Change} {moves : List Move}
  {deleted : List AnchorId} {t : Text}

lemma exists_of_mutate (hok : doc.mutate c = .ok (deleted, next)) :
    ∃ storage lines anchors, next = { doc with storage, lines, anchors, version := doc.version + 1 } := by
  obtain ⟨cut, -, hok⟩ := exists_of_bind_eq_ok hok
  obtain ⟨storage, -, hok⟩ := exists_of_bind_eq_ok hok
  obtain ⟨lines, -, hok⟩ := exists_of_bind_eq_ok hok
  obtain ⟨-, rfl⟩ := Prod.mk.inj (Except.ok.inj hok)
  exact ⟨storage, lines, _, rfl⟩

lemma history_of_mutate (hok : doc.mutate c = .ok (deleted, next)) : next.history = doc.history := by
  obtain ⟨storage, lines, anchors, rfl⟩ := exists_of_mutate hok
  rfl

lemma exists_of_record (c : Change) (doc : Document) : ∃ history, (doc.record c).2 = { doc with history } := by
  rw [record]
  split
  case h_1 history _ => exact ⟨history, rfl⟩
  case h_2 => exact ⟨doc.history, rfl⟩

structure Sturdy (doc : Document) : Prop where
  coherent : doc.Coherent
  tidy : doc.anchors.Tidy

namespace Sturdy

lemma balanced (h : doc.Sturdy) : doc.history.OfChanges Change.Balanced := h.coherent.history

lemma offset_le (h : doc.Sturdy) {id : AnchorId} {slot : AnchorSlot} (hslot : doc.anchors.slot id = .ok slot)
    (hlive : slot.state = .live) : slot.offset ≤ doc.text.length :=
  (h.coherent.text_eq ▸ h.coherent.anchors : doc.anchors.Within doc.text.length).offset_le hslot hlive

lemma congr (h : doc.Sturdy) (hmatter : after.matter = doc.matter) (hh : after.history.OfChanges Change.Balanced) :
    after.Sturdy := by
  refine ⟨?_, anchors_eq_of_matter hmatter ▸ h.tidy⟩
  simp only [matter, Prod.mk.injEq] at hmatter
  obtain ⟨hstorage, hlines, hoptions, hanchors, -⟩ := hmatter
  refine (h.coherent.withHistory hh).congr ?_
  rw [core, hstorage, hlines, hoptions, hanchors]
  rfl

lemma applied (h : doc.Sturdy) (hc : c.Balanced) (hok : doc.mutate c = .ok (deleted, next))
    (hmatter : after.matter = next.matter) : Applied c doc after := by
  have hrange : c.offset + c.removed.length ≤ doc.text.length := by
    by_contra hout
    rw [h.coherent.mutate_eq_error (Nat.not_le.mp hout)] at hok
    cases hok
  have hlength := Change.length_apply hrange
  have hwithin : doc.anchors.Within doc.text.length := h.coherent.text_eq ▸ h.coherent.anchors
  obtain ⟨storage, lines, hmutate, hwf, hcontent, -⟩ := h.coherent.mutate_eq hrange
  obtain ⟨rfl, rfl⟩ := Prod.mk.inj (Except.ok.inj (hok.symm.trans hmutate))
  have hanchors := anchors_eq_of_matter hmatter
  have htext : after.text = c.apply doc.text := by
    rw [text_eq_of_matter hmatter]
    exact hwf.reads.text_eq.trans hcontent
  dsimp only at hanchors
  refine
    { balanced := hc
      inRange := hrange
      text_eq := htext
      version_eq := ?_
      carried := fun index slot hslot => ?_
      inText := fun hexact slot hmem hlive => ?_
      size_eq := ?_
      released_eq := hanchors ▸ AnchorTable.follow_released _ _ _
      reported := ⟨_, _, hok, hmatter.symm, ?_, ?_⟩ }
  · simp only [matter, Prod.mk.injEq] at hmatter
    exact hmatter.2.2.2.2
  · rw [hanchors, htext]
    exact AnchorTable.carried_slot hwithin (hc.length_apply hrange) hslot
  · rw [htext, hlength]
    exact hexact.newOffset_le _ hrange (hwithin slot hmem hlive)
  · rw [hanchors, AnchorTable.size_follow]
  · rw [hanchors]
    exact AnchorTable.lost_follow _ _ _
  · rw [hanchors]
    exact h.tidy.liveCount_follow _ _

lemma mutate (h : doc.Sturdy) (hc : c.Balanced) (hok : doc.mutate c = .ok (deleted, next)) : next.Sturdy := by
  have happlied : Applied c doc next := h.applied hc hok rfl
  exact ⟨h.coherent.mutate hc hok, happlied.tidy h.tidy⟩

end Sturdy

structure Inert (P : Document → Prop) : Prop where
  sturdy {doc : Document} : P doc → doc.Sturdy
  still {doc after : Document} :
    P doc → after.matter = doc.matter → after.history.OfChanges Change.Balanced → P after

namespace Inert

variable {P : Document → Prop}

lemma heeded (h : Inert P) : Heeded P where
  emit event := keeps_of_state fun doc hdoc => by
    rw [emit]
    split <;> exact h.still hdoc rfl (h.sturdy hdoc).balanced
  marked _ hdoc := h.still hdoc rfl (h.sturdy hdoc).balanced

lemma upkeep (h : Inert P) : Upkeep P where
  emit _ := h.heeded.emit _
  noted _ _ hdoc := h.still hdoc rfl (h.sturdy hdoc).balanced
  unmarked hdoc := h.still hdoc rfl (h.sturdy hdoc).balanced
  opened hdoc := h.still hdoc rfl (h.sturdy hdoc).balanced.startGroup
  left := by
    intro doc after hdoc hafter
    rw [leaveUpdate] at hafter
    split at hafter
    case h_1 => cases hafter
    case h_2 =>
      obtain ⟨history, hhistory, hok⟩ := exists_of_bind_eq_ok hafter
      obtain rfl := Except.ok.inj hok
      exact h.still hdoc rfl ((h.sturdy hdoc).balanced.endGroup (eq_ok_of_mapError_eq_ok hhistory))

lemma recorded (h : Inert P) (hc : c.Balanced) (hdoc : P doc) : P (doc.record c).2 := by
  rw [record]
  cases hpush : doc.history.push c with
  | ok history => exact h.still hdoc rfl ((h.sturdy hdoc).balanced.push hc hpush)
  | error e => exact hdoc

end Inert

structure Along (first : Document) (moves : List Move) (doc : Document) : Prop extends Sturdy doc where
  course : Course first moves doc

namespace Along

lemma still (h : Along first moves doc) (hmatter : after.matter = doc.matter)
    (hh : after.history.OfChanges Change.Balanced) : Along first moves after :=
  ⟨h.toSturdy.congr hmatter hh, h.course.still hmatter⟩

lemma onHistory (h : Along first moves doc) {f : History → History}
    (hf : ∀ history : History, history.OfChanges Change.Balanced → (f history).OfChanges Change.Balanced) :
    Along first moves (doc.onHistory f) := h.still rfl (hf _ h.balanced)

lemma change (h : Along first moves doc) (hc : c.Balanced) (hok : doc.mutate c = .ok (deleted, next)) :
    Along first (moves ++ [.change c]) next :=
  ⟨h.toSturdy.mutate hc hok, h.course.step (.change (h.toSturdy.applied hc hok rfl))⟩

lemma link (h : Along first moves doc) {move : Move} {anchors : AnchorTable}
    (hlink : Link doc move { doc with anchors }) (hwithin : anchors.Within doc.storage.content.length) :
    Along first (moves ++ [move]) { doc with anchors } :=
  ⟨⟨h.coherent.withAnchors hwithin, hlink.tidy h.tidy⟩, h.course.step hlink⟩

end Along

lemma inert_along : Inert (Along first moves) := ⟨Along.toSturdy, Along.still⟩

def Partly (first : Document) (moves : List Move) (cs : List Change) (doc : Document) : Prop :=
  ∃ done, done <+: cs ∧ Along first (moves ++ done.map .change) doc

lemma Along.partly (h : Along first moves doc) : Partly first moves cs doc :=
  ⟨[], List.nil_prefix, by simpa using h⟩

lemma Along.wholly (h : Along first (moves ++ cs.map .change) doc) : Partly first moves cs doc :=
  ⟨cs, List.prefix_refl cs, h⟩

lemma inert_partly : Inert (Partly first moves cs) where
  sturdy := fun ⟨_, _, h⟩ => h.toSturdy
  still := fun ⟨done, hdone, h⟩ hmatter hh => ⟨done, hdone, h.still hmatter hh⟩

lemma applyChange_along (hc : c.Balanced) :
    Triple (Along first moves) (applyChange c) (Along first (moves ++ [c].map .change))
      (Partly first moves [c]) := by
  refine (inert_along.heeded.applyChange inert_along.heeded fun {doc after deleted} h hok => ?_).mono
    (fun _ h => h) (fun _ h => h) fun doc h => h.elim Along.partly Along.wholly
  have hchanged := h.change hc hok
  have hnoted : Along first (moves ++ [.change c]) { after with updateChangedText := true } :=
    hchanged.still rfl hchanged.balanced
  exact inert_along.recorded hc hnoted

lemma runChange_along (hc : c.Balanced) :
    Triple (Along first moves) (runChange c) (Along first (moves ++ [c].map .change)) (Partly first moves [c]) :=
  Upkeep.runUpdate (σ := Document) inert_along.upkeep inert_along.upkeep inert_partly.upkeep (applyChange_along hc)
    (fun _ => Along.partly) fun _ => Along.wholly

def edits (t : Text) (offset length : Nat) (inserted : Text) (map : OffsetMap) : List Change :=
  if length = 0 ∧ inserted = [] then [] else [⟨offset, (t.drop offset).take length, inserted, map⟩]

lemma length_edits_le (t : Text) (offset length : Nat) (inserted : Text) (map : OffsetMap) :
    (edits t offset length inserted map).length ≤ 1 := by
  rw [edits]
  split <;> simp

lemma replaceWithMap_along (offset length : Nat) (inserted : Text) (map : OffsetMap) :
    Triple (fun doc => Along first moves doc ∧ doc.text = t) (replaceWithMap offset length inserted map)
      (Along first (moves ++ (edits t offset length inserted map).map .change))
      (Partly first moves (edits t offset length inserted map)) := by
  refine Triple.bind (Q := fun doc => Along first moves doc ∧ doc.text = t) ?_ fun _ => ?_
  · exact keeps_checkNotInChange.mono (fun _ h => h) (fun _ h => h) fun _ h => h.1.partly
  refine .state_bind fun doc ⟨h, htext⟩ => ?_
  refine .lift_bind _ (fun _ hcheck => ?_) fun _ hs => hs ▸ h.partly
  rw [edits]
  split
  case isTrue => exact .pure () fun _ hs => hs ▸ (by simpa using h)
  case isFalse hsome =>
    have hslice := h.coherent.slice_eq (checkRange_eq_ok.mp hcheck)
    rw [hslice, htext]
    refine .lift_bind _ (fun removed hremoved => ?_) fun _ hs => hs ▸ h.partly
    obtain rfl := Except.ok.inj hremoved
    refine .lift_bind _ (fun c hok => ?_) fun _ hs => hs ▸ h.partly
    have hbalanced := (Change.Built.withMap hok).balanced
    obtain ⟨-, rfl⟩ := Change.withMap_eq_ok hok
    exact (runChange_along hbalanced).mono (fun _ hs => hs ▸ h) (fun _ h => h) fun _ h => h

lemma Partly.onHistory {f : History → History}
    (hf : ∀ history : History, history.OfChanges Change.Balanced → (f history).OfChanges Change.Balanced)
    (h : Partly first moves cs doc) : Partly first moves cs (doc.onHistory f) :=
  h.imp fun _ ⟨hdone, hdoc⟩ => ⟨hdone, hdoc.onHistory hf⟩

lemma replay_along (hc : c.Balanced) :
    Triple (Along first moves) (replay c) (Along first (moves ++ [c].map .change)) (Partly first moves [c]) := by
  refine Triple.bind (Q := Along first moves) (.alter fun doc h => h.onHistory fun _ hh => hh.enterModify)
    fun _ => (applyChange_along hc).attempt_bind (fun _ => ?_) (fun e => ?_) fun _ h => h
  · exact Triple.bind (.alter fun doc h => h.onHistory fun _ hh => hh.exitModify) fun _ => .pure () fun _ h => h
  · exact Triple.bind (.alter fun doc h => h.onHistory fun _ hh => hh.exitModify) fun _ => .refuse e fun _ h => h

lemma replayAll_along (hcs : ∀ c ∈ cs, c.Balanced) :
    Triple (Along first moves) (replayAll cs) (Along first (moves ++ cs.map .change)) (Partly first moves cs) := by
  induction cs generalizing moves with
  | nil => exact .pure () fun _ h => by simpa using h
  | cons c rest ih =>
    refine ((replay_along (hcs c List.mem_cons_self)).mono (fun _ h => h) (fun _ h => h) ?_).bind fun _ =>
      (ih fun c hmem => hcs c (List.mem_cons_of_mem _ hmem)).mono (fun _ h => h) ?_ ?_
    · rintro doc ⟨done, hdone, h⟩
      exact ⟨done, hdone.trans ⟨rest, rfl⟩, h⟩
    · intro doc h
      rwa [List.append_assoc, ← List.map_append] at h
    · rintro doc ⟨done, hdone, h⟩
      rw [List.append_assoc, ← List.map_append] at h
      exact ⟨c :: done, List.prefix_cons_inj c |>.mpr hdone, h⟩

lemma playGroup_along {d : Direction} {group : ChangeGroup} {handed : History}
    (hcs : ∀ c ∈ d.changes group, c.Balanced) (hh : handed.OfChanges Change.Balanced) :
    Triple (Along first moves) (playGroup d group handed) (Along first (moves ++ (d.changes group).map .change))
      (Partly first moves (d.changes group)) := by
  have hrun : Triple (Along first moves) (runUpdate (replayAll (d.changes group)))
      (Along first (moves ++ (d.changes group).map .change)) (Partly first moves (d.changes group)) :=
    Upkeep.runUpdate (σ := Document) inert_along.upkeep inert_along.upkeep inert_partly.upkeep
      (replayAll_along hcs) (fun _ => Along.partly) fun _ => Along.wholly
  refine Triple.bind (Q := Along first moves) (.alter fun doc h => h.still rfl hh) fun _ => ?_
  refine Triple.bind (Triple.ensuring hrun ?_ ?_) fun _ => .pure true fun _ h => h
  · exact fun _ h => h.onHistory fun _ hh => hh.finish d
  · exact fun _ h => h.onHistory fun _ hh => hh.finish d

lemma playBack_along (d : Direction) (h : Along first moves doc)
    (hcs : d.changes ((d.groups doc.history).headD []) = cs) :
    Triple (fun doc' => doc' = doc) (playBack d) (Along first (moves ++ cs.map .change))
      (Partly first moves cs) := by
  refine triple_playBack h.partly (fun hok => ?_) fun hok => ?_
  · obtain rfl : cs = [] := by
      rw [← hcs, List.headD_eq_head?_getD, Direction.head?_of_handOut hok]
      cases d <;> rfl
    simpa using h
  · obtain ⟨hhanded, hgroup⟩ := h.balanced.handOut hok
    rw [List.headD_eq_head?_getD, Direction.head?_of_handOut hok] at hcs
    obtain rfl := hcs
    exact (playGroup_along (d.changes_balanced (hgroup _ rfl)) hhanded).mono (fun _ hs => hs ▸ h) (fun _ h => h)
      fun _ h => h

def replacements (t inserted : Text) : List Change :=
  edits t 0 t.length [] (ChangeMapping.normal.offsetMap 0 t.length 0) ++
    edits [] 0 0 inserted (ChangeMapping.normal.offsetMap 0 0 inserted.length)

lemma edits_insert (t inserted : Text) (offset : Nat) (map : OffsetMap) :
    edits t offset 0 inserted map = edits [] offset 0 inserted map := by
  simp [edits]

lemma replaceAll_along (inserted : Text) :
    Triple (fun doc => Along first moves doc ∧ doc.text = t)
      (do
        let doc ← .state
        remove 0 doc.textLength
        insert 0 inserted : Action Document Unit)
      (Along first (moves ++ (replacements t inserted).map .change))
      (Partly first moves (replacements t inserted)) := by
  refine .state_bind fun doc ⟨h, htext⟩ => ?_
  have hlength : doc.textLength = t.length := by rw [h.coherent.textLength_eq, ← h.coherent.text_eq, htext]
  have hfirst : Triple (fun doc => Along first moves doc ∧ doc.text = t) (remove 0 t.length) _ _ :=
    replaceWithMap_along 0 t.length [] (ChangeMapping.normal.offsetMap 0 t.length 0)
  rw [hlength, replacements]
  refine Triple.bind (hfirst.mono (fun _ hs => by rw [hs]; exact ⟨h, htext⟩) (fun _ h => h) ?_)
    fun _ doc hdoc => ?_
  · rintro doc ⟨done, hdone, hdoc⟩
    exact ⟨done, hdone.trans (List.prefix_append _ _), hdoc⟩
  · have hsecond := replaceWithMap_along (t := doc.text) 0 0 inserted
      (ChangeMapping.normal.offsetMap 0 0 inserted.length) doc ⟨hdoc, rfl⟩
    rw [edits_insert] at hsecond
    refine hsecond.mono (fun _ h => ?_) ?_
    · rwa [List.append_assoc, ← List.map_append] at h
    · rintro doc ⟨done, hdone, h⟩
      rw [List.append_assoc, ← List.map_append] at h
      exact ⟨_, (List.prefix_append_right_inj _).mpr hdone, h⟩

lemma setText_along (h : Along first moves doc) (inserted : Text) :
    Triple (fun doc' => doc' = doc) (setText inserted)
      (Along first (moves ++ (replacements doc.text inserted).map .change))
      (Partly first moves (replacements doc.text inserted)) := by
  let before (doc' : Document) : Prop := Along first moves doc' ∧ doc'.text = doc.text
  let final := Along first (moves ++ (replacements doc.text inserted).map .change)
  have hstays : ∀ doc', doc' = doc → Partly first moves (replacements doc.text inserted) doc' := by
    intro doc' hs
    rw [hs]
    exact h.partly
  have hreplace : Triple before (runUpdate do
        let doc ← .state
        remove 0 doc.textLength
        insert 0 inserted : Action Document Unit) final (Partly first moves (replacements doc.text inserted)) :=
    Upkeep.runUpdate (σ := Document) (inert_along.upkeep.withText doc.text) inert_along.upkeep inert_partly.upkeep
      (replaceAll_along inserted) (fun _ hb => hb.1.partly) fun _ => Along.wholly
  refine Triple.bind (Q := fun doc' => doc' = doc) ?_ fun _ => .state_bind fun _ hs => ?_
  · exact keeps_checkNotInChange.mono (fun _ h => h) (fun _ h => h) hstays
  subst hs
  refine .ite (.refuse_bind _ hstays) ?_
  refine Triple.bind (Q := before) (.alter fun _ hs => ?_) fun _ =>
    hreplace.attempt_bind (fun _ => ?_) (fun e => ?_) fun _ h => h
  · subst hs
    exact ⟨h.still rfl (h.balanced.setAcceptsChanges false), rfl⟩
  · refine Triple.bind (Q := final) (.alter fun doc hd => hd.still rfl (hd.balanced.setAcceptsChanges _)) fun _ =>
      Triple.bind (Q := final) (.pure () fun _ h => h) fun _ => .state_bind fun doc hd => ?_
    refine .lift_bind _ (fun history hclear => ?_) fun _ hs => hs ▸ hd.wholly
    refine Triple.bind (Q := final) (.alter fun _ hs => ?_) fun _ =>
      (inert_along.heeded.emit _).mono (fun _ h => h) (fun _ h => h) fun _ => Along.wholly
    subst hs
    exact hd.still rfl (hd.balanced.clear hclear).markSaved
  · exact Triple.bind
      (.alter fun doc ⟨done, hdone, hd⟩ => ⟨done, hdone, hd.still rfl (hd.balanced.setAcceptsChanges _)⟩)
      fun _ => .refuse_bind e fun _ h => h

end Document

open EditableText.Document

namespace Call

variable {first : Document} {moves : List Move} {cs : List Change} {s : Session}

def asks (doc : Document) : Call → Option (List Change)
  | insert offset t => some (edits doc.text offset 0 t (ChangeMapping.normal.offsetMap offset 0 t.length))
  | insertWithMovement offset t movement =>
    let mapping := if movement = .beforeInsertion then .keepAnchorBeforeInsertion else .normal
    some (edits doc.text offset 0 t (ChangeMapping.offsetMap mapping offset 0 t.length))
  | remove offset length => some (edits doc.text offset length [] (ChangeMapping.normal.offsetMap offset length 0))
  | replace offset length t mapping =>
    some (edits doc.text offset length t (mapping.offsetMap offset length t.length))
  | replaceWithMap offset length t map => some (edits doc.text offset length t map)
  | setText t => some (replacements doc.text t)
  | undo => some (ChangeGroup.undoChanges (doc.history.undo.headD []))
  | redo => some (doc.history.redo.headD [])
  | _ => none

lemma leaves_acting {α : Type} {x : Action Document α} {P : Document → Prop} {reply : α → Reply}
    (hx : Triple P x (Along first (moves ++ cs.map .change)) (Partly first moves cs)) (hs : P s.document) :
    (acting x reply s).Leaves (Held (Along first (moves ++ cs.map .change))) (Held (Partly first moves cs)) :=
  Triple.bind (Triple.onDocument hx) (fun _ => .pure _ fun _ h => h) s hs

lemma leaves_perform (h : Along first moves s.document) {c : Call} (hasks : c.asks s.document = some cs) :
    (c.perform s).Leaves (Held (Along first (moves ++ cs.map .change))) (Held (Partly first moves cs)) := by
  cases c with
  | insert | insertWithMovement | remove | replace | replaceWithMap =>
    obtain rfl := Option.some.inj hasks
    rw [perform]
    exact leaves_acting (replaceWithMap_along _ _ _ _) ⟨h, rfl⟩
  | setText t =>
    obtain rfl := Option.some.inj hasks
    rw [perform]
    exact leaves_acting (setText_along h t) rfl
  | undo =>
    rw [perform]
    exact leaves_acting (playBack_along .back h (Option.some.inj hasks)) rfl
  | redo =>
    rw [perform]
    exact leaves_acting (playBack_along .forth h (Option.some.inj hasks)) rfl
  | _ => cases hasks

end Call

end EditableText
