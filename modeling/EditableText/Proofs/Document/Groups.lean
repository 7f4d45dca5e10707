import EditableText.Proofs.Document.Paths

namespace EditableText

def Deed.playsBack : Deed → Bool
  | call .undo (.ok (.flag true)) | call .redo (.ok (.flag true)) => true
  | _ => false

namespace Document

variable {doc mid after opened : Document} {log : List Notice} {deed : Deed} {deliveries : List Delivery}
  {deeds deeds' : List (Deed × List Delivery)}

inductive Inside : Document → List (Deed × List Delivery) → Document → Prop
  | refl (doc : Document) : Inside doc [] doc
  | step {doc mid after : Document} {deeds : List (Deed × List Delivery)} {deed : Deed}
    {deliveries : List Delivery} (h : Inside doc deeds mid) (hopen : 0 < mid.updateDepth)
    (hs : Step mid deed deliveries after) : Inside doc (deeds ++ [(deed, deliveries)]) after

/-- A step outside of any update, and what follows while an update is open. -/
inductive Grouped : Document → List (Deed × List Delivery) → Document → Prop
  | mk {doc mid after : Document} {deed : Deed} {deliveries : List Delivery}
    {deeds : List (Deed × List Delivery)} (hclosed : doc.updateDepth = 0) (hs : Step doc deed deliveries mid)
    (hplays : deed.playsBack = false) (hreplaces : deed.replaces = false) (hinside : Inside mid deeds after) :
    Grouped doc ((deed, deliveries) :: deeds) after

lemma Inside.trans (h : Inside doc deeds mid) (h' : Inside mid deeds' after) :
    Inside doc (deeds ++ deeds') after := by
  induction h' with
  | refl => simpa using h
  | step _ hopen hs ih => exact List.append_assoc .. ▸ ih.step hopen hs

lemma Inside.sound (h : Inside doc deeds after) (hd : doc.Sound) : after.Sound := by
  induction h with
  | refl => exact hd
  | step _ _ hs ih =>
    obtain ⟨_, -, hstepped⟩ := hs.stepped ih
    exact hstepped.sound

/-- The timeline of `doc` in a group: it waits while an update is open, and takes up the text that the
group led to if there was a change. -/
structure Recorded (doc after : Document) : Prop where
  sound : after.Sound
  options : after.options = doc.options
  waits : 0 < after.updateDepth →
    after.timeline = doc.timeline ∧ after.version = doc.version + after.history.pending.length
  moves : after.updateDepth = 0 → after.timeline =
    if after.version = doc.version then doc.timeline
    else doc.timeline.record doc.options.undoLimit after.text

lemma Opened.pending_eq (h : doc.Opened log after) : after.history.pending = doc.history.pending := by
  rw [h.history]
  rfl

lemma Recorded.left (h : doc.Recorded mid) (hopen : 0 < mid.updateDepth) (hl : mid.Left log after) :
    doc.Recorded after := by
  obtain ⟨htimeline, hversion⟩ := h.waits hopen
  obtain ⟨hsound, hmoved⟩ := h.sound.left hl
  have hend := h.sound.toSteady.endGroup_eq hl
  refine ⟨hsound, hl.options.trans h.options, fun hpos => ?_, fun hz => ?_⟩
  · have hinner : ¬ (after.updateDepth = 0 ∧ mid.history.pending ≠ []) := by omega
    rw [if_neg hinner] at hmoved hend
    rw [hmoved, hend, hl.version]
    exact ⟨htimeline, hversion⟩
  · -- the version has counted the pending changes, so it is the same only if there are none
    rw [hmoved, hl.version, hversion, htimeline, h.options, hl.toSameParts.text_eq]
    by_cases hp : mid.history.pending = []
    · simp [hp]
    · simp [hp, hz]

lemma Recorded.step (h : doc.Recorded mid) (hopen : 0 < mid.updateDepth)
    (hs : Step mid deed deliveries after) : doc.Recorded after := by
  obtain ⟨log, -, hstepped⟩ := hs.stepped h.sound
  obtain ⟨htimeline, hversion⟩ := h.waits hopen
  have hoptions := hstepped.options.trans h.options
  cases hstepped.effect with
  | aside ha =>
    refine ⟨hstepped.sound, hoptions, fun _ => ?_, fun hz => absurd (ha.depth ▸ hz) (Nat.ne_of_gt hopen)⟩
    rw [ha.timeline_eq, ha.version, ha.history]
    exact ⟨htimeline, hversion⟩
  | edited hc he =>
    obtain ⟨-, -, hinner⟩ := he.sound h.sound hc
    obtain ⟨hsame, hpending⟩ := hinner hopen
    refine ⟨hstepped.sound, hoptions, fun _ => ⟨hsame.trans htimeline, ?_⟩,
      fun hz => absurd (he.depth_eq ▸ hz) (Nat.ne_of_gt hopen)⟩
    rw [he.version_eq, hversion, hpending, List.length_append]
    rfl
  | opened ho =>
    refine ⟨hstepped.sound, hoptions, fun _ => ⟨(h.sound.opened ho).2.trans htimeline, ?_⟩,
      fun hz => absurd hz (Nat.ne_of_gt ho.depth_pos)⟩
    rw [ho.version, hversion, ho.pending_eq]
  | closed hl => exact h.left hopen hl.toLeft
  | unwound hl => exact h.left hopen hl
  | undone hd | redone hd | replaced hd => exact absurd hd (Nat.ne_of_gt hopen)

lemma Recorded.inside (h : doc.Recorded mid) (hi : Inside mid deeds after) : doc.Recorded after := by
  induction hi with
  | refl => exact h
  | step _ hopen hs ih => exact ih.step hopen hs

lemma Sound.recorded (h : doc.Sound) (hclosed : doc.updateDepth = 0) (hs : Step doc deed deliveries mid)
    (hplays : deed.playsBack = false) (hreplaces : deed.replaces = false) : doc.Recorded mid := by
  obtain ⟨log, -, hstepped⟩ := hs.stepped h
  cases hstepped.effect with
  | aside ha =>
    refine ⟨hstepped.sound, hstepped.options, fun hpos => absurd (ha.depth ▸ hclosed) (Nat.ne_of_gt hpos),
      fun _ => ?_⟩
    rw [if_pos ha.version, ha.timeline_eq]
  | edited hc he =>
    obtain ⟨-, houter, -⟩ := he.sound h hc
    refine ⟨hstepped.sound, hstepped.options,
      fun hpos => absurd (he.depth_eq.trans hclosed) (Nat.ne_of_gt hpos), fun _ => ?_⟩
    rw [if_neg (by rw [he.version_eq]; omega), houter hclosed]
  | opened ho =>
    refine ⟨hstepped.sound, hstepped.options, fun _ => ⟨(h.opened ho).2, ?_⟩,
      fun hz => absurd hz (Nat.ne_of_gt ho.depth_pos)⟩
    rw [ho.version, ho.pending_eq, h.closed hclosed]
    rfl
  | closed hl => exact absurd hclosed (Nat.ne_of_gt hl.toLeft.depth_pos)
  | unwound hl => exact absurd hclosed (Nat.ne_of_gt hl.depth_pos)
  | undone _ _ _ hdeed | redone _ _ _ hdeed =>
    subst hdeed
    cases hplays
  | replaced _ _ hdeed =>
    subst hdeed
    cases hreplaces

theorem Sound.grouped (h : doc.Sound) (hg : Grouped doc deeds after) : doc.Recorded after := by
  obtain ⟨hclosed, hs, hplays, hreplaces, hinside⟩ := hg
  exact (h.recorded hclosed hs hplays hreplaces).inside hinside

inductive Bracketed : Document → List (Deed × List Delivery) → Document → Prop
  | mk {doc opened after : Document} {deliveries : List Delivery} {deeds : List (Deed × List Delivery)}
    (hbegin : Step doc (.call .beginUpdate (.ok .nothing)) deliveries opened) (hinside : Inside opened deeds after)
    (hdepth : after.updateDepth = doc.updateDepth) :
    Bracketed doc ((.call .beginUpdate (.ok .nothing), deliveries) :: deeds) after

lemma Bracketed.inside (h : Bracketed doc deeds after) (hopen : 0 < doc.updateDepth) :
    Inside doc deeds after := by
  obtain ⟨hbegin, hinside, -⟩ := h
  exact ((Inside.refl doc).step hopen hbegin).trans hinside

lemma Bracketed.grouped (h : Bracketed doc deeds after) (hclosed : doc.updateDepth = 0) :
    Grouped doc deeds after := by
  obtain ⟨hbegin, hinside, -⟩ := h
  exact .mk hclosed hbegin rfl rfl hinside

lemma Bracketed.sound (h : Bracketed doc deeds after) (hd : doc.Sound) : after.Sound := by
  obtain ⟨hbegin, hinside, -⟩ := h
  obtain ⟨_, -, hstepped⟩ := hbegin.stepped hd
  exact hinside.sound hstepped.sound

lemma Bracketed.depth_eq (h : Bracketed doc deeds after) : after.updateDepth = doc.updateDepth := by
  obtain ⟨-, -, hdepth⟩ := h
  exact hdepth

end Document

end EditableText
