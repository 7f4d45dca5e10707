import EditableText.Proofs.Document.Action
import EditableText.Proofs.Storage
import EditableText.Proofs.Text.Query
import Mathlib.Data.List.Forall2

namespace EditableText

inductive Except.Alike {ε α β : Type} (V : α → β → Prop) : Except ε α → Except ε β → Prop
  | ok {a : α} {b : β} (h : V a b) : Alike V (.ok a) (.ok b)
  | error (e : ε) : Alike V (.error e) (.error e)

lemma Except.Alike.refl {ε α : Type} (r : Except ε α) : Except.Alike Eq r r := by
  cases r with
  | ok a => exact .ok rfl
  | error e => exact .error e

lemma Except.Alike.bind {ε α β γ δ : Type} {V : α → β → Prop} {W : γ → δ → Prop} {r : Except ε α} {r' : Except ε β}
    {f : α → Except ε γ} {g : β → Except ε δ} (h : Except.Alike V r r')
    (hf : ∀ a b, V a b → Except.Alike W (f a) (g b)) : Except.Alike W (r >>= f) (r' >>= g) := by
  cases h with
  | ok h => exact hf _ _ h
  | error e => exact .error e

namespace Storage

structure Alike (s s' : Storage) : Prop where
  left : s.WellFormed
  right : s'.WellFormed
  content : s.content = s'.content

lemma alike_ofText (t : Text) (strategy strategy' : BufferStrategy) :
    (ofText t strategy).Alike (ofText t strategy') :=
  ⟨wellFormed_ofText t strategy, wellFormed_ofText t strategy', by rw [content_ofText, content_ofText]⟩

namespace Alike

variable {s s' : Storage} (h : s.Alike s')

include h

lemma reads : ∃ t, TextSource.Reads s t ∧ TextSource.Reads s' t :=
  ⟨s.content, h.left.reads, h.content ▸ h.right.reads⟩

lemma length_eq : TextSource.length s' = TextSource.length s := by
  obtain ⟨t, hs, hs'⟩ := h.reads
  rw [hs.length_eq, hs'.length_eq]

lemma charAt_eq (offset : Nat) : TextSource.charAt s' offset = TextSource.charAt s offset := by
  obtain ⟨t, hs, hs'⟩ := h.reads
  rw [hs.charAt_eq, hs'.charAt_eq]

lemma slice_eq (offset count : Nat) : TextSource.slice s' offset count = TextSource.slice s offset count := by
  obtain ⟨t, hs, hs'⟩ := h.reads
  rw [hs.slice_eq, hs'.slice_eq]

lemma charsFrom_eq (offset : Nat) : TextSource.charsFrom s' offset = TextSource.charsFrom s offset := by
  obtain ⟨t, hs, hs'⟩ := h.reads
  rw [hs.charsFrom_eq, hs'.charsFrom_eq]

lemma text_eq : TextSource.text s' = TextSource.text s := h.charsFrom_eq 0

lemma insert (offset : Nat) (t : Text) : Except.Alike Storage.Alike (s.insert offset t) (s'.insert offset t) := by
  rcases Nat.lt_or_ge s.content.length offset with hgt | ho
  · rw [h.left.insert_eq_error hgt, h.right.insert_eq_error (h.content ▸ hgt), h.content]
    exact .error _
  · obtain ⟨after, hafter, hwell, hcontent⟩ := h.left.insert ho t
    obtain ⟨after', hafter', hwell', hcontent'⟩ := h.right.insert (h.content ▸ ho) t
    rw [hafter, hafter']
    exact .ok ⟨hwell, hwell', by rw [hcontent, hcontent', h.content]⟩

lemma remove (offset count : Nat) :
    Except.Alike (fun r r' => r.1 = r'.1 ∧ r.2.Alike r'.2) (s.remove offset count) (s'.remove offset count) := by
  rcases Nat.lt_or_ge s.content.length (offset + count) with hgt | ho
  · rw [h.left.remove_eq_error hgt, h.right.remove_eq_error (h.content ▸ hgt), h.content]
    exact .error _
  · obtain ⟨after, hafter, hwell, hcontent⟩ := h.left.remove ho
    obtain ⟨after', hafter', hwell', hcontent'⟩ := h.right.remove (h.content ▸ ho)
    rw [hafter, hafter', h.content]
    exact .ok ⟨rfl, hwell, hwell', by rw [hcontent, hcontent', h.content]⟩

end Alike

end Storage

lemma LineTable.applyEdit_congr {σ τ : Type} [TextSource σ] [TextSource τ] {source : σ} {source' : τ}
    (h : ∀ offset, TextSource.charsFrom source' offset = TextSource.charsFrom source offset) (table : LineTable)
    (offset removed inserted : Nat) :
    table.applyEdit source' offset removed inserted = table.applyEdit source offset removed inserted := by
  simp only [applyEdit, rescan, h]

namespace Document

structure Alike (doc doc' : Document) : Prop where
  storage : doc.storage.Alike doc'.storage
  rest : doc' =
    { doc with storage := doc'.storage, options := { doc.options with buffer := doc'.options.buffer } }

lemma alike_iff {doc doc' : Document} : doc.Alike doc' ↔ ∃ storage buffer, doc.storage.Alike storage ∧
    doc' = { doc with storage, options := { doc.options with buffer } } := by
  constructor
  · exact fun h => ⟨doc'.storage, doc'.options.buffer, h.storage, h.rest⟩
  · rintro ⟨storage, buffer, h, rfl⟩
    exact ⟨h, rfl⟩

end Document

structure Delivery.Alike (d d' : Delivery) : Prop where
  listener : d.listener = d'.listener
  label : d.label = d'.label
  event : d.event = d'.event
  seen : d.seen.Alike d'.seen

section Run

variable {σ α β γ δ : Type}

inductive Run.Alike (R : σ → σ → Prop) (V : α → β → Prop) : Run σ α → Run σ β → Prop
  | ok {a : α} {b : β} {s s' : σ} {told told' : List Delivery} (h : V a b) (hs : R s s')
    (ht : List.Forall₂ Delivery.Alike told told') : Alike R V ⟨.ok a, s, told⟩ ⟨.ok b, s', told'⟩
  | refused {s s' : σ} {told told' : List Delivery} (e : DocumentError) (hs : R s s')
    (ht : List.Forall₂ Delivery.Alike told told') : Alike R V ⟨.refused e, s, told⟩ ⟨.refused e, s', told'⟩
  | abandoned {s s' : σ} {told told' : List Delivery} (hs : R s s')
    (ht : List.Forall₂ Delivery.Alike told told') : Alike R V ⟨.abandoned, s, told⟩ ⟨.abandoned, s', told'⟩

lemma Run.Alike.state {R : σ → σ → Prop} {V : α → β → Prop} {run : Run σ α} {run' : Run σ β}
    (h : run.Alike R V run') : R run.state run'.state := by
  cases h with
  | ok _ hs _ => exact hs
  | refused _ hs _ => exact hs
  | abandoned hs _ => exact hs

/-- Started alike, the two calls end alike. -/
def Action.Agree (R : σ → σ → Prop) (V : α → β → Prop) (x : Action σ α) (y : Action σ β) : Prop :=
  ∀ s s', R s s' → (x s).Alike R V (y s')

abbrev Action.Blind (R : σ → σ → Prop) (x : Action σ α) : Prop := Action.Agree R Eq x x

namespace Action

variable {R : σ → σ → Prop} {V V' : α → β → Prop} {W : γ → δ → Prop} {x : Action σ α} {y : Action σ β}

namespace Agree

lemma mono (h : Agree R V x y) (hv : ∀ a b, V a b → V' a b) : Agree R V' x y := by
  intro s s' hs
  have hrun := h s s' hs
  generalize x s = run, y s' = run' at hrun ⊢
  cases hrun with
  | ok h hs ht => exact .ok (hv _ _ h) hs ht
  | refused e hs ht => exact .refused e hs ht
  | abandoned hs ht => exact .abandoned hs ht

lemma pure {a : α} {b : β} (h : V a b) : Agree R V (Pure.pure a) (Pure.pure b) := fun _ _ hs => .ok h hs .nil

lemma refuse (e : DocumentError) : Agree R V (Action.refuse e) (Action.refuse e) := fun _ _ hs =>
    .refused e hs .nil

lemma abandon : Agree R V Action.abandon Action.abandon := fun _ _ hs => .abandoned hs .nil

lemma state : Agree R R Action.state Action.state := fun _ _ hs => .ok hs hs .nil

lemma alter {f g : σ → σ} (h : ∀ s s', R s s' → R (f s) (g s')) : Agree R Eq (Action.alter f) (Action.alter g) :=
  fun s s' hs => .ok rfl (h s s' hs) .nil

lemma ofExcept {r : Except DocumentError α} {r' : Except DocumentError β} (h : Except.Alike V r r') :
    Agree R V (Action.ofExcept r) (Action.ofExcept r') := by
  cases h with
  | ok h => exact pure h
  | error e => exact refuse e

lemma lift {r : Except TextError α} {r' : Except TextError β} (h : Except.Alike V r r') :
    Agree R V (Action.lift r) (Action.lift r') := by
  cases h with
  | ok h => exact pure h
  | error e => exact refuse (.text e)

lemma bind {f : α → Action σ γ} {g : β → Action σ δ} (h : Agree R V x y)
    (hf : ∀ a b, V a b → Agree R W (f a) (g b)) : Agree R W (x >>= f) (y >>= g) := by
  intro s s' hs
  have hrun := h s s' hs
  change (Action.bind x f s).Alike R W (Action.bind y g s')
  rw [Action.bind, Action.bind]
  generalize x s = run, y s' = run' at hrun ⊢
  cases hrun with
  | @ok a b s s' told told' h hs ht =>
    have hnext := hf a b h s s' hs
    dsimp only
    generalize f a s = run, g b s' = run' at hnext ⊢
    cases hnext with
    | ok h hs ht' => exact .ok h hs (List.rel_append ht ht')
    | refused e hs ht' => exact .refused e hs (List.rel_append ht ht')
    | abandoned hs ht' => exact .abandoned hs (List.rel_append ht ht')
  | refused e hs ht => exact .refused e hs ht
  | abandoned hs ht => exact .abandoned hs ht

lemma attempt (h : Agree R V x y) : Agree R (Except.Alike V) x.attempt y.attempt := by
  intro s s' hs
  have hrun := h s s' hs
  rw [Action.attempt, Action.attempt]
  generalize x s = run, y s' = run' at hrun ⊢
  cases hrun with
  | ok h hs ht => exact .ok (.ok h) hs ht
  | refused e hs ht => exact .ok (.error e) hs ht
  | abandoned hs ht => exact .abandoned hs ht

lemma onAbandoned (h : Agree R V x y) {mend : σ → σ} (hmend : ∀ s s', R s s' → R (mend s) (mend s')) :
    Agree R V (x.onAbandoned mend) (y.onAbandoned mend) := by
  intro s s' hs
  have hrun := h s s' hs
  rw [Action.onAbandoned, Action.onAbandoned]
  generalize x s = run, y s' = run' at hrun ⊢
  cases hrun with
  | ok h hs ht => exact .ok h hs ht
  | refused e hs ht => exact .refused e hs ht
  | abandoned hs ht => exact .abandoned (hmend _ _ hs) ht

lemma ensuring (h : Agree R V x y) {finish : σ → σ} (hfinish : ∀ s s', R s s' → R (finish s) (finish s')) :
    Agree R V (x.ensuring finish) (y.ensuring finish) := by
  intro s s' hs
  have hrun := h s s' hs
  rw [Action.ensuring, Action.ensuring]
  generalize x s = run, y s' = run' at hrun ⊢
  cases hrun with
  | ok h hs ht => exact .ok h (hfinish _ _ hs) ht
  | refused e hs ht => exact .refused e (hfinish _ _ hs) ht
  | abandoned hs ht => exact .abandoned (hfinish _ _ hs) ht

lemma alterExcept {f : σ → Except DocumentError σ} (h : ∀ s s', R s s' → Except.Alike R (f s) (f s')) :
    Blind R (Action.alterExcept f) := by
  intro s s' hs
  have hf := h s s' hs
  rw [Action.alterExcept, Action.alterExcept]
  generalize f s = first, f s' = second at hf ⊢
  cases hf with
  | ok h => exact .ok rfl h .nil
  | error e => exact .refused e hs .nil

end Agree

namespace Blind

variable {x : Action σ α} {f : α → Action σ γ}

lemma pure (a : α) : Blind R (Pure.pure a) := Agree.pure rfl

lemma bind (h : Blind R x) (hf : ∀ a, Blind R (f a)) : Blind R (x >>= f) := by
  apply Agree.bind h
  rintro a _ rfl
  exact hf a

lemma ofExcept (r : Except DocumentError α) : Blind R (Action.ofExcept r) := Agree.ofExcept (.refl r)

lemma lift (r : Except TextError α) : Blind R (Action.lift r) := Agree.lift (.refl r)

lemma reading {f : σ → Action σ γ} (h : ∀ s s', R s s' → Agree R Eq (f s) (f s')) :
    Blind R (Action.state >>= f) := Agree.bind .state h

lemma attempt (h : Blind R x) : Blind R x.attempt := by
  apply Agree.mono (Agree.attempt h)
  intro r r' hr
  cases hr with
  | ok h => rw [h]
  | error e => rfl

end Blind

end Action

end Run

end EditableText
