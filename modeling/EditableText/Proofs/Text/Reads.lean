import EditableText.Text.Source
import Mathlib.Tactic.Common

namespace EditableText.TextSource

structure Reads {σ : Type} [TextSource σ] (source : σ) (t : Text) : Prop where
  length_eq : length source = t.length
  charAt_eq (offset : Nat) : charAt source offset = t.charAt offset
  slice_eq (offset count : Nat) : slice source offset count = t.slice offset count
  charsFrom_eq (offset : Nat) : charsFrom source offset = t.drop offset
  charsBefore_eq (offset : Nat) : charsBefore source offset = (t.take offset).reverse

lemma Reads.refl (t : Text) : Reads t t :=
  ⟨rfl, fun _ => rfl, fun _ _ => rfl, fun _ => rfl, fun _ => rfl⟩

lemma Reads.text_eq {σ : Type} [TextSource σ] {source : σ} {t : Text} (h : Reads source t) :
    text source = t := by
  rw [text, h.charsFrom_eq, List.drop_zero]

end EditableText.TextSource
