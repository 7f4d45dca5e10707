import EditableText.Proofs.Storage.GapBuffer
import EditableText.Storage

namespace EditableText.Storage

def WellFormed : Storage → Prop
  | rope _ => True
  | gap buffer => buffer.WellFormed

def content : Storage → Text
  | rope t => t
  | gap buffer => buffer.content

lemma wellFormed_ofText (t : Text) (strategy : BufferStrategy) : (ofText t strategy).WellFormed := by
  cases strategy with
  | rope => trivial
  | gap => exact GapBuffer.wellFormed_ofText t

lemma content_ofText (t : Text) (strategy : BufferStrategy) : (ofText t strategy).content = t := by
  cases strategy with
  | rope => rfl
  | gap => exact GapBuffer.content_ofText t

namespace WellFormed

variable {s : Storage}

lemma reads (h : s.WellFormed) : TextSource.Reads s s.content := by
  cases s with
  | rope t => exact ⟨rfl, fun _ => rfl, fun _ _ => rfl, fun _ => rfl, fun _ => rfl⟩
  | gap buffer =>
    have hr := GapBuffer.WellFormed.reads h
    exact ⟨hr.length_eq, hr.charAt_eq, hr.slice_eq, hr.charsFrom_eq, hr.charsBefore_eq⟩

theorem insert (h : s.WellFormed) {offset : Nat} (ho : offset ≤ s.content.length) (t : Text) :
    ∃ after, s.insert offset t = .ok after ∧ after.WellFormed ∧
      after.content = s.content.splice offset 0 t := by
  cases s with
  | rope content =>
    rw [Storage.content] at ho
    refine ⟨rope (content.splice offset 0 t), ?_, trivial, rfl⟩
    rw [Storage.insert, checkOffset_eq_ok.mpr ho]
    rfl
  | gap buffer =>
    obtain ⟨after, hafter, hwf, hcontent⟩ := GapBuffer.WellFormed.insert h ho t
    refine ⟨gap after, ?_, hwf, hcontent⟩
    rw [Storage.insert, hafter]
    rfl

theorem remove (h : s.WellFormed) {offset count : Nat} (ho : offset + count ≤ s.content.length) :
    ∃ after, s.remove offset count = .ok ((s.content.drop offset).take count, after) ∧
      after.WellFormed ∧ after.content = s.content.splice offset count [] := by
  cases s with
  | rope content =>
    rw [Storage.content] at ho
    refine ⟨rope (content.splice offset count []), ?_, trivial, rfl⟩
    rw [Storage.remove, Text.slice, checkRange_eq_ok.mpr ho]
    rfl
  | gap buffer =>
    obtain ⟨after, hafter, hwf, hcontent⟩ := GapBuffer.WellFormed.remove h ho
    refine ⟨gap after, ?_, hwf, hcontent⟩
    rw [Storage.remove, hafter]
    rfl

lemma insert_eq_error (h : s.WellFormed) {offset : Nat} (ho : s.content.length < offset) (t : Text) :
    s.insert offset t = .error (.offsetOutOfRange offset s.content.length) := by
  cases s with
  | rope content =>
    rw [Storage.content] at ho ⊢
    rw [Storage.insert, checkOffset, if_neg (Nat.not_le.mpr ho)]
    rfl
  | gap buffer =>
    rw [Storage.insert, GapBuffer.WellFormed.insert_eq_error h ho]
    rfl

lemma remove_eq_error (h : s.WellFormed) {offset count : Nat}
    (ho : s.content.length < offset + count) :
    s.remove offset count = .error (.rangeOutOfRange offset count s.content.length) := by
  cases s with
  | rope content =>
    rw [Storage.content] at ho ⊢
    rw [Storage.remove, Text.slice, checkRange, if_neg (Nat.not_le.mpr ho)]
    rfl
  | gap buffer =>
    rw [Storage.remove, GapBuffer.WellFormed.remove_eq_error h ho]
    rfl

end WellFormed

end EditableText.Storage
