import EditableText.Proofs.Text.Reads
import EditableText.Storage.GapBuffer
import Mathlib.Data.List.Basic

namespace EditableText.GapBuffer

structure WellFormed (b : GapBuffer) : Prop where
  start_le : b.gapStart ≤ b.gapEnd
  end_le : b.gapEnd ≤ b.slots.size

def content (b : GapBuffer) : Text := b.beforeGap ++ b.afterGap

lemma toList_extract_end (slots : Array Char) (first : Nat) :
    (slots.extract first slots.size).toList = slots.toList.drop first := by
  rw [Array.toList_extract, List.extract_eq_take_drop, List.take_of_length_le (by simp)]

lemma beforeGap_eq (b : GapBuffer) : b.beforeGap = b.slots.toList.take b.gapStart := by
  simp [beforeGap]

lemma afterGap_eq (b : GapBuffer) : b.afterGap = b.slots.toList.drop b.gapEnd :=
  toList_extract_end _ _

lemma toList_overwrite (slots : Array Char) (first : Nat) (run : Array Char) :
    (overwrite slots first run).toList =
      slots.toList.take first ++ (run.toList ++ slots.toList.drop (first + run.size)) := by
  simp only [overwrite, Array.toList_append, toList_extract_end, List.append_assoc]
  simp

section Overwrite

variable {slots run : Array Char} {first : Nat} (h : first + run.size ≤ slots.size)

include h

lemma size_overwrite : (overwrite slots first run).size = slots.size := by
  simp [overwrite]
  omega

lemma take_overwrite {count : Nat} (hc : count ≤ first) :
    (overwrite slots first run).toList.take count = slots.toList.take count := by
  rw [toList_overwrite, List.take_append_of_le_length (by simp; omega), List.take_take,
    Nat.min_eq_left hc]

lemma take_overwrite_run :
    (overwrite slots first run).toList.take (first + run.size) =
      slots.toList.take first ++ run.toList := by
  rw [toList_overwrite, ← List.append_assoc, List.take_left' (by simp; omega)]

lemma drop_overwrite {count : Nat} (hc : first + run.size ≤ count) :
    (overwrite slots first run).toList.drop count = slots.toList.drop count := by
  obtain ⟨k, rfl⟩ := Nat.exists_eq_add_of_le hc
  rw [toList_overwrite, ← List.append_assoc, ← List.drop_drop, List.drop_left' (by simp; omega),
    List.drop_drop]

lemma drop_overwrite_first :
    (overwrite slots first run).toList.drop first =
      run.toList ++ slots.toList.drop (first + run.size) := by
  rw [toList_overwrite, List.drop_left' (by simp; omega)]

end Overwrite

namespace WellFormed

variable {b : GapBuffer}

lemma length_beforeGap (h : b.WellFormed) : b.beforeGap.length = b.gapStart := by
  have := h.start_le
  have := h.end_le
  simp [beforeGap_eq]
  omega

lemma length_content (h : b.WellFormed) : b.content.length = b.length := by
  have := h.start_le
  have := h.end_le
  simp [content, beforeGap_eq, afterGap_eq, length, gapLength]
  omega

lemma drop_content (h : b.WellFormed) {offset : Nat} (ho : b.gapStart ≤ offset) :
    b.content.drop offset = b.slots.toList.drop (b.slotOf offset) := by
  have := h.start_le
  have hlen := h.length_beforeGap
  rw [content, List.drop_append, List.drop_eq_nil_of_le (by omega), hlen, afterGap_eq, List.drop_drop,
    slotOf, if_neg (by omega), gapLength, List.nil_append]
  congr 1
  omega

lemma take_content (h : b.WellFormed) {offset : Nat} (ho : offset ≤ b.gapStart) :
    b.content.take offset = b.slots.toList.take offset := by
  rw [content, List.take_append_of_le_length (by rw [h.length_beforeGap]; exact ho), beforeGap_eq,
    List.take_take, Nat.min_eq_left ho]

lemma getElem?_content (h : b.WellFormed) (offset : Nat) :
    b.content[offset]? = b.slots[b.slotOf offset]? := by
  have hlen := h.length_beforeGap
  rw [slotOf, ← Array.getElem?_toList]
  split
  case isTrue hlt =>
    rw [content, List.getElem?_append_left (by omega), beforeGap_eq, List.getElem?_take_of_lt hlt]
  case isFalse hge =>
    have := h.start_le
    rw [content, List.getElem?_append_right (by omega), afterGap_eq, List.getElem?_drop, hlen, gapLength]
    congr 1
    omega

lemma charAt_eq (h : b.WellFormed) (offset : Nat) : b.charAt offset = b.content.charAt offset := by
  rw [charAt, Text.charAt, h.getElem?_content, h.length_content]
  split
  · rfl
  · next hlt =>
    have hnone : b.content[offset]? = none := by
      rw [List.getElem?_eq_none_iff, h.length_content]
      omega
    rw [← h.getElem?_content, hnone]

lemma charsFrom_eq (h : b.WellFormed) (offset : Nat) : b.charsFrom offset = b.content.drop offset := by
  have hmin : b.content.drop offset = b.content.drop (min offset b.length) := by
    rcases Nat.le_total offset b.length with hle | hge
    · rw [Nat.min_eq_left hle]
    · rw [Nat.min_eq_right hge, List.drop_eq_nil_of_le (by rw [h.length_content]; exact hge),
        List.drop_eq_nil_of_le (Nat.le_of_eq h.length_content)]
  rw [hmin, charsFrom]
  split
  case isTrue hlt =>
    rw [content, List.drop_append_of_le_length (by rw [h.length_beforeGap]; omega), beforeGap_eq,
      List.drop_take, Array.toList_extract, List.extract_eq_take_drop]
  case isFalse hge =>
    rw [h.drop_content (by omega), toList_extract_end]

lemma charsBefore_eq (h : b.WellFormed) (offset : Nat) :
    b.charsBefore offset = (b.content.take offset).reverse := by
  have hmin : b.content.take offset = b.content.take (min offset b.length) := by
    rw [← h.length_content, List.take_eq_take_min]
  rw [hmin, charsBefore]
  split
  case isTrue hle =>
    rw [h.take_content hle]
    simp
  case isFalse hgt =>
    have := h.start_le
    have hlen := h.length_beforeGap
    rw [content, List.take_append, List.take_of_length_le (by omega), List.reverse_append, afterGap_eq,
      Array.toList_extract, List.extract_eq_take_drop, slotOf, if_neg (by omega), hlen, gapLength]
    congr 3
    omega

lemma reads (h : b.WellFormed) : TextSource.Reads b b.content where
  length_eq := h.length_content.symm
  charAt_eq := h.charAt_eq
  slice_eq offset count := by
    change b.slice offset count = b.content.slice offset count
    rw [slice, Text.slice, h.length_content, h.charsFrom_eq]
  charsFrom_eq := h.charsFrom_eq
  charsBefore_eq := h.charsBefore_eq

end WellFormed

lemma wellFormed_ofText (t : Text) : (ofText t).WellFormed :=
  ⟨by simp [ofText], by simp [ofText]⟩

lemma content_ofText (t : Text) : (ofText t).content = t := by
  simp [content, beforeGap_eq, afterGap_eq, ofText]

namespace WellFormed

variable {b : GapBuffer}

lemma moveGap (h : b.WellFormed) {offset : Nat} (ho : offset ≤ b.content.length) :
    (b.moveGap offset).WellFormed ∧ (b.moveGap offset).content = b.content ∧
      (b.moveGap offset).gapStart = offset := by
  have hstart := h.start_le
  have hend := h.end_le
  rw [h.length_content, length, gapLength] at ho
  rw [GapBuffer.moveGap]
  split
  case isTrue hlt =>
    -- the characters between the new gap and the old one move behind the gap
    have hrun : (b.slots.extract offset b.gapStart).size = b.gapStart - offset := by simp; omega
    have hlist : (b.slots.extract offset b.gapStart).toList =
        (b.slots.toList.take b.gapStart).drop offset := by
      simp [List.extract_eq_take_drop, List.drop_take]
    generalize b.slots.extract offset b.gapStart = run at hrun hlist
    have hfit : b.gapEnd - run.size + run.size ≤ b.slots.size := by omega
    refine ⟨⟨by dsimp only; omega, ?_⟩, ?_, rfl⟩
    · dsimp only
      rw [size_overwrite hfit]
      omega
    · simp only [content, beforeGap_eq, afterGap_eq]
      rw [take_overwrite hfit (by omega), drop_overwrite_first hfit, hlist, ← List.append_assoc,
        show b.gapEnd - run.size + run.size = b.gapEnd by omega]
      congr 1
      have htake := List.take_append_drop offset (b.slots.toList.take b.gapStart)
      rwa [List.take_take, Nat.min_eq_left (by omega)] at htake
  case isFalse hge =>
    split
    case isTrue hlt =>
      -- the characters between the old gap and the new one move before the gap
      have hrun : (b.slots.extract b.gapEnd (b.gapEnd + (offset - b.gapStart))).size =
          offset - b.gapStart := by simp; omega
      have hlist : (b.slots.extract b.gapEnd (b.gapEnd + (offset - b.gapStart))).toList =
          (b.slots.toList.drop b.gapEnd).take (offset - b.gapStart) := by
        simp [List.extract_eq_take_drop]
      generalize b.slots.extract b.gapEnd (b.gapEnd + (offset - b.gapStart)) = run at hrun hlist
      have hfit : b.gapStart + run.size ≤ b.slots.size := by omega
      refine ⟨⟨by dsimp only; omega, ?_⟩, ?_, rfl⟩
      · dsimp only
        rw [size_overwrite hfit]
        omega
      · simp only [content, beforeGap_eq, afterGap_eq]
        rw [show offset = b.gapStart + run.size by omega, take_overwrite_run hfit,
          drop_overwrite hfit (by omega), hlist, ← hrun, List.append_assoc, ← List.drop_drop,
          List.take_append_drop]
    case isFalse hle => exact ⟨h, rfl, by omega⟩

lemma widenGap (h : b.WellFormed) (needed : Nat) :
    (b.widenGap needed).WellFormed ∧ (b.widenGap needed).gapStart = b.gapStart ∧
      (b.widenGap needed).content = b.content ∧ needed ≤ (b.widenGap needed).gapLength := by
  have hstart := h.start_le
  have hend := h.end_le
  rw [GapBuffer.widenGap]
  split
  case isTrue hle => exact ⟨h, rfl, rfl, hle⟩
  case isFalse hlt =>
    dsimp only
    have hgrowth : needed - b.gapLength ≤ max (needed - b.gapLength) (b.slots.size * growthFactor) :=
      Nat.le_max_left _ _
    generalize max (needed - b.gapLength) (b.slots.size * growthFactor) = growth at hgrowth
    have hsize : (b.slots ++ Array.replicate growth '\x00').size = b.slots.size + growth := by simp
    have hlist : (b.slots ++ Array.replicate growth '\x00').toList.take b.gapStart =
        b.slots.toList.take b.gapStart := by
      rw [Array.toList_append, List.take_append_of_le_length (by simp; omega)]
    have htail : (b.slots.extract b.gapEnd b.slots.size).size = b.slots.size - b.gapEnd := by simp
    have htailList := toList_extract_end b.slots b.gapEnd
    generalize b.slots ++ Array.replicate growth '\x00' = slots at hsize hlist
    generalize b.slots.extract b.gapEnd b.slots.size = tail at htail htailList
    have hfit : slots.size - tail.size + tail.size ≤ slots.size := by omega
    rw [gapLength] at hlt hgrowth
    refine ⟨⟨by dsimp only; omega, ?_⟩, rfl, ?_, ?_⟩
    · dsimp only
      rw [size_overwrite hfit]
      omega
    · have hnil : slots.toList.drop (slots.size - tail.size + tail.size) = [] :=
        List.drop_eq_nil_of_le (by rw [Array.length_toList]; omega)
      simp only [content, beforeGap_eq, afterGap_eq]
      rw [take_overwrite hfit (by omega), hlist, drop_overwrite_first hfit, hnil, List.append_nil,
        htailList]
    · rw [gapLength]
      dsimp only
      omega

lemma fillGap (h : b.WellFormed) {t : Text} (ht : t.length ≤ b.gapLength) :
    (b.fillGap t).WellFormed ∧
      (b.fillGap t).content = b.content.splice b.gapStart 0 t := by
  have hstart := h.start_le
  have hend := h.end_le
  rw [gapLength] at ht
  have hsize : t.toArray.size = t.length := rfl
  have hfit : b.gapStart + t.toArray.size ≤ b.slots.size := by omega
  refine ⟨⟨by simp only [GapBuffer.fillGap]; omega, ?_⟩, ?_⟩
  · simp only [GapBuffer.fillGap]
    rw [size_overwrite hfit]
    exact hend
  · have hlen := h.length_beforeGap
    rw [Text.splice, Nat.add_zero, content, content, List.take_left' hlen, List.drop_left' hlen,
      beforeGap_eq, afterGap_eq, beforeGap_eq, afterGap_eq]
    simp only [GapBuffer.fillGap]
    rw [← hsize, take_overwrite_run hfit, drop_overwrite hfit (by omega), List.append_assoc]

theorem insert (h : b.WellFormed) {offset : Nat} (ho : offset ≤ b.content.length) (t : Text) :
    ∃ after, b.insert offset t = .ok after ∧ after.WellFormed ∧
      after.content = b.content.splice offset 0 t := by
  have hcheck := checkOffset_eq_ok.mpr (h.length_content ▸ ho)
  by_cases ht : t = []
  · refine ⟨b, by simp [GapBuffer.insert, hcheck, ht, bind, Except.bind, pure, Except.pure], h, ?_⟩
    rw [ht, Text.splice_nil]
  · obtain ⟨hmoved, hcontent, hstart⟩ := h.moveGap ho
    obtain ⟨hwide, hwideStart, hwideContent, hneeded⟩ := hmoved.widenGap t.length
    obtain ⟨hfilled, hfill⟩ := hwide.fillGap hneeded
    refine ⟨_, ?_, hfilled, ?_⟩
    · simp [GapBuffer.insert, hcheck, ht, bind, Except.bind, pure, Except.pure]
    · rw [hfill, hwideContent, hcontent, hwideStart, hstart]

theorem remove (h : b.WellFormed) {offset count : Nat} (ho : offset + count ≤ b.content.length) :
    ∃ after, b.remove offset count = .ok ((b.content.drop offset).take count, after) ∧
      after.WellFormed ∧ after.content = b.content.splice offset count [] := by
  obtain ⟨hmoved, hcontent, hstart⟩ := h.moveGap (show offset ≤ b.content.length by omega)
  have hslice : b.slice offset count = .ok ((b.content.drop offset).take count) := by
    rw [slice, checkRange_eq_ok.mpr (h.length_content ▸ ho), h.charsFrom_eq]
    rfl
  have hlen := hmoved.length_content
  rw [hcontent, length, gapLength] at hlen
  have hmovedStart := hmoved.start_le
  have hmovedEnd := hmoved.end_le
  refine ⟨{ b.moveGap offset with gapEnd := (b.moveGap offset).gapEnd + count }, ?_,
    ⟨by dsimp only; omega, by dsimp only; omega⟩, ?_⟩
  · rw [GapBuffer.remove, hslice]
    rfl
  · have hbefore := hmoved.length_beforeGap
    rw [hstart] at hbefore
    have hafter : content { b.moveGap offset with gapEnd := (b.moveGap offset).gapEnd + count } =
        (b.moveGap offset).beforeGap ++ (b.moveGap offset).afterGap.drop count := by
      simp only [content, beforeGap_eq, afterGap_eq, List.drop_drop]
    rw [hafter, ← hcontent, Text.splice, content, List.take_left' hbefore, ← List.drop_drop,
      List.drop_left' hbefore, List.nil_append]

lemma insert_eq_error (h : b.WellFormed) {offset : Nat} (ho : b.content.length < offset) (t : Text) :
    b.insert offset t = .error (.offsetOutOfRange offset b.content.length) := by
  rw [GapBuffer.insert, ← h.length_content, checkOffset, if_neg (Nat.not_le.mpr ho)]
  rfl

lemma remove_eq_error (h : b.WellFormed) {offset count : Nat} (ho : b.content.length < offset + count) :
    b.remove offset count = .error (.rangeOutOfRange offset count b.content.length) := by
  rw [GapBuffer.remove, slice, ← h.length_content, checkRange, if_neg (Nat.not_le.mpr ho)]
  rfl

end WellFormed

end EditableText.GapBuffer
