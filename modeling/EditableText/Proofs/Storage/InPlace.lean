import EditableText.Proofs.Storage.GapBuffer

/-!
A gap buffer worked on in place, slot by slot and run by run, where every index, every end of a run and every
difference is checked. The checks never fail, and nothing can be told from a list of characters.
-/

namespace EditableText.GapBuffer

def difference? (a b : Nat) : Option Nat := if b ≤ a then some (a - b) else none

def run? (slots : Array Char) (first stop : Nat) : Option (Array Char) :=
  if first ≤ stop ∧ stop ≤ slots.size then some (slots.extract first stop) else none

/-- The run is read before any of it is written, so the two places may overlap. -/
def copyRun? (slots : Array Char) (first stop target : Nat) : Option (Array Char) := do
  let run ← run? slots first stop
  if target + run.size ≤ slots.size then some (overwrite slots target run) else none

def put? (slots : Array Char) (slot : Nat) (c : Char) : Option (Array Char) :=
  if h : slot < slots.size then some (slots.set slot c h) else none

section Operations

variable (b : GapBuffer)

def gapLength? : Option Nat := difference? b.gapEnd b.gapStart

def length? : Option Nat := do
  difference? b.slots.size (← b.gapLength?)

def slotOf? (offset : Nat) : Option Nat :=
  if offset < b.gapStart then some offset else return offset + (← b.gapLength?)

def charAt? (offset : Nat) : Option (Except TextError Char) := do
  let length ← b.length?
  if length ≤ offset then return .error (.offsetOutOfRange offset length)
  let c ← b.slots[← b.slotOf? offset]?
  return .ok c

def charsFrom? (offset : Nat) : Option Text := do
  let offset := min offset (← b.length?)
  if offset < b.gapStart then
    let front ← run? b.slots offset b.gapStart
    let back ← run? b.slots b.gapEnd b.slots.size
    return front.toList ++ back.toList
  else
    let chars ← run? b.slots (← b.slotOf? offset) b.slots.size
    return chars.toList

def charsBefore? (offset : Nat) : Option Text := do
  let offset := min offset (← b.length?)
  if offset ≤ b.gapStart then
    let chars ← run? b.slots 0 offset
    return chars.toList.reverse
  else
    let back ← run? b.slots b.gapEnd (← b.slotOf? offset)
    let front ← run? b.slots 0 b.gapStart
    return back.toList.reverse ++ front.toList.reverse

def slice? (offset count : Nat) : Option (Except TextError Text) := do
  match checkRange offset count (← b.length?) with
  | .error e => return .error e
  | .ok () =>
    let chars ← b.charsFrom? offset
    return .ok (chars.take count)

def moveGap? (offset : Nat) : Option GapBuffer :=
  if offset < b.gapStart then do
    let shift ← difference? b.gapStart offset
    let target ← difference? b.gapEnd shift
    let slots ← copyRun? b.slots offset b.gapStart target
    return ⟨slots, offset, target⟩
  else if b.gapStart < offset then do
    let shift ← difference? offset b.gapStart
    let slots ← copyRun? b.slots b.gapEnd (b.gapEnd + shift) b.gapStart
    return ⟨slots, b.gapStart + shift, b.gapEnd + shift⟩
  else some b

def widenGap? (needed : Nat) : Option GapBuffer := do
  let gap ← b.gapLength?
  if needed ≤ gap then return b
  let missing ← difference? needed gap
  let growth := max missing (b.slots.size * growthFactor)
  let tail ← difference? b.slots.size b.gapEnd
  let slots := b.slots ++ Array.replicate growth '\x00'
  let target ← difference? slots.size tail
  if tail = 0 then return ⟨slots, b.gapStart, target⟩
  let slots ← copyRun? slots b.gapEnd b.slots.size target
  return ⟨slots, b.gapStart, target⟩

def fillGap? (b : GapBuffer) : Text → Option GapBuffer
  | [] => some b
  | c :: t => do
    let slots ← put? b.slots b.gapStart c
    fillGap? { b with slots, gapStart := b.gapStart + 1 } t

end Operations

inductive Edit where
  | insert (offset : Nat) (t : Text)
  | remove (offset count : Nat)
  deriving Repr, DecidableEq

namespace Edit

def onText : Edit → Text → Except TextError Text × Text
  | insert offset fresh, t =>
    match checkOffset offset t.length with
    | .ok () => (.ok [], t.splice offset 0 fresh)
    | .error e => (.error e, t)
  | remove offset count, t =>
    match t.slice offset count with
    | .ok removed => (.ok removed, t.splice offset count [])
    | .error e => (.error e, t)

def onBuffer : Edit → GapBuffer → Except TextError Text × GapBuffer
  | insert offset fresh, b =>
    match b.insert offset fresh with
    | .ok after => (.ok [], after)
    | .error e => (.error e, b)
  | remove offset count, b =>
    match b.remove offset count with
    | .ok (removed, after) => (.ok removed, after)
    | .error e => (.error e, b)

def inPlace? : Edit → GapBuffer → Option (Except TextError Text × GapBuffer)
  | insert offset fresh, b => do
    match checkOffset offset (← b.length?) with
    | .error e => return (.error e, b)
    | .ok () =>
      if fresh.isEmpty then return (.ok [], b)
      let b ← b.moveGap? offset
      let b ← b.widenGap? fresh.length
      let b ← b.fillGap? fresh
      return (.ok [], b)
  | remove offset count, b => do
    match checkRange offset count (← b.length?) with
    | .error e => return (.error e, b)
    | .ok () =>
      match ← b.slice? offset count with
      | .error e => return (.error e, b)
      | .ok removed =>
        let b ← b.moveGap? offset
        return (.ok removed, { b with gapEnd := b.gapEnd + count })

end Edit

lemma difference?_eq {a b : Nat} (h : b ≤ a) : difference? a b = some (a - b) := if_pos h

lemma run?_eq {slots : Array Char} {first stop : Nat} (hle : first ≤ stop) (hstop : stop ≤ slots.size) :
    run? slots first stop = some (slots.extract first stop) := if_pos ⟨hle, hstop⟩

lemma copyRun?_eq {slots : Array Char} {first stop target : Nat} (hle : first ≤ stop) (hstop : stop ≤ slots.size)
    (htarget : target + (stop - first) ≤ slots.size) :
    copyRun? slots first stop target = some (overwrite slots target (slots.extract first stop)) := by
  have hsize : (slots.extract first stop).size = stop - first := by simp; omega
  rw [copyRun?, run?_eq hle hstop]
  exact if_pos (hsize ▸ htarget)

lemma overwrite_empty {slots : Array Char} {first : Nat} (h : first ≤ slots.size) :
    overwrite slots first #[] = slots := by
  simp [overwrite, h]

lemma overwrite_set {slots : Array Char} {slot : Nat} (h : slot < slots.size) (c : Char) (t : Text) :
    overwrite (slots.set slot c h) (slot + 1) t.toArray = overwrite slots slot (c :: t).toArray := by
  apply Array.toList_inj.mp
  have htake : (slots.toList.set slot c).take (slot + 1) = slots.toList.take slot ++ [c] := by
    have hlength : (slots.toList.take slot).length = slot := by
      rw [List.length_take, Array.length_toList, Nat.min_eq_left (Nat.le_of_lt h)]
    rw [List.take_set, List.take_add_one, List.set_append_right _ _ (Nat.le_of_eq hlength), hlength]
    simp [h]
  rw [toList_overwrite, toList_overwrite, Array.toList_set, htake, List.drop_set_of_lt (by omega)]
  simp [Nat.add_assoc, Nat.add_comm 1]

namespace WellFormed

variable {b : GapBuffer}

lemma gapLength?_eq (h : b.WellFormed) : b.gapLength? = some b.gapLength := difference?_eq h.start_le

lemma gapLength_le (h : b.WellFormed) : b.gapLength ≤ b.slots.size := by
  have := h.end_le
  rw [gapLength]
  omega

lemma length?_eq (h : b.WellFormed) : b.length? = some b.length := by
  rw [length?, h.gapLength?_eq]
  exact difference?_eq h.gapLength_le

lemma slotOf?_eq (h : b.WellFormed) (offset : Nat) : b.slotOf? offset = some (b.slotOf offset) := by
  rw [slotOf?, slotOf, h.gapLength?_eq]
  split <;> rfl

lemma slotOf_le (h : b.WellFormed) {offset : Nat} (ho : offset ≤ b.length) : b.slotOf offset ≤ b.slots.size := by
  have := h.gapLength_le
  rw [length] at ho
  rw [slotOf]
  split <;> omega

lemma slotOf_lt (h : b.WellFormed) {offset : Nat} (ho : offset < b.length) : b.slotOf offset < b.slots.size := by
  have := h.start_le
  have := h.end_le
  rw [length, gapLength] at ho
  rw [slotOf, gapLength]
  split <;> omega

lemma gapEnd_le_slotOf (h : b.WellFormed) {offset : Nat} (ho : b.gapStart ≤ offset) :
    b.gapEnd ≤ b.slotOf offset := by
  have := h.start_le
  rw [slotOf, if_neg (Nat.not_lt.mpr ho), gapLength]
  omega

lemma charAt?_eq (h : b.WellFormed) (offset : Nat) : b.charAt? offset = some (b.charAt offset) := by
  rw [charAt?, charAt, h.length?_eq, h.slotOf?_eq]
  by_cases ho : offset < b.length
  · have hslot := h.slotOf_lt ho
    simp [ho, Nat.not_le.mpr ho, Array.getElem?_eq_getElem hslot]
  · simp [ho, Nat.not_lt.mp ho]

lemma charsFrom?_eq (h : b.WellFormed) (offset : Nat) : b.charsFrom? offset = some (b.charsFrom offset) := by
  have hstop : min offset b.length ≤ b.length := Nat.min_le_right _ _
  have hstart := Nat.le_trans h.start_le h.end_le
  rw [charsFrom?, charsFrom, h.length?_eq]
  simp only [Option.bind_eq_bind, Option.bind_some]
  generalize min offset b.length = offset at hstop
  split
  case isTrue hlt =>
    rw [run?_eq (Nat.le_of_lt hlt) hstart, run?_eq h.end_le (Nat.le_refl _)]
    rfl
  case isFalse hge =>
    rw [h.slotOf?_eq]
    simp only [Option.bind_some, run?_eq (h.slotOf_le hstop) (Nat.le_refl _)]
    rfl

lemma charsBefore?_eq (h : b.WellFormed) (offset : Nat) :
    b.charsBefore? offset = some (b.charsBefore offset) := by
  have hstop : min offset b.length ≤ b.length := Nat.min_le_right _ _
  have hstart := Nat.le_trans h.start_le h.end_le
  rw [charsBefore?, charsBefore, h.length?_eq]
  simp only [Option.bind_eq_bind, Option.bind_some]
  generalize min offset b.length = offset at hstop
  split
  case isTrue hle =>
    rw [run?_eq (Nat.zero_le _) (Nat.le_trans hle hstart)]
    rfl
  case isFalse hgt =>
    have hslot := h.gapEnd_le_slotOf (Nat.le_of_not_le hgt)
    rw [h.slotOf?_eq]
    simp only [Option.bind_some, run?_eq hslot (h.slotOf_le hstop), run?_eq (Nat.zero_le _) hstart]
    rw [beforeGap]
    rfl

lemma slice?_eq (h : b.WellFormed) (offset count : Nat) :
    b.slice? offset count = some (b.slice offset count) := by
  rw [slice?, slice, h.length?_eq]
  simp only [Option.bind_eq_bind, Option.bind_some, h.charsFrom?_eq]
  cases checkRange offset count b.length <;> rfl

lemma moveGap?_eq (h : b.WellFormed) {offset : Nat} (ho : offset ≤ b.content.length) :
    b.moveGap? offset = some (b.moveGap offset) := by
  have hstart := h.start_le
  have hend := h.end_le
  rw [h.length_content, length, gapLength] at ho
  rw [moveGap?, GapBuffer.moveGap]
  split
  case isTrue hlt =>
    have hsize : (b.slots.extract offset b.gapStart).size = b.gapStart - offset := by simp; omega
    rw [difference?_eq (by omega)]
    simp only [Option.bind_eq_bind, Option.bind_some]
    rw [difference?_eq (by omega)]
    simp only [Option.bind_some]
    rw [copyRun?_eq (by omega) (by omega) (by omega), hsize]
    rfl
  case isFalse hge =>
    split
    case isTrue hlt =>
      have hsize : (b.slots.extract b.gapEnd (b.gapEnd + (offset - b.gapStart))).size = offset - b.gapStart := by
        simp; omega
      rw [difference?_eq (by omega)]
      simp only [Option.bind_eq_bind, Option.bind_some]
      rw [copyRun?_eq (by omega) (by omega) (by omega), hsize]
      simp only [Option.bind_some, Nat.add_sub_of_le (Nat.le_of_lt hlt)]
      rfl
    case isFalse => rfl

lemma widenGap?_eq (h : b.WellFormed) (needed : Nat) : b.widenGap? needed = some (b.widenGap needed) := by
  have hend := h.end_le
  rw [widenGap?, GapBuffer.widenGap, h.gapLength?_eq]
  simp only [Option.bind_eq_bind, Option.bind_some]
  split
  case isTrue => rfl
  case isFalse hlt =>
    rw [difference?_eq (by omega), difference?_eq hend]
    simp only [Option.bind_some]
    generalize max (needed - b.gapLength) (b.slots.size * growthFactor) = growth
    have htail : (b.slots ++ Array.replicate growth '\x00').extract b.gapEnd b.slots.size =
        b.slots.extract b.gapEnd b.slots.size := by simp
    have htailSize : (b.slots.extract b.gapEnd b.slots.size).size = b.slots.size - b.gapEnd := by simp
    have hsize : (b.slots ++ Array.replicate growth '\x00').size = b.slots.size + growth := by simp
    generalize b.slots ++ Array.replicate growth '\x00' = slots at htail hsize
    rw [difference?_eq (by omega), htailSize]
    simp only [Option.bind_some]
    split
    case isTrue hnone =>
      rw [hnone, Array.eq_empty_of_size_eq_zero (htailSize.trans hnone), overwrite_empty (Nat.sub_le _ _)]
      rfl
    case isFalse =>
      rw [copyRun?_eq hend (by omega) (by omega), htail]
      rfl

lemma fillGap?_eq (h : b.WellFormed) {t : Text} (ht : t.length ≤ b.gapLength) :
    b.fillGap? t = some (b.fillGap t) := by
  induction t generalizing b with
  | nil =>
    have hstart := Nat.le_trans h.start_le h.end_le
    rw [fillGap?, GapBuffer.fillGap, overwrite_empty hstart]
    rfl
  | cons c t ih =>
    have hend := h.end_le
    rw [List.length_cons, gapLength] at ht
    have hslot : b.gapStart < b.slots.size := by omega
    have hnext : WellFormed { b with slots := b.slots.set b.gapStart c, gapStart := b.gapStart + 1 } :=
      ⟨by dsimp only; omega, by simpa using hend⟩
    have hrest := ih hnext (by rw [gapLength]; dsimp only; omega)
    rw [fillGap?, put?, dif_pos hslot]
    simp only [Option.bind_eq_bind, Option.bind_some, hrest, GapBuffer.fillGap, overwrite_set hslot]
    simp [Nat.add_assoc, Nat.add_comm 1]

lemma inPlace?_eq (h : b.WellFormed) (e : Edit) : e.inPlace? b = some (e.onBuffer b) := by
  cases e with
  | insert offset fresh =>
    rw [Edit.inPlace?, Edit.onBuffer, GapBuffer.insert, h.length?_eq]
    simp only [Option.bind_eq_bind, Option.bind_some]
    cases hcheck : checkOffset offset b.length with
    | error e => rfl
    | ok _ =>
      have ho : offset ≤ b.content.length := h.length_content ▸ checkOffset_eq_ok.mp hcheck
      obtain ⟨hmoved, -, -⟩ := h.moveGap ho
      obtain ⟨hwide, -, -, hneeded⟩ := hmoved.widenGap fresh.length
      rw [h.moveGap?_eq ho]
      simp only [Option.bind_some]
      rw [hmoved.widenGap?_eq]
      simp only [Option.bind_some]
      rw [hwide.fillGap?_eq hneeded]
      cases hempty : fresh.isEmpty <;> simp [bind, Except.bind, pure, Except.pure]
  | remove offset count =>
    rw [Edit.inPlace?, Edit.onBuffer, GapBuffer.remove, h.length?_eq, h.slice?_eq, slice]
    simp only [Option.bind_eq_bind, Option.bind_some]
    cases hcheck : checkRange offset count b.length with
    | error e => rfl
    | ok _ =>
      have ho : offset ≤ b.content.length := by
        have := checkRange_eq_ok.mp hcheck
        rw [h.length_content]
        omega
      rw [h.moveGap?_eq ho]
      rfl

lemma onBuffer (h : b.WellFormed) (e : Edit) :
    (e.onBuffer b).2.WellFormed ∧ (e.onBuffer b).1 = (e.onText b.content).1 ∧
      (e.onBuffer b).2.content = (e.onText b.content).2 := by
  cases e with
  | insert offset fresh =>
    rw [Edit.onBuffer, Edit.onText]
    rcases Nat.lt_or_ge b.content.length offset with hgt | ho
    · rw [h.insert_eq_error hgt, checkOffset, if_neg (Nat.not_le.mpr hgt)]
      exact ⟨h, rfl, rfl⟩
    · obtain ⟨after, hafter, hwell, hcontent⟩ := h.insert ho fresh
      rw [hafter, checkOffset_eq_ok.mpr ho]
      exact ⟨hwell, rfl, hcontent⟩
  | remove offset count =>
    rw [Edit.onBuffer, Edit.onText]
    rcases Nat.lt_or_ge b.content.length (offset + count) with hgt | ho
    · rw [h.remove_eq_error hgt, Text.slice, checkRange, if_neg (Nat.not_le.mpr hgt)]
      exact ⟨h, rfl, rfl⟩
    · obtain ⟨after, hafter, hwell, hcontent⟩ := h.remove ho
      rw [hafter, Text.slice, checkRange_eq_ok.mpr ho]
      exact ⟨hwell, rfl, hcontent⟩

end WellFormed

lemma Edit.onBuffer_eq_self {e : Edit} {b : GapBuffer} {error : TextError} (h : (e.onBuffer b).1 = .error error) :
    (e.onBuffer b).2 = b := by
  cases e with
  | insert offset fresh =>
    rw [Edit.onBuffer] at h ⊢
    split at h
    · simp at h
    · rfl
  | remove offset count =>
    rw [Edit.onBuffer] at h ⊢
    split at h
    · simp at h
    · rfl

lemma wellFormed_empty : empty.WellFormed := ⟨by decide, by simp [empty]⟩

lemma content_empty : empty.content = [] := by
  simp [content, beforeGap_eq, afterGap_eq, empty]

/-- The buffers there can be, with what the same edits make of the same text. -/
inductive Reached : GapBuffer → Text → Prop
  | empty : Reached empty []
  | ofText (t : Text) : Reached (ofText t) t
  | edit {b : GapBuffer} {t : Text} (h : Reached b t) (e : Edit) : Reached (e.onBuffer b).2 (e.onText t).2

structure ReadsInPlace (b : GapBuffer) (t : Text) : Prop where
  length_eq : b.length? = some t.length
  charAt_eq (offset : Nat) : b.charAt? offset = some (t.charAt offset)
  slice_eq (offset count : Nat) : b.slice? offset count = some (t.slice offset count)
  charsFrom_eq (offset : Nat) : b.charsFrom? offset = some (t.drop offset)
  charsBefore_eq (offset : Nat) : b.charsBefore? offset = some (t.take offset).reverse

lemma WellFormed.readsInPlace {b : GapBuffer} (h : b.WellFormed) : b.ReadsInPlace b.content where
  length_eq := by rw [h.length?_eq, h.length_content]
  charAt_eq offset := by rw [h.charAt?_eq, h.charAt_eq]
  slice_eq offset count := by rw [h.slice?_eq]; exact congrArg some (h.reads.slice_eq offset count)
  charsFrom_eq offset := by rw [h.charsFrom?_eq, h.charsFrom_eq]
  charsBefore_eq offset := by rw [h.charsBefore?_eq, h.charsBefore_eq]

variable {b : GapBuffer} {t : Text}

lemma Reached.wellFormed (h : Reached b t) : b.WellFormed ∧ b.content = t := by
  induction h with
  | empty => exact ⟨wellFormed_empty, content_empty⟩
  | ofText t => exact ⟨wellFormed_ofText t, content_ofText t⟩
  | edit h e ih =>
    obtain ⟨hwell, rfl⟩ := ih
    obtain ⟨hafter, -, hcontent⟩ := hwell.onBuffer e
    exact ⟨hafter, hcontent⟩

/-- A buffer cannot be told from a text by reading and editing it, and it never reads or writes out of bounds. -/
theorem reached_refines_text (h : Reached b t) :
    (b.gapStart ≤ b.gapEnd ∧ b.gapEnd ≤ b.slots.size) ∧
      b.slots.toList.take b.gapStart ++ b.slots.toList.drop b.gapEnd = t ∧
      TextSource.Reads b t ∧ TextSource.text b = t ∧ b.ReadsInPlace t ∧
      ∀ e : Edit, e.inPlace? b = some (e.onBuffer b) ∧ (e.onBuffer b).1 = (e.onText t).1 ∧
        (e.onBuffer b).2.content = (e.onText t).2 ∧
        ∀ error, (e.onText t).1 = .error error → (e.onBuffer b).2 = b := by
  obtain ⟨hwell, hcontent⟩ := h.wellFormed
  refine ⟨⟨hwell.start_le, hwell.end_le⟩, ?_, hcontent ▸ hwell.reads, hcontent ▸ hwell.reads.text_eq,
    hcontent ▸ hwell.readsInPlace, fun e => ?_⟩
  · rw [← beforeGap_eq, ← afterGap_eq]
    exact hcontent
  · have hanswer : (e.onBuffer b).1 = (e.onText t).1 := hcontent ▸ (hwell.onBuffer e).2.1
    refine ⟨hwell.inPlace?_eq e, hanswer, (h.edit e).wellFormed.2, fun error herror => ?_⟩
    exact Edit.onBuffer_eq_self (hanswer.trans herror)

theorem reached_refines_text_after_insert :
    let b := ((Edit.insert 1 ['x']).onBuffer (ofText ['a', 'b'])).2
    Reached b ['a', 'x', 'b'] ∧ TextSource.text b = ['a', 'x', 'b'] ∧
      (Edit.remove 2 2).inPlace? b = some (.error (.rangeOutOfRange 2 2 3), b) := by
  intro b
  have hreached : Reached b ['a', 'x', 'b'] := (Reached.ofText ['a', 'b']).edit (.insert 1 ['x'])
  obtain ⟨-, -, -, htext, -, hedits⟩ := reached_refines_text hreached
  obtain ⟨hplace, hanswer, -, hsame⟩ := hedits (.remove 2 2)
  refine ⟨hreached, htext, ?_⟩
  have herror : ((Edit.remove 2 2).onText ['a', 'x', 'b']).1 = .error (.rangeOutOfRange 2 2 3) := rfl
  rw [hplace, Option.some.injEq, Prod.ext_iff]
  exact ⟨hanswer.trans herror, hsame _ herror⟩

end EditableText.GapBuffer
