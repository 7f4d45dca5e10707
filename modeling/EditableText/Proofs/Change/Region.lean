import EditableText.Proofs.Change

namespace EditableText

namespace OffsetStep

/-- The step stays inside the region from `offset` to `stop`, and the `behind` positions after the region are
words before the step and after it. -/
structure Exact (offset behind stop : Nat) (step : OffsetStep) : Prop where
  offset_le : offset ≤ step.offset
  end_le : step.offset + step.removal ≤ stop
  before : stop + behind < UInt64.size
  after : stop - step.removal + step.insertion + behind < UInt64.size

instance (offset behind stop : Nat) (step : OffsetStep) : Decidable (step.Exact offset behind stop) :=
  decidable_of_iff (offset ≤ step.offset ∧ step.offset + step.removal ≤ stop ∧ stop + behind < UInt64.size ∧
      stop - step.removal + step.insertion + behind < UInt64.size)
    ⟨fun ⟨hoffset, hend, hbefore, hafter⟩ => ⟨hoffset, hend, hbefore, hafter⟩,
      fun ⟨hoffset, hend, hbefore, hafter⟩ => ⟨hoffset, hend, hbefore, hafter⟩⟩

namespace Exact

variable {step : OffsetStep} {movement : AnchorMovement} {offset behind stop position : Nat}

lemma removalEnd_eq (h : step.Exact offset behind stop) : step.removalEnd = step.offset + step.removal :=
  Word.add_eq (by have := h.end_le; have := h.before; omega)

lemma regionEnd_eq (h : step.Exact offset behind stop) :
    Word.add (Word.sub stop step.removal) step.insertion = stop - step.removal + step.insertion := by
  have hend := h.end_le
  have hbefore := h.before
  have hafter := h.after
  rw [Word.sub_eq (by omega) (by omega), Word.add_eq (by omega)]

lemma move_eq (h : step.Exact offset behind stop) (movement : AnchorMovement)
    (hposition : position ≤ stop + behind) :
    step.move movement position =
      if position < step.offset then position
      else if step.offset < position ∧ step.offset + step.removal ≤ position then
        position - step.removal + step.insertion
      else if step.resolve movement = .beforeInsertion then step.offset
      else step.offset + step.insertion := by
  have hend := h.end_le
  have hbefore := h.before
  have hafter := h.after
  rw [move, h.removalEnd_eq]
  split_ifs with hlow hbehind
  · rfl
  · rw [Word.sub_eq (by omega) (by omega), Word.add_eq (by omega)]
  · rfl
  · rw [Word.add_eq (by omega)]

lemma move_of_lt (h : step.Exact offset behind stop) (hposition : position < offset) :
    step.move movement position = position := if_pos (Nat.lt_of_lt_of_le hposition h.offset_le)

lemma move_of_stop_lt (h : step.Exact offset behind stop) (hlow : stop < position)
    (hposition : position ≤ stop + behind) :
    step.move movement position = position - step.removal + step.insertion := by
  have hend := h.end_le
  rw [h.move_eq movement hposition, if_neg (by omega), if_pos (by omega)]

lemma le_move (h : step.Exact offset behind stop) (hlow : offset ≤ position)
    (hposition : position ≤ stop + behind) :
    offset ≤ step.move movement position := by
  have hoffset := h.offset_le
  rw [h.move_eq movement hposition]
  split_ifs <;> omega

lemma move_le {n : Nat} (h : step.Exact offset behind stop) (movement : AnchorMovement) (hstop : stop ≤ n)
    (hposition : position ≤ n) : step.move movement position ≤ n - step.removal + step.insertion := by
  have hend := h.end_le
  have hsum := Word.add_le step.offset step.insertion
  rw [move, h.removalEnd_eq]
  split_ifs with hlow hbehind
  · omega
  · have hremoval : step.removal ≤ position := by omega
    have hsub := Word.sub_le hremoval
    have hadd := Word.add_le (Word.sub position step.removal) step.insertion
    omega
  · omega
  · omega

lemma removesAround_eq_false (h : step.Exact offset behind stop)
    (hposition : position < offset ∨ stop < position) : step.removesAround position = false := by
  have hoffset := h.offset_le
  have hend := h.end_le
  rw [removesAround, h.removalEnd_eq, Bool.and_eq_false_iff, decide_eq_false_iff_not, decide_eq_false_iff_not]
  omega

lemma inverse (h : step.Exact offset behind stop) :
    step.inverse.Exact offset behind (stop - step.removal + step.insertion) ∧
      stop - step.removal + step.insertion - step.inverse.removal + step.inverse.insertion = stop := by
  have hend := h.end_le
  have hback : stop - step.removal + step.insertion - step.inverse.removal + step.inverse.insertion = stop := by
    change stop - step.removal + step.insertion - step.insertion + step.removal = stop
    omega
  refine ⟨⟨h.offset_le, ?_, h.after, hback.symm ▸ h.before⟩, hback⟩
  change step.offset + step.insertion ≤ _
  omega

end Exact

lemma exact_plain {offset removal insertion n : Nat} (hrange : offset + removal ≤ n) (hword : n < UInt64.size)
    (hword' : n - removal + insertion < UInt64.size) :
    (plain offset removal insertion).Exact offset (n - (offset + removal)) (offset + removal) :=
  ⟨Nat.le_refl _, Nat.le_refl _, by omega, by dsimp only [plain]; omega⟩

end OffsetStep

namespace OffsetMap

variable {map a b : OffsetMap} {movement : AnchorMovement} {offset behind stop stop' position n : Nat}

/-- The steps stay inside the region and take its end from `stop` to `stop'`, and so no sum on the way is beyond
a word, nor is one for a position up to `behind` after the region. -/
def Exact (offset behind stop' : Nat) : OffsetMap → Nat → Prop
  | [], stop => stop = stop'
  | step :: rest, stop =>
    step.Exact offset behind stop ∧ Exact offset behind stop' rest (stop - step.removal + step.insertion)

instance decidableExact (offset behind stop' : Nat) :
    (map : OffsetMap) → (stop : Nat) → Decidable (map.Exact offset behind stop' stop)
  | [], stop => inferInstanceAs (Decidable (stop = stop'))
  | step :: rest, stop =>
    haveI := decidableExact offset behind stop' rest (stop - step.removal + step.insertion)
    inferInstanceAs (Decidable (_ ∧ _))

lemma exact_append : (a ++ b).Exact offset behind stop' stop ↔
    ∃ mid, a.Exact offset behind mid stop ∧ b.Exact offset behind stop' mid := by
  induction a generalizing stop with
  | nil => simp [Exact]
  | cons step rest ih => simp only [List.cons_append, Exact, ih, and_assoc, exists_and_left]

namespace Exact

lemma inverse (h : map.Exact offset behind stop' stop) : map.inverse.Exact offset behind stop stop' := by
  induction map generalizing stop with
  | nil => exact Eq.symm h
  | cons step rest ih =>
    obtain ⟨hstep, hrest⟩ := h
    have hinverse : OffsetMap.inverse (step :: rest) = OffsetMap.inverse rest ++ [step.inverse] := by
      simp [OffsetMap.inverse]
    rw [hinverse, exact_append]
    exact ⟨_, ih hrest, hstep.inverse⟩

lemma move_of_lt (h : map.Exact offset behind stop' stop) (hposition : position < offset) :
    map.move movement position = position := by
  induction map generalizing stop with
  | nil => rfl
  | cons step rest ih =>
    obtain ⟨hstep, hrest⟩ := h
    change OffsetMap.move rest movement (step.move movement position) = position
    rw [hstep.move_of_lt hposition, ih hrest]

lemma move_of_stop_lt (h : map.Exact offset behind stop' stop) (movement : AnchorMovement) (hlow : stop < position)
    (hposition : position ≤ stop + behind) : map.move movement position = position - stop + stop' := by
  induction map generalizing stop position with
  | nil =>
    obtain rfl : stop = stop' := h
    change position = _
    omega
  | cons step rest ih =>
    obtain ⟨hstep, hrest⟩ := h
    have hend := hstep.end_le
    change OffsetMap.move rest movement (step.move movement position) = _
    rw [hstep.move_of_stop_lt hlow hposition, ih hrest (by omega) (by omega)]
    omega

lemma le_move (h : map.Exact offset behind stop' stop) (movement : AnchorMovement) (hlow : offset ≤ position)
    (hposition : position ≤ stop + behind) : offset ≤ map.move movement position := by
  induction map generalizing stop position with
  | nil => exact hlow
  | cons step rest ih =>
    obtain ⟨hstep, hrest⟩ := h
    have hend := hstep.end_le
    have hmove := hstep.move_le movement (Nat.le_add_right _ _) hposition
    change offset ≤ OffsetMap.move rest movement (step.move movement position)
    exact ih hrest (hstep.le_move hlow hposition) (by omega)

lemma move_le (h : map.Exact offset behind stop' stop) (movement : AnchorMovement) (hstop : stop ≤ n)
    (hposition : position ≤ n) : map.move movement position ≤ n - stop + stop' := by
  induction map generalizing stop position n with
  | nil =>
    obtain rfl : stop = stop' := h
    change position ≤ _
    omega
  | cons step rest ih =>
    obtain ⟨hstep, hrest⟩ := h
    have hend := hstep.end_le
    have hmove := hstep.move_le movement hstop hposition
    have hle := ih hrest (by omega) hmove
    change OffsetMap.move rest movement (step.move movement position) ≤ _
    omega

lemma removesAround_eq_false (h : map.Exact offset behind stop' stop)
    (ho : position < offset ∨ stop < position) (hposition : position ≤ stop + behind) {step : OffsetStep}
    {front back : OffsetMap} (hmap : map = front ++ step :: back) :
    step.removesAround (OffsetMap.move front movement position) = false := by
  subst hmap
  obtain ⟨mid, hfront, hstep, -⟩ := exact_append.mp h
  refine hstep.removesAround_eq_false ?_
  rcases ho with hlow | hhigh
  · rw [hfront.move_of_lt hlow]
    exact .inl hlow
  · rw [hfront.move_of_stop_lt _ hhigh hposition]
    omega

lemma move_of_outside (h : map.Exact offset behind stop' stop) (movement : AnchorMovement) (hstop : offset ≤ stop)
    (ho : position < offset ∨ stop < position) (hposition : position ≤ stop + behind) :
    map.move movement position = if position < offset then position else position - stop + stop' := by
  rcases ho with hlow | hhigh
  · rw [if_pos hlow, h.move_of_lt hlow]
  · rw [if_neg (by omega), h.move_of_stop_lt movement hhigh hposition]

lemma move_inverse (h : map.Exact offset behind stop' stop) (hstop : offset ≤ stop)
    (ho : position < offset ∨ stop < position) (hposition : position ≤ stop + behind)
    (movement movement' : AnchorMovement) :
    (map.move movement position < offset ∨ stop' < map.move movement position) ∧
      map.inverse.move movement' (map.move movement position) = position := by
  rw [h.move_of_outside movement hstop ho hposition]
  split_ifs with hlow
  · exact ⟨.inl hlow, h.inverse.move_of_lt hlow⟩
  · refine ⟨.inr (by omega), ?_⟩
    rw [h.inverse.move_of_stop_lt movement' (by omega) (by omega)]
    omega

end Exact

end OffsetMap

namespace Change

/-- The map belongs to the change, and no sum is beyond a word when that is checked. -/
def Exact (c : Change) (behind : Nat) : Prop :=
  c.map.Exact c.offset behind (c.offset + c.inserted.length) (c.offset + c.removed.length)

def ExactOn (c : Change) (t : Text) : Prop := c.Exact (t.length - (c.offset + c.removed.length))

/-- Strictly outside the removed text, and not at its ends. -/
def Outside (c : Change) (position : Nat) : Prop :=
  position < c.offset ∨ c.offset + c.removed.length < position

variable {c : Change} {t : Text} {movement : AnchorMovement} {position n : Nat}

lemma Exact.newOffset_le {behind : Nat} (h : c.Exact behind) (movement : AnchorMovement)
    (hc : c.offset + c.removed.length ≤ n) (hposition : position ≤ n) :
    c.newOffset movement position ≤ n - c.removed.length + c.inserted.length := by
  have hle := h.move_le movement hc hposition
  rw [newOffset]
  omega

namespace ExactOn

lemma inverse (h : c.ExactOn t) (hc : c.offset + c.removed.length ≤ t.length) : c.inverse.ExactOn (c.apply t) := by
  have hlength := length_apply hc
  have hbehind : (c.apply t).length - (c.offset + c.inserted.length) =
      t.length - (c.offset + c.removed.length) := by omega
  have hback := OffsetMap.Exact.inverse h
  rwa [← hbehind] at hback

lemma newOffset_of_outside (h : c.ExactOn t) (movement : AnchorMovement) (ho : c.Outside position)
    (hposition : position ≤ t.length) :
    c.newOffset movement position =
      if position < c.offset then position else position - c.removed.length + c.inserted.length := by
  have hmove := h.move_of_outside movement (Nat.le_add_right _ _) ho (by omega)
  rw [newOffset, hmove]
  rcases ho with hlow | hhigh <;> split_ifs <;> omega

lemma newOffset_inverse (h : c.ExactOn t) (ho : c.Outside position) (hposition : position ≤ t.length)
    (movement movement' : AnchorMovement) :
    c.inverse.Outside (c.newOffset movement position) ∧
      c.inverse.newOffset movement' (c.newOffset movement position) = position :=
  h.move_inverse (Nat.le_add_right _ _) ho (by omega) movement movement'

end ExactOn

def ExactAll : List Change → Text → Prop
  | [], _ => True
  | c :: rest, t => c.ExactOn t ∧ ExactAll rest (c.apply t)

instance (c : Change) (t : Text) : Decidable (c.ExactOn t) := OffsetMap.decidableExact ..

instance decidableExactAll : (cs : List Change) → (t : Text) → Decidable (ExactAll cs t)
  | [], _ => inferInstanceAs (Decidable True)
  | c :: rest, t =>
    haveI := decidableExactAll rest (c.apply t)
    inferInstanceAs (Decidable (_ ∧ _))

lemma exactAll_append {a b : List Change} :
    ExactAll (a ++ b) t ↔ ExactAll a t ∧ ExactAll b (applyAll a t) := by
  induction a generalizing t with
  | nil => simp [ExactAll, applyAll]
  | cons c rest ih =>
    simp only [List.cons_append, ExactAll, ih, and_assoc]
    rfl

lemma length_apply_congr {t' : Text} (c : Change) (h : t.length = t'.length) :
    (c.apply t).length = (c.apply t').length := by
  simp only [apply, Text.splice, List.length_append, List.length_take, List.length_drop, h]

lemma ExactAll.congr {cs : List Change} {t' : Text} (h : ExactAll cs t) (hlength : t.length = t'.length) :
    ExactAll cs t' := by
  induction cs generalizing t t' with
  | nil => trivial
  | cons c rest ih =>
    refine ⟨?_, ih h.2 (c.length_apply_congr hlength)⟩
    rw [ExactOn, ← hlength]
    exact h.1

end Change

end EditableText
