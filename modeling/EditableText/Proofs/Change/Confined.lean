import EditableText.Proofs.Change.Region
import EditableText.Proofs.Except

/-!
A map that fits its change acts inside the region of the change and nowhere else, and so does its inverse, unless
a sum on the way is beyond a word. Here every sum and every difference is checked.
-/

namespace EditableText

namespace Word

inductive Fault where
  | overflow
  | underflow
  deriving Repr, DecidableEq

def add? (a b : Nat) : Except Fault Nat := if a + b < UInt64.size then .ok (a + b) else .error .overflow

def sub? (a b : Nat) : Except Fault Nat := if b ≤ a then .ok (a - b) else .error .underflow

variable {a b c : Nat}

lemma add?_of_lt (h : a + b < UInt64.size) : add? a b = .ok (a + b) := if_pos h

lemma sub?_of_le (h : b ≤ a) : sub? a b = .ok (a - b) := if_pos h

lemma add?_cases (a b : Nat) : add? a b = .error .overflow ∨ a + b < UInt64.size ∧ add? a b = .ok (a + b) := by
  rw [add?]
  split
  case isTrue hword => exact .inr ⟨hword, rfl⟩
  case isFalse => exact .inl rfl

lemma add?_eq_ok (h : add? a b = .ok c) : c = a + b := by
  rcases add?_cases a b with hover | ⟨-, hok⟩
  · cases hover.symm.trans h
  · exact Except.ok.inj (h.symm.trans hok)

end Word

namespace OffsetStep

variable {step : OffsetStep} {movement : AnchorMovement} {offset behind stop position : Nat}

def atInsertion? (step : OffsetStep) (movement : AnchorMovement) : Except Word.Fault Nat :=
  if step.resolve movement = .beforeInsertion then .ok step.offset else Word.add? step.offset step.insertion

def atInsertion (step : OffsetStep) (movement : AnchorMovement) : Nat :=
  if step.resolve movement = .beforeInsertion then step.offset else Word.add step.offset step.insertion

def move? (step : OffsetStep) (movement : AnchorMovement) (position : Nat) : Except Word.Fault Nat :=
  if position < step.offset then .ok position
  else if step.offset < position then do
    if (← Word.add? step.offset step.removal) ≤ position then
      Word.add? (← Word.sub? position step.removal) step.insertion
    else step.atInsertion? movement
  else step.atInsertion? movement

lemma move_of_offset_lt (h : step.offset < position) : step.move movement position =
    if step.removalEnd ≤ position then Word.add (Word.sub position step.removal) step.insertion
    else step.atInsertion movement := by
  rw [move, if_neg (by omega)]
  simp only [h, true_and, atInsertion]

lemma atInsertion?_cases (step : OffsetStep) (movement : AnchorMovement) :
    step.atInsertion? movement = .error .overflow ∨
      step.atInsertion? movement = .ok (step.atInsertion movement) := by
  rw [atInsertion?, atInsertion]
  split
  case isTrue => exact .inr rfl
  case isFalse =>
    rcases Word.add?_cases step.offset step.insertion with hover | ⟨hword, hsum⟩
    · exact .inl hover
    · exact .inr (by rw [hsum, Word.add_eq hword])

lemma move?_cases (step : OffsetStep) (movement : AnchorMovement) (hposition : position < UInt64.size) :
    step.move? movement position = .error .overflow ∨
      step.move? movement position = .ok (step.move movement position) := by
  rw [move?]
  split_ifs with hlow hhigh
  · exact .inr (by rw [move, if_pos hlow])
  · rw [move_of_offset_lt hhigh, removalEnd]
    rcases Word.add?_cases step.offset step.removal with hover | ⟨hword, hsum⟩
    · exact .inl (by rw [hover, error_bind])
    · rw [hsum, ok_bind, Word.add_eq hword]
      split_ifs with hbehind
      · have hremoval : step.removal ≤ position := by omega
        rw [Word.sub?_of_le hremoval, ok_bind, Word.sub_eq hremoval hposition]
        rcases Word.add?_cases (position - step.removal) step.insertion with hover | ⟨hword', hsum'⟩
        · exact .inl hover
        · exact .inr (by rw [hsum', Word.add_eq hword'])
      · exact step.atInsertion?_cases movement
  · have htie : step.move movement position = step.atInsertion movement := by
      rw [move, if_neg hlow, if_neg (by omega), atInsertion]
    exact htie ▸ step.atInsertion?_cases movement

lemma move?_eq_ok {step : OffsetStep} {position' : Nat} (h : step.move? movement position = .ok position') :
    position' =
      if position < step.offset then position
      else if step.offset < position ∧ step.offset + step.removal ≤ position then
        position - step.removal + step.insertion
      else if step.resolve movement = .beforeInsertion then step.offset
      else step.offset + step.insertion := by
  have htie (h : step.atInsertion? movement = .ok position') : position' =
      if step.resolve movement = .beforeInsertion then step.offset else step.offset + step.insertion := by
    rw [atInsertion?] at h
    split_ifs at h ⊢
    · exact (Except.ok.inj h).symm
    · exact Word.add?_eq_ok h
  rw [move?] at h
  split_ifs at h with hlow hhigh
  · rw [if_pos hlow, Except.ok.inj h]
  · obtain ⟨stop, hstop, h⟩ := exists_of_bind_eq_ok h
    obtain rfl := Word.add?_eq_ok hstop
    split_ifs at h with hbehind
    · obtain ⟨rest, hrest, h⟩ := exists_of_bind_eq_ok h
      rw [Word.sub?_of_le (by omega)] at hrest
      obtain rfl := Except.ok.inj hrest
      rw [if_neg hlow, if_pos ⟨hhigh, hbehind⟩, Word.add?_eq_ok h]
    · rw [if_neg hlow, if_neg (by omega), htie h]
  · rw [if_neg hlow, if_neg (by omega), htie h]

lemma move_lt (step : OffsetStep) (movement : AnchorMovement) (hposition : position < UInt64.size) :
    step.move movement position < UInt64.size := by
  have hadd : ∀ a b, Word.add a b < UInt64.size := fun a b => Nat.mod_lt _ (by decide)
  rw [move]
  split_ifs
  · exact hposition
  · exact hadd _ _
  · omega
  · exact hadd _ _

lemma Exact.move?_eq (h : step.Exact offset behind stop) (movement : AnchorMovement)
    (hposition : position ≤ stop + behind) : step.move? movement position = .ok (step.move movement position) := by
  have hend := h.end_le
  have hbefore := h.before
  have hafter := h.after
  refine (step.move?_cases movement (by omega)).resolve_left fun hover => ?_
  have htie : step.atInsertion? movement ≠ .error .overflow := by
    rw [atInsertion?, Word.add?_of_lt (by omega)]
    split <;> simp
  rw [move?, Word.add?_of_lt (by omega), ok_bind] at hover
  split_ifs at hover with hlow hhigh hbehind
  · rw [Word.sub?_of_le (by omega), ok_bind, Word.add?_of_lt (by omega)] at hover
    cases hover
  · exact htie hover
  · exact htie hover

lemma Exact.extend (h : step.Exact offset 0 stop) (hbehind : stop < position) (hposition : position < UInt64.size)
    (hmove : step.move? movement position ≠ .error .overflow) : step.Exact offset (position - stop) stop := by
  have hend := h.end_le
  have hbefore := h.before
  refine ⟨h.offset_le, hend, by omega, ?_⟩
  rw [move?, if_neg (by omega), if_pos (by omega), Word.add?_of_lt (by omega), ok_bind, if_pos (by omega),
    Word.sub?_of_le (by omega), ok_bind] at hmove
  have hword := ((Word.add?_cases (position - step.removal) step.insertion).resolve_left hmove).1
  omega

end OffsetStep

namespace OffsetMap

variable {map : OffsetMap} {movement : AnchorMovement} {offset behind removal insertion stop stop' position : Nat}

def move? (map : OffsetMap) (movement : AnchorMovement) (position : Nat) : Except Word.Fault Nat :=
  map.foldlM (fun position step => step.move? movement position) position

lemma move?_cons (step : OffsetStep) (rest : OffsetMap) (movement : AnchorMovement) (position : Nat) :
    move? (step :: rest) movement position = step.move? movement position >>= move? rest movement := rfl

lemma move?_cases (map : OffsetMap) (movement : AnchorMovement) (hposition : position < UInt64.size) :
    map.move? movement position = .error .overflow ∨
      map.move? movement position = .ok (map.move movement position) := by
  induction map generalizing position with
  | nil => exact .inr rfl
  | cons step rest ih =>
    rw [move?_cons]
    rcases step.move?_cases movement hposition with hover | hmove
    · exact .inl (by rw [hover, error_bind])
    · rw [hmove]
      exact ih (step.move_lt movement hposition)

def fitsFrom? (offset insertion : Nat) : OffsetMap → Nat → Except Word.Fault Bool
  | [], stop => return stop == (← Word.add? offset insertion)
  | step :: rest, stop =>
    if step.offset < offset then return false
    else do
      if stop < (← Word.add? step.offset step.removal) then return false
      else fitsFrom? offset insertion rest (← Word.add? (← Word.sub? stop step.removal) step.insertion)

def fits? (map : OffsetMap) (offset removal insertion : Nat) : Except Word.Fault Bool := do
  map.fitsFrom? offset insertion (← Word.add? offset removal)

lemma fitsFrom?_cons (step : OffsetStep) (rest : OffsetMap) (offset insertion : Nat) (hstop : stop < UInt64.size) :
    fitsFrom? offset insertion (step :: rest) stop = .error .overflow ∨
    (fitsFrom? offset insertion (step :: rest) stop = .ok false ∧
      ¬ (offset ≤ step.offset ∧ step.removalEnd ≤ stop)) ∨
    (fitsFrom? offset insertion (step :: rest) stop =
      fitsFrom? offset insertion rest (stop - step.removal + step.insertion) ∧ step.Exact offset 0 stop) := by
  rw [fitsFrom?]
  split
  case isTrue hbefore => exact .inr (.inl ⟨rfl, by omega⟩)
  case isFalse hoffset =>
    rcases Word.add?_cases step.offset step.removal with hover | ⟨hword, hsum⟩
    · exact .inl (by rw [hover, error_bind])
    · rw [hsum, ok_bind, OffsetStep.removalEnd, Word.add_eq hword]
      split_ifs with hbeyond
      · exact .inr (.inl ⟨rfl, by omega⟩)
      · rw [Word.sub?_of_le (by omega), ok_bind]
        rcases Word.add?_cases (stop - step.removal) step.insertion with hover | ⟨hword', hsum'⟩
        · exact .inl (by rw [hover, error_bind])
        · exact .inr (.inr ⟨by rw [hsum', ok_bind], by omega, by omega, hstop, hword'⟩)

lemma fitsFrom?_cases (map : OffsetMap) (offset insertion : Nat) (hstop : stop < UInt64.size) :
    map.fitsFrom? offset insertion stop = .error .overflow ∨
      map.fitsFrom? offset insertion stop =
        .ok (map.regionEnd? offset stop == some (Word.add offset insertion)) := by
  induction map generalizing stop with
  | nil =>
    rw [fitsFrom?]
    rcases Word.add?_cases offset insertion with hover | ⟨hword, hsum⟩
    · exact .inl (by rw [hover, error_bind])
    · exact .inr (by rw [hsum, Word.add_eq hword]; rfl)
  | cons step rest ih =>
    rcases fitsFrom?_cons step rest offset insertion hstop with hover | ⟨hfalse, hout⟩ | ⟨hrest, hstep⟩
    · exact .inl hover
    · exact .inr (by rw [hfalse, regionEnd?, if_neg hout]; rfl)
    · have hinside : offset ≤ step.offset ∧ step.removalEnd ≤ stop :=
        ⟨hstep.offset_le, hstep.removalEnd_eq ▸ hstep.end_le⟩
      rw [hrest, regionEnd?, if_pos hinside, hstep.regionEnd_eq]
      exact ih hstep.after

lemma fits?_cases (map : OffsetMap) (offset removal insertion : Nat) :
    map.fits? offset removal insertion = .error .overflow ∨
      map.fits? offset removal insertion = .ok (map.fits offset removal insertion) := by
  rw [fits?]
  rcases Word.add?_cases offset removal with hover | ⟨hword, hsum⟩
  · exact .inl (by rw [hover, error_bind])
  · rw [hsum, ok_bind]
    rcases map.fitsFrom?_cases offset insertion hword with hover | hchecked
    · exact .inl hover
    · cases map with
      | nil =>
        rcases Word.add?_cases offset insertion with hover | ⟨hword', hsum'⟩
        · exact .inl (by rw [fitsFrom?, hover, error_bind])
        · have hsame : (offset + removal == offset + insertion) = (removal == insertion) := by
            rw [Bool.eq_iff_iff, beq_iff_eq, beq_iff_eq, Nat.add_left_cancel_iff]
          exact .inr (by rw [fitsFrom?, hsum', fits, List.isEmpty_nil, if_pos rfl, ← hsame]; rfl)
      | cons => exact .inr (by rw [hchecked, fits, Word.add_eq hword]; rfl)

lemma Exact.fitsFrom?_eq (h : map.Exact offset 0 (offset + insertion) stop)
    (hword : offset + insertion < UInt64.size) :
    map.fitsFrom? offset insertion stop = .ok true := by
  induction map generalizing stop with
  | nil =>
    rw [fitsFrom?, Word.add?_of_lt hword]
    exact congrArg Except.ok (beq_iff_eq.mpr h)
  | cons step rest ih =>
    obtain ⟨⟨hoffset, hend, hbefore, hafter⟩, hrest⟩ := h
    rw [fitsFrom?, if_neg (by omega), Word.add?_of_lt (by omega), ok_bind, if_neg (by omega),
      Word.sub?_of_le (by omega), ok_bind, Word.add?_of_lt (by omega), ok_bind]
    exact ih hrest

lemma exact_of_fitsFrom? (hstop : stop < UInt64.size) (h : map.fitsFrom? offset insertion stop = .ok true) :
    map.Exact offset 0 (offset + insertion) stop ∧ offset + insertion < UInt64.size := by
  induction map generalizing stop with
  | nil =>
    rw [fitsFrom?] at h
    rcases Word.add?_cases offset insertion with hover | ⟨hword, hsum⟩
    · rw [hover] at h
      cases h
    · rw [hsum] at h
      exact ⟨beq_iff_eq.mp (Except.ok.inj h), hword⟩
  | cons step rest ih =>
    rcases fitsFrom?_cons step rest offset insertion hstop with hover | ⟨hfalse, -⟩ | ⟨hrest, hstep⟩
    · rw [hover] at h
      cases h
    · rw [hfalse] at h
      cases h
    · obtain ⟨hexact, hword⟩ := ih hstep.after (hrest ▸ h)
      exact ⟨⟨hstep, hexact⟩, hword⟩

lemma fits?_eq_ok_true_iff : map.fits? offset removal insertion = .ok true ↔
    map.Exact offset 0 (offset + insertion) (offset + removal) ∧
      offset + removal < UInt64.size ∧ offset + insertion < UInt64.size := by
  constructor
  · intro h
    obtain ⟨stop, hstop, hchecked⟩ := exists_of_bind_eq_ok h
    rcases Word.add?_cases offset removal with hover | ⟨hword, hsum⟩
    · rw [hover] at hstop
      cases hstop
    · obtain rfl := Except.ok.inj (hsum.symm.trans hstop)
      obtain ⟨hexact, hword'⟩ := exact_of_fitsFrom? hword hchecked
      exact ⟨hexact, hword, hword'⟩
  · rintro ⟨hexact, hword, hword'⟩
    rw [fits?, Word.add?_of_lt hword]
    exact hexact.fitsFrom?_eq hword'

lemma fits?_inverse (map : OffsetMap) (offset removal insertion : Nat) :
    map.fits? offset removal insertion = .ok true ↔ map.inverse.fits? offset insertion removal = .ok true := by
  rw [fits?_eq_ok_true_iff, fits?_eq_ok_true_iff]
  refine ⟨fun ⟨h, hword, hword'⟩ => ⟨h.inverse, hword', hword⟩, fun ⟨h, hword', hword⟩ => ⟨?_, hword, hword'⟩⟩
  have hback := h.inverse
  rwa [inverse_inverse] at hback

lemma Exact.move?_eq (h : map.Exact offset behind stop' stop) (movement : AnchorMovement)
    (hposition : position ≤ stop + behind) : map.move? movement position = .ok (map.move movement position) := by
  induction map generalizing stop position with
  | nil => rfl
  | cons step rest ih =>
    obtain ⟨hstep, hrest⟩ := h
    have hend := hstep.end_le
    have hle := hstep.move_le movement (Nat.le_add_right _ _) hposition
    rw [move?_cons, hstep.move?_eq movement hposition]
    exact ih hrest (by omega)

lemma Exact.extend (h : map.Exact offset 0 stop' stop) (hbehind : stop < position)
    (hposition : position < UInt64.size) (hmove : map.move? movement position ≠ .error .overflow) :
    map.Exact offset (position - stop) stop' stop := by
  induction map generalizing stop position with
  | nil => exact h
  | cons step rest ih =>
    obtain ⟨hstep, hrest⟩ := h
    have hend := hstep.end_le
    have hok : step.move? movement position ≠ .error .overflow := fun hover =>
      hmove (by rw [move?_cons, hover, error_bind])
    have hexact := hstep.extend hbehind hposition hok
    have hnext : step.move movement position = position - step.removal + step.insertion :=
      hexact.move_of_stop_lt hbehind (by omega)
    have hsame : position - step.removal + step.insertion - (stop - step.removal + step.insertion) =
      position - stop := by omega
    rw [move?_cons, (step.move?_cases movement hposition).resolve_left hok, hnext] at hmove
    have hafter := hexact.after
    exact ⟨hexact, hsame ▸ ih hrest (by omega) (by omega) hmove⟩

end OffsetMap

end EditableText
