import EditableText.Toml.Number
import Mathlib.Tactic.Common
import Mathlib.Tactic.IntervalCases

namespace EditableText.Toml.Number

variable {c : Char} {t : Text} {n : Nat}

lemma isDigit_iff : c.isDigit = true ↔ 48 ≤ c.toNat ∧ c.toNat ≤ 57 := by
  rw [Char.isDigit, Bool.and_eq_true, decide_eq_true_iff, decide_eq_true_iff, ge_iff_le, UInt32.le_iff_toNat_le,
    UInt32.le_iff_toNat_le]
  rfl

lemma digit?_of_isDigit (h : c.isDigit = true) : digit? 10 c = some (c.toNat - '0'.toNat) := by
  have hlt : c.toNat - '0'.toNat < 10 := by
    have hc := (isDigit_iff.mp h).2
    change c.toNat - 48 < 10
    omega
  simp only [digit?, if_pos h, if_pos hlt]

lemma digitsFrom?_of_isDigit (h : ∀ c ∈ t, c.isDigit = true) (high : Nat) :
    digitsFrom? 10 high t = some (Nat.ofDigitChars 10 t high) := by
  induction t generalizing high with
  | nil => rfl
  | cons c rest ih =>
    obtain ⟨hc, hrest⟩ := List.forall_mem_cons.mp h
    rw [digitsFrom?, digit?_of_isDigit hc, Option.bind_eq_bind, Option.bind_some, ih hrest, Nat.ofDigitChars_cons,
      Nat.mul_comm 10]
    rintro d others rfl -
    cases hc

lemma isDigit_of_mem (h : c ∈ Nat.toDigits 10 n) : c.isDigit = true :=
  Nat.isDigit_of_mem_toDigits (by decide) (by decide) h

lemma digits?_toDigits (n : Nat) : digits? 10 (Nat.toDigits 10 n) = some n := by
  have hdigits : ∀ c ∈ Nat.toDigits 10 n, c.isDigit = true := fun _ => isDigit_of_mem
  have hvalue : Nat.ofDigitChars 10 (Nat.toDigits 10 n) 0 = n := Nat.ofDigitChars_ten_toDigits
  cases ht : Nat.toDigits 10 n with
  | nil => exact absurd ht Nat.toDigits_ne_nil
  | cons c rest =>
    rw [ht] at hdigits hvalue
    obtain ⟨hc, hrest⟩ := List.forall_mem_cons.mp hdigits
    rw [digits?, digit?_of_isDigit hc, Option.bind_eq_bind, Option.bind_some, digitsFrom?_of_isDigit hrest]
    rw [Nat.ofDigitChars_cons, Nat.mul_zero, Nat.zero_add] at hvalue
    rw [hvalue]

lemma head?_toDigits_ne_zero (h : 0 < n) : (Nat.toDigits 10 n).head? ≠ some '0' := by
  induction n using Nat.strongRecOn with
  | ind n ih =>
    by_cases hsmall : n < 10
    · rw [Nat.toDigits_of_lt_base hsmall]
      interval_cases n <;> decide
    · have hhead : (Nat.toDigits 10 n).head? = (Nat.toDigits 10 (n / 10)).head? := by
        obtain ⟨c, rest, ht⟩ := List.exists_cons_of_ne_nil (Nat.toDigits_ne_nil (n := n / 10) (b := 10))
        rw [Nat.toDigits_of_base_le (by decide) (Nat.le_of_not_lt hsmall), ht]
        rfl
      rw [hhead]
      exact ih _ (by omega) (by omega)

lemma decimal?_toDigits (n : Nat) : decimal? (Nat.toDigits 10 n) = some n := by
  rw [decimal?]
  · exact digits?_toDigits n
  · intro c rest ht
    rcases Nat.eq_zero_or_pos n with rfl | hpos
    · simp at ht
    · exact head?_toDigits_ne_zero hpos (by rw [ht]; rfl)

lemma sign_of_isDigit (h : ∀ c ∈ t, c.isDigit = true) : sign t = (false, t) := by
  rw [sign.eq_def]
  split
  · exact absurd (h '-' List.mem_cons_self) (by decide)
  · exact absurd (h '+' List.mem_cons_self) (by decide)
  · rfl

lemma unbounded?_toDigits (n : Nat) : unbounded? (Nat.toDigits 10 n) = some (n : Int) := by
  have hsecond {c d : Char} {rest : Text} (hd : d.isDigit = false) : Nat.toDigits 10 n ≠ c :: d :: rest := by
    intro ht
    rw [isDigit_of_mem (c := d) (n := n) (by simp [ht])] at hd
    cases hd
  rw [unbounded?, sign_of_isDigit fun _ => isDigit_of_mem]
  · dsimp only
    rw [decimal?_toDigits]
    rfl
  · exact fun rest => hsecond (by decide)
  · exact fun rest => hsecond (by decide)
  · exact fun rest => hsecond (by decide)

lemma integer?_toDigits (h : n < 2 ^ 63) : integer? (Nat.toDigits 10 n) = some (n : Int) := by
  rw [integer?, unbounded?_toDigits, Option.bind_eq_bind, Option.bind_some, if_pos]
  rw [Nat.one_shiftLeft]
  omega

end EditableText.Toml.Number
