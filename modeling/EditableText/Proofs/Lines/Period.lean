import EditableText.Proofs.Lines.Seeds
import Mathlib.Data.List.Prime
import Mathlib.Data.Nat.Prime.Basic
import Mathlib.Dynamics.PeriodicPts.Lemmas
import Mathlib.Order.Interval.Finset.Nat
import Mathlib.Tactic.NormNum.Prime

/-!
How long it takes until a seed comes again. Steps add up like polynomials over the field with two elements, and the
step satisfies a primitive one of degree 64: from each seed but zero it goes through all the others first.
-/

namespace EditableText

open Function

lemma minimalPeriod_eq_of_prime {α : Type} {f : α → α} {x : α} {n : Nat} (h : IsPeriodicPt f n x)
    (hprime : ∀ q : Nat, q.Prime → q ∣ n → ¬ IsPeriodicPt f (n / q) x) : minimalPeriod f x = n := by
  obtain ⟨c, hc⟩ := h.minimalPeriod_dvd
  by_cases hone : c = 1
  · rw [hc, hone, Nat.mul_one]
  -- a period short of `n` divides what is left of `n` without one of its prime factors
  · obtain ⟨q, hq, d, rfl⟩ := Nat.exists_prime_and_dvd hone
    have hcofactor : n / q = minimalPeriod f x * d := by
      rw [hc, Nat.mul_left_comm, Nat.mul_div_cancel_left _ hq.pos]
    refine absurd ?_ (hprime q hq ⟨minimalPeriod f x * d, ?_⟩)
    · rw [hcofactor]
      exact (isPeriodicPt_minimalPeriod f x).mul_const d
    · rw [← Nat.mul_left_comm, ← hc]

namespace SeedPolynomial

open NodeSupply

/-- The iterates of `x` at the places where `p` has a one among its lowest binary digits, added without carry. -/
def combine {α : Type} [XorOp α] [OfNat α 0] (step : α → α) : Nat → Nat → α → α
  | 0, _, _ => 0
  | digits + 1, p, x => (if p % 2 = 1 then x else 0) ^^^ combine step digits (p / 2) (step x)

/-- The polynomial that the step satisfies. The binary digits of a number are the coefficients of its powers of
`X`. -/
def modulus : Nat := 0x10018B73AA7CC9B71

def timesX (p : Nat) : Nat := 2 * p ^^^ p / 2 ^ 63 % 2 * modulus

def product (p q : Nat) : Nat := combine timesX 64 p q

def power : Nat → Nat → Nat
  | 0, _ => 1
  | digits + 1, n =>
    let half := power digits (n / 2)
    if n % 2 = 1 then timesX (product half half) else product half half

def seedOf (p : Nat) : UInt64 := combine nextSeed 64 p 1

lemma combine_map {α β : Type} [XorOp α] [OfNat α 0] [XorOp β] [OfNat β 0] {step : α → α} {step' : β → β}
    {f : α → β} (hzero : f 0 = 0) (hxor : ∀ a b, f (a ^^^ b) = f a ^^^ f b) (hstep : ∀ a, f (step a) = step' (f a))
    (digits p : Nat) (x : α) : f (combine step digits p x) = combine step' digits p (f x) := by
  induction digits generalizing p x with
  | zero => exact hzero
  | succ digits ih => rw [combine, combine, hxor, ih, hstep, apply_ite f, hzero]

lemma combine_zero (digits p : Nat) : combine nextSeed digits p 0 = 0 := by
  induction digits generalizing p with
  | zero => rfl
  | succ digits ih => rw [combine, nextSeed_zero, ih, ite_self, UInt64.xor_self]

lemma combine_two_mul (digits p : Nat) (x : UInt64) :
    combine nextSeed (digits + 1) (2 * p) x = combine nextSeed digits p (nextSeed x) := by
  have heven : ¬ 2 * p % 2 = 1 := by omega
  rw [combine, if_neg heven, Nat.mul_div_cancel_left p Nat.two_pos]
  exact UInt64.zero_xor

lemma ite_xor (p q : Nat) (x : UInt64) :
    (if (p ^^^ q) % 2 = 1 then x else 0) = (if p % 2 = 1 then x else 0) ^^^ if q % 2 = 1 then x else 0 := by
  simp only [Nat.xor_mod_two_eq_one]
  by_cases hp : p % 2 = 1 <;> by_cases hq : q % 2 = 1 <;> simp [hp, hq]

lemma combine_xor (digits p q : Nat) (x : UInt64) :
    combine nextSeed digits (p ^^^ q) x = combine nextSeed digits p x ^^^ combine nextSeed digits q x := by
  induction digits generalizing p q x with
  | zero => exact UInt64.xor_self.symm
  | succ digits ih =>
    rw [combine, combine, combine, ite_xor, Nat.xor_div_two, ih]
    ac_rfl

lemma combine_succ (digits p : Nat) (x : UInt64) :
    combine nextSeed (digits + 1) p x =
      combine nextSeed digits p x ^^^ if p / 2 ^ digits % 2 = 1 then nextSeed^[digits] x else 0 := by
  induction digits generalizing p x with
  | zero => simp [combine]
  | succ digits ih =>
    rw [combine, ih, combine, UInt64.xor_assoc, Nat.div_div_eq_div_mul, ← Nat.pow_succ', iterate_succ_apply]

lemma seedOf_zero : seedOf 0 = 0 := by decide +kernel

lemma seedOf_one : seedOf 1 = 1 := by decide +kernel

lemma seedOf_xor (p q : Nat) : seedOf (p ^^^ q) = seedOf p ^^^ seedOf q := combine_xor 64 p q 1

lemma seedOf_modulus : seedOf modulus = nextSeed^[64] 1 := by decide +kernel

lemma iterate_xor (n : Nat) (a b : UInt64) : nextSeed^[n] (a ^^^ b) = nextSeed^[n] a ^^^ nextSeed^[n] b := by
  induction n generalizing a b with
  | zero => rfl
  | succ n ih => simp only [iterate_succ_apply, nextSeed_xor, ih]

lemma iterate_combine (n digits p : Nat) (x : UInt64) :
    nextSeed^[n] (combine nextSeed digits p x) = combine nextSeed digits p (nextSeed^[n] x) :=
  combine_map (iterate_nextSeed_zero n) (iterate_xor n)
    (fun a => (iterate_succ_apply nextSeed n a).symm.trans (iterate_succ_apply' nextSeed n a)) digits p x

lemma seedOf_timesX (p : Nat) : seedOf (timesX p) = nextSeed (seedOf p) := by
  have hmodulus : seedOf (p / 2 ^ 63 % 2 * modulus) =
      if p / 2 ^ 63 % 2 = 1 then nextSeed^[64] 1 else 0 := by
    rcases Nat.mod_two_eq_zero_or_one (p / 2 ^ 63) with h | h
    · rw [h, Nat.zero_mul, if_neg Nat.zero_ne_one, seedOf_zero]
    · rw [h, Nat.one_mul, if_pos rfl, seedOf_modulus]
  have hdouble : seedOf (2 * p) = nextSeed (combine nextSeed 63 p 1) :=
    (combine_two_mul 63 p 1).trans (iterate_combine 1 63 p 1).symm
  have hsplit : seedOf p = combine nextSeed 63 p 1 ^^^ if p / 2 ^ 63 % 2 = 1 then nextSeed^[63] 1 else 0 :=
    combine_succ 63 p 1
  rw [timesX, seedOf_xor, hdouble, hmodulus, hsplit, nextSeed_xor, apply_ite nextSeed, nextSeed_zero,
    ← iterate_succ_apply' nextSeed 63 1]

lemma seedOf_product (p q : Nat) : seedOf (product p q) = combine nextSeed 64 p (seedOf q) :=
  combine_map seedOf_zero seedOf_xor seedOf_timesX 64 p q

lemma seedOf_power {digits n : Nat} (h : n < 2 ^ digits) : seedOf (power digits n) = nextSeed^[n] 1 := by
  induction digits generalizing n with
  | zero =>
    obtain rfl : n = 0 := Nat.lt_one_iff.mp h
    exact seedOf_one
  | succ digits ih =>
    have hhalf : seedOf (power digits (n / 2)) = nextSeed^[n / 2] 1 := ih (by omega)
    have hsquare :
        seedOf (product (power digits (n / 2)) (power digits (n / 2))) = nextSeed^[n / 2 + n / 2] 1 := by
      rw [seedOf_product, hhalf, ← iterate_combine, iterate_add_apply]
      exact congrArg _ hhalf
    rw [power]
    split
    case isTrue hodd =>
      rw [seedOf_timesX, hsquare, ← iterate_succ_apply' nextSeed]
      congr 1
      omega
    case isFalse heven =>
      rw [hsquare]
      congr 1
      omega

/-- The prime factors `q` of `2 ^ 64 - 1`, each with the inverse of `X ^ ((2 ^ 64 - 1) / q) - 1`. -/
def inverses : List (Nat × Nat) :=
  [(3, 0x60E71579575698B8), (5, 0x2DFD563D8DF4DACB), (17, 0xE1ABB9B6D5614B7), (257, 0x1934106F6E3C47A3),
    (641, 0x52D7E7E1FC2212EF), (65537, 0x6E23C80B59C2BAA2), (6700417, 0x77BD2FDF157C6FC9)]

lemma power_period : power 64 (2 ^ 64 - 1) = 1 := by decide +kernel

lemma product_inverse :
    ∀ pair ∈ inverses, product pair.2 (power 64 ((2 ^ 64 - 1) / pair.1) ^^^ 1) = 1 := by decide +kernel

lemma exists_inverse {q : Nat} (hq : q.Prime) (hdvd : q ∣ 2 ^ 64 - 1) :
    ∃ p, product p (power 64 ((2 ^ 64 - 1) / q) ^^^ 1) = 1 := by
  have hprime : ∀ q ∈ inverses.map Prod.fst, Prime q := by
    simp only [inverses, List.map_cons, List.map_nil, List.forall_mem_cons, ← Nat.prime_iff]
    norm_num
  have hprod : (inverses.map Prod.fst).prod = 2 ^ 64 - 1 := by decide +kernel
  obtain ⟨pair, hpair, rfl⟩ := List.mem_map.mp (mem_list_primes_of_dvd_prod hq.prime hprime (hprod ▸ hdvd))
  exact ⟨pair.2, product_inverse pair hpair⟩

lemma isPeriodicPt_one : IsPeriodicPt nextSeed (2 ^ 64 - 1) 1 := by
  have hpower : seedOf (power 64 (2 ^ 64 - 1)) = nextSeed^[2 ^ 64 - 1] 1 := seedOf_power (by norm_num)
  rw [power_period, seedOf_one] at hpower
  exact hpower.symm

lemma not_isPeriodicPt_one {q : Nat} (hq : q.Prime) (hdvd : q ∣ 2 ^ 64 - 1) :
    ¬ IsPeriodicPt nextSeed ((2 ^ 64 - 1) / q) 1 := by
  intro hperiodic
  obtain ⟨p, hp⟩ := exists_inverse hq hdvd
  have hpower : seedOf (power 64 ((2 ^ 64 - 1) / q)) = nextSeed^[(2 ^ 64 - 1) / q] 1 :=
    seedOf_power (Nat.lt_of_le_of_lt (Nat.div_le_self _ _) (by norm_num))
  have hzero : seedOf (power 64 ((2 ^ 64 - 1) / q) ^^^ 1) = 0 := by
    rw [seedOf_xor, hpower, hperiodic.eq, seedOf_one, UInt64.xor_self]
  -- what has an inverse is not zero at the seed one
  have hunit := seedOf_product p (power 64 ((2 ^ 64 - 1) / q) ^^^ 1)
  rw [hp, hzero, seedOf_one, combine_zero] at hunit
  exact absurd hunit (by decide)

lemma minimalPeriod_one : minimalPeriod nextSeed 1 = 2 ^ 64 - 1 :=
  minimalPeriod_eq_of_prime isPeriodicPt_one fun _ => not_isPeriodicPt_one

end SeedPolynomial

namespace NodeSupply

open SeedPolynomial

lemma injOn_iterate {f : UInt64 → UInt64} (hf : Injective f) {seed : UInt64} {n : Nat}
    (hn : n ≤ minimalPeriod nextSeed seed) :
    Set.InjOn (fun k => (f (nextSeed^[k] seed)).toNat) (Finset.range n) := by
  intro k hk l hl hkl
  rw [Finset.mem_coe, Finset.mem_range] at hk hl
  exact iterate_injOn_Iio_minimalPeriod (Nat.lt_of_lt_of_le hk hn) (Nat.lt_of_lt_of_le hl hn)
    (hf (UInt64.toNat_inj.mp hkl))

lemma exists_iterate_one_eq {seed : UInt64} (h : seed ≠ 0) : ∃ n, nextSeed^[n] 1 = seed := by
  have hmem : ∀ seed : UInt64, seed ≠ 0 → seed.toNat ∈ (Finset.Ico 1 (2 ^ 64) : Set Nat) := by
    intro seed hseed
    rw [Finset.mem_coe, Finset.mem_Ico]
    exact ⟨toNat_pos hseed, seed.toNat_lt⟩
  have hmaps : Set.MapsTo (fun n => (nextSeed^[n] 1).toNat) (Finset.range (2 ^ 64 - 1))
      (Finset.Ico 1 (2 ^ 64)) :=
    fun n _ => hmem _ (iterate_nextSeed_ne_zero (by decide) n)
  have hcard : (Finset.Ico 1 (2 ^ 64)).card ≤ (Finset.range (2 ^ 64 - 1)).card := by
    rw [Nat.card_Ico, Finset.card_range]
  have hinj := injOn_iterate injective_id (Nat.le_of_eq minimalPeriod_one.symm)
  obtain ⟨n, -, hn⟩ := Finset.surjOn_of_injOn_of_card_le _ hmaps hinj hcard (hmem seed h)
  exact ⟨n, UInt64.toNat_inj.mp hn⟩

theorem minimalPeriod_nextSeed {seed : UInt64} (h : seed ≠ 0) : minimalPeriod nextSeed seed = 2 ^ 64 - 1 := by
  obtain ⟨n, rfl⟩ := exists_iterate_one_eq h
  rw [minimalPeriod_apply_iterate (mk_mem_periodicPts (by norm_num) isPeriodicPt_one), minimalPeriod_one]

end NodeSupply

end EditableText
