/-
Module: SuperCalls.Proofs.Text.NearestDouble
Purpose: The double nearest to a fraction.  The whole number that a fraction is read as is the value of
  a finite double to which no double is nearer, and of two that are as near the even one.
Main exports: Double, Double.Nearest, RoundsTo, Double.Step, Double.exists_nearest_iff,
  Text.step_binaryExponent, Text.wholeDouble?_eq_some_iff
-/
import Mathlib.Algebra.Order.Field.Power
import Mathlib.Data.Nat.Log
import Mathlib.Data.Rat.Cast.Order
import Mathlib.Tactic.FieldSimp
import Mathlib.Tactic.Linarith
import Mathlib.Tactic.NormNum
import Mathlib.Tactic.Positivity
import Mathlib.Tactic.Ring
import SuperCalls.Text.Numeral

namespace SuperCalls

/-!
### Doubles

A double is a number of steps, and a step is a power of two.  It takes the smallest step for which
fewer than `2 ^ 53` of them are needed, so it has one form.  Steps have no upper bound here: a number
that is rounded to `2 ^ 1024` or beyond is rounded to infinity.
-/

/-- A double that is not below zero. -/
structure Double where
  mantissa : ℕ
  exponent : ℤ
  mantissa_lt : mantissa < 2 ^ 53
  exponent_ge : -1074 ≤ exponent
  normal : 2 ^ 52 ≤ mantissa ∨ exponent = -1074

namespace Double

/-- The number that a double stands for. -/
def value (d : Double) : ℚ :=
  d.mantissa * 2 ^ d.exponent

/-- No double is nearer to a number, and one of even mantissa is preferred to another that is as
near. -/
structure Nearest (d : Double) (x : ℚ) : Prop where
  closest : ∀ other : Double, |x - d.value| ≤ |x - other.value|
  even : ∀ other : Double, |x - d.value| = |x - other.value| →
    other.value = d.value ∨ Even d.mantissa

end Double

/-!
### The nearest whole number
-/

/-- A whole number is nearest to a number, and of two the even one. -/
structure RoundsTo (x : ℚ) (m : ℕ) : Prop where
  near : |x - m| ≤ 1 / 2
  even : |x - m| = 1 / 2 → Even m

/-- From one whole number past a number to another one it is at least a unit. -/
theorem one_le_abs_add {m k : ℕ} (apart : k ≠ m) (x : ℚ) : 1 ≤ |x - m| + |x - k| := by
  have units : (1 : ℚ) ≤ |(m : ℚ) - k| := by
    have whole : (1 : ℤ) ≤ |(m : ℤ) - k| := Int.one_le_abs (by omega)
    exact_mod_cast whole
  have way := abs_sub_le (m : ℚ) x k
  rw [abs_sub_comm (m : ℚ) x] at way
  linarith

namespace RoundsTo

variable {x : ℚ} {m : ℕ} (rounds : RoundsTo x m)

include rounds

/-- Half a unit is enough to be nearest. -/
theorem le_abs (k : ℕ) : |x - m| ≤ |x - k| := by
  by_cases same : k = m
  · rw [same]
  · have near := rounds.near
    have units := one_le_abs_add same x
    linarith

/-- A whole number that is as near is the same or an odd one beside an even one. -/
theorem eq_or_odd {k : ℕ} (alike : |x - m| = |x - k|) : k = m ∨ Even m ∧ ¬ Even k := by
  by_cases same : k = m
  · exact Or.inl same
  right
  have near := rounds.near
  have units := one_le_abs_add same x
  have beside : |(m : ℤ) - k| ≤ 1 := by
    have way := abs_sub_le (m : ℚ) x k
    rw [abs_sub_comm (m : ℚ) x] at way
    have close : |(m : ℚ) - k| ≤ 1 := by linarith
    exact_mod_cast close
  have even := rounds.even (by linarith)
  refine ⟨even, fun also => same ?_⟩
  obtain ⟨a, rfl⟩ := even
  obtain ⟨b, rfl⟩ := also
  obtain ⟨up, down⟩ := abs_le.mp beside
  omega

theorem ge_of_ge {n : ℕ} (above : (n : ℚ) ≤ x) : n ≤ m := by
  by_contra below
  have gap : (m : ℚ) + 1 ≤ n := by exact_mod_cast Nat.lt_of_not_le below
  have near := (abs_le.mp rounds.near).2
  linarith

theorem le_of_lt {n : ℕ} (below : x < n) : m ≤ n := by
  by_contra above
  have gap : (n : ℚ) + 1 ≤ m := by exact_mod_cast Nat.lt_of_not_le above
  have near := (abs_le.mp rounds.near).1
  linarith

end RoundsTo

/-- A quotient with a rest is rounded by what the rest is of the divisor. -/
theorem Text.roundsTo_roundHalfEven (p : ℕ) {q : ℕ} (positive : 0 < q) :
    RoundsTo (p / q) (roundHalfEven p q) := by
  have unit : (0 : ℚ) < q := by exact_mod_cast positive
  have whole : (p : ℚ) / q = (p / q : ℕ) + ((p % q : ℕ) : ℚ) / q := by
    have split : (q : ℚ) * (p / q : ℕ) + (p % q : ℕ) = p := by exact_mod_cast Nat.div_add_mod p q
    field_simp
    linarith
  have least : (0 : ℚ) ≤ ((p % q : ℕ) : ℚ) / q := by positivity
  have most : ((p % q : ℕ) : ℚ) / q < 1 := by
    rw [div_lt_one unit]
    exact_mod_cast Nat.mod_lt p positive
  have half (c : ℚ) : c / q < 1 / 2 ↔ 2 * c < q := by
    rw [div_lt_div_iff₀ unit two_pos]
    constructor <;> intro <;> linarith
  have half' (c : ℚ) : 1 / 2 < c / q ↔ q < 2 * c := by
    rw [div_lt_div_iff₀ two_pos unit]
    constructor <;> intro <;> linarith
  have below := half ((p % q : ℕ) : ℚ)
  have above := half' ((p % q : ℕ) : ℚ)
  rw [whole]
  generalize ((p % q : ℕ) : ℚ) / q = rest at least most below above
  unfold roundHalfEven
  generalize p / q = low
  simp only
  split
  · next small =>
      have less : rest < 1 / 2 := below.mpr (by exact_mod_cast small)
      constructor
      · rw [abs_le]
        constructor <;> linarith
      · intro tie
        rw [abs_of_nonneg (by linarith)] at tie
        linarith
  split
  · next great =>
      have more : 1 / 2 < rest := above.mpr (by exact_mod_cast great)
      constructor
      · push_cast
        rw [abs_le]
        constructor <;> linarith
      · intro tie
        push_cast at tie
        rw [abs_of_nonpos (by linarith)] at tie
        linarith
  · next small great =>
      -- the rest is half of the divisor
      have low' : ¬ rest < 1 / 2 := fun less => small (by exact_mod_cast below.mp less)
      have high : ¬ 1 / 2 < rest := fun more => great (by exact_mod_cast above.mp more)
      have tie : rest = 1 / 2 := le_antisymm (not_lt.mp high) (not_lt.mp low')
      split
      · next even =>
          refine ⟨?_, fun _ => Nat.even_iff.mpr even⟩
          rw [tie, abs_le]
          constructor <;> linarith
      · next odd =>
          refine ⟨?_, fun _ => Nat.even_iff.mpr (by omega)⟩
          push_cast
          rw [tie, abs_le]
          constructor <;> linarith

/-!
### The step for a number
-/

namespace Double

/-- The exponent of the step that doubles near a number take. -/
structure Step (x : ℚ) (e : ℤ) : Prop where
  least : -1074 ≤ e
  lt : x < 2 ^ 53 * 2 ^ e
  le : e = -1074 ∨ 2 ^ 52 * 2 ^ e ≤ x

variable {x : ℚ} {e : ℤ} {m : ℕ}

theorem two_zpow_pos (e : ℤ) : (0 : ℚ) < 2 ^ e :=
  zpow_pos two_pos e

/-- A number of larger steps is a number of steps, an odd one only if the steps are the same. -/
theorem exists_steps {d : Double} (above : e ≤ d.exponent) :
    ∃ k : ℕ, d.value = k * 2 ^ e ∧ (¬ Even k → ¬ Even d.mantissa) := by
  obtain ⟨n, more⟩ := Int.le.dest above
  refine ⟨d.mantissa * 2 ^ n, ?_, fun odd even => odd (even.mul_right _)⟩
  rw [value, ← more, zpow_add₀ two_ne_zero, zpow_natCast]
  push_cast
  ring

/-- Doubles with a smaller step are below all numbers of the step. -/
theorem value_lt_of_exponent_lt {d : Double} (below : d.exponent < e) :
    d.value < 2 ^ 52 * 2 ^ e := by
  have steps : (d.mantissa : ℚ) < 2 ^ 53 := by exact_mod_cast d.mantissa_lt
  have smaller : (2 : ℚ) ^ d.exponent ≤ 2 ^ (e - 1) :=
    zpow_le_zpow_right₀ one_le_two (by omega)
  calc d.value < 2 ^ 53 * 2 ^ d.exponent := mul_lt_mul_of_pos_right steps (two_zpow_pos _)
    _ ≤ 2 ^ 53 * 2 ^ (e - 1) := mul_le_mul_of_nonneg_left smaller (by positivity)
    _ = 2 ^ 52 * 2 ^ e := by
        rw [zpow_sub_one₀ two_ne_zero]
        ring

/-- A distance is as many steps as the numbers of steps are apart. -/
theorem abs_sub_steps (x : ℚ) (e : ℤ) (k : ℕ) :
    |x - k * 2 ^ e| = |x / 2 ^ e - k| * 2 ^ e := by
  have positive := two_zpow_pos e
  rw [← abs_of_pos positive, ← abs_mul, abs_of_pos positive, sub_mul,
    div_mul_cancel₀ _ positive.ne']

section

variable (step : Step x e) (rounds : RoundsTo (x / 2 ^ e) m)

include step rounds

theorem mantissa_le : m ≤ 2 ^ 53 := by
  apply rounds.le_of_lt
  rw [div_lt_iff₀ (two_zpow_pos e)]
  exact_mod_cast step.lt

theorem le_mantissa (normal : e ≠ -1074) : 2 ^ 52 ≤ m := by
  apply rounds.ge_of_ge
  rw [le_div_iff₀ (two_zpow_pos e)]
  exact_mod_cast step.le.resolve_left normal

/-- No double is nearer than the rounded number of steps.  Of two that are as near the mantissa of the
other one is odd. -/
theorem le_abs_steps (other : Double) :
    |x - m * 2 ^ e| ≤ |x - other.value| ∧
      (|x - m * 2 ^ e| = |x - other.value| →
        other.value = m * 2 ^ e ∨ Even m ∧ ¬ Even other.mantissa) := by
  have positive := two_zpow_pos e
  rcases le_or_gt e other.exponent with above | below
  · obtain ⟨k, same, odd⟩ := exists_steps above
    rw [same, abs_sub_steps, abs_sub_steps]
    refine ⟨mul_le_mul_of_nonneg_right (rounds.le_abs k) positive.le, fun alike => ?_⟩
    rcases rounds.eq_or_odd (mul_right_cancel₀ positive.ne' alike) with rfl | ⟨even, uneven⟩
    · exact Or.inl rfl
    · exact Or.inr ⟨even, odd uneven⟩
  · -- the number is not below the least normal one of its step, which the other double is below
    have normal : 2 ^ 52 * 2 ^ e ≤ x := by
      refine step.le.resolve_left ?_
      have least := other.exponent_ge
      omega
    have less := value_lt_of_exponent_lt below
    have nearer : |x - m * 2 ^ e| < |x - other.value| :=
      calc |x - m * 2 ^ e| ≤ |x - (2 ^ 52 : ℕ) * 2 ^ e| := by
            rw [abs_sub_steps, abs_sub_steps]
            exact mul_le_mul_of_nonneg_right (rounds.le_abs _) positive.le
        _ = x - 2 ^ 52 * 2 ^ e := by
            push_cast
            exact abs_of_nonneg (sub_nonneg.mpr normal)
        _ < x - other.value := sub_lt_sub_left less x
        _ ≤ |x - other.value| := le_abs_self _
    exact ⟨nearer.le, fun alike => absurd alike nearer.ne⟩

/-- The rounded number of steps is a double, whose mantissa is even if the number is. -/
theorem exists_value_eq : ∃ d : Double, d.value = m * 2 ^ e ∧ (Even m → Even d.mantissa) := by
  rcases (mantissa_le step rounds).lt_or_eq with less | carry
  · refine ⟨⟨m, e, less, step.least, ?_⟩, rfl, id⟩
    by_cases least : e = -1074
    · exact Or.inr least
    · exact Or.inl (le_mantissa step rounds least)
  · refine ⟨⟨2 ^ 52, e + 1, by norm_num, ?_, Or.inl le_rfl⟩, ?_, fun _ => ?_⟩
    · have least := step.least
      omega
    · rw [value, carry, zpow_add_one₀ two_ne_zero]
      push_cast
      ring
    · exact Nat.even_pow.mpr ⟨even_two, by norm_num⟩

/-- The value of a nearest double is the rounded number of steps. -/
theorem exists_nearest_iff {y : ℚ} :
    (∃ d : Double, d.Nearest x ∧ d.value = y) ↔ y = m * 2 ^ e := by
  obtain ⟨own, value, even⟩ := exists_value_eq step rounds
  constructor
  · rintro ⟨d, nearest, rfl⟩
    have alike : |x - m * 2 ^ e| = |x - d.value| :=
      le_antisymm (le_abs_steps step rounds d).1 (value ▸ nearest.closest own)
    rcases (le_abs_steps step rounds d).2 alike with same | ⟨tie, odd⟩
    · exact same
    · rw [← value] at alike ⊢
      exact ((nearest.even own alike.symm).resolve_right odd).symm
  · rintro rfl
    refine ⟨own, ⟨fun other => ?_, fun other alike => ?_⟩, value⟩
    · rw [value]
      exact (le_abs_steps step rounds other).1
    · rw [value] at alike ⊢
      exact ((le_abs_steps step rounds other).2 alike).imp_right fun tie => even tie.1

end

/-- A number of half a least step at most is nearest to zero. -/
theorem exists_nearest_iff_of_small (positive : 0 ≤ x) (small : x ≤ 2 ^ (-1075 : ℤ)) {y : ℚ} :
    (∃ d : Double, d.Nearest x ∧ d.value = y) ↔ y = 0 := by
  have unit := two_zpow_pos (-1074)
  have half : (2 : ℚ) ^ (-1075 : ℤ) = 1 / 2 * 2 ^ (-1074 : ℤ) := by
    rw [show (-1075 : ℤ) = -1074 - 1 from rfl, zpow_sub_one₀ two_ne_zero]
    ring
  have step : Step x (-1074) := ⟨le_rfl, by linarith, Or.inl rfl⟩
  have rounds : RoundsTo (x / 2 ^ (-1074 : ℤ)) 0 := by
    refine ⟨?_, fun _ => Even.zero⟩
    rw [Nat.cast_zero, sub_zero, abs_of_nonneg (div_nonneg positive unit.le), div_le_iff₀ unit]
    linarith
  rw [exists_nearest_iff step rounds, Nat.cast_zero, zero_mul]

/-- The doubles nearest to a number that is too great are infinite. -/
theorem Nearest.le_value_of_great {d : Double} (nearest : d.Nearest x) (great : 2 ^ 1024 ≤ x) :
    2 ^ 1024 ≤ d.value := by
  let first : Double := ⟨2 ^ 52, 972, by norm_num, by norm_num, Or.inl le_rfl⟩
  have own : first.value = 2 ^ 1024 := by
    show ((2 ^ 52 : ℕ) : ℚ) * 2 ^ (972 : ℤ) = 2 ^ 1024
    rw [Nat.cast_pow, Nat.cast_ofNat, show (972 : ℤ) = (972 : ℕ) from rfl, zpow_natCast, ← pow_add]
  have closest := nearest.closest first
  rw [own, abs_of_nonneg (sub_nonneg.mpr great)] at closest
  exact (sub_le_sub_iff_left x).mp ((le_abs_self _).trans closest)

end Double

/-!
### Fractions
-/

namespace Text

variable {p q : ℕ}

/-- The powers of two that a fraction is between. -/
theorem fraction_between (p_pos : 0 < p) (q_pos : 0 < q) :
    (2 : ℚ) ^ ((p.log2 : ℤ) - q.log2 - 1) < p / q ∧ (p / q : ℚ) < 2 ^ ((p.log2 : ℤ) - q.log2 + 1) := by
  have q_pos' : (0 : ℚ) < q := by exact_mod_cast q_pos
  have low (n : ℕ) (positive : 0 < n) : (2 : ℚ) ^ (n.log2 : ℤ) ≤ n := by
    rw [zpow_natCast]
    exact_mod_cast Nat.log2_self_le positive.ne'
  have high (n : ℕ) : (n : ℚ) < 2 ^ ((n.log2 : ℤ) + 1) := by
    have above := Nat.lt_log2_self (n := n)
    exact_mod_cast above
  have power (a b : ℤ) : (2 : ℚ) ^ (a - b) * 2 ^ b = 2 ^ a := by
    rw [← zpow_add₀ two_ne_zero, sub_add_cancel]
  constructor
  · rw [lt_div_iff₀ q_pos']
    calc (2 : ℚ) ^ ((p.log2 : ℤ) - q.log2 - 1) * q
        < 2 ^ ((p.log2 : ℤ) - q.log2 - 1) * 2 ^ ((q.log2 : ℤ) + 1) :=
          mul_lt_mul_of_pos_left (high q) (Double.two_zpow_pos _)
      _ = 2 ^ (p.log2 : ℤ) := by rw [sub_sub, power]
      _ ≤ p := low p p_pos
  · rw [div_lt_iff₀ q_pos']
    calc (p : ℚ) < 2 ^ ((p.log2 : ℤ) + 1) := high p
      _ = 2 ^ ((p.log2 : ℤ) - q.log2 + 1) * 2 ^ (q.log2 : ℤ) := by
          rw [← zpow_add₀ two_ne_zero]
          congr 1
          ring
      _ ≤ 2 ^ ((p.log2 : ℤ) - q.log2 + 1) * q :=
          mul_le_mul_of_nonneg_left (low q q_pos) (Double.two_zpow_pos _).le

/-- A fraction is compared with a power of two by products of natural numbers. -/
theorem two_zpow_le_fraction_iff (q_pos : 0 < q) (e : ℤ) :
    (if 0 ≤ e then decide (Nat.pow 2 (52 + e.toNat) * q ≤ p)
      else decide (Nat.pow 2 52 * q ≤ p * Nat.pow 2 (-e).toNat)) = true ↔
      (2 : ℚ) ^ 52 * 2 ^ e ≤ p / q := by
  have q_pos' : (0 : ℚ) < q := by exact_mod_cast q_pos
  rw [le_div_iff₀ q_pos']
  split
  · next up =>
      obtain ⟨n, rfl⟩ := Int.eq_ofNat_of_zero_le up
      rw [decide_eq_true_eq, Int.toNat_natCast, Nat.pow_eq, zpow_natCast, ← pow_add]
      norm_cast
  · next down =>
      obtain ⟨n, rfl⟩ : ∃ n : ℕ, e = -n := ⟨(-e).toNat, by omega⟩
      have positive : (0 : ℚ) < 2 ^ n := by positivity
      rw [decide_eq_true_eq, neg_neg, Int.toNat_natCast, Nat.pow_eq, Nat.pow_eq, zpow_neg,
        zpow_natCast, ← div_eq_mul_inv, div_mul_eq_mul_div, div_le_iff₀ positive]
      norm_cast

/-- The exponent for a fraction is that of its step. -/
theorem step_binaryExponent (p_pos : 0 < p) (q_pos : 0 < q) :
    Double.Step (p / q) (binaryExponent p q) := by
  obtain ⟨low, high⟩ := fraction_between p_pos q_pos
  have power (a : ℕ) (e : ℤ) : (2 : ℚ) ^ a * 2 ^ e = 2 ^ (a + e) := by
    rw [zpow_add₀ two_ne_zero, zpow_natCast]
  -- the guess is the exponent, or one more than it
  obtain ⟨e, chosen, above, below⟩ : ∃ e, binaryExponent p q = max (-1074) e ∧
      (2 : ℚ) ^ 52 * 2 ^ e ≤ p / q ∧ (p / q : ℚ) < 2 ^ 53 * 2 ^ e := by
    have fits := two_zpow_le_fraction_iff (p := p) q_pos ((p.log2 : ℤ) - q.log2 - 52)
    unfold binaryExponent
    simp only
    by_cases fit : (2 : ℚ) ^ 52 * 2 ^ ((p.log2 : ℤ) - q.log2 - 52) ≤ p / q
    · refine ⟨_, by rw [if_pos (fits.mpr fit)], fit, high.trans_eq ?_⟩
      rw [power]
      congr 1
      push_cast
      ring
    · refine ⟨_, by rw [if_neg (mt fits.mp fit)], (Eq.trans_lt ?_ low).le, (not_le.mp fit).trans_eq ?_⟩
      all_goals
        rw [power]
        try rw [power]
        congr 1
        push_cast
        ring
  rw [chosen]
  refine ⟨le_max_left _ _, below.trans_le ?_, ?_⟩
  · have larger : (2 : ℚ) ^ e ≤ 2 ^ max (-1074) e :=
      zpow_le_zpow_right₀ one_le_two (le_max_right _ _)
    exact mul_le_mul_of_nonneg_left larger (by positivity)
  · rcases le_total e (-1074) with small | great
    · exact Or.inl (max_eq_left small)
    · rw [max_eq_right great]
      exact Or.inr above

theorem natCast_lt_two_pow_iff (n b : ℕ) : (n : ℚ) < 2 ^ b ↔ n < Nat.pow 2 b := by
  rw [Nat.pow_eq]
  norm_cast

theorem two_pow_lt_of_lt {a b : ℕ} (less : a < b) : 2 ^ a < Nat.pow 2 b :=
  Nat.pow_lt_pow_right one_lt_two less

/-- Large steps make a whole number, which can be too great. -/
theorem large_steps_eq_some_iff (bound m k n : ℕ) :
    (if m * 2 ^ k < bound then some (m * 2 ^ k) else none) = some n ↔
      (n : ℚ) = m * 2 ^ (k : ℤ) ∧ n < bound := by
  have cast : (n : ℚ) = m * 2 ^ (k : ℤ) ↔ m * 2 ^ k = n := by
    rw [zpow_natCast, eq_comm]
    norm_cast
  rw [cast]
  split
  · next less =>
      rw [Option.some.injEq]
      constructor
      · rintro rfl
        exact ⟨rfl, less⟩
      · exact And.left
  · next great =>
      refine ⟨nofun, ?_⟩
      rintro ⟨rfl, less⟩
      exact absurd less great

/-- Small steps make a whole number if there are enough of them, and never one that is too great. -/
theorem small_steps_eq_some_iff {bound m : ℕ} (short : m < bound) (k n : ℕ) :
    (if m % 2 ^ k = 0 then some (m / 2 ^ k) else none) = some n ↔
      (n : ℚ) = m * 2 ^ (-k : ℤ) ∧ n < bound := by
  have cast : (n : ℚ) = m * 2 ^ (-k : ℤ) ↔ n * 2 ^ k = m := by
    rw [zpow_neg, zpow_natCast, ← div_eq_mul_inv, eq_div_iff (by positivity)]
    norm_cast
  have positive := Nat.two_pow_pos k
  rw [cast]
  split
  · next whole =>
      obtain ⟨j, rfl⟩ := Nat.dvd_of_mod_eq_zero whole
      rw [Nat.mul_div_cancel_left j positive, Option.some.injEq, Nat.mul_comm n,
        Nat.mul_right_inj positive.ne', eq_comm]
      refine ⟨fun same => ⟨same, ?_⟩, And.left⟩
      rw [same]
      exact (Nat.le_mul_of_pos_left j positive).trans_lt short
  · next broken =>
      refine ⟨nofun, ?_⟩
      rintro ⟨rfl, -⟩
      exact absurd (Nat.mul_mod_left n _) broken

/-- The rounded number of steps of a fraction is read as a whole number if it is one and below a
bound. -/
theorem exists_steps_eq_some_iff {bound : ℕ} (above : 2 ^ 53 < bound) (q_pos : 0 < q) {e : ℤ}
    (step : Double.Step (p / q) e) (n : ℕ) :
    ∃ m, RoundsTo (p / q / 2 ^ e) m ∧
      ((if 0 ≤ e then
          if roundHalfEven p (q * Nat.pow 2 e.toNat) * Nat.pow 2 e.toNat < bound then
            some (roundHalfEven p (q * Nat.pow 2 e.toNat) * Nat.pow 2 e.toNat)
          else none
        else if roundHalfEven (p * Nat.pow 2 (-e).toNat) q % Nat.pow 2 (-e).toNat = 0 then
          some (roundHalfEven (p * Nat.pow 2 (-e).toNat) q / Nat.pow 2 (-e).toNat)
        else none) = some n ↔
        (n : ℚ) = m * 2 ^ e ∧ n < bound) := by
  split
  · next up =>
      obtain ⟨k, rfl⟩ := Int.eq_ofNat_of_zero_le up
      have rounds := roundsTo_roundHalfEven p (Nat.mul_pos q_pos (Nat.two_pow_pos k))
      have scaled : (p : ℚ) / (q * 2 ^ k : ℕ) = p / q / 2 ^ (k : ℤ) := by
        rw [zpow_natCast, Nat.cast_mul, Nat.cast_pow, Nat.cast_ofNat, div_div]
      rw [scaled] at rounds
      refine ⟨_, rounds, ?_⟩
      rw [Int.toNat_natCast, Nat.pow_eq]
      exact large_steps_eq_some_iff bound _ k n
  · next down =>
      obtain ⟨k, rfl⟩ : ∃ k : ℕ, e = -k := ⟨(-e).toNat, by omega⟩
      have rounds := roundsTo_roundHalfEven (p * 2 ^ k) q_pos
      have scaled : ((p * 2 ^ k : ℕ) : ℚ) / q = p / q / 2 ^ (-k : ℤ) := by
        rw [zpow_neg, zpow_natCast, div_inv_eq_mul, Nat.cast_mul, Nat.cast_pow, Nat.cast_ofNat,
          mul_div_right_comm]
      rw [scaled] at rounds
      have short := (Double.mantissa_le step rounds).trans_lt above
      refine ⟨_, rounds, ?_⟩
      rw [neg_neg, Int.toNat_natCast, Nat.pow_eq]
      exact small_steps_eq_some_iff short k n

/-- A fraction is read as a whole number if the double nearest to it is finite and is that number. -/
theorem wholeDouble?_eq_some_iff (q_pos : 0 < q) {n : ℕ} :
    wholeDouble? p q = some n ↔
      (n : ℚ) < 2 ^ 1024 ∧ ∃ d : Double, d.Nearest (p / q) ∧ d.value = n := by
  rcases Nat.eq_zero_or_pos p with rfl | p_pos
  · rw [Nat.cast_zero, zero_div,
      Double.exists_nearest_iff_of_small le_rfl (Double.two_zpow_pos _).le, Nat.cast_eq_zero]
    constructor
    · rintro ⟨⟩
      exact ⟨by positivity, rfl⟩
    · rintro ⟨-, rfl⟩
      rfl
  · have step := step_binaryExponent p_pos q_pos
    -- the greatest exponent is kept as a name, so that no proof computes its power
    obtain ⟨b, same, above⟩ : ∃ b, b = 1024 ∧ 53 < b := ⟨1024, rfl, by norm_num⟩
    obtain ⟨m, rounds, read⟩ := exists_steps_eq_some_iff (two_pow_lt_of_lt above) q_pos step n
    unfold wholeDouble?
    rw [if_neg p_pos.ne', Double.exists_nearest_iff step rounds, ← same, natCast_lt_two_pow_iff,
      and_comm, ← read]

end Text

end SuperCalls
