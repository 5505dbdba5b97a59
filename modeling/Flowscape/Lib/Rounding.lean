import Mathlib.Data.Int.Log
import Mathlib.Data.Nat.Prime.Basic
import Mathlib.Data.Rat.Floor
import Mathlib.Tactic.Positivity

/-!
# Rounding to a floating point format

A format has the numbers with a mantissa of so many binary digits, down to a smallest last place.
`round` takes a rational to the nearest of them, and of two that are equally near to the one with
the even mantissa.

* What is in the format stays as it is (`round_eq_self_iff`).
* Everywhere else the error is at most half of the last place, which is a fixed part of the number
  itself unless the number is very small (`abs_round_sub_le`).

There is no largest number here: what a format does with numbers that are too large for it is left
to those who use it.
-/

namespace Rounding

/-! ## Whole numbers -/

/-- The integer that is nearest to `q`, the even one if two are. -/
def nearest (q : ℚ) : ℤ :=
  if Int.fract q < 1 / 2 then ⌊q⌋
  else if 1 / 2 < Int.fract q then ⌊q⌋ + 1
  else if Even ⌊q⌋ then ⌊q⌋
  else ⌊q⌋ + 1

/-- The nearest integer is the one below or the one above, whichever is not the farther one. -/
theorem nearest_cases (q : ℚ) : (nearest q = ⌊q⌋ ∧ Int.fract q ≤ 1 / 2) ∨
    (nearest q = ⌊q⌋ + 1 ∧ 1 / 2 ≤ Int.fract q) := by
  unfold nearest
  split
  · next h => exact Or.inl ⟨rfl, h.le⟩
  next hlow =>
  split
  · next h => exact Or.inr ⟨rfl, h.le⟩
  next hhigh =>
  -- half way between two integers
  have hhalf : Int.fract q = 1 / 2 := le_antisymm (not_lt.1 hhigh) (not_lt.1 hlow)
  split
  · exact Or.inl ⟨rfl, hhalf.le⟩
  · exact Or.inr ⟨rfl, hhalf.ge⟩

/-- The nearest integer is at most a half away. -/
theorem abs_nearest_sub_le (q : ℚ) : |(nearest q : ℚ) - q| ≤ 1 / 2 := by
  have hq : (⌊q⌋ : ℚ) + Int.fract q = q := Int.floor_add_fract q
  have hnonneg := Int.fract_nonneg q
  have hlt := Int.fract_lt_one q
  rw [abs_le]
  rcases nearest_cases q with ⟨heq, hle⟩ | ⟨heq, hle⟩
  · rw [heq]
    constructor <;> linarith
  · rw [heq, Int.cast_add, Int.cast_one]
    constructor <;> linarith

@[simp] theorem nearest_intCast (n : ℤ) : nearest (n : ℚ) = n := by
  rw [nearest, Int.fract_intCast, if_pos (by norm_num), Int.floor_intCast]

theorem nearest_nonneg {q : ℚ} (h : 0 ≤ q) : 0 ≤ nearest q := by
  have hfloor : 0 ≤ ⌊q⌋ := Int.floor_nonneg.2 h
  rcases nearest_cases q with ⟨heq, -⟩ | ⟨heq, -⟩ <;> omega

/-! ## Formats -/

/-- The digits of a mantissa, and the exponent of the smallest last place. -/
structure Format where
  precision : Nat
  least : ℤ

/-- The numbers of JavaScript, of Go's `float64` and of JSON as they read it. -/
def binary64 : Format := ⟨53, -1074⟩

namespace Format

variable (F : Format)

/-- The numbers of the format. -/
def Has (q : ℚ) : Prop :=
  ∃ m e : ℤ, m.natAbs < 2 ^ F.precision ∧ F.least ≤ e ∧ q = m * (2 : ℚ) ^ e

variable {F} in
/-- A number of a format is a binary fraction. -/
theorem Has.exists_den {q : ℚ} (h : F.Has q) : ∃ k, q.den = 2 ^ k := by
  obtain ⟨m, e, -, -, rfl⟩ := h
  rcases Int.eq_nat_or_neg e with ⟨k, rfl | rfl⟩
  · refine ⟨0, ?_⟩
    rw [zpow_natCast]
    exact_mod_cast Rat.den_intCast (m * 2 ^ k)
  -- with a negative exponent the number is an integer over a power of two
  · have hdvd : ((m : ℚ) * 2 ^ (-(k : ℤ))).den ∣ 2 ^ k := by
      have hdiv := Rat.den_dvd m (2 ^ k)
      rw [zpow_neg, zpow_natCast, ← div_eq_mul_inv]
      have heq : (m : ℚ) / 2 ^ k = Rat.divInt m (2 ^ k) := by
        rw [Rat.divInt_eq_div]
        push_cast
        rfl
      rw [heq]
      exact_mod_cast hdiv
    obtain ⟨i, -, hi⟩ := (Nat.dvd_prime_pow Nat.prime_two).1 hdvd
    exact ⟨i, hi⟩

/-- The exponent of the last place of the numbers of the size of `q`. -/
def lastPlace (q : ℚ) : ℤ := max (Int.log 2 |q| + 1 - F.precision) F.least

/-- The nearest number of the format. -/
def round (q : ℚ) : ℚ :=
  nearest (q / 2 ^ F.lastPlace q) * 2 ^ F.lastPlace q

variable {F} {q : ℚ}

theorem zero_lt_two_zpow (e : ℤ) : (0 : ℚ) < 2 ^ e := zpow_pos two_pos e

theorem round_of_multiple {m : ℤ} (h : q = m * 2 ^ F.lastPlace q) : F.round q = q := by
  have hdiv : q / 2 ^ F.lastPlace q = m := by
    rw [div_eq_iff (zero_lt_two_zpow _).ne']
    exact h
  rw [round, hdiv, nearest_intCast]
  exact h.symm

theorem abs_lt_of_has {m e : ℤ} (hm : m.natAbs < 2 ^ F.precision) (hq : q = m * (2 : ℚ) ^ e) :
    |q| < 2 ^ ((F.precision : ℤ) + e) := by
  have hm' : |(m : ℚ)| < 2 ^ F.precision := by
    rw [← Int.cast_abs, Int.abs_eq_natAbs]
    exact_mod_cast hm
  rw [hq, abs_mul, abs_of_pos (zero_lt_two_zpow e), zpow_add₀ two_ne_zero, zpow_natCast]
  exact mul_lt_mul_of_pos_right hm' (zero_lt_two_zpow e)

/-- **A number of the format is rounded to itself.** -/
theorem Has.round_eq (h : F.Has q) : F.round q = q := by
  obtain ⟨m, e, hm, he, hq⟩ := h
  by_cases hzero : q = 0
  · exact round_of_multiple (m := 0) (by simp [hzero])
  -- the last place of `q` is not above the place of its mantissa
  have hlog : Int.log 2 |q| < F.precision + e := by
    rw [← Int.lt_zpow_iff_log_lt one_lt_two (abs_pos.2 hzero)]
    exact_mod_cast abs_lt_of_has hm hq
  have hle : F.lastPlace q ≤ e := max_le (by omega) he
  obtain ⟨k, hk⟩ := Int.le.dest hle
  refine round_of_multiple (m := m * 2 ^ k) ?_
  rw [Int.cast_mul, Int.cast_pow, Int.cast_ofNat, mul_assoc, ← zpow_natCast,
    ← zpow_add₀ two_ne_zero, add_comm, hk]
  exact hq

/-- The last place of a number is fine enough for all its digits to fit. -/
theorem abs_lt_lastPlace (q : ℚ) :
    |q| < 2 ^ ((F.precision : ℤ) + F.lastPlace q) := by
  have hlog : |q| < ((2 : ℕ) : ℚ) ^ (Int.log 2 |q| + 1) := Int.lt_zpow_succ_log_self one_lt_two _
  refine hlog.trans_le ?_
  rw [Nat.cast_ofNat]
  refine zpow_le_zpow_right₀ one_le_two ?_
  have := le_max_left (Int.log 2 |q| + 1 - F.precision) F.least
  rw [← lastPlace] at this
  omega

/-- What `round` gives is in the format. -/
theorem has_round (hp : 1 ≤ F.precision) (q : ℚ) : F.Has (F.round q) := by
  have hle : F.least ≤ F.lastPlace q := le_max_right _ _
  have hsmall : |q / 2 ^ F.lastPlace q| < 2 ^ F.precision := by
    rw [abs_div, abs_of_pos (zero_lt_two_zpow _), div_lt_iff₀ (zero_lt_two_zpow _), ← zpow_natCast,
      ← zpow_add₀ two_ne_zero]
    exact abs_lt_lastPlace q
  have hm : (nearest (q / 2 ^ F.lastPlace q)).natAbs ≤ 2 ^ F.precision := by
    have herr := abs_nearest_sub_le (q / 2 ^ F.lastPlace q)
    have hlt : |(nearest (q / 2 ^ F.lastPlace q) : ℚ)| < 2 ^ F.precision + 1 := by
      have := abs_sub_abs_le_abs_sub (nearest (q / 2 ^ F.lastPlace q) : ℚ) (q / 2 ^ F.lastPlace q)
      linarith
    rw [← Int.cast_abs, Int.abs_eq_natAbs] at hlt
    exact Nat.lt_succ_iff.1 (by exact_mod_cast hlt)
  rcases Nat.lt_or_eq_of_le hm with hlt | heq
  · exact ⟨_, _, hlt, hle, rfl⟩
  · -- rounded up to a power of two: half the mantissa, one place up
    have heven : (2 : ℤ) ∣ nearest (q / 2 ^ F.lastPlace q) := by
      rw [← Int.natAbs_dvd_natAbs, heq]
      exact dvd_pow_self 2 (by omega)
    obtain ⟨k, hk⟩ := heven
    refine ⟨k, F.lastPlace q + 1, ?_, by omega, ?_⟩
    · have hpos : 0 < 2 ^ F.precision := Nat.two_pow_pos _
      rw [hk, Int.natAbs_mul] at heq
      simp only [Int.reduceAbs] at heq
      omega
    · rw [round, hk, zpow_add₀ two_ne_zero, zpow_one]
      push_cast
      ring

theorem round_eq_self_iff (hp : 1 ≤ F.precision) : F.round q = q ↔ F.Has q :=
  ⟨fun h => h ▸ has_round hp q, Has.round_eq⟩

theorem round_nonneg (h : 0 ≤ q) : 0 ≤ F.round q :=
  mul_nonneg (Int.cast_nonneg (nearest_nonneg (div_nonneg h (zero_lt_two_zpow _).le)))
    (zero_lt_two_zpow _).le

/-- The error of rounding, unless the number is among the smallest. -/
theorem abs_round_sub_le (h : 2 ^ (F.least + F.precision - 1) ≤ |q|) :
    |F.round q - q| ≤ |q| / 2 ^ F.precision := by
  have hpos : 0 < |q| := (zero_lt_two_zpow _).trans_le h
  -- a normal number: the last place is the one that its size asks for
  have hplace : F.lastPlace q = Int.log 2 |q| + 1 - F.precision := by
    have hlog : F.least + F.precision - 1 ≤ Int.log 2 |q| :=
      (Int.zpow_le_iff_le_log one_lt_two hpos).1 (by exact_mod_cast h)
    exact max_eq_left (by omega)
  -- half a unit of the last place, as for the nearest integer
  have hhalf : |F.round q - q| ≤ 2 ^ F.lastPlace q / 2 := by
    have herr := abs_nearest_sub_le (q / 2 ^ F.lastPlace q)
    have heq : F.round q - q
        = (nearest (q / 2 ^ F.lastPlace q) - q / 2 ^ F.lastPlace q) * 2 ^ F.lastPlace q := by
      rw [sub_mul, div_mul_cancel₀ _ (zero_lt_two_zpow _).ne']
      rfl
    rw [heq, abs_mul, abs_of_pos (zero_lt_two_zpow _)]
    calc |(nearest (q / 2 ^ F.lastPlace q) : ℚ) - q / 2 ^ F.lastPlace q| * 2 ^ F.lastPlace q
        ≤ 1 / 2 * 2 ^ F.lastPlace q := mul_le_mul_of_nonneg_right herr (zero_lt_two_zpow _).le
      _ = 2 ^ F.lastPlace q / 2 := by ring
  have hlog : (2 : ℚ) ^ Int.log 2 |q| ≤ |q| := by
    exact_mod_cast Int.zpow_log_le_self one_lt_two hpos
  calc |F.round q - q| ≤ 2 ^ F.lastPlace q / 2 := hhalf
    _ = 2 ^ Int.log 2 |q| / 2 ^ F.precision := by
        rw [hplace, zpow_sub₀ two_ne_zero, zpow_add₀ two_ne_zero, zpow_one, zpow_natCast]
        ring
    _ ≤ |q| / 2 ^ F.precision := div_le_div_of_nonneg_right hlog (by positivity)

end Format

end Rounding
