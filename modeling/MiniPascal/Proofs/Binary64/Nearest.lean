import Mathlib.Algebra.Group.Nat.Defs
import MiniPascal.Binary64.Rounding

/-!
# Proofs — Binary64 — Nearest

Rounding to the nearest 64-bit number looks at the value of a fraction and not at its form
(`nearestMagnitude_congr`), and leaves a value that is a 64-bit number as it is
(`nearestMagnitude_units_mul`).
-/

namespace MiniPascal

/-- An integer is its own nearest integer. -/
theorem roundHalfEven_mul_self {d : Nat} (hd : 0 < d) (a : Nat) : roundHalfEven (a * d) d = a := by
  simp only [roundHalfEven, Nat.mul_mod_left, Nat.mul_div_cancel a hd]
  rw [Nat.mul_zero, if_pos hd]

/-- A common factor of numerator and denominator does not matter. -/
theorem roundHalfEven_mul_right {k : Nat} (hk : 0 < k) (n d : Nat) :
    roundHalfEven (n * k) (d * k) = roundHalfEven n d := by
  have hlow : 2 * (n % d * k) < d * k ↔ 2 * (n % d) < d := by
    rw [← Nat.mul_assoc]
    exact Nat.mul_lt_mul_right hk
  have hhigh : d * k < 2 * (n % d * k) ↔ d < 2 * (n % d) := by
    rw [← Nat.mul_assoc]
    exact Nat.mul_lt_mul_right hk
  simp only [roundHalfEven, Nat.mul_div_mul_right n d hk, Nat.mul_mod_mul_right, hlow, hhigh]

namespace Binary64

/-- The nearest magnitude depends on the fraction alone, not on how it is written. -/
theorem nearestMagnitude_mul_right {k : Nat} (hk : 0 < k) (n d : Nat) :
    nearestMagnitude (n * k) (d * k) = nearestMagnitude n d := by
  simp only [nearestMagnitude, Nat.mul_div_mul_right n d hk]
  rw [Nat.mul_right_comm, roundHalfEven_mul_right hk]

/-- Equal fractions have the same nearest number. -/
theorem nearestMagnitude_congr {n d n' d' : Nat} (hd : 0 < d) (hd' : 0 < d')
    (h : n * d' = n' * d) : nearestMagnitude n d = nearestMagnitude n' d' := by
  rw [← nearestMagnitude_mul_right hd' n d, h, Nat.mul_comm d d', nearestMagnitude_mul_right hd]

/-- The binade of a value: with `q` doublings behind the first, `52 + q` bits behind the leading
one. -/
theorem log2_units_of_le {r : Nat} (hr : r < binade) (q : Nat) :
    Nat.log2 ((binade + r) * 2 ^ q) = 52 + q := by
  have hbinade : binade = 2 ^ 52 := rfl
  have hpos : 0 < (binade + r) * 2 ^ q := Nat.mul_pos (by omega) (Nat.two_pow_pos q)
  rw [Nat.log2_eq_iff (Nat.pos_iff_ne_zero.1 hpos)]
  constructor
  · rw [Nat.pow_add, ← hbinade]
    exact Nat.mul_le_mul_right _ (Nat.le_add_right _ _)
  · have hdouble : 2 ^ (52 + q + 1) = 2 * binade * 2 ^ q := by
      rw [hbinade, Nat.pow_succ, Nat.pow_add, Nat.mul_comm, ← Nat.mul_assoc]
    rw [hdouble]
    exact Nat.mul_lt_mul_of_pos_right (by omega) (Nat.two_pow_pos q)

theorem units_zero : units 0 = 0 := rfl

/-- **Rounding is exact on 64-bit numbers.** -/
theorem nearestMagnitude_units (m : Nat) : nearestMagnitude (units m) 1 = m := by
  unfold nearestMagnitude units
  split
  · next hm =>
      -- In the first binade the numbers are one unit apart.
      have hlog : Nat.log2 m - 52 = 0 := by
        by_cases hzero : m = 0
        · rw [hzero, Nat.log2_zero]
        · have := (Nat.log2_lt hzero).2 (show m < 2 ^ 52 from hm)
          omega
      simp only [Nat.div_one, hlog, Nat.pow_eq, Nat.pow_zero, Nat.zero_mul, Nat.zero_add,
        Nat.mul_one]
      simpa using roundHalfEven_mul_self Nat.one_pos m
  · next hm =>
      have hr : m % binade < binade := Nat.mod_lt _ (by decide)
      obtain ⟨q, hq⟩ := Nat.exists_eq_add_of_lt (Nat.div_pos (Nat.le_of_not_lt hm) (by decide))
      simp only [Nat.div_one, Nat.pow_eq, log2_units_of_le hr, Nat.add_sub_cancel_left, Nat.one_mul]
      rw [roundHalfEven_mul_self (Nat.two_pow_pos _)]
      have hsplit := Nat.div_add_mod m binade
      rw [hq, Nat.zero_add, Nat.mul_add_one] at hsplit
      rw [hq, Nat.zero_add, Nat.add_sub_cancel, Nat.mul_comm]
      omega

/-- A 64-bit number is read from any fraction that is equal to it. -/
theorem nearestMagnitude_units_mul {d : Nat} (hd : 0 < d) (m : Nat) :
    nearestMagnitude (units m * d) d = m := by
  have hscale := nearestMagnitude_mul_right hd (units m) 1
  rwa [Nat.one_mul, nearestMagnitude_units] at hscale

end Binary64

end MiniPascal
