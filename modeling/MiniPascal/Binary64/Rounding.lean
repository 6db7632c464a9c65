import MiniPascal.Binary64.Basic

/-!
# Binary64 — Rounding

From an exact fraction to the nearest 64-bit number, ties to the even neighbour.  `nearest` is the
one place where a result is rounded: arithmetic, conversion of integers and the reading of
decimals all compute an exact fraction first and round it once.
-/

namespace MiniPascal

/-- The integer nearest to `n / d`; of two equally near ones the even one. -/
def roundHalfEven (n d : Nat) : Nat :=
  let q := n / d
  let r := n % d
  if 2 * r < d then q
  else if d < 2 * r then q + 1
  else q + q % 2

namespace Binary64

/-- The magnitude nearest to `n / d` units of `2⁻¹⁰⁷⁴`, before the largest finite one is taken
into account.  Between `2⁵²⁺ᵏ` and `2⁵³⁺ᵏ` units the numbers are `2ᵏ` units apart. -/
def nearestMagnitude (n d : Nat) : Nat :=
  let k := Nat.log2 (n / d) - 52
  k * binade + roundHalfEven n (d * Nat.pow 2 k)

/-- The number nearest to `n / d` units of `2⁻¹⁰⁷⁴` with the given sign; what rounds beyond the
largest finite number is infinite. -/
def nearest (negative : Bool) (n d : Nat) : Binary64 :=
  if h : nearestMagnitude n d < 2047 * binade then .finite negative ⟨nearestMagnitude n d, h⟩
  else .infinite negative

/-- The number one in units, `2¹⁰⁷⁴`. -/
def unitsPerOne : Nat := Nat.pow 2 1074

/-- The number nearest to `n / d`. -/
def ofRatio (negative : Bool) (n d : Nat) : Binary64 := nearest negative (n * unitsPerOne) d

/-- The number nearest to an integer; zero is positive. -/
def ofInt (i : Int) : Binary64 := ofRatio (decide (i < 0)) i.natAbs 1

/-- The number nearest to `coefficient · 10^exponent`. -/
def ofScientific (negative : Bool) (coefficient : Nat) (exponent : Int) : Binary64 :=
  if 0 ≤ exponent then ofRatio negative (coefficient * Nat.pow 10 exponent.toNat) 1
  else ofRatio negative coefficient (Nat.pow 10 (-exponent).toNat)

end Binary64

end MiniPascal
