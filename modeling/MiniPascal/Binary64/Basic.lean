/-!
# Binary64 — Basic

The 64-bit binary floating-point numbers.  A finite one is a sign and a magnitude: the magnitudes
are numbered from zero upwards, in the order of the values they stand for, and `units` is the
value of a magnitude in units of the least positive number `2⁻¹⁰⁷⁴`.  All other functions on reals
are stated on exact natural numbers through `units`.
-/

namespace MiniPascal

/-- The number of magnitudes from one power of two to the next, `2⁵²`. -/
abbrev binade : Nat := 0x10000000000000

/-- A 64-bit floating-point number: not a number, an infinity, or a signed magnitude. -/
inductive Binary64 where
  | nan
  | infinite (negative : Bool)
  | finite (negative : Bool) (magnitude : Fin (2047 * binade))
deriving DecidableEq, Repr

namespace Binary64

/-- The value of a magnitude in units of `2⁻¹⁰⁷⁴`.  In the first binade magnitude and value agree;
from the second on each binade doubles the distance between neighbours. -/
def units (m : Nat) : Nat :=
  if m < binade then m else (binade + m % binade) * Nat.pow 2 (m / binade - 1)

/-- Zero, of either sign. -/
def zero (negative : Bool) : Binary64 := .finite negative ⟨0, by decide⟩

/-- The number one. -/
def one : Binary64 := .finite false ⟨1023 * binade, by decide⟩

/-- The number one half. -/
def half : Binary64 := .finite false ⟨1022 * binade, by decide⟩

/-- Neither an infinity nor not-a-number. -/
def isFinite : Binary64 → Bool
  | .finite _ _ => true
  | _           => false

/-- Zero of either sign. -/
def isZero : Binary64 → Bool
  | .finite _ m => m.val == 0
  | _           => false

/-- The sign bit; not-a-number counts as positive. -/
def isNegative : Binary64 → Bool
  | .nan        => false
  | .infinite s => s
  | .finite s _ => s

/-- The same magnitude with the opposite sign. -/
def neg : Binary64 → Binary64
  | .nan        => .nan
  | .infinite s => .infinite (!s)
  | .finite s m => .finite (!s) m

/-- The magnitude of `x` with the sign of `y`. -/
def copySign (x y : Binary64) : Binary64 :=
  if x.isNegative == y.isNegative then x else x.neg

/-- The exact value of a finite number in units of `2⁻¹⁰⁷⁴`. -/
def signedUnits (negative : Bool) (m : Nat) : Int :=
  if negative then -(units m : Int) else units m

/-- Numerical equality: the two zeros are equal, and not-a-number equals nothing. -/
def eq : Binary64 → Binary64 → Bool
  | .finite s m, .finite t n => signedUnits s m == signedUnits t n
  | .infinite s, .infinite t => s == t
  | _,           _           => false

/-- Numerical order: not-a-number is less than nothing and exceeds nothing. -/
def lt : Binary64 → Binary64 → Bool
  | .finite s m, .finite t n => signedUnits s m < signedUnits t n
  | .finite _ _, .infinite t => !t
  | .infinite s, .finite _ _ => s
  | .infinite s, .infinite t => s && !t
  | _,           _           => false

end Binary64

end MiniPascal
