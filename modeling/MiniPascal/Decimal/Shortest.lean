import MiniPascal.Binary64.Rounding

/-!
# Decimal — Shortest

The decimal that stands for a 64-bit number in text: of the decimals that read back to the number,
one with the fewest digits, and of those the nearest.  `shortest` looks at the number's two
neighbours on the decimal grids `10ʲ`, from the coarse to the fine, and stops at the first grid
where one of them reads back.  The finest grid, `10⁻¹⁰⁷⁴`, holds every finite number exactly, so
the search always ends with an answer.
-/

namespace MiniPascal

/-- The decimal number `coefficient · 10^exponent`. -/
structure Decimal where
  coefficient : Nat
  exponent    : Int
deriving DecidableEq, Repr

/-- Which of two neighbours on a grid stands for a number halfway between them. -/
inductive Tie where
  | up
  | even
deriving DecidableEq, Repr

/-- The neighbour that a tie goes to. -/
def Tie.pick : Tie → Nat → Nat
  | .up,   lower => lower + 1
  | .even, lower => lower + lower % 2

namespace Decimal

/-- How many steps of the finest grid make up a unit: `2⁻¹⁰⁷⁴` is `5¹⁰⁷⁴` times `10⁻¹⁰⁷⁴`. -/
def stepsPerUnit : Nat := Nat.pow 5 1074

/-- The exact value of a magnitude on the finest grid, in steps of `10⁻¹⁰⁷⁴`. -/
def steps (m : Nat) : Nat := Binary64.units m * stepsPerUnit

/-- Whether `n · 10⁻¹⁰⁷⁴` reads back to the magnitude `m`. -/
def readsBack (m n : Nat) : Bool := Binary64.nearestMagnitude n stepsPerUnit == m

/-- The coefficient that stands for a value on the grid of `g` steps, if one of its two neighbours
there reads back. -/
def onGrid (tie : Tie) (reads : Nat → Bool) (value g : Nat) : Option Nat :=
  let lower := value / g
  let r := value % g
  match reads (lower * g), reads ((lower + 1) * g) with
  | true,  false => some lower
  | false, true  => some (lower + 1)
  | false, false => none
  | true,  true  =>
      if 2 * r < g then some lower
      else if g < 2 * r then some (lower + 1)
      else some (tie.pick lower)

/-- The first answer on the grids of `10^j`, `10^(j-1)`, …, `1` steps of `10⁻¹⁰⁷⁴`. -/
def search (tie : Tie) (reads : Nat → Bool) (value : Nat) : Nat → Decimal
  | 0     => ⟨value, -1074⟩
  | j + 1 =>
      match onGrid tie reads value (Nat.pow 10 (j + 1)) with
      | some c => ⟨c, ((j + 1 : Nat) : Int) - 1074⟩
      | none   => search tie reads value j

/-- The shortest decimal that reads back to a magnitude.  The search begins at a grid coarser than
the number. -/
def shortest (tie : Tie) (m : Nat) : Decimal :=
  if m = 0 then ⟨0, 0⟩
  else search tie (readsBack m) (steps m) ((Nat.log2 (steps m) + 1) * 302 / 1000 + 1)

end Decimal

end MiniPascal
