import MiniPascal.Binary64.Arithmetic
import MiniPascal.Fault
import MiniPascal.Tree

/-!
# Number — Arithmetic

The operations on numbers.  Two integers give an integer, computed exactly or refused; `/` and
every operation with a real operand give a finite real or are refused.  `DIV` rounds the quotient
toward minus infinity in both kinds, and neither division has a zero divisor.
-/

namespace MiniPascal

/-- An integer as a 64-bit word, if it is one. -/
def word? (i : Int) : Option Int64 :=
  if -0x8000000000000000 ≤ i ∧ i < 0x8000000000000000 then some (.ofInt i) else none

/-- The quotient of words, rounded toward minus infinity.  There is none for the divisor zero, nor
for the least word divided by minus one. -/
def floorDiv? (a b : Int64) : Option Int64 :=
  if b = 0 ∨ (a = Int64.minValue ∧ b = -1) then none
  else if a % b ≠ 0 ∧ ¬(a < 0 ↔ b < 0) then some (a / b - 1)
  else some (a / b)

namespace Binary64

/-- The quotient of reals, rounded toward minus infinity.  It is derived from the exact remainder,
so that rounding of the plain quotient does not lift it over an integer; what is left of rounding
goes to the nearer integer. -/
def floorDiv (x y : Binary64) : Binary64 :=
  let r := x.rem y
  let q := (x.sub r).div y
  let q := if !r.eq (zero false) && (y.lt (zero false) != r.lt (zero false)) then q.sub one else q
  if q.isZero then (zero false).copySign (x.div y)
  else
    let whole := q.floor
    if half.lt (q.sub whole) then whole.add one else whole

end Binary64

namespace Number

/-- The result of an operation on words. -/
def ofWord? : Option Int64 → Except ArithmeticFault Number
  | some i => .ok (.int i)
  | none   => .error .integerOverflow

/-- The result of an operation on reals. -/
def ofReal? (x : Binary64) : Except ArithmeticFault Number :=
  if x.isFinite then .ok (.real x) else .error .realOverflow

/-- An operation that keeps integers among themselves and promotes an integer beside a real. -/
def arith (words : Int64 → Int64 → Option Int64) (reals : Binary64 → Binary64 → Binary64) :
    Number → Number → Except ArithmeticFault Number
  | .int i, .int j => ofWord? (words i j)
  | a,      b      => ofReal? (reals a.toReal b.toReal)

/-- The result of an operator between two numbers. -/
def binary : Operator → Number → Number → Except ArithmeticFault Number
  | .sum,           a, b => arith (fun i j => word? (i.toInt + j.toInt)) .add a b
  | .difference,    a, b => arith (fun i j => word? (i.toInt - j.toInt)) .sub a b
  | .product,       a, b => arith (fun i j => word? (i.toInt * j.toInt)) .mul a b
  | .wholeQuotient, a, b =>
      if b.isZero then .error .divisionByZero else arith floorDiv? .floorDiv a b
  | .quotient,      a, b =>
      if b.isZero then .error .divisionByZero else ofReal? (a.toReal.div b.toReal)

/-- The result of a sign before a number. -/
def unary : Sign → Number → Except ArithmeticFault Number
  | .plus,  n       => .ok n
  | .minus, .int i  => ofWord? (word? (-i.toInt))
  | .minus, .real x => .ok (.real x.neg)

end Number

end MiniPascal
