import MiniPascal.Binary64.Rounding

/-!
# Binary64 — Arithmetic

The four operations, the remainder and the floor.  Each takes the exact result of its operands, as
a fraction of units, and rounds it once; what has no exact result follows the rules for zeros,
infinities and not-a-number.
-/

namespace MiniPascal

namespace Binary64

/-- The sum.  An exact zero is positive unless both operands are negative zeros. -/
def add : Binary64 → Binary64 → Binary64
  | .nan,        _           => .nan
  | _,           .nan        => .nan
  | .infinite s, .infinite t => if s == t then .infinite s else .nan
  | .infinite s, _           => .infinite s
  | _,           .infinite t => .infinite t
  | .finite s m, .finite t n =>
      let sum := signedUnits s m + signedUnits t n
      if sum = 0 then zero (s && t) else nearest (decide (sum < 0)) sum.natAbs 1

/-- The difference, as the sum with the opposite. -/
def sub (x y : Binary64) : Binary64 := x.add y.neg

/-- The product.  Zero times an infinity is not a number. -/
def mul : Binary64 → Binary64 → Binary64
  | .nan,        _           => .nan
  | _,           .nan        => .nan
  | .infinite s, .infinite t => .infinite (s ^^ t)
  | .infinite s, .finite t n => if n.val = 0 then .nan else .infinite (s ^^ t)
  | .finite s m, .infinite t => if m.val = 0 then .nan else .infinite (s ^^ t)
  | .finite s m, .finite t n => nearest (s ^^ t) (units m * units n) unitsPerOne

/-- The quotient.  A number divided by zero is infinite; zero divided by zero, and an infinity by
an infinity, is not a number. -/
def div : Binary64 → Binary64 → Binary64
  | .nan,        _           => .nan
  | _,           .nan        => .nan
  | .infinite _, .infinite _ => .nan
  | .infinite s, .finite t _ => .infinite (s ^^ t)
  | .finite s _, .infinite t => zero (s ^^ t)
  | .finite s m, .finite t n =>
      if n.val = 0 then (if m.val = 0 then .nan else .infinite (s ^^ t))
      else ofRatio (s ^^ t) (units m) (units n)

/-- The remainder of the quotient cut toward zero.  It is exact and has the sign of the dividend. -/
def rem : Binary64 → Binary64 → Binary64
  | .nan,        _           => .nan
  | _,           .nan        => .nan
  | .infinite _, _           => .nan
  | .finite s m, .infinite _ => .finite s m
  | .finite s m, .finite _ n =>
      if n.val = 0 then .nan else nearest s (units m % units n) 1

/-- The greatest integer not above the number; zeros keep their sign, and so do infinities. -/
def floor : Binary64 → Binary64
  | .finite s m =>
      let whole := units m / unitsPerOne
      let away := s && units m % unitsPerOne != 0
      ofRatio s (if away then whole + 1 else whole) 1
  | x           => x

end Binary64

end MiniPascal
