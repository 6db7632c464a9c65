import MiniPascal.Decimal.Digits
import MiniPascal.Decimal.Shortest

/-!
# Decimal — Layout

How a real number is laid out as text.  The digits are always the shortest that read back; a
`Layout` decides the rest: which numbers are written positionally, how the exponent of the others
is signed, which way a tie between two shortest decimals goes, and what follows the words for
infinities and not-a-number.  A positional text always has a point with at least one digit after
it.
-/

namespace MiniPascal

/-- The decisions of a text form for reals.  A number `d.ddd · 10^x` is written positionally when
`least ≤ x < beyond`; an absent bound does not restrict. -/
structure Layout where
  least   : Option Int
  beyond  : Option Int
  plus    : Bool
  tie     : Tie
  wordEnd : String

namespace Layout

/-- Values of variables: positional from `10⁻⁴` up to `10¹⁶`, no plus sign on exponents. -/
def value : Layout := ⟨some (-4), some 16, false, .up, ""⟩

/-- Literals of program text: always positional, and the words too end in a fraction. -/
def literal : Layout := ⟨none, none, false, .up, ".0"⟩

/-- Numbers of JSON texts: positional from `10⁻⁵` up to `10¹⁶`, exponents always signed. -/
def json : Layout := ⟨some (-5), some 16, true, .even, ""⟩

/-- Whether a number of scientific exponent `x` is written positionally. -/
def positional (l : Layout) (x : Int) : Bool :=
  l.least.all (· ≤ x) && l.beyond.all (x < ·)

end Layout

namespace Decimal

/-- The exponent of the leading digit. -/
def leadingExponent (d : Decimal) : Int := (digitsOf d.coefficient).length - 1 + d.exponent

/-- Digits with a point at their place, and at least one digit on either side of it. -/
def positional (d : Decimal) : List Char :=
  let ds := digitsOf d.coefficient
  if 0 ≤ d.exponent then ds ++ List.replicate d.exponent.toNat '0' ++ ['.', '0']
  else
    let places := (-d.exponent).toNat
    if places < ds.length then
      ds.take (ds.length - places) ++ '.' :: ds.drop (ds.length - places)
    else '0' :: '.' :: (List.replicate (places - ds.length) '0' ++ ds)

/-- The leading digit, the others after a point if there are any, and the exponent. -/
def scientific (plus : Bool) (d : Decimal) : List Char :=
  let mantissa :=
    match digitsOf d.coefficient with
    | lead :: more@(_ :: _) => lead :: '.' :: more
    | lone                  => lone
  let x := d.leadingExponent
  let sign := if x < 0 then ['-'] else if plus then ['+'] else []
  mantissa ++ 'e' :: (sign ++ digitsOf x.natAbs)

end Decimal

namespace Binary64

/-- The text of a number in a given layout. -/
def text (l : Layout) : Binary64 → String
  | .nan        => "NaN" ++ l.wordEnd
  | .infinite s => (if s then "-inf" else "inf") ++ l.wordEnd
  | .finite s m =>
      let d := Decimal.shortest l.tie m
      let body := if l.positional d.leadingExponent then d.positional else d.scientific l.plus
      String.ofList (if s then '-' :: body else body)

end Binary64

end MiniPascal
