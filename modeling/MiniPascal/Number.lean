import MiniPascal.Decimal.Layout

/-!
# Number

A number of the language: a 64-bit integer or a 64-bit floating-point number.  Literals in a
program and values in the store are numbers of the same type.  An integer stays an integer until
it meets a real; `toReal` is that promotion, and it rounds.
-/

namespace MiniPascal

/-- An integer or a real. -/
inductive Number where
  | int (i : Int64)
  | real (x : Binary64)
deriving DecidableEq, Repr

namespace Number

/-- The number as a real; an integer goes to the nearest one. -/
def toReal : Number → Binary64
  | .int i  => .ofInt i.toInt
  | .real x => x

/-- Zero of either kind and either sign. -/
def isZero : Number → Bool
  | .int i  => i == 0
  | .real x => x.isZero

/-- The same kind and numerically the same value: the two real zeros agree, and not-a-number
agrees with nothing. -/
def agrees : Number → Number → Bool
  | .int i,  .int j  => i == j
  | .real x, .real y => x.eq y
  | _,       _       => false

/-- The text of a number when its real numbers are laid out by `l`. -/
def text (l : Layout) : Number → String
  | .int i  => intText i.toInt
  | .real x => x.text l

/-- The integer that a run of digits stands for, if it is at most `2⁶³ - 1`. -/
def ofDigits? (digits : List Char) : Option Number :=
  if numeral digits < 0x8000000000000000 then some (.int (.ofNat (numeral digits))) else none

/-- The real that digits with a point among or after them stand for, if it is finite. -/
def ofPointed? (whole fraction : List Char) : Option Number :=
  let x := Binary64.ofScientific false (numeral (whole ++ fraction)) (-(fraction.length : Int))
  if x.isFinite then some (.real x) else none

end Number

end MiniPascal
