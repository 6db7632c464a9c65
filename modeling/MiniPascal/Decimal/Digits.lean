/-!
# Decimal — Digits

Integers and their decimal digits.  A run of digits stands for `numeral` of it, whatever zeros it
begins with, and `natText` writes a number without any; reading back what was written gives the
number again.
-/

namespace MiniPascal

/-- The number that a run of decimal digits stands for. -/
def numeral (digits : List Char) : Nat := Nat.ofDigitChars 10 digits 0

/-- The decimal digits of a number, the most significant first; zero has one digit. -/
def digitsOf (n : Nat) : List Char := Nat.toDigits 10 n

theorem numeral_digitsOf (n : Nat) : numeral (digitsOf n) = n :=
  Nat.ofDigitChars_toDigits (by decide) (by decide)

/-- A number in decimal. -/
def natText (n : Nat) : String := String.ofList (digitsOf n)

/-- An integer in decimal, with a minus sign when negative. -/
def intText (i : Int) : String :=
  if i < 0 then "-" ++ natText i.natAbs else natText i.natAbs

end MiniPascal
