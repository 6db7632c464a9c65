import MiniPascal.Text.Ranges

/-!
# Text — Blank

The characters that separate lexemes: the property `White_Space`, twenty-five characters in ten
ranges.  It is wider than the blanks of ASCII: no-break spaces, the typographic spaces and the two
line separators belong to it, zero-width characters do not.
-/

namespace MiniPascal

/-- The code points of the property `White_Space`. -/
def blankRanges : List (Nat × Nat) :=
  [(0x9, 0xD), (0x20, 0x20), (0x85, 0x85), (0xA0, 0xA0), (0x1680, 0x1680), (0x2000, 0x200A),
   (0x2028, 0x2029), (0x202F, 0x202F), (0x205F, 0x205F), (0x3000, 0x3000)]

/-- A character that may stand between two lexemes. -/
def isBlank (c : Char) : Bool := inRanges blankRanges c.toNat

theorem ascending_blankRanges : ascending blankRanges = true := by decide

/-- The blank characters are those in the ranges of the table. -/
theorem isBlank_iff {c : Char} :
    isBlank c = true ↔ ∃ r ∈ blankRanges, r.1 ≤ c.toNat ∧ c.toNat ≤ r.2 :=
  inRanges_iff ascending_blankRanges

/-- Among the characters of ASCII these are blank: the blank itself and five controls. -/
theorem isBlank_ascii {c : Char} (h : c.toNat < 0x80) :
    isBlank c = (c.toNat == 0x20 || (0x9 ≤ c.toNat && c.toNat ≤ 0xD)) :=
  (by decide : ∀ n < 0x80,
    inRanges blankRanges n = (n == 0x20 || (decide (0x9 ≤ n) && decide (n ≤ 0xD)))) c.toNat h

end MiniPascal
