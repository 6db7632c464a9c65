import MiniPascal.Lexeme

/-!
# Proofs — Lexing — Classes

The classes of characters that a text is cut by have nothing in common where the cut depends on it:
a blank or a brace continues no name and no number (`not_isAlphanumeric_of_isBlank`), and a letter
is not a digit (`not_isDigit_of_isAlphabetic`).  For the two tables of ranges that is settled range
by range (`apart`), not character by character.
-/

namespace MiniPascal

/-- Whether no range of one table meets a range of the other. -/
def apart (table other : List (Nat × Nat)) : Bool :=
  table.all fun r => other.all fun t => r.2 < t.1 || t.2 < r.1

/-- Tables whose ranges do not meet share no code point. -/
theorem not_within_of_apart {table other : List (Nat × Nat)} {n : Nat}
    (h : apart table other = true) (hn : ∃ r ∈ table, r.1 ≤ n ∧ n ≤ r.2) :
    ¬∃ t ∈ other, t.1 ≤ n ∧ n ≤ t.2 := by
  rintro ⟨t, ht, tlo, thi⟩
  obtain ⟨r, hr, hlo, hhi⟩ := hn
  have hrt := List.all_eq_true.1 (List.all_eq_true.1 h r hr) t ht
  simp only [Bool.or_eq_true, decide_eq_true_eq] at hrt
  omega

theorem apart_blank_alphabetic : apart blankRanges alphabeticRanges = true := by decide +kernel

theorem apart_blank_numeric : apart blankRanges numericRanges = true := by decide +kernel

/-- A digit is a character of ASCII between `0` and `9`. -/
theorem toNat_of_isDigit {c : Char} (h : c.isDigit = true) : 0x30 ≤ c.toNat ∧ c.toNat ≤ 0x39 := by
  simp only [Char.isDigit, Bool.and_eq_true, decide_eq_true_eq] at h
  exact ⟨h.1, h.2⟩

/-- A blank begins no name and continues none. -/
theorem not_isAlphanumeric_of_isBlank {c : Char} (h : isBlank c = true) :
    isAlphanumeric c = false := by
  rw [isBlank_iff] at h
  have ha := mt isAlphabetic_iff.1 (not_within_of_apart apart_blank_alphabetic h)
  have hn := mt isNumeric_iff.1 (not_within_of_apart apart_blank_numeric h)
  rw [isAlphanumeric, Bool.eq_false_iff.2 ha, Bool.eq_false_iff.2 hn]
  rfl

theorem isBlank_of_isDigit {c : Char} (h : c.isDigit = true) : isBlank c = false := by
  have hc := toNat_of_isDigit h
  rw [isBlank_ascii (by omega)]
  simp only [Bool.or_eq_false_iff, beq_eq_false_iff_ne, Bool.and_eq_false_imp, decide_eq_true_eq,
    decide_eq_false_iff_not]
  omega

/-- A letter is no digit. -/
theorem not_isDigit_of_isAlphabetic {c : Char} (h : isAlphabetic c = true) : c.isDigit = false := by
  refine Bool.eq_false_iff.2 fun hd => ?_
  have hc := toNat_of_isDigit hd
  rw [isAlphabetic_ascii (by omega)] at h
  simp only [Bool.or_eq_true, Bool.and_eq_true, decide_eq_true_eq] at h
  omega

/-- A blank begins no lexeme, and neither does a character that continues a comment. -/
theorem not_isAlphabetic_of_isBlank {c : Char} (h : isBlank c = true) : isAlphabetic c = false :=
  (Bool.or_eq_false_iff.1 (not_isAlphanumeric_of_isBlank h)).1

end MiniPascal
