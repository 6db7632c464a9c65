import MiniPascal.Proofs.Report
import MiniPascal.Proofs.Run.Finite
import MiniPascal.Proofs.Run.Integral
import MiniPascal.Proofs.Run.Kinds

/-!
# Proofs — Number — Operations

The operations on numbers as tables.  `Yields` has a row for each way in which an operator or a sign
has a result, and `Refuses` one for each way in which it has none, with the words in which this is
told: a division by a zero of either kind, a result of integers that is no word, a result of reals
that is not finite.  An operation has a result exactly if a row of the one table says so, and is
refused exactly if a row of the other does (`Number.binary_eq_ok_iff`, `Number.binary_eq_error_iff`
and the same of signs).
-/

namespace MiniPascal

/-! ### Tables -/

namespace Operator

/-- What an operator makes of two reals, before the result is looked at. -/
def onReals : Operator → Binary64 → Binary64 → Binary64
  | .sum           => .add
  | .difference    => .sub
  | .product       => .mul
  | .wholeQuotient => .floorDiv
  | .quotient      => .div

/-- A division whose divisor is a zero, be it an integer or a real of either sign. -/
def DividesByZero (op : Operator) (divisor : Number) : Prop :=
  (op = .wholeQuotient ∨ op = .quotient) ∧
    (divisor = .int 0 ∨ divisor = .real (.zero false) ∨ divisor = .real (.zero true))

/-- The result of an operator between two numbers. -/
inductive Yields (op : Operator) : Number → Number → Number → Prop where
  | word {i j : Int64} (hop : op ≠ .quotient) (hdivisor : ¬ op.DividesByZero (.int j))
      (h : IsWord (op.exact i.toInt j.toInt)) :
      op.Yields (.int i) (.int j) (.int (.ofInt (op.exact i.toInt j.toInt)))
  | real {a b : Number} (hkind : op.resultKind a.numericKind b.numericKind = .real)
      (hdivisor : ¬ op.DividesByZero b) (h : (op.onReals a.toReal b.toReal).isFinite = true) :
      op.Yields a b (.real (op.onReals a.toReal b.toReal))

/-- How it is told that an operator has no result between two numbers. -/
inductive Refuses (op : Operator) : Number → Number → String → Prop where
  | divisor {a b : Number} (h : op.DividesByZero b) : op.Refuses a b "division by zero"
  | word {i j : Int64} (hop : op ≠ .quotient) (hdivisor : ¬ op.DividesByZero (.int j))
      (h : ¬ IsWord (op.exact i.toInt j.toInt)) : op.Refuses (.int i) (.int j) "integer overflow"
  | real {a b : Number} (hkind : op.resultKind a.numericKind b.numericKind = .real)
      (hdivisor : ¬ op.DividesByZero b) (h : (op.onReals a.toReal b.toReal).isFinite = false) :
      op.Refuses a b "real overflow"

end Operator

namespace Sign

/-- The result of a sign before a number. -/
inductive Yields : Sign → Number → Number → Prop where
  | plus {a : Number} : Yields .plus a a
  | word {i : Int64} (h : IsWord (-i.toInt)) : Yields .minus (.int i) (.int (.ofInt (-i.toInt)))
  | real {x : Binary64} : Yields .minus (.real x) (.real x.neg)

/-- How it is told that a sign has no result before a number. -/
inductive Refuses : Sign → Number → String → Prop where
  | word {i : Int64} (h : ¬ IsWord (-i.toInt)) : Refuses .minus (.int i) "integer overflow"

end Sign

/-! ### Operators -/

namespace Operator

variable {op : Operator} {a b n : Number} {text : String}

theorem dividesByZero_iff :
    op.DividesByZero b ↔ (op = .wholeQuotient ∨ op = .quotient) ∧ b.isZero = true := by
  rw [DividesByZero, Number.isZero_iff]

/-- Where nothing is divided by zero, integers are refused only for a result that is no word. -/
theorem offence_eq {x : Int} {j : Int64} (h : ¬ op.DividesByZero (.int j)) :
    op.offence x j.toInt = wordOffence (op.exact x j.toInt) := by
  refine if_neg ?_
  rintro ⟨rfl, hj⟩
  rw [toInt_eq_zero] at hj
  exact h ⟨.inl rfl, .inl (congrArg _ hj)⟩

/-- On integers an operator yields the exact result as a word, or is refused. -/
theorem binary_words {i j : Int64} (hop : op ≠ .quotient) (hdivisor : ¬ op.DividesByZero (.int j)) :
    Number.binary op (.int i) (.int j) =
      Number.unlessRefused (wordOffence (op.exact i.toInt j.toInt)) (op.exact i.toInt j.toInt) := by
  have hwords := Number.binary_ofWord hop (isWord_toInt i) (isWord_toInt j)
  rwa [Number.ofWord, Number.ofWord, Int64.ofInt_toInt, Int64.ofInt_toInt, offence_eq hdivisor]
    at hwords

/-- An operation that is not one of two integers is worked out on reals. -/
theorem arith_of_real {words : Int64 → Int64 → Option Int64}
    {reals : Binary64 → Binary64 → Binary64}
    (hkind : op.resultKind a.numericKind b.numericKind = .real) (hop : op ≠ .quotient) :
    Number.arith words reals a b = Number.ofReal? (reals a.toReal b.toReal) := by
  cases a with
  | real x => rfl
  | int i =>
      cases b with
      | real y => rfl
      | int j => cases op <;> first | exact absurd rfl hop | cases hkind

/-- Where a real is involved, an operator works on reals, and its result is refused unless finite.
-/
theorem binary_reals (hkind : op.resultKind a.numericKind b.numericKind = .real)
    (hdivisor : ¬ op.DividesByZero b) :
    Number.binary op a b = Number.ofReal? (op.onReals a.toReal b.toReal) := by
  rw [dividesByZero_iff] at hdivisor
  cases op with
  | sum => exact arith_of_real hkind (by decide)
  | difference => exact arith_of_real hkind (by decide)
  | product => exact arith_of_real hkind (by decide)
  | wholeQuotient =>
      rw [Number.binary, if_neg fun h => hdivisor ⟨.inl rfl, h⟩]
      exact arith_of_real hkind (by decide)
  | quotient =>
      rw [Number.binary, if_neg fun h => hdivisor ⟨.inr rfl, h⟩]
      rfl

/-- What the table of results says is what is computed. -/
theorem Yields.binary (h : op.Yields a b n) : Number.binary op a b = .ok n := by
  cases h with
  | word hop hdivisor h =>
      rw [binary_words hop hdivisor, wordOffence, if_pos h]
      rfl
  | real hkind hdivisor h => rw [binary_reals hkind hdivisor, Number.ofReal?, if_pos h]

/-- What the table of refusals says is what is told. -/
theorem Refuses.binary (h : op.Refuses a b text) :
    ∃ cause, Number.binary op a b = .error cause ∧ cause.text = text := by
  cases h with
  | divisor h =>
      obtain ⟨hop, hb⟩ := dividesByZero_iff.1 h
      exact ⟨_, Number.binary_of_isZero hop hb, rfl⟩
  | word hop hdivisor h =>
      refine ⟨.integerOverflow, ?_, rfl⟩
      rw [binary_words hop hdivisor, wordOffence, if_neg h]
      rfl
  | real hkind hdivisor h =>
      refine ⟨.realOverflow, ?_, rfl⟩
      rw [binary_reals hkind hdivisor, Number.ofReal?, h, if_neg Bool.false_ne_true]

/-- One of the two tables has a row for every operation. -/
theorem yields_or_refuses (op : Operator) (a b : Number) :
    (∃ n, op.Yields a b n) ∨ ∃ text, op.Refuses a b text := by
  by_cases hdivisor : op.DividesByZero b
  · exact .inr ⟨_, .divisor hdivisor⟩
  cases hkind : op.resultKind a.numericKind b.numericKind with
  | real =>
      cases hfinite : (op.onReals a.toReal b.toReal).isFinite with
      | true => exact .inl ⟨_, .real hkind hdivisor hfinite⟩
      | false => exact .inr ⟨_, .real hkind hdivisor hfinite⟩
  | integer =>
      -- Only an operation of two integers has an integer for a result.
      obtain ⟨hop, i, j, rfl, rfl⟩ : op ≠ .quotient ∧ ∃ i j, a = .int i ∧ b = .int j := by
        cases a <;> cases b <;> cases op <;> first | exact ⟨by decide, _, _, rfl, rfl⟩ | cases hkind
      by_cases hword : IsWord (op.exact i.toInt j.toInt)
      · exact .inl ⟨_, .word hop hdivisor hword⟩
      · exact .inr ⟨_, .word hop hdivisor hword⟩

end Operator

namespace Number

variable {a b n : Number} {cause : ArithmeticFault}

/-- **An operator has the results of its table**, and no others. -/
theorem binary_eq_ok_iff {op : Operator} : binary op a b = .ok n ↔ op.Yields a b n := by
  refine ⟨fun h => ?_, Operator.Yields.binary⟩
  rcases op.yields_or_refuses a b with ⟨m, hm⟩ | ⟨text, htext⟩
  · obtain rfl : n = m := Except.ok.inj (h.symm.trans hm.binary)
    exact hm
  · obtain ⟨cause, hcause, -⟩ := htext.binary
    exact nomatch h.symm.trans hcause

/-- **It is refused by the rows of the other table**, and by nothing else. -/
theorem binary_eq_error_iff {op : Operator} :
    binary op a b = .error cause ↔ op.Refuses a b cause.text := by
  constructor
  · intro h
    rcases op.yields_or_refuses a b with ⟨m, hm⟩ | ⟨text, htext⟩
    · exact nomatch h.symm.trans hm.binary
    · obtain ⟨cause', hcause, rfl⟩ := htext.binary
      obtain rfl : cause = cause' := Except.error.inj (h.symm.trans hcause)
      exact htext
  · intro h
    obtain ⟨cause', hcause, htext⟩ := h.binary
    rwa [ArithmeticFault.text_injective htext] at hcause

/-! ### Signs -/

/-- A sign yields what the table says, and nothing else. -/
theorem unary_eq_ok_iff {op : Sign} : unary op a = .ok n ↔ op.Yields a n := by
  constructor
  · intro h
    cases op with
    | plus =>
        cases h
        exact .plus
    | minus =>
        cases a with
        | real x =>
            cases h
            exact .real
        | int i =>
            rw [unary, ofWord?_word?, wordOffence] at h
            split at h <;> cases h
            next hword => exact .word hword
  · intro h
    cases h with
    | plus => rfl
    | real => rfl
    | word h =>
        rw [unary, ofWord?_word?, wordOffence, if_pos h]
        rfl

theorem unary_eq_error_iff {op : Sign} : unary op a = .error cause ↔ op.Refuses a cause.text := by
  constructor
  · intro h
    cases op with
    | plus => cases h
    | minus =>
        cases a with
        | real x => cases h
        | int i =>
            rw [unary, ofWord?_word?, wordOffence] at h
            split at h <;> cases h
            next hword => exact .word hword
  · intro h
    generalize htext : cause.text = text at h
    cases h with
    | word h =>
        obtain rfl : cause = .integerOverflow := ArithmeticFault.text_injective htext
        rw [unary, ofWord?_word?, wordOffence, if_neg h]
        rfl

end Number

end MiniPascal
