import MiniPascal.Reading.Cursor
import MiniPascal.Tree

/-!
# Reading — Expression

Expressions from tokens.  There are two levels of operators that associate to the left, and a sign
binds tighter than either.  `levels` is how many constructs may still be opened around what is
read next; parentheses and signs open one each.  Beside the tree goes its height, which may not
exceed the nesting limit either, so that a long chain of operators is bounded like a deep nest.
-/

namespace MiniPascal

/-- An expression together with its height. -/
structure Measured where
  expr   : Expression
  height : Nat
deriving Repr

/-- The operators of sums. -/
def Operator.ofSumKind? : Token.Kind → Option Operator
  | .plus  => some .sum
  | .minus => some .difference
  | _      => none

/-- The operators of products. -/
def Operator.ofProductKind? : Token.Kind → Option Operator
  | .star    => some .product
  | .divWord => some .wholeQuotient
  | .slash   => some .quotient
  | _        => none

namespace Reader

/-- The height above a tallest child of height `child`. -/
def heightAbove (child : Nat) : Reader Nat :=
  if child < nestingLimit then pure (child + 1) else failHere .tooDeep

/-- One operand, and as many more as operators of one level follow, combined to the left.  Each of
them makes the tree higher, so the nesting limit bounds their number too. -/
def chain (op? : Token.Kind → Option Operator) (operand : Reader Measured) : Reader Measured := do
  iterate op? (fun op left => do
      let _ ← take
      let right ← operand
      return ⟨left.expr.combine op right.expr, ← heightAbove (max left.height right.height)⟩)
    nestingLimit (← operand)

/-- Sums of products of factors. -/
def sumOf (factor : Reader Measured) : Reader Measured :=
  chain Operator.ofSumKind? (chain Operator.ofProductKind? factor)

/-- A sign before a factor. -/
def signed (op : Sign) (inner : Option (Reader Measured)) : Reader Measured := do
  let sign ← take
  let operand ← deeper inner
  let span := sign.span.through operand.expr.span
  return ⟨.unary op operand.expr span, ← heightAbove operand.height⟩

/-- A literal.  One that stands for no number is a fault of the literal itself. -/
def literal : Reader Measured := do
  let t ← take
  match Number.ofLexeme? t.kind t.lexeme.toList with
  | some value => return ⟨.num value t.span, 1⟩
  | none       => throw ⟨.grammar (.invalidLiteral t.lexeme), t.span⟩

/-- An expression in parentheses. -/
def parenthesized (inner : Option (Reader Measured)) : Reader Measured := do
  let _ ← take
  let e ← deeper (inner.map sumOf)
  let _ ← require .rightParen .closingParen
  return e

/-- A variable. -/
def variableName : Reader Measured := do
  let t ← take
  return ⟨.var t.lexeme t.span, 1⟩

/-- A factor, given the factors one level further down. -/
def factorWith (inner : Option (Reader Measured)) : Reader Measured := do
  match (← peek).kind with
  | .plus                      => signed .plus inner
  | .minus                     => signed .minus inner
  | .integerConst | .realConst => literal
  | .leftParen                 => parenthesized inner
  | .identifier                => variableName
  | _                          => failExpected .expression

/-- A factor in which `levels` more constructs may be opened. -/
def factor : (levels : Nat) → Reader Measured
  | 0          => factorWith none
  | levels + 1 => factorWith (some (factor levels))

/-- An expression in which `levels` more constructs may be opened. -/
def expression (levels : Nat) : Reader Measured := sumOf (factor levels)

end Reader

end MiniPascal
