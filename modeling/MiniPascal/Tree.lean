import MiniPascal.Number
import MiniPascal.Span

/-!
# Tree

The tree of a program.  Every node carries the stretch of text it was read from; a compound
statement is a list of statements in which the empty statement may stand anywhere, and a block is
a list of declarations before a compound statement.  Parentheses leave no trace of their own.
-/

namespace MiniPascal

/-- The two types that a variable can be declared with. -/
inductive TypeName where
  | integer
  | real
deriving DecidableEq, Repr

/-- The operators between two operands, by what they compute. -/
inductive Operator where
  | sum
  | difference
  | product
  | wholeQuotient
  | quotient
deriving DecidableEq, Repr

/-- The signs before one operand. -/
inductive Sign where
  | plus
  | minus
deriving DecidableEq, Repr

/-- An expression. -/
inductive Expression where
  | binary (op : Operator) (left right : Expression) (span : Span)
  | unary (op : Sign) (operand : Expression) (span : Span)
  | num (value : Number) (span : Span)
  | var (name : String) (span : Span)
deriving DecidableEq, Repr

/-- A statement; the empty one has no place in the text. -/
inductive Statement where
  | compound (statements : List Statement) (span : Span)
  | assign (target : String) (targetSpan : Span) (value : Expression) (span : Span)
  | noop
deriving Repr

/-- Statements between `BEGIN` and `END`. -/
structure Compound where
  statements : List Statement
  span       : Span
deriving Repr

/-- A declaration of one variable or of a procedure. -/
inductive Declaration where
  | var (name : String) (type : TypeName) (span : Span)
  | procedure (name : String) (decls : List Declaration) (body : Compound) (span : Span)
deriving Repr

/-- Declarations and the body they are made for. -/
structure Block where
  decls : List Declaration
  body  : Compound
deriving Repr

/-- A whole program. -/
structure Program where
  name  : String
  block : Block
  span  : Span
deriving Repr

namespace TypeName

/-- The reserved word for a type. -/
def text : TypeName → String
  | .integer => "INTEGER"
  | .real    => "REAL"

end TypeName

namespace Operator

/-- An operator as it is written. -/
def text : Operator → String
  | .sum           => "+"
  | .difference    => "-"
  | .product       => "*"
  | .wholeQuotient => "DIV"
  | .quotient      => "/"

end Operator

namespace Sign

/-- A sign as it is written. -/
def text : Sign → String
  | .plus  => "+"
  | .minus => "-"

end Sign

namespace Expression

/-- The stretch that an expression was read from. -/
def span : Expression → Span
  | .binary _ _ _ s => s
  | .unary _ _ s    => s
  | .num _ s        => s
  | .var _ s        => s

/-- The number of nodes on the longest path down to a leaf. -/
def height : Expression → Nat
  | .binary _ l r _ => max l.height r.height + 1
  | .unary _ e _    => e.height + 1
  | .num _ _        => 1
  | .var _ _        => 1

/-- An operation between two expressions, which reaches from the one to the other. -/
def combine (left : Expression) (op : Operator) (right : Expression) : Expression :=
  .binary op left right (left.span.through right.span)

end Expression

namespace Compound

/-- A compound as a statement of another one. -/
def toStatement (c : Compound) : Statement := .compound c.statements c.span

end Compound

end MiniPascal
