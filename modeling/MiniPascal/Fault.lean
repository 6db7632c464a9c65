import MiniPascal.Token

/-!
# Fault

What can be wrong with a program, by cause.  A fault of the text is lexical, grammatical or one of
naming and stops the program before it runs; a fault of the run is arithmetical or a read of a
variable without a value.  Each is located at a stretch of the text.
-/

namespace MiniPascal

/-- A cause with the stretch of text it is blamed on. -/
structure Located (α : Type) where
  cause : α
  span  : Span
deriving DecidableEq, Repr

/-- Why a text does not fall into tokens. -/
inductive LexicalFault where
  | invalidCharacter (c : Char) (position : Nat)
  | outOfRange (literal : String)
  | unterminatedComment
deriving DecidableEq, Repr

/-- What may stand at a place in a program. -/
inductive Expected where
  | programWord | programName | semicolonAfterProgramName | dotAfterBody | endOfInput
  | variableName | colonAfterNames | typeName | semicolonAfterVariables
  | procedureName | semicolonAfterProcedureName | semicolonAfterProcedure
  | beginWord | endWord | semicolonBetween
  | assignmentTarget | assignSign | expression | closingParen
deriving DecidableEq, Repr

/-- Why tokens do not form a program. -/
inductive GrammarFault where
  | expected (what : Expected) (found : Token)
  | tooDeep
  | invalidLiteral (literal : String)
deriving DecidableEq, Repr

/-- Why the names of a program do not fit. -/
inductive NameFault where
  | undeclared (name : String)
  | unknownType (name : String)
deriving DecidableEq, Repr

/-- Why arithmetic has no result. -/
inductive ArithmeticFault where
  | divisionByZero
  | integerOverflow
  | realOverflow
deriving DecidableEq, Repr

/-- Why a run stops. -/
inductive RuntimeFault where
  | arithmetic (cause : ArithmeticFault)
  | uninitialized (name : String)
deriving DecidableEq, Repr

/-- Why a text is not a program. -/
inductive ReadingFault where
  | lexical (cause : LexicalFault)
  | grammar (cause : GrammarFault)
deriving DecidableEq, Repr

/-- Any fault of a program. -/
inductive Fault where
  | reading (cause : ReadingFault)
  | naming (cause : NameFault)
  | runtime (cause : RuntimeFault)
deriving DecidableEq, Repr

/-- The most levels that constructs may be nested, and the greatest height of an expression. -/
def nestingLimit : Nat := 128

namespace LexicalFault

/-- The wording of a lexical fault. -/
def text : LexicalFault → String
  | .invalidCharacter c p => "invalid character '" ++ c.toString ++ "' at position " ++ natText p
  | .outOfRange literal   => "numeric literal '" ++ literal ++ "' is out of range"
  | .unterminatedComment  => "unexpected end of input: unterminated comment"

end LexicalFault

namespace Expected

/-- The wording of an expectation. -/
def text : Expected → String
  | .programWord                 => "'PROGRAM'"
  | .programName                 => "program name"
  | .semicolonAfterProgramName   => "';' after program name"
  | .dotAfterBody                => "'.' after program body"
  | .endOfInput                  => "end of input after '.'"
  | .variableName                => "variable name"
  | .colonAfterNames             => "':' after variable names"
  | .typeName                    => "type 'INTEGER' or 'REAL'"
  | .semicolonAfterVariables     => "';' after variable declaration"
  | .procedureName               => "procedure name"
  | .semicolonAfterProcedureName => "';' after procedure name"
  | .semicolonAfterProcedure     => "';' after procedure body"
  | .beginWord                   => "'BEGIN'"
  | .endWord                     => "'END'"
  | .semicolonBetween            => "';' between statements"
  | .assignmentTarget            => "assignment target"
  | .assignSign                  => "':=' after assignment target"
  | .expression                  => "expression"
  | .closingParen                => "')' after expression"

end Expected

namespace GrammarFault

/-- The wording of a grammatical fault. -/
def text : GrammarFault → String
  | .expected what found    => "expected " ++ what.text ++ ", found " ++ found.shown
  | .tooDeep                => "nesting too deep: more than " ++ natText nestingLimit ++ " levels"
  | .invalidLiteral literal => "invalid numeric literal '" ++ literal ++ "'"

end GrammarFault

namespace NameFault

/-- The wording of a naming fault. -/
def text : NameFault → String
  | .undeclared name  => "undeclared variable '" ++ name ++ "'"
  | .unknownType name => "unknown type '" ++ name ++ "'"

end NameFault

namespace ArithmeticFault

/-- The wording of an arithmetic fault. -/
def text : ArithmeticFault → String
  | .divisionByZero  => "division by zero"
  | .integerOverflow => "integer overflow"
  | .realOverflow    => "real overflow"

end ArithmeticFault

namespace Located

/-- The same place with another cause. -/
def map {α β : Type} (f : α → β) (l : Located α) : Located β := ⟨f l.cause, l.span⟩

end Located

end MiniPascal
