import MiniPascal.Number
import MiniPascal.Span

/-!
# Token

The units that a program text falls into.  A token has a kind, the text it was written as and the
stretch it was found at; the end of the text counts as a token of its own, empty and of the kind
`eof`.
-/

namespace MiniPascal

/-- The kinds of tokens: operators and delimiters, the three open classes, the eight reserved
words, the end. -/
inductive Token.Kind where
  | plus | minus | star | slash
  | leftParen | rightParen | assign | colon | semicolon | comma | dot
  | identifier | integerConst | realConst
  | programWord | varWord | divWord | integerWord | realWord | beginWord | endWord | procedureWord
  | eof
deriving DecidableEq, Repr

/-- The reserved words, which are matched letter for letter. -/
def reservedWords : List (String × Token.Kind) :=
  [("PROGRAM", .programWord), ("VAR", .varWord), ("DIV", .divWord), ("INTEGER", .integerWord),
   ("REAL", .realWord), ("BEGIN", .beginWord), ("END", .endWord), ("PROCEDURE", .procedureWord)]

namespace Token.Kind

/-- The kind of a reserved word. -/
def ofWord? (word : String) : Option Token.Kind := reservedWords.lookup word

/-- The kind of a delimiter or operator of one character. -/
def ofSymbol? : Char → Option Token.Kind
  | '+' => some .plus
  | '-' => some .minus
  | '*' => some .star
  | '/' => some .slash
  | '(' => some .leftParen
  | ')' => some .rightParen
  | ';' => some .semicolon
  | ':' => some .colon
  | '.' => some .dot
  | ',' => some .comma
  | _   => none

/-- How a kind is written: the text of its tokens where there is only one, a class name otherwise.
-/
def text : Token.Kind → String
  | .plus          => "+"
  | .minus         => "-"
  | .star          => "*"
  | .slash         => "/"
  | .leftParen     => "("
  | .rightParen    => ")"
  | .assign        => ":="
  | .colon         => ":"
  | .semicolon     => ";"
  | .comma         => ","
  | .dot           => "."
  | .identifier    => "IDENTIFIER"
  | .integerConst  => "INTEGER_CONST"
  | .realConst     => "REAL_CONST"
  | .programWord   => "PROGRAM"
  | .varWord       => "VAR"
  | .divWord       => "DIV"
  | .integerWord   => "INTEGER"
  | .realWord      => "REAL"
  | .beginWord     => "BEGIN"
  | .endWord       => "END"
  | .procedureWord => "PROCEDURE"
  | .eof           => "EOF"

/-- The name of a kind in token listings. -/
def name : Token.Kind → String
  | .plus          => "Plus"
  | .minus         => "Minus"
  | .star          => "Star"
  | .slash         => "Slash"
  | .leftParen     => "LeftParen"
  | .rightParen    => "RightParen"
  | .assign        => "Assign"
  | .colon         => "Colon"
  | .semicolon     => "Semicolon"
  | .comma         => "Comma"
  | .dot           => "Dot"
  | .identifier    => "Identifier"
  | .integerConst  => "IntegerConst"
  | .realConst     => "RealConst"
  | .programWord   => "Program"
  | .varWord       => "Var"
  | .divWord       => "IntegerDiv"
  | .integerWord   => "Integer"
  | .realWord      => "Real"
  | .beginWord     => "Begin"
  | .endWord       => "End"
  | .procedureWord => "Procedure"
  | .eof           => "Eof"

end Token.Kind

/-- A token as found in a text. -/
structure Token where
  kind   : Token.Kind
  lexeme : String
  span   : Span
deriving DecidableEq, Repr

namespace Token

/-- The token at the end of a text. -/
def eof (offset : Nat) : Token := ⟨.eof, "", ⟨offset, 0⟩⟩

/-- The token in an error message. -/
def shown (t : Token) : String :=
  if t.kind = .eof then "end of input" else "'" ++ t.lexeme ++ "'"

/-- The token in a token listing. -/
def listing (t : Token) : String :=
  t.kind.name ++ " '" ++ t.lexeme ++ "' @" ++ natText t.span.offset

end Token

end MiniPascal
