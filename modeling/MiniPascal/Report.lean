import MiniPascal.Fault

/-!
# Report

Faults as they are told to a reader of the program.  A report has a category, which decides the
heading, the code and the words that lead the message, and the place that is blamed.  The line of
a place is one more than the line ends before it; a place within the bytes of one character has
none.
-/

namespace MiniPascal

/-- The categories of faults. -/
inductive Category where
  | lexical
  | grammar
  | naming
  | arithmetic
  | uninitialized
deriving DecidableEq, Repr

namespace Category

/-- The heading of a category. -/
def heading : Category → String
  | .lexical       => "LexicalError"
  | .grammar       => "SyntaxError"
  | .naming        => "NameError"
  | .arithmetic    => "ArithmeticError"
  | .uninitialized => "UninitializedError"

/-- The code of a category. -/
def code : Category → String
  | .lexical       => "pascal::lexical"
  | .grammar       => "pascal::syntax"
  | .naming        => "pascal::name"
  | .arithmetic    => "pascal::arithmetic"
  | .uninitialized => "pascal::uninitialized"

/-- Whether a fault of the category can only arise while a program runs. -/
def atRuntime : Category → Bool
  | .arithmetic | .uninitialized => true
  | _                            => false

/-- The whole message around its variable part. -/
def message : Category → String → String
  | .lexical,       text => "lexical error: " ++ text
  | .grammar,       text => "syntax error: " ++ text
  | .naming,        text => "name error: " ++ text
  | .arithmetic,    text => "arithmetic error: " ++ text
  | .uninitialized, name => "uninitialized variable '" ++ name ++ "'"

end Category

/-- A fault as it is told; for a variable without a value the text is its name. -/
structure Report where
  category : Category
  text     : String
  span     : Span
deriving DecidableEq, Repr

namespace Report

/-- The whole message. -/
def message (r : Report) : String := r.category.message r.text

/-- The line of a byte offset, counted from one, if the offset lies at a character or behind the
text. -/
def lineFrom? : (line offset : Nat) → List Char → Option Nat
  | line, 0,          _       => some line
  | line, _,          []      => some line
  | line, offset + 1, c :: cs =>
      if c.utf8Size ≤ offset + 1 then
        lineFrom? (if c = '\n' then line + 1 else line) (offset + 1 - c.utf8Size) cs
      else none

/-- The line of a byte offset in a text. -/
def lineNumber? (source : String) (offset : Nat) : Option Nat :=
  lineFrom? 1 offset source.toList

/-- The message behind the line of the source that it is about. -/
def line? (source : String) (r : Report) : Option String :=
  (lineNumber? source r.span.offset).map fun n =>
    "Error: line " ++ natText n ++ ": " ++ r.message

end Report

namespace Located

/-- The report of a fault in reading a text. -/
def readingReport (f : Located ReadingFault) : Report :=
  match f.cause with
  | .lexical cause => ⟨.lexical, cause.text, f.span⟩
  | .grammar cause => ⟨.grammar, cause.text, f.span⟩

/-- The report of a fault in the names of a program. -/
def namingReport (f : Located NameFault) : Report := ⟨.naming, f.cause.text, f.span⟩

/-- The report of a fault in a run. -/
def runtimeReport (f : Located RuntimeFault) : Report :=
  match f.cause with
  | .arithmetic cause   => ⟨.arithmetic, cause.text, f.span⟩
  | .uninitialized name => ⟨.uninitialized, name, f.span⟩

/-- The report of any fault. -/
def report (f : Located Fault) : Report :=
  match f.cause with
  | .reading cause => readingReport ⟨cause, f.span⟩
  | .naming cause  => namingReport ⟨cause, f.span⟩
  | .runtime cause => runtimeReport ⟨cause, f.span⟩

end Located

end MiniPascal
