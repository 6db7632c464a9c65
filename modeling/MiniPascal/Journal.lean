import MiniPascal.Symbol

/-!
# Journal

What a run writes down of its doings: every definition and look-up of a name while declarations
are checked, and every assignment while the program runs.  Events are plain data; a journal is a
list of them in the order in which they happened.
-/

namespace MiniPascal

/-- Something that happened. -/
inductive Event where
  | define (symbol : Symbol)
  | lookup (name : String)
  | redeclare (name : String) (previous : Symbol)
  | assign (name : String) (value : Number)
deriving DecidableEq, Repr

namespace Event

/-- How important an event is. -/
def level : Event → String
  | .redeclare _ _ => "DEBUG"
  | _              => "TRACE"

/-- The fields of an event, in the order of their names. -/
def fields : Event → List (String × String)
  | .define symbol           => [("message", "define"), ("symbol", symbol.text)]
  | .lookup name             => [("message", "lookup"), ("name", name)]
  | .redeclare name previous =>
      [("message", "redeclaration overwrites symbol"), ("name", name), ("previous", previous.text)]
  | .assign name value       =>
      [("message", "assign"), ("name", name), ("value", value.text .value)]

end Event

end MiniPascal
