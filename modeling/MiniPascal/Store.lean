import MiniPascal.Bindings
import MiniPascal.Json
import MiniPascal.Number

/-!
# Store

The values of variables while a program runs.  There is one store for the whole program, whatever
the nesting of its compounds, and a variable appears in it with its first assignment.
-/

namespace MiniPascal

/-- Numbers under the names of variables. -/
abbrev Store := Bindings Number

/-- A number as a JSON number; a real that is not finite becomes `null`. -/
def Number.plainJson : Number → Json
  | .int i  => .int i.toInt
  | .real x => .real x

namespace Store

/-- One line for each variable. -/
def text (s : Store) : String :=
  String.join (s.entries.map fun e => e.1 ++ " = " ++ e.2.text .value ++ "\n")

/-- One field for each variable. -/
def toJson (s : Store) : Json := .obj (s.entries.map fun e => (e.1, e.2.plainJson))

/-- Whether two lists of variables have the same names with values that agree. -/
def entriesAgree : List (String × Number) → List (String × Number) → Bool
  | [],      []      => true
  | e :: es, f :: fs => e.1 == f.1 && e.2.agrees f.2 && entriesAgree es fs
  | _,       _       => false

/-- The same names in the same order, with values that agree. -/
def agrees (s t : Store) : Bool := entriesAgree s.entries t.entries

end Store

end MiniPascal
