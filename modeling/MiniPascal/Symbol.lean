import MiniPascal.Bindings
import MiniPascal.Tree

/-!
# Symbol

What a declared name stands for, and the table of declared names.  A table begins with the two
types; a declaration of a name that is there replaces its symbol and keeps its place.  Types and
variables share one space of names.
-/

namespace MiniPascal

/-- A type, or a variable of a type. -/
inductive Symbol where
  | builtin (type : TypeName)
  | declared (name : String) (type : TypeName)
deriving DecidableEq, Repr

namespace Symbol

/-- The name that a symbol is kept under. -/
def name : Symbol → String
  | .builtin type    => type.text
  | .declared name _ => name

/-- A symbol as it is shown. -/
def text : Symbol → String
  | .builtin type       => type.text
  | .declared name type => "<" ++ name ++ ":" ++ type.text ++ ">"

end Symbol

/-- Symbols under their names. -/
abbrev SymbolTable := Bindings Symbol

namespace SymbolTable

/-- Enters a symbol under its name. -/
def define (t : SymbolTable) (s : Symbol) : SymbolTable := t.put s.name s

/-- The table before any declaration. -/
def initial : SymbolTable :=
  define (define .empty (.builtin .integer)) (.builtin .real)

/-- The table as it is shown. -/
def text (t : SymbolTable) : String :=
  "Symbols: [" ++ String.intercalate ", " (t.entries.map (·.2.text)) ++ "]"

end SymbolTable

end MiniPascal
