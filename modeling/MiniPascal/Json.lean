import MiniPascal.Decimal.Layout

/-!
# Json

JSON values and their texts.  The fields of an object keep their order.  One function writes both
forms, the compact one on a single line and the indented one with an element per line; they differ
in a `Style` alone.  A real number that is not finite has no JSON number and is written as `null`.
-/

namespace MiniPascal

/-- A JSON value; numbers are integers or reals. -/
inductive Json where
  | null
  | bool (b : Bool)
  | int (i : Int)
  | real (x : Binary64)
  | str (s : String)
  | arr (elements : List Json)
  | obj (fields : List (String × Json))

namespace Json

/-- A natural number. -/
def nat (n : Nat) : Json := .int n

/-- A hexadecimal digit in lower case. -/
def hexDigit (n : Nat) : Char := Nat.digitChar n

/-- A character inside a string.  Quotes, backslashes and the characters below the space are
escaped, the latter by a letter where JSON has one; all others stand for themselves. -/
def escapeChar (c : Char) : List Char :=
  if c = '"' then ['\\', '"']
  else if c = '\\' then ['\\', '\\']
  else if c = '\x08' then ['\\', 'b']
  else if c = '\x0c' then ['\\', 'f']
  else if c = '\n' then ['\\', 'n']
  else if c = '\r' then ['\\', 'r']
  else if c = '\t' then ['\\', 't']
  else if c.toNat < 0x20 then
    ['\\', 'u', '0', '0', hexDigit (c.toNat / 16), hexDigit (c.toNat % 16)]
  else [c]

/-- A string in quotes. -/
def quoted (s : String) : String :=
  String.ofList ('"' :: (s.toList.flatMap escapeChar ++ ['"']))

/-- A real number, or `null`. -/
def realText (x : Binary64) : String :=
  if x.isFinite then x.text .json else "null"

/-- What a text form puts before an element `depth` levels down, and between a key and its value. -/
structure Style where
  line  : (depth : Nat) → String
  colon : String

/-- All on one line, without blanks. -/
def Style.compact : Style := ⟨fun _ => "", ":"⟩

/-- One element per line, indented by two blanks for every level. -/
def Style.indented : Style :=
  ⟨fun depth => "\n" ++ String.ofList (List.replicate (2 * depth) ' '), ": "⟩

/-- The parts of an array or object between its brackets; nothing stands between those of an empty
one. -/
def bracketed (style : Style) (depth : Nat) (opening closing : String) (parts : List String) :
    String :=
  if parts.isEmpty then opening ++ closing
  else
    opening ++ style.line (depth + 1) ++
      String.intercalate ("," ++ style.line (depth + 1)) parts ++ style.line depth ++ closing

mutual

/-- The text of a value that stands `depth` levels down. -/
def render (style : Style) (depth : Nat) : Json → String
  | .null       => "null"
  | .bool b     => if b then "true" else "false"
  | .int i      => intText i
  | .real x     => realText x
  | .str s      => quoted s
  | .arr xs     => bracketed style depth "[" "]" (renderElements style (depth + 1) xs)
  | .obj fields => bracketed style depth "\x7b" "\x7d" (renderFields style (depth + 1) fields)

/-- The texts of the elements of an array. -/
def renderElements (style : Style) (depth : Nat) : List Json → List String
  | []      => []
  | x :: xs => render style depth x :: renderElements style depth xs

/-- The texts of the fields of an object. -/
def renderFields (style : Style) (depth : Nat) : List (String × Json) → List String
  | []             => []
  | (k, v) :: rest =>
      (quoted k ++ style.colon ++ render style depth v) :: renderFields style depth rest

end

/-- A value on one line. -/
def compact (j : Json) : String := j.render .compact 0

/-- A value with an element per line. -/
def indented (j : Json) : String := j.render .indented 0

end Json

end MiniPascal
