import MiniPascal.Input

/-!
# Reading — Cursor

The place that a reader of tokens has come to, and the steps it can take.  One token is looked at;
consuming it pulls the next one, and a lexical fault of that next token comes out at that moment.
A `Reader` keeps its cursor on failure too, so that what was pulled can be told in either case.
Behind the end the cursor stays at `eof`.
-/

namespace MiniPascal

/-- The token looked at, what the input yields after it, and the stretch of the token consumed
last. -/
structure Cursor where
  current  : Token
  rest     : List Pulled
  previous : Span
deriving Repr

/-- A step over tokens that yields a value or a fault. -/
abbrev Reader := EStateM (Located ReadingFault) Cursor

namespace Reader

/-- The token looked at. -/
def peek : Reader Token := fun c => .ok c.current c

/-- The stretch of the token consumed last. -/
def lastSpan : Reader Span := fun c => .ok c.previous c

/-- Consumes the token looked at and yields it. -/
def take : Reader Token := fun c =>
  match c.rest with
  | .ok t :: rest    => .ok c.current ⟨t, rest, c.current.span⟩
  | .error e :: rest => .error (e.map .lexical) { c with rest := rest }
  | []               => .ok c.current { c with previous := c.current.span }

/-- A fault at the token looked at; at the end of the text it has the length one all the same. -/
def failHere {α : Type} (cause : GrammarFault) : Reader α := fun c =>
  .error ⟨.grammar cause, ⟨c.current.span.offset, max c.current.span.len 1⟩⟩ c

/-- A fault that says what should stand instead of the token looked at. -/
def failExpected {α : Type} (what : Expected) : Reader α := do
  failHere (.expected what (← peek))

/-- Consumes a token of the given kind, or says what should stand there. -/
def require (kind : Token.Kind) (what : Expected) : Reader Token := do
  if (← peek).kind = kind then take else failExpected what

/-- The stretch from the beginning of `start` to the end of the token consumed last. -/
def spanFrom (start : Span) : Reader Span := do
  return start.through (← lastSpan)

/-- What lies one level further down, or the fault that there is no such level. -/
def deeper {α : Type} (inner : Option (Reader α)) : Reader α :=
  inner.getD (failHere .tooDeep)

/-- The test for a single kind of token. -/
def only (kind : Token.Kind) : Token.Kind → Option Unit :=
  fun k => if k = kind then some () else none

/-- Repeats a step on a value as long as the token looked at passes a test, at most `rounds`
times. -/
def iterate {β γ : Type} (test : Token.Kind → Option γ) (step : γ → β → Reader β) :
    Nat → β → Reader β
  | 0,          b => pure b
  | rounds + 1, b => do
      match test (← peek).kind with
      | some x => iterate test step rounds (← step x b)
      | none   => pure b

/-- Repeats a step on a value as long as the token looked at passes a test.  A step that consumes
that token is taken no more often than there are tokens left. -/
def whileAt {β γ : Type} (test : Token.Kind → Option γ) (step : γ → β → Reader β) (b : β) :
    Reader β :=
  fun c => iterate test step (c.rest.length + 1) b c

end Reader

end MiniPascal
