import MiniPascal.Proofs.Grammar.Enclosing
import MiniPascal.Reading.Program

/-!
# Proofs — Reading — Counting

Reading with counters.  The plain readers of expressions, statements and blocks go by the levels
that are left, and return the height of what they read with it.  A `Counting` reader keeps both in
its state: how many levels it is down, which it counts up and down by hand, and how high the
expression read last was, which every expression overwrites, so that a loop needs a copy of its own.
It goes by the first alone; that the levels it recurses on run out is a stop of its own
(`Stop.overflow`), as is going up where it has not gone down (`Stop.underflow`).  Steps over tokens
are the plain ones, which cannot reach the counters.  On record are every state it comes to, and
every call of a rule and its return.
-/

namespace MiniPascal

open Reader

/-- The place that a reader with counters has come to: how many levels down it is, and how high the
expression read last was. -/
structure Tally where
  cursor : Cursor
  depth  : Nat
  height : Nat
deriving Repr

/-- What is recorded: a state, the call of a rule, or its return, with the expression if it reads
one. -/
inductive Record where
  | reached (now : Tally)
  | entered (rule : Rule) (now : Tally)
  | returned (rule : Rule) (entry exit : Tally) (tree : Option Expression)

/-- Where a counting reader stands, and what it has recorded, the last first. -/
structure Counted where
  tally   : Tally
  records : List Record

/-- Why a counting reader stops: a fault in the text, a level that is left without having been
entered, or a level below all those there are. -/
inductive Stop where
  | fault (cause : Located ReadingFault)
  | underflow
  | overflow
deriving DecidableEq, Repr

/-- A step over tokens that counts. -/
abbrev Counting := EStateM Stop Counted

/-- The state with another tally, on record. -/
def Counted.moved (s : Counted) (t : Tally) : Counted := ⟨t, .reached t :: s.records⟩

namespace Counting

variable {α β γ : Type}

/-- A plain step, which leaves the counters alone. -/
def lift (m : Reader α) : Counting α := fun s =>
  match m s.tally.cursor with
  | .ok a c    => .ok a (s.moved { s.tally with cursor := c })
  | .error e c => .error (.fault e) (s.moved { s.tally with cursor := c })

instance : MonadLift Reader Counting := ⟨lift⟩

/-- Where the reader stands. -/
def tally : Counting Tally := fun s => .ok s.tally s

/-- The token looked at. -/
def peek : Counting Token := fun s => .ok s.tally.cursor.current s

/-- Sets the counters. -/
def update (f : Tally → Tally) : Counting Unit := fun s => .ok () (s.moved (f s.tally))

/-- Puts something on record. -/
def note (r : Record) : Counting Unit := fun s => .ok () { s with records := r :: s.records }

/-- One level down, if there is one. -/
def descend : Counting Unit := do
  if (← tally).depth < nestingLimit then update fun t => { t with depth := t.depth + 1 }
  else failHere .tooDeep

/-- One level up. -/
def ascend : Counting Unit := do
  if (← tally).depth = 0 then throw .underflow
  else update fun t => { t with depth := t.depth - 1 }

/-- Sets the height of the expression read last. -/
def setHeight (height : Nat) : Counting Unit := update fun t => { t with height }

/-- What lies one level further down, and back up. -/
def within (inner : Option (Counting α)) : Counting α := do
  descend
  let a ← inner.getD (throw .overflow)
  ascend
  return a

/-- The call of a rule, on record. -/
def call (rule : Rule) (tree : α → Option Expression) (m : Counting α) : Counting α := do
  let entry ← tally
  note (.entered rule entry)
  let a ← m
  note (.returned rule entry (← tally) (tree a))
  return a

/-- Repeats a step on a value as long as the token looked at passes a test, at most `rounds`
times. -/
def iterate (test : Token.Kind → Option γ) (step : γ → β → Counting β) : Nat → β → Counting β
  | 0,          b => pure b
  | rounds + 1, b => do
      match test (← peek).kind with
      | some x => iterate test step rounds (← step x b)
      | none   => pure b

/-- Repeats a step on a value as long as the token looked at passes a test, which happens no more
often than there are tokens left. -/
def whileAt (test : Token.Kind → Option γ) (step : γ → β → Counting β) (b : β) : Counting β := do
  iterate test step ((← tally).cursor.rest.length + 1) b

/-- One thing, and as many more as separators follow. -/
def separated (separator : Token.Kind) (one : Counting α) : Counting (Array α) := do
  whileAt (only separator) (fun _ done => do
      let _ ← take
      return done.push (← one))
    #[← one]

/-- As many things as begin with a token of one kind. -/
def repeated (kind : Token.Kind) (one : Counting α) : Counting (Array α) :=
  whileAt (only kind) (fun _ done => return done.push (← one)) #[]

/-! ### Expressions -/

/-- A step of a chain.  The operand overwrites the height, so that of the whole goes along with it.
-/
def chainStep (operand : Counting Expression) (op : Operator) (left : Measured) :
    Counting Measured := do
  let _ ← take
  let right ← operand
  let height ← heightAbove (max left.height (← tally).height)
  return ⟨left.expr.combine op right, height⟩

/-- One operand, and as many more as operators of one level follow. -/
def chain (op? : Token.Kind → Option Operator) (operand : Counting Expression) :
    Counting Expression := do
  let first ← operand
  let whole ← iterate op? (chainStep operand) nestingLimit ⟨first, (← tally).height⟩
  setHeight whole.height
  return whole.expr

/-- Products of factors. -/
def term (factor : Counting Expression) : Counting Expression :=
  call .term some (chain Operator.ofProductKind? factor)

/-- Sums of products of factors. -/
def sumOf (factor : Counting Expression) : Counting Expression :=
  call .expression some (chain Operator.ofSumKind? (term factor))

/-- A sign before a factor. -/
def signed (op : Sign) (inner : Option (Counting Expression)) : Counting Expression := do
  let sign ← take
  let operand ← within inner
  setHeight (← heightAbove (← tally).height)
  return .unary op operand (sign.span.through operand.span)

/-- A literal. -/
def literal : Counting Expression := do
  let t ← take
  setHeight 1
  match Number.ofLexeme? t.kind t.lexeme.toList with
  | some value => return .num value t.span
  | none       => throw (.fault ⟨.grammar (.invalidLiteral t.lexeme), t.span⟩)

/-- An expression in parentheses. -/
def parenthesized (inner : Option (Counting Expression)) : Counting Expression := do
  let _ ← take
  let e ← within (inner.map sumOf)
  let _ ← require .rightParen .closingParen
  return e

/-- A variable. -/
def variableName : Counting Expression := do
  let t ← take
  setHeight 1
  return .var t.lexeme t.span

/-- A factor, given the factors one level further down. -/
def factorWith (inner : Option (Counting Expression)) : Counting Expression :=
  call .factor some do
    match (← peek).kind with
    | .plus                      => signed .plus inner
    | .minus                     => signed .minus inner
    | .integerConst | .realConst => literal
    | .leftParen                 => parenthesized inner
    | .identifier                => variableName
    | _                          => failExpected .expression

/-- A factor, with at most `levels` more levels below it. -/
def factor : (levels : Nat) → Counting Expression
  | 0          => factorWith none
  | levels + 1 => factorWith (some (factor levels))

/-- An expression, with at most `levels` more levels below it. -/
def expression (levels : Nat) : Counting Expression := sumOf (factor levels)

/-! ### Statements -/

/-- An assignment. -/
def assignment (value : Counting Expression) : Counting Statement := do
  let (target, span) ← name .assignmentTarget
  let _ ← require .assign .assignSign
  let e ← value
  return .assign target span e (span.through e.span)

/-- One statement; where none begins, the empty one. -/
def statement (inner : Counting Compound) (value : Counting Expression) : Counting Statement :=
  call .statement (fun _ => none) do
    match (← peek).kind with
    | .beginWord  => return (← inner).toStatement
    | .identifier => assignment value
    | _           => return .noop

/-- Statements with semicolons between them. -/
def statements (one : Counting Statement) : Counting (List Statement) := do
  let read ← separated .semicolon one
  if (← peek).kind = .identifier then failExpected .semicolonBetween
  else return read.toList

/-- A compound statement, given its statements one level further down. -/
def compoundWith (inner : Option (Counting (List Statement))) : Counting Compound :=
  call .compound (fun _ => none) do
    let start ← require .beginWord .beginWord
    let read ← within inner
    let _ ← require .endWord .endWord
    return ⟨read, ← spanFrom start.span⟩

/-- A compound statement, with at most `levels` more levels below it. -/
def compound : (levels : Nat) → Counting Compound
  | 0          => compoundWith none
  | levels + 1 => compoundWith (some (statements (statement (compound levels) (expression levels))))

/-! ### Declarations -/

/-- Names with a common type, one declaration for each, from the name to the type. -/
def variableList : Counting (List Declaration) := do
  let names ← separated .comma (liftM (name .variableName))
  let _ ← require .colon .colonAfterNames
  let (type, typeSpan) ← typeName
  let _ ← require .semicolon .semicolonAfterVariables
  return names.toList.map fun (name, span) => .var name type (span.through typeSpan)

/-- The declarations of variables, if there are any. -/
def variablePart : Counting (List Declaration) := do
  if (← peek).kind = .varWord then
    let _ ← take
    whileAt (only .identifier) (fun _ done => return done ++ (← variableList)) (← variableList)
  else return []

/-- A procedure, given blocks one level further down. -/
def procedure (inner : Option (Counting Block)) : Counting Declaration := do
  let start ← take
  let (name, _) ← name .procedureName
  let _ ← require .semicolon .semicolonAfterProcedureName
  let block ← within inner
  let span ← spanFrom start.span
  let _ ← require .semicolon .semicolonAfterProcedure
  return .procedure name block.decls block.body span

/-- A block, given its body and the blocks one level further down. -/
def blockWith (body : Counting Compound) (inner : Option (Counting Block)) : Counting Block :=
  call .block (fun _ => none) do
    let vars ← variablePart
    let procedures ← repeated .procedureWord (procedure inner)
    return ⟨vars ++ procedures.toList, ← body⟩

/-- A block, with at most `levels` more levels below it. -/
def block : (levels : Nat) → Counting Block
  | 0          => blockWith (compound 0) none
  | levels + 1 => blockWith (compound (levels + 1)) (some (block levels))

/-- A program up to its point. -/
def program : Counting Program := do
  let start ← require .programWord .programWord
  let (name, _) ← name .programName
  let _ ← require .semicolon .semicolonAfterProgramName
  let block ← block nestingLimit
  let _ ← require .dot .dotAfterBody
  return ⟨name, block, ← spanFrom start.span⟩

/-- A program and nothing behind it. -/
def wholeProgram : Counting Program := do
  let p ← program
  if (← peek).kind = .eof then return p else failExpected .endOfInput

end Counting

/-- A counting reader before the first token `t`, with both counters at zero. -/
def Counted.start (t : Token) (rest : List Pulled) : Counted :=
  Counted.moved ⟨⟨⟨t, rest, ⟨0, 0⟩⟩, 0, 0⟩, []⟩ ⟨⟨t, rest, ⟨0, 0⟩⟩, 0, 0⟩

namespace Program

/-- The program that the results of an input form, or why reading stops, and all records of it. -/
def countingOfResults : List Pulled → Except Stop Program × List Record
  | .ok t :: rest    =>
      match Counting.wholeProgram (.start t rest) with
      | .ok p s    => (.ok p, s.records)
      | .error e s => (.error e, s.records)
  | .error e :: _    => (.error (.fault (e.map .lexical)), [])
  | []               => (.error (.fault ⟨.grammar (.expected .programWord (.eof 0)), ⟨0, 1⟩⟩), [])

/-- A text, read with counters. -/
def readCounting (source : String) : Except Stop Program × List Record :=
  countingOfResults (Input.ofString source).results

end Program

end MiniPascal
