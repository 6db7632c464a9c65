import MiniPascal.Reading.Expression

/-!
# Reading — Program

Statements, declarations and programs from tokens.  Compounds and procedures open one level of
nesting each, and share the nesting limit with the parentheses and signs inside them.
`Program.ofResults` reads a program from what an input yields, one result at a time and no further
than it must; `Program.read` does so for a text.
-/

namespace MiniPascal

namespace Reader

/-- A name, and the stretch it stands at. -/
def name (what : Expected) : Reader (String × Span) := do
  let t ← require .identifier what
  return (t.lexeme, t.span)

/-- An assignment, which reaches from its target to its value. -/
def assignment (value : Reader Measured) : Reader Statement := do
  let (target, span) ← name .assignmentTarget
  let _ ← require .assign .assignSign
  let e ← value
  return .assign target span e.expr (span.through e.expr.span)

/-- One statement; where none begins, the empty one. -/
def statement (inner : Reader Compound) (value : Reader Measured) : Reader Statement := do
  match (← peek).kind with
  | .beginWord  => return (← inner).toStatement
  | .identifier => assignment value
  | _           => return .noop

/-- Statements with semicolons between them.  A name behind the last one lacks its semicolon. -/
def statements (one : Reader Statement) : Reader (List Statement) := do
  let read ← whileAt (only .semicolon) (fun _ done => do
      let _ ← take
      return done.push (← one))
    #[← one]
  if (← peek).kind = .identifier then failExpected .semicolonBetween
  else return read.toList

/-- A compound statement, given its statements one level further down. -/
def compoundWith (inner : Option (Reader (List Statement))) : Reader Compound := do
  let start ← require .beginWord .beginWord
  let read ← deeper inner
  let _ ← require .endWord .endWord
  return ⟨read, ← spanFrom start.span⟩

/-- A compound statement in which `levels` more constructs may be opened. -/
def compound : (levels : Nat) → Reader Compound
  | 0          => compoundWith none
  | levels + 1 => compoundWith (some (statements (statement (compound levels) (expression levels))))

/-- The type of variables, and the stretch it stands at. -/
def typeName : Reader (TypeName × Span) := do
  match (← peek).kind with
  | .integerWord => return (.integer, (← take).span)
  | .realWord    => return (.real, (← take).span)
  | _            => failExpected .typeName

/-- Names with a common type, one declaration for each, from the name to the type. -/
def variableList : Reader (List Declaration) := do
  let names ← whileAt (only .comma) (fun _ done => do
      let _ ← take
      return done.push (← name .variableName))
    #[← name .variableName]
  let _ ← require .colon .colonAfterNames
  let (type, typeSpan) ← typeName
  let _ ← require .semicolon .semicolonAfterVariables
  return names.toList.map fun (name, span) => .var name type (span.through typeSpan)

/-- The declarations of variables, if there are any: after the one reserved word as many lists as
begin with a name, and at least one. -/
def variablePart : Reader (List Declaration) := do
  if (← peek).kind = .varWord then
    let _ ← take
    whileAt (only .identifier) (fun _ done => return done ++ (← variableList)) (← variableList)
  else return []

/-- A procedure, given blocks one level further down. -/
def procedure (inner : Option (Reader Block)) : Reader Declaration := do
  let start ← take
  let (name, _) ← name .procedureName
  let _ ← require .semicolon .semicolonAfterProcedureName
  let block ← deeper inner
  let span ← spanFrom start.span
  let _ ← require .semicolon .semicolonAfterProcedure
  return .procedure name block.decls block.body span

/-- A block, given its body and the blocks one level further down. -/
def blockWith (body : Reader Compound) (inner : Option (Reader Block)) : Reader Block := do
  let vars ← variablePart
  let procedures ← whileAt (only .procedureWord) (fun _ done => do
      return done.push (← procedure inner))
    #[]
  return ⟨vars ++ procedures.toList, ← body⟩

/-- A block in which `levels` more constructs may be opened. -/
def block : (levels : Nat) → Reader Block
  | 0          => blockWith (compound 0) none
  | levels + 1 => blockWith (compound (levels + 1)) (some (block levels))

/-- A program up to its point. -/
def program : Reader Program := do
  let start ← require .programWord .programWord
  let (name, _) ← name .programName
  let _ ← require .semicolon .semicolonAfterProgramName
  let block ← block nestingLimit
  let _ ← require .dot .dotAfterBody
  return ⟨name, block, ← spanFrom start.span⟩

/-- A program and nothing behind it. -/
def wholeProgram : Reader Program := do
  let p ← program
  if (← peek).kind = .eof then return p else failExpected .endOfInput

end Reader

namespace Program

/-- The program that the results of an input form, or the first fault. -/
def ofResults : List Pulled → Except (Located ReadingFault) Program
  | .ok t :: rest    =>
      match Reader.wholeProgram ⟨t, rest, ⟨0, 0⟩⟩ with
      | .ok p _    => .ok p
      | .error e _ => .error e
  | .error e :: _    => .error (e.map .lexical)
  | []               => .error ⟨.grammar (.expected .programWord (.eof 0)), ⟨0, 1⟩⟩

/-- The program that a text is, or the first fault in it. -/
def read (source : String) : Except (Located ReadingFault) Program :=
  ofResults (Input.ofString source).results

end Program

end MiniPascal
