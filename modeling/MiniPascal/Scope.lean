import MiniPascal.Fault
import MiniPascal.Journal

/-!
# Scope

The check of names before a program runs.  The declarations of variables are entered in order,
each after a look-up of its type; then every name in the body is looked up, the variables of a
value before the target that it is assigned to.  The first name without a symbol stops the check.
Procedures are neither entered nor looked into.
-/

namespace MiniPascal

/-- The symbols entered so far, and the journal of the check. -/
structure Scope where
  symbols : SymbolTable
  journal : Array Event

/-- A step of the check. -/
abbrev Check := EStateM (Located NameFault) Scope

namespace Check

/-- Enters a symbol, and yields the one that it replaces. -/
def define (symbol : Symbol) : Check (Option Symbol) := fun s =>
  .ok (s.symbols.get? symbol.name) ⟨s.symbols.define symbol, s.journal.push (.define symbol)⟩

/-- The symbol of a name. -/
def lookup (name : String) : Check (Option Symbol) := fun s =>
  .ok (s.symbols.get? name) { s with journal := s.journal.push (.lookup name) }

/-- Writes down an event. -/
def note (e : Event) : Check Unit := fun s => .ok () { s with journal := s.journal.push e }

/-- A name must have a symbol. -/
def mention (name : String) (span : Span) : Check Unit := do
  match ← lookup name with
  | some _ => return ()
  | none   => throw ⟨.undeclared name, span⟩

/-- Enters a variable.  Its type must not have been declared over. -/
def enterVariable (name : String) (type : TypeName) (span : Span) : Check Unit := do
  match ← lookup type.text with
  | some (.builtin known) =>
      match ← define (.declared name known) with
      | some previous => note (.redeclare name previous)
      | none          => return ()
  | _ => throw ⟨.unknownType type.text, span⟩

end Check

/-- Mentions the variables of an expression from left to right. -/
def Expression.check : Expression → Check Unit
  | .binary _ l r _ => do
      l.check
      r.check
  | .unary _ e _    => e.check
  | .num _ _        => return ()
  | .var name span  => Check.mention name span

mutual

/-- Mentions the names of a statement, a value before its target. -/
def Statement.check : Statement → Check Unit
  | .compound ss _                    => Statement.listCheck ss
  | .assign target targetSpan value _ => do
      value.check
      Check.mention target targetSpan
  | .noop                             => return ()

/-- Checks statements in order. -/
def Statement.listCheck : List Statement → Check Unit
  | []      => return ()
  | s :: ss => do
      s.check
      Statement.listCheck ss

end

/-- Enters a variable; a procedure is passed over. -/
def Declaration.check : Declaration → Check Unit
  | .var name type span => Check.enterVariable name type span
  | .procedure _ _ _ _  => return ()

/-- Enters declarations in order. -/
def Declaration.listCheck : List Declaration → Check Unit
  | []      => return ()
  | d :: ds => do
      d.check
      Declaration.listCheck ds

namespace Scope

/-- The scope before any declaration, in which the two types have been entered. -/
def initial : Scope :=
  ⟨.initial, #[.define (.builtin .integer), .define (.builtin .real)]⟩

end Scope

/-- Enters the declarations of a block, and mentions the names of its body. -/
def Block.check (b : Block) : Check Unit := do
  Declaration.listCheck b.decls
  Statement.listCheck b.body.statements

/-- Checks a program, and yields the scope that was reached and the fault that stopped it. -/
def Program.check (p : Program) : EStateM.Result (Located NameFault) Scope Unit :=
  p.block.check .initial

end MiniPascal
