import MiniPascal.Journal
import MiniPascal.Number.Arithmetic
import MiniPascal.Store

/-!
# Evaluation

How a program runs.  An expression is evaluated from left to right, each operand before its
operation, and stops at the first node that has no value; a statement changes the store only once
its value is there.  Declarations do nothing, and a compound shares the store of what surrounds
it.
-/

namespace MiniPascal

/-- The value of an expression over a store, or the first fault at one of its nodes. -/
def Expression.eval (store : Store) : Expression → Except (Located RuntimeFault) Number
  | .num n _          => .ok n
  | .var name span    =>
      match store.get? name with
      | some n => .ok n
      | none   => .error ⟨.uninitialized name, span⟩
  | .unary op e span  => do
      let n ← e.eval store
      (Number.unary op n).mapError fun fault => ⟨.arithmetic fault, span⟩
  | .binary op l r span => do
      let a ← l.eval store
      let b ← r.eval store
      (Number.binary op a b).mapError fun fault => ⟨.arithmetic fault, span⟩

/-- The store of a run, and the journal of its assignments. -/
structure Machine where
  store   : Store
  journal : Array Event

/-- A step of a run. -/
abbrev Exec := EStateM (Located RuntimeFault) Machine

namespace Exec

/-- Evaluates an expression over the present store. -/
def value (e : Expression) : Exec Number := fun m =>
  match e.eval m.store with
  | .ok n        => .ok n m
  | .error fault => .error fault m

/-- Gives a variable a value. -/
def assign (name : String) (n : Number) : Exec Unit := fun m =>
  .ok () ⟨m.store.put name n, m.journal.push (.assign name n)⟩

end Exec

mutual

/-- Runs a statement. -/
def Statement.exec : Statement → Exec Unit
  | .compound ss _           => Statement.listExec ss
  | .assign target _ value _ => do Exec.assign target (← Exec.value value)
  | .noop                    => return ()

/-- Runs statements in order. -/
def Statement.listExec : List Statement → Exec Unit
  | []      => return ()
  | s :: ss => do
      s.exec
      Statement.listExec ss

end

/-- Runs the body of a program, and yields the machine that was reached and the fault that stopped
it. -/
def Program.exec (p : Program) (m : Machine) : EStateM.Result (Located RuntimeFault) Machine Unit :=
  Statement.listExec p.block.body.statements m

end MiniPascal
