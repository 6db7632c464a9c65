import MiniPascal.Tree

/-!
# Tree — Sexp

The tree of a program as one S-expression.  Every operation is a list with its operator in front,
a compound the list of its statements behind `begin`; spans are left out.
-/

namespace MiniPascal

/-- An expression; a name or literal stands for itself. -/
def Expression.sexp : Expression → String
  | .binary op l r _ => "(" ++ op.text ++ " " ++ l.sexp ++ " " ++ r.sexp ++ ")"
  | .unary op e _    => "(" ++ op.text ++ " " ++ e.sexp ++ ")"
  | .num n _         => n.text .literal
  | .var name _      => name

mutual

/-- A statement. -/
def Statement.sexp : Statement → String
  | .compound ss _           => "(begin" ++ Statement.listSexp ss ++ ")"
  | .assign target _ value _ => "(:= " ++ target ++ " " ++ value.sexp ++ ")"
  | .noop                    => "noop"

/-- Statements, each behind a blank. -/
def Statement.listSexp : List Statement → String
  | []      => ""
  | s :: ss => " " ++ s.sexp ++ Statement.listSexp ss

end

/-- A compound statement. -/
def Compound.sexp (c : Compound) : String := "(begin" ++ Statement.listSexp c.statements ++ ")"

mutual

/-- A declaration. -/
def Declaration.sexp : Declaration → String
  | .var name type _             => "(var " ++ name ++ " " ++ type.text ++ ")"
  | .procedure name decls body _ =>
      "(procedure " ++ name ++ Declaration.listSexp decls ++ " " ++ body.sexp ++ ")"

/-- Declarations, each behind a blank. -/
def Declaration.listSexp : List Declaration → String
  | []      => ""
  | d :: ds => " " ++ d.sexp ++ Declaration.listSexp ds

end

/-- A program, with a line end. -/
def Program.sexp (p : Program) : String :=
  "(program " ++ p.name ++ Declaration.listSexp p.block.decls ++ " " ++ p.block.body.sexp ++ ")\n"

end MiniPascal
