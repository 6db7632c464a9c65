import MiniPascal.Tree

/-!
# Tree — Pascal

The tree of a program as program text.  Every operation between two operands stands in parentheses,
and so does every operand of a sign, so that no rule of precedence is needed to read the text; the
parentheses count as nesting when it is read again.  In a block the variables come first, then the
procedures, then the body, each level indented by four blanks.
-/

namespace MiniPascal

/-- An expression. -/
def Expression.pascal : Expression → String
  | .binary op l r _ => "(" ++ l.pascal ++ " " ++ op.text ++ " " ++ r.pascal ++ ")"
  | .unary op e _    => op.text ++ "(" ++ e.pascal ++ ")"
  | .num n _         => n.text .literal
  | .var name _      => name

/-- The blanks before a line that stands `depth` levels in. -/
def indentation (depth : Nat) : String := String.ofList (List.replicate (4 * depth) ' ')

mutual

/-- A statement; the empty one is no text at all, not even blanks. -/
def Statement.pascal (depth : Nat) : Statement → String
  | .compound ss _           =>
      indentation depth ++ "BEGIN\n" ++ Statement.listPascal (depth + 1) ss ++
        indentation depth ++ "END"
  | .assign target _ value _ => indentation depth ++ target ++ " := " ++ value.pascal
  | .noop                    => ""

/-- Statements, each on its line, with semicolons between them. -/
def Statement.listPascal (depth : Nat) : List Statement → String
  | []           => ""
  | [s]          => s.pascal depth ++ "\n"
  | s :: t :: ss => s.pascal depth ++ ";\n" ++ Statement.listPascal depth (t :: ss)

end

/-- A compound statement. -/
def Compound.pascal (depth : Nat) (c : Compound) : String := c.toStatement.pascal depth

/-- The lines that declare the variables among some declarations. -/
def Declaration.variableLines (depth : Nat) : List Declaration → String
  | []                     => ""
  | .var name type _ :: ds =>
      indentation depth ++ name ++ " : " ++ type.text ++ ";\n" ++ Declaration.variableLines depth ds
  | _ :: ds                => Declaration.variableLines depth ds

/-- The part of a block that declares variables; without any the reserved word is left out too. -/
def Declaration.variablePascal (depth : Nat) (ds : List Declaration) : String :=
  let lines := Declaration.variableLines (depth + 1) ds
  if lines = "" then "" else indentation depth ++ "VAR\n" ++ lines

mutual

/-- A procedure with its block one level further in; a variable has its line elsewhere. -/
def Declaration.procedurePascal (depth : Nat) : Declaration → String
  | .var _ _ _                   => ""
  | .procedure name decls body _ =>
      indentation depth ++ "PROCEDURE " ++ name ++ ";\n" ++
        Declaration.variablePascal (depth + 1) decls ++
        Declaration.proceduresPascal (depth + 1) decls ++ body.pascal (depth + 1) ++ ";\n"

/-- The procedures among some declarations. -/
def Declaration.proceduresPascal (depth : Nat) : List Declaration → String
  | []      => ""
  | d :: ds => d.procedurePascal depth ++ Declaration.proceduresPascal depth ds

end

/-- A block. -/
def Block.pascal (depth : Nat) (b : Block) : String :=
  Declaration.variablePascal depth b.decls ++ Declaration.proceduresPascal depth b.decls ++
    b.body.pascal depth

/-- A program. -/
def Program.pascal (p : Program) : String :=
  "PROGRAM " ++ p.name ++ ";\n" ++ p.block.pascal 0 ++ ".\n"

end MiniPascal
