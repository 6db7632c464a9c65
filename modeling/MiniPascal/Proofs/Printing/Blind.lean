import MiniPascal.Proofs.Tree.Bare
import MiniPascal.Tree.Pascal
import MiniPascal.Tree.Sexp

/-!
# Proofs — Printing — Blind

No printed form of a tree shows where its nodes stood (`Program.sexp_bare`, `Program.pascal_bare`),
so trees that agree up to places are printed alike.
-/

namespace MiniPascal

/-! ### S-expressions -/

/-- The S-expression of a tree does not show spans; so with everything below. -/
theorem Expression.sexp_bare (e : Expression) : e.bare.sexp = e.sexp := by
  induction e with
  | binary op l r _ ihl ihr => simp only [bare, sexp, ihl, ihr]
  | unary op e _ ih => simp only [bare, sexp, ih]
  | num n _ => rfl
  | var name _ => rfl

mutual

theorem Statement.sexp_bare : ∀ s : Statement, s.bare.sexp = s.sexp
  | .compound ss _           => by rw [bare, sexp, sexp, listSexp_listBare ss]
  | .assign target _ value _ => by rw [bare, sexp, sexp, value.sexp_bare]
  | .noop                    => by rw [bare]

theorem Statement.listSexp_listBare : ∀ ss, listSexp (listBare ss) = listSexp ss
  | []      => by rw [listBare]
  | s :: ss => by rw [listBare, listSexp, listSexp, s.sexp_bare, listSexp_listBare ss]

end

theorem Compound.sexp_bare (c : Compound) : c.bare.sexp = c.sexp := by
  rw [sexp, sexp, bare, Statement.listSexp_listBare]

mutual

theorem Declaration.sexp_bare : ∀ d : Declaration, d.bare.sexp = d.sexp
  | .var _ _ _                => by rw [bare, sexp, sexp]
  | .procedure _ decls body _ => by
      rw [bare, sexp, sexp, listSexp_listBare decls, body.sexp_bare]

theorem Declaration.listSexp_listBare : ∀ ds, listSexp (listBare ds) = listSexp ds
  | []      => by rw [listBare]
  | d :: ds => by rw [listBare, listSexp, listSexp, d.sexp_bare, listSexp_listBare ds]

end

/-- The S-expression of a program shows no places. -/
theorem Program.sexp_bare (p : Program) : p.bare.sexp = p.sexp := by
  rw [sexp, sexp, bare, Block.bare, Declaration.listSexp_listBare, Compound.sexp_bare]

/-! ### Program text -/

/-- The text of a tree does not show spans; so with everything below. -/
theorem Expression.pascal_bare (e : Expression) : e.bare.pascal = e.pascal := by
  induction e with
  | binary op l r _ ihl ihr => simp only [bare, pascal, ihl, ihr]
  | unary op e _ ih => simp only [bare, pascal, ih]
  | num n _ => rfl
  | var name _ => rfl

mutual

theorem Statement.pascal_bare : ∀ (depth : Nat) (s : Statement),
    s.bare.pascal depth = s.pascal depth
  | depth, .compound ss _           => by
      rw [bare, pascal, pascal, listPascal_listBare (depth + 1) ss]
  | depth, .assign target _ value _ => by rw [bare, pascal, pascal, value.pascal_bare]
  | depth, .noop                    => by rw [bare]

theorem Statement.listPascal_listBare : ∀ (depth : Nat) (ss : List Statement),
    listPascal depth (listBare ss) = listPascal depth ss
  | depth, []           => by rw [listBare]
  | depth, [s]          => by simp only [listBare, listPascal, s.pascal_bare depth]
  | depth, s :: t :: ss => by
      have hmore := listPascal_listBare depth (t :: ss)
      simp only [listBare, listPascal, s.pascal_bare depth] at hmore ⊢
      rw [hmore]

end

theorem Compound.pascal_bare (depth : Nat) (c : Compound) :
    c.bare.pascal depth = c.pascal depth := by
  rw [pascal, pascal, ← bare_toStatement, Statement.pascal_bare]

theorem Declaration.variableLines_listBare (depth : Nat) (ds : List Declaration) :
    variableLines depth (listBare ds) = variableLines depth ds := by
  induction ds with
  | nil => rw [listBare]
  | cons d ds ih => cases d <;> simp only [listBare, bare, variableLines, ih]

/-- The text of the variables does not show spans. -/
theorem Declaration.variablePascal_listBare (depth : Nat) (ds : List Declaration) :
    variablePascal depth (listBare ds) = variablePascal depth ds := by
  rw [variablePascal, variablePascal, variableLines_listBare]

mutual

theorem Declaration.procedurePascal_bare : ∀ (depth : Nat) (d : Declaration),
    d.bare.procedurePascal depth = d.procedurePascal depth
  | depth, .var _ _ _                => by rw [bare, procedurePascal, procedurePascal]
  | depth, .procedure _ decls body _ => by
      rw [bare, procedurePascal, procedurePascal, variablePascal_listBare,
        proceduresPascal_listBare (depth + 1) decls, body.pascal_bare]

theorem Declaration.proceduresPascal_listBare : ∀ (depth : Nat) (ds : List Declaration),
    proceduresPascal depth (listBare ds) = proceduresPascal depth ds
  | depth, []      => by rw [listBare]
  | depth, d :: ds => by
      rw [listBare, proceduresPascal, proceduresPascal, d.procedurePascal_bare depth,
        proceduresPascal_listBare depth ds]

end

/-- The text of a program shows no places. -/
theorem Program.pascal_bare (p : Program) : p.bare.pascal = p.pascal := by
  rw [pascal, pascal, Block.pascal, Block.pascal, bare, Block.bare,
    Declaration.variablePascal_listBare, Declaration.proceduresPascal_listBare,
    Compound.pascal_bare]

end MiniPascal
