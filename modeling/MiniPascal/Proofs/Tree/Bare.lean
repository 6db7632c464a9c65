import MiniPascal.Tree
import MiniPascal.Token

/-!
# Proofs — Tree — Bare

Tokens and trees without their places in the text.  `x.bare` is `x` with every span replaced by the
empty one at the beginning, so two trees are equal up to spans exactly when their bare forms are
equal.  What a tree is built of commutes with `bare` (`bare_combine`, `bare_toStatement`), and
`bare` changes none of the measures of a tree (`height_bare`).
-/

namespace MiniPascal

/-- The empty span at the beginning of a text, which stands for no place in particular. -/
def Span.none : Span := ⟨0, 0⟩

@[simp] theorem Span.none_through_none : Span.none.through Span.none = Span.none := rfl

/-- A token without its place. -/
def Token.bare (t : Token) : Token := ⟨t.kind, t.lexeme, .none⟩

@[simp] theorem Token.bare_kind (t : Token) : t.bare.kind = t.kind := rfl

@[simp] theorem Token.bare_lexeme (t : Token) : t.bare.lexeme = t.lexeme := rfl

@[simp] theorem Token.bare_span (t : Token) : t.bare.span = .none := rfl

/-- Tokens with the same bare form have the same kind. -/
theorem Token.kind_eq_of_bare {t u : Token} (h : t.bare = u.bare) : t.kind = u.kind := by
  rw [← Token.bare_kind t, h, Token.bare_kind]

/-- Tokens with the same bare form have the same lexeme. -/
theorem Token.lexeme_eq_of_bare {t u : Token} (h : t.bare = u.bare) : t.lexeme = u.lexeme := by
  rw [← Token.bare_lexeme t, h, Token.bare_lexeme]

/-- An expression without places. -/
def Expression.bare : Expression → Expression
  | .binary op l r _ => .binary op l.bare r.bare .none
  | .unary op e _    => .unary op e.bare .none
  | .num n _         => .num n .none
  | .var name _      => .var name .none

mutual

/-- A statement without places. -/
def Statement.bare : Statement → Statement
  | .compound ss _           => .compound (Statement.listBare ss) .none
  | .assign target _ value _ => .assign target .none value.bare .none
  | .noop                    => .noop

/-- Statements without places. -/
def Statement.listBare : List Statement → List Statement
  | []      => []
  | s :: ss => s.bare :: Statement.listBare ss

end

/-- A compound without places. -/
def Compound.bare (c : Compound) : Compound := ⟨Statement.listBare c.statements, .none⟩

mutual

/-- A declaration without places. -/
def Declaration.bare : Declaration → Declaration
  | .var name type _             => .var name type .none
  | .procedure name decls body _ => .procedure name (Declaration.listBare decls) body.bare .none

/-- Declarations without places. -/
def Declaration.listBare : List Declaration → List Declaration
  | []      => []
  | d :: ds => d.bare :: Declaration.listBare ds

end

/-- A block without places. -/
def Block.bare (b : Block) : Block := ⟨Declaration.listBare b.decls, b.body.bare⟩

/-- A program without places. -/
def Program.bare (p : Program) : Program := ⟨p.name, p.block.bare, .none⟩

theorem Statement.listBare_eq_map : ∀ ss, Statement.listBare ss = ss.map Statement.bare
  | []      => by rw [listBare]; rfl
  | s :: ss => by rw [listBare, listBare_eq_map ss]; rfl

theorem Declaration.listBare_eq_map : ∀ ds, Declaration.listBare ds = ds.map Declaration.bare
  | []      => by rw [listBare]; rfl
  | d :: ds => by rw [listBare, listBare_eq_map ds]; rfl

@[simp] theorem Expression.span_bare (e : Expression) : e.bare.span = .none := by
  cases e <;> rfl

/-- An operation is bared by baring its operands. -/
theorem Expression.bare_combine (op : Operator) (l r : Expression) :
    (l.combine op r).bare = l.bare.combine op r.bare := by
  simp only [combine, bare, span_bare, Span.none_through_none]

/-- Spans do not bear on heights. -/
theorem Expression.height_bare (e : Expression) : e.bare.height = e.height := by
  induction e with
  | binary op l r _ ihl ihr => simp only [bare, height, ihl, ihr]
  | unary op e _ ih => simp only [bare, height, ih]
  | num n _ => rfl
  | var name _ => rfl

theorem Compound.bare_toStatement (c : Compound) : c.toStatement.bare = c.bare.toStatement := by
  rw [toStatement, Statement.bare]
  rfl

/-! ### Bare forms are bare -/

/-- A bare token has nothing to lose; so with everything below. -/
theorem Token.bare_bare (t : Token) : t.bare.bare = t.bare := rfl

theorem Expression.bare_bare (e : Expression) : e.bare.bare = e.bare := by
  induction e with
  | binary op l r _ ihl ihr => simp only [bare, ihl, ihr]
  | unary op e _ ih => simp only [bare, ih]
  | num n _ => rfl
  | var name _ => rfl

mutual

theorem Statement.bare_bare : ∀ s : Statement, s.bare.bare = s.bare
  | .compound ss _      => by rw [bare, bare, listBare_listBare ss]
  | .assign _ _ value _ => by rw [bare, bare, value.bare_bare]
  | .noop               => by rw [bare, bare]

theorem Statement.listBare_listBare : ∀ ss, listBare (listBare ss) = listBare ss
  | []      => by rw [listBare, listBare]
  | s :: ss => by rw [listBare, listBare, s.bare_bare, listBare_listBare ss]

end

theorem Compound.bare_bare (c : Compound) : c.bare.bare = c.bare := by
  simp only [bare, Statement.listBare_listBare]

mutual

theorem Declaration.bare_bare : ∀ d : Declaration, d.bare.bare = d.bare
  | .var _ _ _                => by rw [bare, bare]
  | .procedure _ decls body _ => by rw [bare, bare, listBare_listBare decls, body.bare_bare]

theorem Declaration.listBare_listBare : ∀ ds, listBare (listBare ds) = listBare ds
  | []      => by rw [listBare, listBare]
  | d :: ds => by rw [listBare, listBare, d.bare_bare, listBare_listBare ds]

end

/-- Baring a program twice is baring it once. -/
theorem Program.bare_bare (p : Program) : p.bare.bare = p.bare := by
  simp only [bare, Block.bare, Declaration.listBare_listBare, Compound.bare_bare]

end MiniPascal
