import MiniPascal.Proofs.Tree.Values
import MiniPascal.Reading.Expression

/-!
# Proofs — Grammar

The grammar of the language, as relations between tokens and trees.  `IsProgram ts p d` says that
the kinds of `ts` derive a program, that `p` is the tree of the derivation, and that at its deepest
point `d` constructs are open: parentheses, signs, compounds and procedures.  The repetitions of the
grammar are relations of their own (`Chained`, `Separated`, `Repeated`), each of which grows at its
right end, so operators associate to the left.  There is no limit here on `d` or on anything else.
-/

namespace MiniPascal

/-- The stretch from the first of some tokens to the last. -/
def stretch : List Token → Span
  | []     => ⟨0, 0⟩
  | t :: w => t.span.through (w.getLastD t).span

theorem stretch_cons_append (t : Token) (w : List Token) (e : Token) :
    stretch (t :: w ++ [e]) = t.span.through e.span := by
  simp [stretch]

/-! ### Repetitions -/

/-- `Operand (operator Operand)*`, combined to the left. -/
inductive Chained (op? : Token.Kind → Option Operator)
    (Operand : List Token → Expression → Nat → Prop) : List Token → Expression → Nat → Prop where
  | one {w : List Token} {e : Expression} {d : Nat} (h : Operand w e d) : Chained op? Operand w e d
  | more {w v : List Token} {t : Token} {op : Operator} {l r : Expression} {dl dr : Nat}
      (hl : Chained op? Operand w l dl) (ht : op? t.kind = some op) (hr : Operand v r dr) :
      Chained op? Operand (w ++ t :: v) (l.combine op r) (max dl dr)

/-- `One (separator One)*`. -/
inductive Separated {α : Type} (separator : Token.Kind) (One : List Token → α → Nat → Prop) :
    List Token → List α → Nat → Prop where
  | one {w : List Token} {a : α} {d : Nat} (h : One w a d) : Separated separator One w [a] d
  | more {w v : List Token} {t : Token} {as : List α} {a : α} {d d' : Nat}
      (hw : Separated separator One w as d) (ht : t.kind = separator) (hv : One v a d') :
      Separated separator One (w ++ t :: v) (as ++ [a]) (max d d')

/-- `One*`. -/
inductive Repeated {α : Type} (One : List Token → α → Nat → Prop) :
    List Token → List α → Nat → Prop where
  | none : Repeated One [] [] 0
  | more {w v : List Token} {as : List α} {a : α} {d d' : Nat} (hw : Repeated One w as d)
      (hv : One v a d') : Repeated One (w ++ v) (as ++ [a]) (max d d')

/-! ### Expressions -/

/-- The number that a literal stands for. -/
def Token.number (t : Token) : Number := (Number.ofLexeme? t.kind t.lexeme.toList).getD (.int 0)

/-- The sign that a kind of token is. -/
def Sign.ofKind? : Token.Kind → Option Sign
  | .plus  => some .plus
  | .minus => some .minus
  | _      => none

/-- A sign before a factor, a literal, an expression in parentheses, or a variable. -/
inductive IsFactor : List Token → Expression → Nat → Prop where
  | signed {t : Token} {w : List Token} {op : Sign} {e : Expression} {d : Nat}
      (ht : Sign.ofKind? t.kind = some op) (h : IsFactor w e d) :
      IsFactor (t :: w) (.unary op e (t.span.through e.span)) (d + 1)
  | literal {t : Token} (ht : t.kind = .integerConst ∨ t.kind = .realConst) :
      IsFactor [t] (.num t.number t.span) 0
  | parenthesized {l r : Token} {w : List Token} {e : Expression} {d : Nat}
      (hl : l.kind = .leftParen)
      (h : Chained Operator.ofSumKind? (Chained Operator.ofProductKind? IsFactor) w e d)
      (hr : r.kind = .rightParen) : IsFactor (l :: w ++ [r]) e (d + 1)
  | named {t : Token} (ht : t.kind = .identifier) : IsFactor [t] (.var t.lexeme t.span) 0

/-- Factors with signs of products between them. -/
abbrev IsTerm : List Token → Expression → Nat → Prop := Chained Operator.ofProductKind? IsFactor

/-- Terms with signs of sums between them. -/
abbrev IsExpression : List Token → Expression → Nat → Prop := Chained Operator.ofSumKind? IsTerm

/-! ### Statements -/

/-- A name, `:=` and an expression. -/
inductive IsAssignment : List Token → Statement → Nat → Prop where
  | mk {t a : Token} {w : List Token} {e : Expression} {d : Nat} (ht : t.kind = .identifier)
      (ha : a.kind = .assign) (h : IsExpression w e d) :
      IsAssignment (t :: a :: w) (.assign t.lexeme t.span e (t.span.through e.span)) d

mutual

/-- A compound, an assignment, or nothing. -/
inductive IsStatement : List Token → Statement → Nat → Prop where
  | compound {w : List Token} {c : Compound} {d : Nat} (h : IsCompound w c d) :
      IsStatement w c.toStatement d
  | assignment {w : List Token} {s : Statement} {d : Nat} (h : IsAssignment w s d) :
      IsStatement w s d
  | empty : IsStatement [] .noop 0

/-- Statements with semicolons between them, between `BEGIN` and `END`. -/
inductive IsCompound : List Token → Compound → Nat → Prop where
  | mk {b e : Token} {w : List Token} {ss : List Statement} {d : Nat} (hb : b.kind = .beginWord)
      (h : Separated .semicolon IsStatement w ss d) (he : e.kind = .endWord) :
      IsCompound (b :: w ++ [e]) ⟨ss, stretch (b :: w ++ [e])⟩ (d + 1)

end

/-! ### Declarations -/

/-- The type that a kind of token is the word for. -/
def TypeName.ofKind? : Token.Kind → Option TypeName
  | .integerWord => some .integer
  | .realWord    => some .real
  | _            => none

/-- A name with its place. -/
inductive IsName : List Token → String × Span → Nat → Prop where
  | mk {t : Token} (ht : t.kind = .identifier) : IsName [t] (t.lexeme, t.span) 0

/-- Names with commas between them, a colon, a type and a semicolon. -/
inductive IsVariableList : List Token → List Declaration → Prop where
  | mk {w : List Token} {c t s : Token} {names : List (String × Span)} {type : TypeName} {d : Nat}
      (h : Separated .comma IsName w names d) (hc : c.kind = .colon)
      (ht : TypeName.ofKind? t.kind = some type) (hs : s.kind = .semicolon) :
      IsVariableList (w ++ [c, t, s])
        (names.map fun n => .var n.1 type (n.2.through t.span))

/-- Lists of variables, at least one. -/
inductive IsVariableLists : List Token → List Declaration → Prop where
  | one {w : List Token} {ds : List Declaration} (h : IsVariableList w ds) : IsVariableLists w ds
  | more {w v : List Token} {ds es : List Declaration} (hw : IsVariableLists w ds)
      (hv : IsVariableList v es) : IsVariableLists (w ++ v) (ds ++ es)

/-- Nothing, or `VAR` and lists of variables. -/
inductive IsVariablePart : List Token → List Declaration → Prop where
  | none : IsVariablePart [] []
  | some {t : Token} {w : List Token} {ds : List Declaration} (ht : t.kind = .varWord)
      (h : IsVariableLists w ds) : IsVariablePart (t :: w) ds

mutual

/-- A part for variables, procedures, and a compound. -/
inductive IsBlock : List Token → Block → Nat → Prop where
  | mk {u v w : List Token} {vars procedures : List Declaration} {body : Compound} {d d' : Nat}
      (hu : IsVariablePart u vars) (hv : Repeated IsProcedure v procedures d)
      (hw : IsCompound w body d') :
      IsBlock (u ++ (v ++ w)) ⟨vars ++ procedures, body⟩ (max d d')

/-- `PROCEDURE`, a name, a semicolon, a block and a semicolon. -/
inductive IsProcedure : List Token → Declaration → Nat → Prop where
  | mk {t n s e : Token} {w : List Token} {b : Block} {d : Nat} (ht : t.kind = .procedureWord)
      (hn : n.kind = .identifier) (hs : s.kind = .semicolon) (h : IsBlock w b d)
      (he : e.kind = .semicolon) :
      IsProcedure (t :: n :: s :: w ++ [e])
        (.procedure n.lexeme b.decls b.body (stretch (t :: n :: s :: w))) (d + 1)

end

/-- `PROGRAM`, a name, a semicolon, a block and a point. -/
inductive IsProgram : List Token → Program → Nat → Prop where
  | mk {t n s e : Token} {w : List Token} {b : Block} {d : Nat} (ht : t.kind = .programWord)
      (hn : n.kind = .identifier) (hs : s.kind = .semicolon) (h : IsBlock w b d)
      (he : e.kind = .dot) :
      IsProgram (t :: n :: s :: w ++ [e])
        ⟨n.lexeme, b, stretch (t :: n :: s :: w ++ [e])⟩ d

/-! ### Values -/

/-- Declarations of variables hold no values. -/
theorem IsVariableList.flatMap_values {w : List Token} {ds : List Declaration}
    (h : IsVariableList w ds) : ds.flatMap Declaration.values = [] := by
  obtain ⟨-, -, -, -⟩ := h
  rw [List.flatMap_eq_nil_iff]
  intro d hd
  obtain ⟨n, -, rfl⟩ := List.mem_map.1 hd
  rw [Declaration.values]

/-- Declarations of variables assign nothing. -/
theorem IsVariablePart.flatMap_values {w : List Token} {ds : List Declaration}
    (h : IsVariablePart w ds) : ds.flatMap Declaration.values = [] := by
  cases h with
  | none => rfl
  | some _ h =>
      induction h with
      | one h => exact h.flatMap_values
      | more _ hv ih => rw [List.flatMap_append, ih, hv.flatMap_values, List.append_nil]

/-- A block assigns what its procedures and its body assign. -/
theorem IsVariablePart.values_block {w : List Token} {vars : List Declaration}
    (h : IsVariablePart w vars) (procedures : List Declaration) (body : Compound) :
    Block.values ⟨vars ++ procedures, body⟩ =
      procedures.flatMap Declaration.values ++ body.values := by
  rw [Block.values, Declaration.listValues_eq_flatMap, List.flatMap_append, h.flatMap_values,
    List.nil_append]

end MiniPascal
