import MiniPascal.Proofs.Decimal.Literal
import MiniPascal.Proofs.Tree.Bare
import MiniPascal.Proofs.Tree.Writable
import MiniPascal.Tree.Pascal

/-!
# Proofs — Printing — Words

The tokens of a printed tree, without places, and how deep they nest.  Operations between operands
and signs are parenthesized, so what was read without parentheses nests deeper when it is printed:
`nesting` counts one for an operation and two for a sign.  Main statement
(`Program.isProgram_words`): the words of a tree with a text derive the tree itself, with exactly
its nesting.
-/

namespace MiniPascal

/-! ### Words -/

/-- The kind of the token of an operator. -/
def Operator.kind : Operator → Token.Kind
  | .sum           => .plus
  | .difference    => .minus
  | .product       => .star
  | .wholeQuotient => .divWord
  | .quotient      => .slash

/-- The kind of the token of a sign. -/
def Sign.kind : Sign → Token.Kind
  | .plus  => .plus
  | .minus => .minus

/-- The kind of the token of a type. -/
def TypeName.kind : TypeName → Token.Kind
  | .integer => .integerWord
  | .real    => .realWord

/-- The word of a kind that is written in one way. -/
def Token.Kind.word (kind : Token.Kind) : Token := ⟨kind, kind.text, .none⟩

/-- The word of a name. -/
def nameWord (name : String) : Token := ⟨.identifier, name, .none⟩

/-- The kind of the literal of a number. -/
def Number.kind : Number → Token.Kind
  | .int _  => .integerConst
  | .real _ => .realConst

/-- The word of a number. -/
def Number.word (n : Number) : Token := ⟨n.kind, n.text .literal, .none⟩

/-- Words between parentheses. -/
def inParentheses (w : List Token) : List Token :=
  Token.Kind.leftParen.word :: w ++ [Token.Kind.rightParen.word]

/-- The words of an expression. -/
def Expression.words : Expression → List Token
  | .binary op l r _ => inParentheses (l.words ++ op.kind.word :: r.words)
  | .unary op e _    => op.kind.word :: inParentheses e.words
  | .num n _         => [n.word]
  | .var name _      => [nameWord name]

mutual

/-- The words of a statement. -/
def Statement.words : Statement → List Token
  | .compound ss _           =>
      Token.Kind.beginWord.word :: Statement.listWords ss ++ [Token.Kind.endWord.word]
  | .assign target _ value _ => nameWord target :: Token.Kind.assign.word :: value.words
  | .noop                    => []

/-- The words of statements with semicolons between them. -/
def Statement.listWords : List Statement → List Token
  | []           => []
  | [s]          => s.words
  | s :: t :: ss => s.words ++ Token.Kind.semicolon.word :: Statement.listWords (t :: ss)

end

/-- The words of a compound. -/
def Compound.words (c : Compound) : List Token := c.toStatement.words

/-- The words that declare the variables among some declarations. -/
def Declaration.variableWords : List Declaration → List Token
  | []                     => []
  | .var name type _ :: ds =>
      nameWord name :: Token.Kind.colon.word :: type.kind.word :: Token.Kind.semicolon.word ::
        Declaration.variableWords ds
  | _ :: ds                => Declaration.variableWords ds

/-- The words of the part of a block that declares variables. -/
def Declaration.variablePartWords (ds : List Declaration) : List Token :=
  if variableWords ds = [] then [] else Token.Kind.varWord.word :: variableWords ds

mutual

/-- The words of a procedure. -/
def Declaration.procedureWords : Declaration → List Token
  | .var _ _ _                   => []
  | .procedure name decls body _ =>
      Token.Kind.procedureWord.word :: nameWord name :: Token.Kind.semicolon.word ::
        (Declaration.variablePartWords decls ++
          (Declaration.proceduresWords decls ++ body.words)) ++
        [Token.Kind.semicolon.word]

/-- The words of the procedures among some declarations. -/
def Declaration.proceduresWords : List Declaration → List Token
  | []      => []
  | d :: ds => d.procedureWords ++ Declaration.proceduresWords ds

end

/-- The words of a block. -/
def Block.words (b : Block) : List Token :=
  Declaration.variablePartWords b.decls ++ (Declaration.proceduresWords b.decls ++ b.body.words)

/-- The words of a program. -/
def Program.words (p : Program) : List Token :=
  Token.Kind.programWord.word :: nameWord p.name :: Token.Kind.semicolon.word :: p.block.words ++
    [Token.Kind.dot.word]

/-! ### Nesting -/

/-- How deep the printed parentheses and signs of an expression nest. -/
def Expression.nesting : Expression → Nat
  | .binary _ l r _ => max l.nesting r.nesting + 1
  | .unary _ e _    => e.nesting + 2
  | .num _ _        => 0
  | .var _ _        => 0

mutual

/-- How deep a printed statement nests. -/
def Statement.nesting : Statement → Nat
  | .compound ss _      => Statement.listNesting ss + 1
  | .assign _ _ value _ => value.nesting
  | .noop               => 0

/-- How deep the deepest of some statements nests. -/
def Statement.listNesting : List Statement → Nat
  | []      => 0
  | s :: ss => max s.nesting (Statement.listNesting ss)

end

/-- How deep a printed compound nests. -/
def Compound.nesting (c : Compound) : Nat := c.toStatement.nesting

mutual

/-- How deep a printed declaration nests. -/
def Declaration.nesting : Declaration → Nat
  | .var _ _ _                => 0
  | .procedure _ decls body _ => max (Declaration.listNesting decls) body.nesting + 1

/-- How deep the deepest of some declarations nests. -/
def Declaration.listNesting : List Declaration → Nat
  | []      => 0
  | d :: ds => max d.nesting (Declaration.listNesting ds)

end

/-- How deep a printed block nests. -/
def Block.nesting (b : Block) : Nat := max (Declaration.listNesting b.decls) b.body.nesting

/-- How deep a printed program nests. -/
def Program.nesting (p : Program) : Nat := p.block.nesting

/-! ### Repetitions from the left -/

/-- A list with separators also grows at its left end. -/
theorem Separated.cons {α : Type} {separator : Token.Kind} {One : List Token → α → Nat → Prop}
    {w v : List Token} {t : Token} {a : α} {as : List α} {d d' : Nat} (hw : One w a d)
    (ht : t.kind = separator) (hv : Separated separator One v as d') :
    Separated separator One (w ++ t :: v) (a :: as) (max d d') := by
  induction hv with
  | one h => exact .more (.one hw) ht h
  | more _ hu hv ih =>
      have hmore := Separated.more ih hu hv
      rwa [List.append_assoc, Nat.max_assoc] at hmore

/-- A repetition also grows at its left end. -/
theorem Repeated.cons {α : Type} {One : List Token → α → Nat → Prop} {w v : List Token} {a : α}
    {as : List α} {d d' : Nat} (hw : One w a d) (hv : Repeated One v as d') :
    Repeated One (w ++ v) (a :: as) (max d d') := by
  induction hv with
  | none =>
      have hmore := Repeated.more .none hw
      rwa [Nat.max_comm, List.nil_append, ← List.append_nil w] at hmore
  | more _ hv ih =>
      have hmore := Repeated.more ih hv
      rwa [List.append_assoc, Nat.max_assoc] at hmore

/-- Lists of variables also grow at their left end. -/
theorem IsVariableLists.cons {w v : List Token} {ds es : List Declaration}
    (hw : IsVariableList w ds) (hv : IsVariableLists v es) :
    IsVariableLists (w ++ v) (ds ++ es) := by
  induction hv with
  | one h => exact .more (.one hw) h
  | more _ hv ih =>
      have hmore := IsVariableLists.more ih hv
      rwa [List.append_assoc, List.append_assoc] at hmore

/-! ### Expressions -/

/-- A number that is neither negative nor infinite is read back from its literal. -/
theorem Number.Writable.exists_literal {n : Number} (h : n.Writable) :
    ∃ word, n.text .literal = .ofList word ∧ n.kind.Spells word ∧
      Number.ofLexeme? n.kind word = some n := by
  cases n with
  | int i => exact exists_int_literal h
  | real x =>
      obtain ⟨hfinite, hpositive⟩ := h
      cases x with
      | nan => cases hfinite
      | infinite s => cases hfinite
      | finite s m =>
          obtain rfl : s = false := hpositive
          exact exists_real_literal m

/-- The word of a number stands for the number. -/
theorem Number.number_word {n : Number} (h : n.Writable) : n.word.number = n := by
  obtain ⟨lexeme, htext, -, hread⟩ := h.exists_literal
  rw [Token.number, Number.word, htext, String.toList_ofList, hread]
  rfl

/-- An operation between factors is an expression, on whichever of the two levels. -/
theorem IsFactor.combine {w v : List Token} {l r : Expression} {d d' : Nat} (hl : IsFactor w l d)
    (op : Operator) (hr : IsFactor v r d') :
    IsExpression (w ++ op.kind.word :: v) (l.combine op r) (max d d') := by
  have hsum : ∀ {op' : Operator}, Operator.ofSumKind? op'.kind = some op' →
      IsExpression (w ++ op'.kind.word :: v) (l.combine op' r) (max d d') :=
    fun h => .more (.one (.one hl)) h (.one hr)
  have hproduct : ∀ {op' : Operator}, Operator.ofProductKind? op'.kind = some op' →
      IsExpression (w ++ op'.kind.word :: v) (l.combine op' r) (max d d') :=
    fun h => .one (.more (.one hl) h hr)
  -- As the operands are factors, neither level can take one of them apart.
  cases op with
  | sum => exact hsum rfl
  | difference => exact hsum rfl
  | product => exact hproduct rfl
  | wholeQuotient => exact hproduct rfl
  | quotient => exact hproduct rfl

/-- An expression in parentheses is a factor, one level deeper. -/
theorem IsExpression.inParentheses {w : List Token} {e : Expression} {d : Nat}
    (h : IsExpression w e d) : IsFactor (inParentheses w) e (d + 1) :=
  .parenthesized rfl h rfl

/-- The words of an expression derive it as a factor. -/
theorem Expression.isFactor_words {e : Expression} (h : e.Writable) :
    IsFactor e.words e.bare e.nesting := by
  induction e with
  | binary op l r _ ihl ihr =>
      have hcombine := ((ihl h.1).combine op (ihr h.2)).inParentheses
      rwa [combine, span_bare, span_bare] at hcombine
  | unary op e _ ih =>
      have hfactor := IsExpression.inParentheses (.one (.one (ih h)))
      have hsign : Sign.ofKind? op.kind.word.kind = some op := by cases op <;> rfl
      have hsigned := IsFactor.signed hsign hfactor
      rwa [span_bare] at hsigned
  | num n _ =>
      have hkind : n.word.kind = .integerConst ∨ n.word.kind = .realConst := by
        cases n with
        | int i => exact .inl rfl
        | real x => exact .inr rfl
      have hliteral := IsFactor.literal hkind
      rwa [Number.number_word h] at hliteral
  | var name _ => exact .named rfl

/-- The words of an expression derive it, without its spans. -/
theorem Expression.isExpression_words {e : Expression} (h : e.Writable) :
    IsExpression e.words e.bare e.nesting :=
  .one (.one (e.isFactor_words h))

/-! ### Statements -/

/-- Words of statements between the words of a compound. -/
theorem isCompound_between {w : List Token} {ss : List Statement} {d : Nat}
    (h : Separated .semicolon IsStatement w ss d) :
    IsCompound (Token.Kind.beginWord.word :: w ++ [Token.Kind.endWord.word]) ⟨ss, .none⟩
      (d + 1) := by
  have hcompound := IsCompound.mk (b := Token.Kind.beginWord.word)
    (e := Token.Kind.endWord.word) rfl h rfl
  rwa [stretch_cons_append] at hcompound

mutual

/-- The words of a statement derive it. -/
theorem Statement.isStatement_words : ∀ s : Statement, s.Writable →
    IsStatement s.words s.bare s.nesting
  | .compound ss _, h => by
      rw [words, bare, nesting]
      rw [Writable] at h
      exact .compound (isCompound_between (Statement.separated_words ss h.1 h.2))
  | .assign target _ value _, h => by
      rw [words, bare, nesting]
      rw [Writable] at h
      have hassign := IsAssignment.mk (t := nameWord target) (a := Token.Kind.assign.word) rfl rfl
        (value.isExpression_words h.2)
      rw [value.span_bare] at hassign
      exact .assignment hassign
  | .noop, _ => by
      rw [words, bare, nesting]
      exact .empty

/-- The words of statements derive them. -/
theorem Statement.separated_words : ∀ ss : List Statement, ss ≠ [] → ListWritable ss →
    Separated .semicolon IsStatement (listWords ss) (listBare ss) (listNesting ss)
  | [],           hne, _ => absurd rfl hne
  | [s],          _,   h => by
      rw [ListWritable] at h
      rw [listWords, listBare, listBare, listNesting, listNesting, Nat.max_zero]
      exact .one (isStatement_words s h.1)
  | s :: t :: ss, _,   h => by
      rw [ListWritable] at h
      rw [listWords, listBare, listNesting]
      exact .cons (isStatement_words s h.1) rfl
        (separated_words (t :: ss) (List.cons_ne_nil t ss) h.2)

end

theorem Compound.isCompound_words {c : Compound} (h : c.Writable) :
    IsCompound c.words c.bare c.nesting := by
  rw [Compound.Writable, toStatement, Statement.Writable] at h
  rw [Compound.words, Compound.bare, Compound.nesting, toStatement, Statement.words,
    Statement.nesting]
  exact isCompound_between (Statement.separated_words c.statements h.1 h.2)

/-! ### Declarations -/

/-- The words that declare one variable. -/
theorem isVariableList_words (name : String) (type : TypeName) :
    IsVariableList
      [nameWord name, Token.Kind.colon.word, type.kind.word, Token.Kind.semicolon.word]
      [.var name type .none] :=
  .mk (w := [nameWord name]) (.one (.mk rfl)) rfl (by cases type <;> rfl) rfl

/-- The words that declare variables derive them, one list for each. -/
theorem Declaration.isVariableLists_words (ds : List Declaration) :
    (variableWords ds = [] ∧ ds.filter isVariable = []) ∨
      variableWords ds ≠ [] ∧
        IsVariableLists (variableWords ds) (listBare (ds.filter isVariable)) := by
  induction ds with
  | nil => exact .inl ⟨rfl, rfl⟩
  | cons d ds ih =>
      cases d with
      | procedure name decls body _ => exact ih
      | var name type _ =>
          refine .inr ⟨List.cons_ne_nil _ _, ?_⟩
          rw [variableWords, List.filter_cons_of_pos rfl, listBare, bare]
          have hone := isVariableList_words name type
          -- Every variable is printed as a list of its own.
          rcases ih with ⟨hwords, hvars⟩ | ⟨-, hmore⟩
          · rw [hwords, hvars, listBare]
            exact .one hone
          · exact .cons hone hmore

/-- The words of the part for variables derive the variables. -/
theorem Declaration.isVariablePart_words (ds : List Declaration) :
    IsVariablePart (variablePartWords ds) (listBare (ds.filter isVariable)) := by
  rw [variablePartWords]
  rcases isVariableLists_words ds with ⟨hwords, hvars⟩ | ⟨hwords, hmore⟩
  · rw [if_pos hwords, hvars, listBare]
    exact .none
  · rw [if_neg hwords]
    exact .some rfl hmore

/-- Where the variables come first, they and then the procedures are all declarations in order. -/
theorem VariablesFirst.filter_append {ds : List Declaration} (h : VariablesFirst ds) :
    ds.filter Declaration.isVariable ++ ds.filter (fun d => !d.isVariable) = ds := by
  obtain ⟨vars, procedures, rfl, hvars, hprocedures⟩ := h
  have hno : ∀ d ∈ procedures, ¬ d.isVariable = true := fun d hd => by simp [hprocedures d hd]
  have hall : ∀ d ∈ vars, ¬ (!d.isVariable) = true := fun d hd => by simp [hvars d hd]
  rw [List.filter_append, List.filter_append, List.filter_eq_self.2 hvars,
    List.filter_eq_nil_iff.2 hno, List.filter_eq_nil_iff.2 hall, List.append_nil, List.nil_append,
    List.filter_eq_self.2 fun d hd => by simp [hprocedures d hd]]

/-- Where variables come first, taking them out and putting the rest behind them changes nothing. -/
theorem VariablesFirst.listBare_append {ds : List Declaration} (h : VariablesFirst ds) :
    Declaration.listBare (ds.filter Declaration.isVariable) ++
      Declaration.listBare (ds.filter (fun d => !d.isVariable)) = Declaration.listBare ds := by
  simp only [Declaration.listBare_eq_map, ← List.map_append, h.filter_append]

/-- The words of a block derive it, if those of its procedures derive them. -/
theorem isBlock_between {decls : List Declaration} {body : Compound}
    (hfirst : VariablesFirst decls) (hbody : body.Writable)
    (h : Repeated IsProcedure (Declaration.proceduresWords decls)
      (Declaration.listBare (decls.filter fun d => !d.isVariable))
      (Declaration.listNesting decls)) :
    IsBlock (Block.words ⟨decls, body⟩) (Block.bare ⟨decls, body⟩)
      (Block.nesting ⟨decls, body⟩) := by
  have hblock := IsBlock.mk (Declaration.isVariablePart_words decls) h (body.isCompound_words hbody)
  rwa [hfirst.listBare_append] at hblock

/-- From the first word of a procedure to the last of its body there is no place. -/
theorem stretch_procedure (t n s : Token) (b : Block) :
    stretch (t :: n :: s :: b.words) = t.span.through .none := by
  obtain ⟨decls, ⟨ss, span⟩⟩ := b
  have hwords : t :: n :: s :: Block.words ⟨decls, ⟨ss, span⟩⟩ =
      t :: (n :: s :: (Declaration.variablePartWords decls ++ (Declaration.proceduresWords decls ++
        Token.Kind.beginWord.word :: Statement.listWords ss))) ++ [Token.Kind.endWord.word] := by
    rw [Block.words, Compound.words, Compound.toStatement, Statement.words]
    simp only [List.cons_append, List.append_assoc]
  rw [hwords, stretch_cons_append]
  rfl

mutual

/-- The words of a procedure derive it. -/
theorem Declaration.isProcedure_words : ∀ d : Declaration, d.isVariable = false → d.Writable →
    IsProcedure d.procedureWords d.bare d.nesting
  | .var _ _ _,                   h, _ => nomatch h
  | .procedure name decls body _, _, h => by
      rw [Writable] at h
      obtain ⟨-, hfirst, hdecls, hbody⟩ := h
      have hblock := isBlock_between hfirst hbody (Declaration.repeated_words decls hdecls)
      have hprocedure := IsProcedure.mk (t := Token.Kind.procedureWord.word) (n := nameWord name)
        (s := Token.Kind.semicolon.word) (e := Token.Kind.semicolon.word) rfl rfl rfl hblock rfl
      rw [stretch_procedure] at hprocedure
      rw [procedureWords, bare, nesting]
      exact hprocedure

/-- The words of procedures derive them. -/
theorem Declaration.repeated_words : ∀ ds : List Declaration, ListWritable ds →
    Repeated IsProcedure (proceduresWords ds) (listBare (ds.filter fun d => !d.isVariable))
      (listNesting ds)
  | [],      _ => by
      rw [proceduresWords, List.filter_nil, listBare, listNesting]
      exact .none
  | d :: ds, h => by
      rw [ListWritable] at h
      have hmore := repeated_words ds h.2
      rw [proceduresWords, listNesting]
      cases hd : d.isVariable with
      | false =>
          rw [List.filter_cons_of_pos (by rw [hd]; rfl), listBare]
          exact .cons (isProcedure_words d hd h.1) hmore
      | true =>
          obtain ⟨name, type, span, rfl⟩ : ∃ name type span, d = .var name type span := by
            cases d with
            | var name type span => exact ⟨name, type, span, rfl⟩
            | procedure name decls body span => cases hd
          rw [procedureWords, nesting, Nat.zero_max]
          exact hmore

end

/-- **The words of a tree with a text derive the tree**, with the nesting of the printed text. -/
theorem Program.isProgram_words {p : Program} (h : p.Writable) :
    IsProgram p.words p.bare p.nesting := by
  obtain ⟨-, hfirst, hdecls, hbody⟩ := h
  have hblock := isBlock_between hfirst hbody (Declaration.repeated_words p.block.decls hdecls)
  have hprogram := IsProgram.mk (t := Token.Kind.programWord.word) (n := nameWord p.name)
    (s := Token.Kind.semicolon.word) (e := Token.Kind.dot.word) rfl rfl rfl hblock rfl
  rwa [stretch_cons_append] at hprogram

end MiniPascal
