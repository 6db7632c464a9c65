import MiniPascal.Proofs.Grammar
import MiniPascal.Proofs.Run.Evaluation

/-!
# Proofs — Tree — Nodes

The nodes of a tree, and the tokens that each of them is derived from.  A node is a program, a
declaration, a compound, an assignment or an expression; an empty statement is none.  Every child of
a derived node is derived from some of its tokens that stand together
(`Node.DerivedFrom.exists_part`), so this holds of all nodes of a derived program
(`Node.Has.derivedFrom`).  An expression may have parentheses around it that leave no trace in the
tree; `IsBared` is what is left without them.
-/

namespace MiniPascal

/-! ### Nodes -/

/-- A node of a tree. -/
inductive Node where
  | program (p : Program)
  | declaration (d : Declaration)
  | compound (c : Compound)
  | assignment (target : String) (targetSpan : Span) (value : Expression) (span : Span)
  | expression (e : Expression)

/-- The node that a statement is; the empty one is none. -/
def Statement.node? : Statement → Option Node
  | .compound ss span                    => some (.compound ⟨ss, span⟩)
  | .assign target targetSpan value span => some (.assignment target targetSpan value span)
  | .noop                                => none

/-- The declarations and the body of a block. -/
def Block.nodes (b : Block) : List Node := b.decls.map .declaration ++ [.compound b.body]

namespace Node

/-- The stretch that a node was read from. -/
def span : Node → Span
  | .program p                           => p.span
  | .declaration (.var _ _ span)         => span
  | .declaration (.procedure _ _ _ span) => span
  | .compound c                          => c.span
  | .assignment _ _ _ span               => span
  | .expression e                        => e.span

/-- The nodes right below a node, in the order of the text. -/
def children : Node → List Node
  | .program p                               => p.block.nodes
  | .declaration (.var _ _ _)                => []
  | .declaration (.procedure _ decls body _) => Block.nodes ⟨decls, body⟩
  | .compound c                              => c.statements.filterMap Statement.node?
  | .assignment _ _ value _                  => [.expression value]
  | .expression e                            => e.operands.map .expression

/-- The nodes of the tree below `root`, which is one of them. -/
inductive Has (root : Node) : Node → Prop where
  | root : Has root root
  | child {node child : Node} (h : Has root node) (hchild : child ∈ node.children) : Has root child

end Node

/-! ### Derivations of nodes -/

/-- The name of a variable, and what is left of its list up to the type. -/
inductive IsVariable : List Token → Declaration → Prop where
  | mk {n c t : Token} {w : List Token} {type : TypeName} (hn : n.kind = .identifier)
      (hw : ∀ u ∈ w, u.kind = .identifier ∨ u.kind = .comma) (hc : c.kind = .colon)
      (ht : TypeName.ofKind? t.kind = some type) :
      IsVariable (n :: w ++ [c, t]) (.var n.lexeme type (n.span.through t.span))

/-- An expression without parentheses around it. -/
inductive IsBared : List Token → Expression → Nat → Prop where
  | operation {w v : List Token} {t : Token} {op : Operator} {l r : Expression} {dl dr : Nat}
      (hl : IsExpression w l dl)
      (ht : Operator.ofSumKind? t.kind = some op ∨ Operator.ofProductKind? t.kind = some op)
      (hr : IsExpression v r dr) : IsBared (w ++ t :: v) (l.combine op r) (max dl dr)
  | signed {t : Token} {w : List Token} {op : Sign} {e : Expression} {d : Nat}
      (ht : Sign.ofKind? t.kind = some op) (h : IsExpression w e d) :
      IsBared (t :: w) (.unary op e (t.span.through e.span)) (d + 1)
  | literal {t : Token} (ht : t.kind = .integerConst ∨ t.kind = .realConst) :
      IsBared [t] (.num t.number t.span) 0
  | named {t : Token} (ht : t.kind = .identifier) : IsBared [t] (.var t.lexeme t.span) 0

/-- The tokens `w` are parentheses around tokens that derive `e` without any. -/
def Bares (w : List Token) (e : Expression) (d : Nat) : Prop :=
  ∃ openers v closers d', w = openers ++ (v ++ closers) ∧ (∀ t ∈ openers, t.kind = .leftParen) ∧
    (∀ t ∈ closers, t.kind = .rightParen) ∧ d' ≤ d ∧ IsBared v e d'

section Bared

variable {w : List Token} {e : Expression} {d : Nat}

/-- Without parentheses around it, an expression bares itself. -/
theorem IsBared.bares (h : IsBared w e d) : Bares w e d :=
  ⟨[], w, [], d, by simp, nofun, nofun, Nat.le_refl d, h⟩

/-- Parentheses around an expression change nothing about it. -/
theorem Bares.inParentheses (h : Bares w e d) {l r : Token} (hl : l.kind = .leftParen)
    (hr : r.kind = .rightParen) : Bares (l :: w ++ [r]) e (d + 1) := by
  obtain ⟨openers, v, closers, d', rfl, hopeners, hclosers, hd, hv⟩ := h
  refine ⟨l :: openers, v, closers ++ [r], d', by simp, List.forall_mem_cons.2 ⟨hl, hopeners⟩,
    List.forall_mem_append.2 ⟨hclosers, List.forall_mem_singleton.2 hr⟩, ?_, hv⟩
  exact Nat.le_succ_of_le hd

end Bared

mutual

/-- The parentheses around a factor are taken off. -/
theorem IsFactor.bares : ∀ {w : List Token} {e : Expression} {d : Nat}, IsFactor w e d →
    Bares w e d
  | _, _, _, .signed ht h            => (IsBared.signed ht (.one (.one h))).bares
  | _, _, _, .literal ht             => (IsBared.literal ht).bares
  | _, _, _, .parenthesized hl h hr  => (isExpression_bares h).inParentheses hl hr
  | _, _, _, .named ht               => (IsBared.named ht).bares

theorem isTerm_bares : ∀ {w : List Token} {e : Expression} {d : Nat}, IsTerm w e d → Bares w e d
  | _, _, _, .one h         => h.bares
  | _, _, _, .more hl ht hr => (IsBared.operation (.one hl) (.inr ht) (.one (.one hr))).bares

/-- **Parentheses apart, an expression is an operation, a sign before an operand, a literal or a
variable.** -/
theorem isExpression_bares : ∀ {w : List Token} {e : Expression} {d : Nat}, IsExpression w e d →
    Bares w e d
  | _, _, _, .one h         => isTerm_bares h
  | _, _, _, .more hl ht hr => (IsBared.operation hl (.inl ht) (.one hr)).bares

end

/-- The tokens `w` derive a node, and `d` constructs are open at the deepest point. -/
def Node.DerivedFrom : Node → List Token → Nat → Prop
  | .program p,                                  w, d => IsProgram w p d
  | .declaration (.var name type span),          w, _ => IsVariable w (.var name type span)
  | .declaration (.procedure name ds body span), w, d =>
      IsProcedure w (.procedure name ds body span) d
  | .compound c,                                 w, d => IsCompound w c d
  | .assignment target targetSpan value span,    w, d =>
      IsAssignment w (.assign target targetSpan value span) d
  | .expression e,                               w, d => IsExpression w e d

/-! ### Children -/

section Repetitions

variable {α : Type} {One : List Token → α → Nat → Prop} {separator : Token.Kind} {w : List Token}
  {as : List α} {a : α} {d : Nat}

/-- Each of several things is derived from tokens that stand together; behind them there is nothing,
or a separator. -/
theorem Separated.exists_part (h : Separated separator One w as d) (ha : a ∈ as) :
    ∃ front v back d', w = front ++ (v ++ back) ∧ d' ≤ d ∧ One v a d' ∧
      ∀ t ∈ back.head?, t.kind = separator := by
  induction h with
  | @one w b d h =>
      obtain rfl := List.mem_singleton.1 ha
      exact ⟨[], w, [], d, by simp, Nat.le_refl d, h, nofun⟩
  | @more w v t bs b d d' hw ht hv ih =>
      rcases List.mem_append.1 ha with ha | ha
      · obtain ⟨front, u, back, d'', rfl, hd, hu, hback⟩ := ih ha
        refine ⟨front, u, back ++ t :: v, d'', by simp, Nat.le_trans hd (Nat.le_max_left _ _), hu,
          ?_⟩
        cases back with
        | nil =>
            rintro _ ⟨⟩
            exact ht
        | cons t' back => exact hback
      · obtain rfl := List.mem_singleton.1 ha
        exact ⟨w ++ [t], v, [], d', by simp, Nat.le_max_right _ _, hv, nofun⟩

/-- Each thing in a row is derived by tokens within the row. -/
theorem Repeated.exists_part (h : Repeated One w as d) (ha : a ∈ as) :
    ∃ v d', v <:+: w ∧ d' ≤ d ∧ One v a d' := by
  induction h with
  | none => cases ha
  | @more w v bs b d d' hw hv ih =>
      rcases List.mem_append.1 ha with ha | ha
      · obtain ⟨u, d'', hu, hd, hone⟩ := ih ha
        exact ⟨u, d'', hu.trans (List.prefix_append _ _).isInfix,
          Nat.le_trans hd (Nat.le_max_left _ _), hone⟩
      · obtain rfl := List.mem_singleton.1 ha
        exact ⟨v, d', (List.suffix_append _ _).isInfix, Nat.le_max_right _ _, hv⟩

end Repetitions

section Declarations

variable {w : List Token} {ds : List Declaration} {decl : Declaration} {d : Nat}

theorem IsProcedure.derivedFrom (h : IsProcedure w decl d) :
    (Node.declaration decl).DerivedFrom w d := by
  cases h with
  | mk ht hn hs hb he => exact .mk ht hn hs hb he

theorem IsVariable.derivedFrom (h : IsVariable w decl) (d : Nat) :
    (Node.declaration decl).DerivedFrom w d := by
  cases h with
  | mk hn hw hc ht => exact .mk hn hw hc ht

/-- Each name in a list stands at its token, and names and commas are all that follows it. -/
theorem names_exists_part {names : List (String × Span)}
    (h : Separated .comma IsName w names d) {n : String × Span} (hn : n ∈ names) :
    ∃ front t back, w = front ++ t :: back ∧ t.kind = .identifier ∧ n = (t.lexeme, t.span) ∧
      ∀ u ∈ back, u.kind = .identifier ∨ u.kind = .comma := by
  induction h with
  | one h =>
      obtain ⟨ht⟩ := h
      exact ⟨[], _, [], rfl, ht, List.mem_singleton.1 hn, nofun⟩
  | @more w v t ns m d d' hw ht hv ih =>
      obtain @⟨u, hu⟩ := hv
      rcases List.mem_append.1 hn with hn | hn
      · obtain ⟨front, v, back, rfl, hv, hname, hback⟩ := ih hn
        refine ⟨front, v, back ++ [t, u], by simp, hv, hname, List.forall_mem_append.2 ⟨hback, ?_⟩⟩
        exact List.forall_mem_cons.2 ⟨.inr ht, List.forall_mem_singleton.2 (.inl hu)⟩
      · exact ⟨w ++ [t], u, [], by simp, hu, List.mem_singleton.1 hn, nofun⟩

theorem IsVariableList.exists_part (h : IsVariableList w ds) (hd : decl ∈ ds) :
    ∃ v, v <:+: w ∧ IsVariable v decl := by
  obtain @⟨w, c, t, s, names, type, d, h, hc, ht, hs⟩ := h
  obtain ⟨n, hn, rfl⟩ := List.mem_map.1 hd
  obtain ⟨front, u, back, rfl, hu, rfl, hback⟩ := names_exists_part h hn
  exact ⟨u :: back ++ [c, t], ⟨front, [s], by simp⟩, .mk hu hback hc ht⟩

theorem IsVariableLists.exists_part (h : IsVariableLists w ds) (hd : decl ∈ ds) :
    ∃ v, v <:+: w ∧ IsVariable v decl := by
  induction h with
  | one h => exact h.exists_part hd
  | more _ hv ih =>
      rcases List.mem_append.1 hd with hd | hd
      · obtain ⟨u, hu, hdecl⟩ := ih hd
        exact ⟨u, hu.trans (List.prefix_append _ _).isInfix, hdecl⟩
      · obtain ⟨u, hu, hdecl⟩ := hv.exists_part hd
        exact ⟨u, hu.trans (List.suffix_append _ _).isInfix, hdecl⟩

theorem IsVariablePart.exists_part (h : IsVariablePart w ds) (hd : decl ∈ ds) :
    ∃ v, v <:+: w ∧ IsVariable v decl := by
  cases h with
  | none => cases hd
  | some _ h =>
      obtain ⟨v, hv, hdecl⟩ := h.exists_part hd
      exact ⟨v, hv.trans (List.suffix_cons _ _).isInfix, hdecl⟩

end Declarations

namespace Node

variable {w : List Token} {node child : Node} {d : Nat}

/-- The declarations and the body of a block are derived from some of its tokens. -/
theorem exists_part_of_block {b : Block} (h : IsBlock w b d) (hchild : child ∈ b.nodes) :
    ∃ v d', v <:+: w ∧ d' ≤ d ∧ child.DerivedFrom v d' := by
  obtain @⟨x, y, z, vars, procedures, body, d, d', hvars, hprocedures, hbody⟩ := h
  rcases List.mem_append.1 hchild with hchild | hchild
  · obtain ⟨decl, hdecl, rfl⟩ := List.mem_map.1 hchild
    rcases List.mem_append.1 (show decl ∈ vars ++ procedures from hdecl) with hvar | hprocedure
    · obtain ⟨v, hv, hvariable⟩ := hvars.exists_part hvar
      exact ⟨v, 0, hv.trans (List.prefix_append _ _).isInfix, Nat.zero_le _,
        IsVariable.derivedFrom hvariable 0⟩
    · obtain ⟨v, d'', hv, hd, hprocedure⟩ := hprocedures.exists_part hprocedure
      refine ⟨v, d'', hv.trans ⟨x, z, by simp⟩, Nat.le_trans hd (Nat.le_max_left _ _),
        IsProcedure.derivedFrom hprocedure⟩
  · obtain rfl := List.mem_singleton.1 hchild
    exact ⟨z, d', ⟨x ++ y, [], by simp⟩, Nat.le_max_right _ _, hbody⟩

/-- A statement that is a node derives as the node. -/
theorem derivedFrom_of_isStatement {s : Statement} (h : IsStatement w s d)
    (hnode : s.node? = some node) : node.DerivedFrom w d := by
  cases h with
  | compound hc =>
      cases hnode
      exact hc
  | assignment ha =>
      obtain ⟨ht, ha, hvalue⟩ := ha
      cases hnode
      exact .mk ht ha hvalue
  | empty => cases hnode

/-- A statement of a compound is derived from tokens of it, one level further in.  Behind them comes
a semicolon or `END`. -/
theorem exists_part_of_compound {c : Compound} (h : IsCompound w c d)
    (hchild : child ∈ c.statements.filterMap Statement.node?) :
    ∃ front v t back d', w = front ++ (v ++ t :: back) ∧ d' < d ∧ child.DerivedFrom v d' ∧
      (t.kind = .semicolon ∨ t.kind = .endWord) := by
  obtain @⟨b, e, w, ss, d, hb, hss, he⟩ := h
  obtain ⟨s, hs, hnode⟩ := List.mem_filterMap.1 hchild
  obtain ⟨front, v, back, d', rfl, hd, hs, hback⟩ := hss.exists_part hs
  have hderived := derivedFrom_of_isStatement hs hnode
  cases back with
  | nil => exact ⟨b :: front, v, e, [], d', by simp, Nat.lt_succ_of_le hd, hderived, .inr he⟩
  | cons t back =>
      exact ⟨b :: front, v, t, back ++ [e], d', by simp, Nat.lt_succ_of_le hd, hderived,
        .inl (hback t rfl)⟩

/-- **Every child of a derived node is derived from some of its tokens.** -/
theorem DerivedFrom.exists_part (h : node.DerivedFrom w d) (hchild : child ∈ node.children) :
    ∃ v d', v <:+: w ∧ d' ≤ d ∧ child.DerivedFrom v d' := by
  cases node with
  | program p =>
      obtain ⟨-, -, -, h, -⟩ := h
      obtain ⟨v, d', hv, hd, hderived⟩ := exists_part_of_block h hchild
      exact ⟨v, d', hv.trans ⟨[_, _, _], [_], rfl⟩, hd, hderived⟩
  | declaration decl =>
      cases decl with
      | var name type span => cases hchild
      | procedure name decls body span =>
          obtain ⟨-, -, -, h, -⟩ := h
          obtain ⟨v, d', hv, hd, hderived⟩ := exists_part_of_block h hchild
          exact ⟨v, d', hv.trans ⟨[_, _, _], [_], rfl⟩, Nat.le_succ_of_le hd, hderived⟩
  | compound c =>
      obtain ⟨front, v, t, back, d', rfl, hd, hderived, -⟩ := exists_part_of_compound h hchild
      exact ⟨v, d', ⟨front, t :: back, by simp⟩, Nat.le_of_lt hd, hderived⟩
  | assignment target targetSpan value span =>
      obtain @⟨t, a, w, e, d, -, -, h⟩ := h
      obtain rfl := List.mem_singleton.1 hchild
      exact ⟨w, d, ⟨[t, a], [], by simp⟩, Nat.le_refl d, h⟩
  | expression e =>
      obtain ⟨operand, hoperand, rfl⟩ := List.mem_map.1 hchild
      obtain ⟨openers, v, closers, d', rfl, -, -, hd, hbared⟩ := isExpression_bares h
      have hinside : v <:+: openers ++ (v ++ closers) := ⟨openers, closers, by simp⟩
      cases hbared with
      | @operation x y t op l r dl dr hl ht hr =>
          rcases List.mem_cons.1 hoperand with rfl | hright
          · exact ⟨x, dl, (List.prefix_append _ _).isInfix.trans hinside,
              Nat.le_trans (Nat.le_max_left _ _) hd, hl⟩
          · obtain rfl := List.mem_singleton.1 hright
            exact ⟨y, dr, List.IsInfix.trans ⟨x ++ [t], [], by simp⟩ hinside,
              Nat.le_trans (Nat.le_max_right _ _) hd, hr⟩
      | signed ht he =>
          obtain rfl := List.mem_singleton.1 hoperand
          exact ⟨_, _, (List.suffix_cons _ _).isInfix.trans hinside, Nat.le_of_succ_le hd, he⟩
      | literal ht => cases hoperand
      | named ht => cases hoperand

/-- **Every node of a derived tree is derived from some of its tokens.** -/
theorem Has.derivedFrom {root : Node} (h : root.Has node) (hroot : root.DerivedFrom w d) :
    ∃ v d', v <:+: w ∧ d' ≤ d ∧ node.DerivedFrom v d' := by
  induction h with
  | root => exact ⟨w, d, List.infix_rfl, Nat.le_refl d, hroot⟩
  | child _ hchild ih =>
      obtain ⟨v, d', hv, hd, hnode⟩ := ih
      obtain ⟨u, d'', hu, hd', hderived⟩ := DerivedFrom.exists_part hnode hchild
      exact ⟨u, d'', hu.trans hv, Nat.le_trans hd' hd, hderived⟩

/-! ### Assignments -/

/-- The expressions that a node assigns. -/
def values : Node → List Expression
  | .program p              => p.values
  | .declaration d          => d.values
  | .compound c             => c.values
  | .assignment _ _ value _ => [value]
  | .expression _           => []

theorem values_subset_of_block {b : Block} (h : child ∈ b.nodes) : child.values ⊆ b.values := by
  rw [Block.values, Declaration.listValues_eq_flatMap]
  rcases List.mem_append.1 h with h | h
  · obtain ⟨decl, hdecl, rfl⟩ := List.mem_map.1 h
    exact fun e he => List.mem_append_left _ (List.mem_flatMap.2 ⟨decl, hdecl, he⟩)
  · obtain rfl := List.mem_singleton.1 h
    exact List.subset_append_right _ _

/-- What a child assigns, its parent assigns. -/
theorem values_subset (h : child ∈ node.children) : child.values ⊆ node.values := by
  cases node with
  | program p => exact values_subset_of_block h
  | declaration decl =>
      cases decl with
      | var name type span => cases h
      | procedure name decls body span =>
          rw [values, Declaration.values]
          exact values_subset_of_block h
  | compound c =>
      obtain ⟨s, hs, hnode⟩ := List.mem_filterMap.1 h
      have hvalues : child.values = s.values := by
        cases s <;> cases hnode <;> rw [Statement.values] <;> rfl
      rw [values, Compound.values, Statement.listValues_eq_flatMap, hvalues]
      exact fun e he => List.mem_flatMap.2 ⟨s, hs, he⟩
  | assignment target targetSpan value span =>
      obtain rfl := List.mem_singleton.1 h
      exact List.nil_subset _
  | expression e =>
      obtain ⟨operand, -, rfl⟩ := List.mem_map.1 h
      exact List.nil_subset _

/-- The values in a node are values of the root. -/
theorem Has.values_subset {root : Node} (h : root.Has node) : node.values ⊆ root.values := by
  induction h with
  | root => exact List.Subset.refl _
  | child _ hchild ih => exact List.Subset.trans (Node.values_subset hchild) ih

/-- An assignment of a derived program is a statement of a compound: it nests less deep than the
program, and behind its tokens comes a semicolon or `END`. -/
theorem Has.exists_assignment {p : Program} {target : String} {targetSpan span : Span}
    {value : Expression} (h : (program p).Has (assignment target targetSpan value span))
    (hp : IsProgram w p d) :
    ∃ front v t back d', w = front ++ (v ++ t :: back) ∧ d' < d ∧
      IsAssignment v (.assign target targetSpan value span) d' ∧
      (t.kind = .semicolon ∨ t.kind = .endWord) := by
  cases h with
  | @child node _ hnode hchild =>
      obtain ⟨x, dx, ⟨before, after, rfl⟩, hdx, hderived⟩ := hnode.derivedFrom hp
      cases node with
      | program q => simp [children, Block.nodes] at hchild
      | declaration decl => cases decl <;> simp [children, Block.nodes] at hchild
      | compound c =>
          obtain ⟨front, v, t, back, d', rfl, hd, hassignment, ht⟩ :=
            exists_part_of_compound hderived hchild
          exact ⟨before ++ front, v, t, back ++ after, d', by simp, Nat.lt_of_lt_of_le hd hdx,
            hassignment, ht⟩
      | assignment target targetSpan value span => simp [children] at hchild
      | expression e => simp [children] at hchild

end Node

end MiniPascal
