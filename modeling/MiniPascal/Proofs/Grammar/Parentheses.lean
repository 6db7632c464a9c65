import MiniPascal.Proofs.Grammar

/-!
# Proofs — Grammar — Parentheses

Parentheses come in pairs.  Tokens that derive anything have as many opening parentheses among them
as closing ones (`IsProgram.balanced`): a rule of the grammar that has one of them has both, and the
others put balanced parts one behind another.  So tokens that have lost some of their closing
parentheses derive nothing.
-/

namespace MiniPascal

/-- There are as many opening parentheses as closing ones. -/
def Balanced (w : List Token) : Prop :=
  (w.map Token.kind).count .leftParen = (w.map Token.kind).count .rightParen

/-- A kind that is no parenthesis. -/
def Token.Kind.IsPlain (kind : Token.Kind) : Prop := kind ≠ .leftParen ∧ kind ≠ .rightParen

instance (kind : Token.Kind) : Decidable kind.IsPlain := inferInstanceAs (Decidable (_ ∧ _))

namespace Balanced

variable {w v : List Token} {t : Token}

theorem nil : Balanced [] := rfl

/-- A token that is no parenthesis may stand in front. -/
theorem behind (h : Balanced w) (ht : t.kind.IsPlain) : Balanced (t :: w) := by
  rw [Balanced, List.map_cons, List.count_cons_of_ne ht.1, List.count_cons_of_ne ht.2]
  exact h

theorem behindKind {kind : Token.Kind} (h : Balanced w) (ht : t.kind = kind)
    (hkind : kind.IsPlain := by decide) : Balanced (t :: w) := h.behind (ht ▸ hkind)

theorem append (hw : Balanced w) (hv : Balanced v) : Balanced (w ++ v) := by
  rw [Balanced] at hw hv
  rw [Balanced, List.map_append, List.count_append, List.count_append, hw, hv]

theorem inParentheses {l r : Token} (hl : l.kind = .leftParen) (h : Balanced w)
    (hr : r.kind = .rightParen) : Balanced (l :: w ++ [r]) := by
  rw [Balanced] at h
  simp [Balanced, hl, hr, h]

/-- Closing parentheses alone are balanced by none. -/
theorem not_of_append {closers : List Token} (h : Balanced (w ++ closers))
    (hclosers : ∀ t ∈ closers, t.kind = .rightParen) (hne : closers ≠ []) : ¬ Balanced w := by
  have hkinds : closers.map Token.kind = List.replicate closers.length .rightParen := by
    rw [List.eq_replicate_iff, List.length_map, List.forall_mem_map]
    exact ⟨rfl, hclosers⟩
  have hlength := List.length_pos_iff.2 hne
  rw [Balanced, List.map_append, List.count_append, List.count_append, hkinds,
    List.count_replicate_self, List.count_replicate, if_neg (by decide)] at h
  rw [Balanced]
  omega

end Balanced

/-! ### Derivations -/

/-- No operator of sums is a parenthesis. -/
theorem Operator.isPlain_of_ofSumKind? {kind : Token.Kind} {op : Operator}
    (h : Operator.ofSumKind? kind = some op) : kind.IsPlain := by
  constructor <;> rintro rfl <;> cases h

theorem Operator.isPlain_of_ofProductKind? {kind : Token.Kind} {op : Operator}
    (h : Operator.ofProductKind? kind = some op) : kind.IsPlain := by
  constructor <;> rintro rfl <;> cases h

theorem Sign.isPlain_of_ofKind? {kind : Token.Kind} {op : Sign} (h : Sign.ofKind? kind = some op) :
    kind.IsPlain := by
  constructor <;> rintro rfl <;> cases h

theorem TypeName.isPlain_of_ofKind? {kind : Token.Kind} {type : TypeName}
    (h : TypeName.ofKind? kind = some type) : kind.IsPlain := by
  constructor <;> rintro rfl <;> cases h

mutual

/-- What derives a factor is balanced, by recursion on the derivation; so with every rule below. -/
theorem IsFactor.balanced : ∀ {w : List Token} {e : Expression} {d : Nat}, IsFactor w e d →
    Balanced w
  | _, _, _, .signed ht h           => h.balanced.behind (Sign.isPlain_of_ofKind? ht)
  | _, _, _, .literal (.inl ht)     => Balanced.nil.behindKind ht
  | _, _, _, .literal (.inr ht)     => Balanced.nil.behindKind ht
  | _, _, _, .parenthesized hl h hr => .inParentheses hl (isExpression_balanced h) hr
  | _, _, _, .named ht              => Balanced.nil.behindKind ht

theorem isTerm_balanced : ∀ {w : List Token} {e : Expression} {d : Nat}, IsTerm w e d → Balanced w
  | _, _, _, .one h         => h.balanced
  | _, _, _, .more hl ht hr =>
      (isTerm_balanced hl).append (hr.balanced.behind (Operator.isPlain_of_ofProductKind? ht))

/-- The parentheses of an expression come in pairs. -/
theorem isExpression_balanced : ∀ {w : List Token} {e : Expression} {d : Nat},
    IsExpression w e d → Balanced w
  | _, _, _, .one h         => isTerm_balanced h
  | _, _, _, .more hl ht hr =>
      (isExpression_balanced hl).append
        ((isTerm_balanced hr).behind (Operator.isPlain_of_ofSumKind? ht))

end

/-- An assignment is as balanced as its value. -/
theorem IsAssignment.balanced {w : List Token} {s : Statement} {d : Nat}
    (h : IsAssignment w s d) : Balanced w := by
  obtain ⟨ht, ha, h⟩ := h
  exact ((isExpression_balanced h).behindKind ha).behindKind ht

mutual

theorem IsStatement.balanced : ∀ {w : List Token} {s : Statement} {d : Nat}, IsStatement w s d →
    Balanced w
  | _, _, _, .compound h   => h.balanced
  | _, _, _, .assignment h => h.balanced
  | _, _, _, .empty        => .nil

theorem statements_balanced : ∀ {w : List Token} {ss : List Statement} {d : Nat},
    Separated .semicolon IsStatement w ss d → Balanced w
  | _, _, _, .one h        => h.balanced
  | _, _, _, .more h ht hv => (statements_balanced h).append (hv.balanced.behindKind ht)

theorem IsCompound.balanced : ∀ {w : List Token} {c : Compound} {d : Nat}, IsCompound w c d →
    Balanced w
  | _, _, _, .mk hb h he =>
      ((statements_balanced h).behindKind hb).append (Balanced.nil.behindKind he)

end

/-- There is no parenthesis among names. -/
theorem names_balanced {w : List Token} {names : List (String × Span)} {d : Nat}
    (h : Separated .comma IsName w names d) : Balanced w := by
  have hname : ∀ {v : List Token} {n : String × Span} {d : Nat}, IsName v n d → Balanced v :=
    fun ⟨ht⟩ => Balanced.nil.behindKind ht
  induction h with
  | one h => exact hname h
  | more _ ht hv ih => exact ih.append ((hname hv).behindKind ht)

theorem IsVariableList.balanced {w : List Token} {ds : List Declaration}
    (h : IsVariableList w ds) : Balanced w := by
  obtain ⟨h, hc, ht, hs⟩ := h
  have htype := (Balanced.nil.behindKind hs).behind (TypeName.isPlain_of_ofKind? ht)
  exact (names_balanced h).append (htype.behindKind hc)

theorem IsVariablePart.balanced {w : List Token} {ds : List Declaration}
    (h : IsVariablePart w ds) : Balanced w := by
  cases h with
  | none => exact .nil
  | some ht h =>
      refine Balanced.behindKind ?_ ht
      induction h with
      | one h => exact h.balanced
      | more _ hv ih => exact ih.append hv.balanced

mutual

/-- A block is balanced, its procedures included. -/
theorem IsBlock.balanced : ∀ {w : List Token} {b : Block} {d : Nat}, IsBlock w b d → Balanced w
  | _, _, _, .mk hu hv hw => hu.balanced.append ((procedures_balanced hv).append hw.balanced)

theorem procedures_balanced : ∀ {w : List Token} {ds : List Declaration} {d : Nat},
    Repeated IsProcedure w ds d → Balanced w
  | _, _, _, .none       => .nil
  | _, _, _, .more hw hv => (procedures_balanced hw).append hv.balanced

theorem IsProcedure.balanced : ∀ {w : List Token} {p : Declaration} {d : Nat},
    IsProcedure w p d → Balanced w
  | _, _, _, .mk ht hn hs h he =>
      (((h.balanced.behindKind hs).behindKind hn).behindKind ht).append
        (Balanced.nil.behindKind he)

end

/-- **The parentheses of a program come in pairs.** -/
theorem IsProgram.balanced {w : List Token} {p : Program} {d : Nat} (h : IsProgram w p d) :
    Balanced w := by
  obtain ⟨ht, hn, hs, h, he⟩ := h
  exact (((h.balanced.behindKind hs).behindKind hn).behindKind ht).append
    (Balanced.nil.behindKind he)

end MiniPascal
