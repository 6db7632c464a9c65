import MiniPascal.Proofs.Grammar
import MiniPascal.Proofs.Names.Occurrences
import MiniPascal.Proofs.Run.Evaluation
import MiniPascal.Proofs.Run.Fold

/-!
# Proofs — Tree — Spans

The spans of a tree, and where they come from.  Every span of a derived tree reaches from one token
of the derivation to another, so what holds of the spans of tokens and is kept by `through` holds of
all spans of the tree (`IsProgram.forall_spans`).  The places that the check and the run of a
program can blame are among these spans (`Program.mem_spans_of_mem_occurrences`,
`Program.mem_spans_of_isPart`).
-/

namespace MiniPascal

/-- The spans of the nodes of an expression. -/
def Expression.spans : Expression → List Span
  | .binary _ l r s => s :: (l.spans ++ r.spans)
  | .unary _ e s    => s :: e.spans
  | .num _ s        => [s]
  | .var _ s        => [s]

mutual

/-- The spans in a statement, that of a target included. -/
def Statement.spans : Statement → List Span
  | .compound ss s                  => s :: Statement.listSpans ss
  | .assign _ targetSpan value s    => s :: targetSpan :: value.spans
  | .noop                           => []

/-- The spans in statements. -/
def Statement.listSpans : List Statement → List Span
  | []      => []
  | s :: ss => s.spans ++ Statement.listSpans ss

end

/-- The spans in a compound. -/
def Compound.spans (c : Compound) : List Span := c.span :: Statement.listSpans c.statements

mutual

/-- The spans in a declaration. -/
def Declaration.spans : Declaration → List Span
  | .var _ _ s                => [s]
  | .procedure _ decls body s => s :: (Declaration.listSpans decls ++ body.spans)

/-- The spans in declarations. -/
def Declaration.listSpans : List Declaration → List Span
  | []      => []
  | d :: ds => d.spans ++ Declaration.listSpans ds

end

/-- The spans in a block. -/
def Block.spans (b : Block) : List Span := Declaration.listSpans b.decls ++ b.body.spans

/-- The spans in a program. -/
def Program.spans (p : Program) : List Span := p.span :: p.block.spans

theorem Statement.listSpans_eq_flatMap (ss : List Statement) :
    listSpans ss = ss.flatMap spans := by
  induction ss with
  | nil => rw [listSpans]; rfl
  | cons s ss ih => rw [listSpans, ih, List.flatMap_cons]

theorem Declaration.listSpans_eq_flatMap (ds : List Declaration) :
    listSpans ds = ds.flatMap spans := by
  induction ds with
  | nil => rw [listSpans]; rfl
  | cons d ds ih => rw [listSpans, ih, List.flatMap_cons]

theorem Expression.span_mem_spans (e : Expression) : e.span ∈ e.spans := by
  cases e <;> exact .head _

theorem Compound.spans_toStatement (c : Compound) : c.toStatement.spans = c.spans := by
  rw [toStatement, Statement.spans]
  rfl

/-! ### Spans of derived trees -/

/-- What is kept in going from one span through another. -/
def KeptThrough (P : Span → Prop) : Prop := ∀ a b, P a → P b → P (a.through b)

section Derivations

variable {P : Span → Prop}

/-- What holds of the spans of tokens holds of the stretch of them all. -/
theorem stretch_of_forall (hP : KeptThrough P) {t : Token} {w : List Token}
    (h : ∀ u ∈ t :: w, P u.span) : P (stretch (t :: w)) := by
  refine hP _ _ (h t (.head _)) (h _ ?_)
  rw [List.getLastD_eq_getLast?]
  cases hlast : w.getLast? with
  | none => exact .head _
  | some u => exact .tail _ (List.mem_of_getLast? hlast)

/-- The span of an operation is made of those of its operands. -/
theorem Expression.forall_spans_combine (hP : KeptThrough P) {l r : Expression} (op : Operator)
    (hl : ∀ s ∈ l.spans, P s) (hr : ∀ s ∈ r.spans, P s) : ∀ s ∈ (l.combine op r).spans, P s :=
  List.forall_mem_cons.2
    ⟨hP _ _ (hl _ l.span_mem_spans) (hr _ r.span_mem_spans), List.forall_mem_append.2 ⟨hl, hr⟩⟩

mutual

/-- A property of the tokens' spans that is kept by joining them holds of all spans in the tree, by
recursion on the derivation; so with every rule below. -/
theorem IsFactor.forall_spans (hP : KeptThrough P) : ∀ {w : List Token} {e : Expression} {d : Nat},
    IsFactor w e d → (∀ t ∈ w, P t.span) → ∀ s ∈ e.spans, P s
  | _, _, _, .signed (e := e) _ h,   hw =>
      have hoperand := h.forall_spans hP fun t ht => hw t (.tail _ ht)
      List.forall_mem_cons.2
        ⟨hP _ _ (hw _ (.head _)) (hoperand _ e.span_mem_spans), hoperand⟩
  | _, _, _, .literal _,             hw => List.forall_mem_singleton.2 (hw _ (.head _))
  | _, _, _, .parenthesized _ h _,   hw =>
      isExpression_forall_spans hP h fun t ht => hw t (.tail _ (List.mem_append_left _ ht))
  | _, _, _, .named _,               hw => List.forall_mem_singleton.2 (hw _ (.head _))

theorem isTerm_forall_spans (hP : KeptThrough P) : ∀ {w : List Token} {e : Expression} {d : Nat},
    IsTerm w e d → (∀ t ∈ w, P t.span) → ∀ s ∈ e.spans, P s
  | _, _, _, .one h,        hw => h.forall_spans hP hw
  | _, _, _, .more hl _ hr, hw =>
      Expression.forall_spans_combine hP _
        (isTerm_forall_spans hP hl fun t ht => hw t (List.mem_append_left _ ht))
        (hr.forall_spans hP fun t ht => hw t (List.mem_append_right _ (.tail _ ht)))

theorem isExpression_forall_spans (hP : KeptThrough P) : ∀ {w : List Token} {e : Expression}
    {d : Nat}, IsExpression w e d → (∀ t ∈ w, P t.span) → ∀ s ∈ e.spans, P s
  | _, _, _, .one h,        hw => isTerm_forall_spans hP h hw
  | _, _, _, .more hl _ hr, hw =>
      Expression.forall_spans_combine hP _
        (isExpression_forall_spans hP hl fun t ht => hw t (List.mem_append_left _ ht))
        (isTerm_forall_spans hP hr fun t ht => hw t (List.mem_append_right _ (.tail _ ht)))

end

/-- The spans in an assignment are those of its target, of its value and of the whole. -/
theorem IsAssignment.forall_spans (hP : KeptThrough P) {w : List Token} {s : Statement} {d : Nat}
    (h : IsAssignment w s d) (hw : ∀ t ∈ w, P t.span) : ∀ span ∈ s.spans, P span := by
  obtain ⟨-, -, h⟩ := h
  have htarget := hw _ (.head _)
  have hvalue := isExpression_forall_spans hP h fun t ht => hw t (.tail _ (.tail _ ht))
  rw [Statement.spans]
  exact List.forall_mem_cons.2 ⟨hP _ _ htarget (hvalue _ (Expression.span_mem_spans _)),
    List.forall_mem_cons.2 ⟨htarget, hvalue⟩⟩

mutual

theorem IsStatement.forall_spans (hP : KeptThrough P) : ∀ {w : List Token} {s : Statement}
    {d : Nat}, IsStatement w s d → (∀ t ∈ w, P t.span) → ∀ span ∈ s.spans, P span
  | _, _, _, .compound h,   hw => by
      rw [Compound.spans_toStatement]
      exact h.forall_spans hP hw
  | _, _, _, .assignment h, hw => h.forall_spans hP hw
  | _, _, _, .empty,        _  => by
      rw [Statement.spans]
      exact nofun

theorem statements_forall_spans (hP : KeptThrough P) : ∀ {w : List Token} {ss : List Statement}
    {d : Nat}, Separated .semicolon IsStatement w ss d → (∀ t ∈ w, P t.span) →
      ∀ span ∈ ss.flatMap Statement.spans, P span
  | _, _, _, .one h,       hw => by
      rw [List.flatMap_singleton]
      exact h.forall_spans hP hw
  | _, _, _, .more h _ hv, hw => by
      rw [List.flatMap_append, List.flatMap_singleton]
      exact List.forall_mem_append.2
        ⟨statements_forall_spans hP h fun t ht => hw t (List.mem_append_left _ ht),
          hv.forall_spans hP fun t ht => hw t (List.mem_append_right _ (.tail _ ht))⟩

theorem IsCompound.forall_spans (hP : KeptThrough P) : ∀ {w : List Token} {c : Compound} {d : Nat},
    IsCompound w c d → (∀ t ∈ w, P t.span) → ∀ span ∈ c.spans, P span
  | _, _, _, .mk _ h _, hw => by
      rw [Compound.spans, Statement.listSpans_eq_flatMap]
      exact List.forall_mem_cons.2 ⟨stretch_of_forall hP hw,
        statements_forall_spans hP h fun t ht => hw t (.tail _ (List.mem_append_left _ ht))⟩

end

theorem names_forall_spans {w : List Token} {names : List (String × Span)} {d : Nat}
    (h : Separated .comma IsName w names d) (hw : ∀ t ∈ w, P t.span) : ∀ n ∈ names, P n.2 := by
  induction h with
  | one h =>
      obtain ⟨-⟩ := h
      exact List.forall_mem_singleton.2 (hw _ (.head _))
  | more _ _ hv ih =>
      obtain ⟨-⟩ := hv
      exact List.forall_mem_append.2 ⟨ih fun t ht => hw t (List.mem_append_left _ ht),
        List.forall_mem_singleton.2 (hw _ (List.mem_append_right _ (.tail _ (.head _))))⟩

/-- The span of a variable reaches from its name to the type of its list. -/
theorem IsVariableList.forall_spans (hP : KeptThrough P) {w : List Token} {ds : List Declaration}
    (h : IsVariableList w ds) (hw : ∀ t ∈ w, P t.span) :
    ∀ span ∈ ds.flatMap Declaration.spans, P span := by
  obtain ⟨h, -, -, -⟩ := h
  obtain ⟨hnames, htype⟩ := List.forall_mem_append.1 hw
  intro span hspan
  obtain ⟨d, hd, hspan⟩ := List.mem_flatMap.1 hspan
  obtain ⟨n, hn, rfl⟩ := List.mem_map.1 hd
  rw [Declaration.spans] at hspan
  obtain rfl := List.mem_singleton.1 hspan
  exact hP _ _ (names_forall_spans h hnames n hn) (htype _ (.tail _ (.head _)))

theorem IsVariableLists.forall_spans (hP : KeptThrough P) {w : List Token} {ds : List Declaration}
    (h : IsVariableLists w ds) (hw : ∀ t ∈ w, P t.span) :
    ∀ span ∈ ds.flatMap Declaration.spans, P span := by
  induction h with
  | one h => exact h.forall_spans hP hw
  | more _ hv ih =>
      rw [List.flatMap_append]
      exact List.forall_mem_append.2 ⟨ih fun t ht => hw t (List.mem_append_left _ ht),
        hv.forall_spans hP fun t ht => hw t (List.mem_append_right _ ht)⟩

/-- The spans in the declarations of variables are made of those of their tokens. -/
theorem IsVariablePart.forall_spans (hP : KeptThrough P) {w : List Token} {ds : List Declaration}
    (h : IsVariablePart w ds) (hw : ∀ t ∈ w, P t.span) :
    ∀ span ∈ ds.flatMap Declaration.spans, P span := by
  cases h with
  | none => exact nofun
  | some _ h => exact h.forall_spans hP fun t ht => hw t (.tail _ ht)

mutual

theorem IsBlock.forall_spans (hP : KeptThrough P) : ∀ {w : List Token} {b : Block} {d : Nat},
    IsBlock w b d → (∀ t ∈ w, P t.span) → ∀ span ∈ b.spans, P span
  | _, _, _, .mk hu hv hc, hw => by
      obtain ⟨hwu, hwvc⟩ := List.forall_mem_append.1 hw
      obtain ⟨hwv, hwc⟩ := List.forall_mem_append.1 hwvc
      rw [Block.spans, Declaration.listSpans_eq_flatMap, List.flatMap_append]
      exact List.forall_mem_append.2 ⟨List.forall_mem_append.2
        ⟨hu.forall_spans hP hwu, procedures_forall_spans hP hv hwv⟩, hc.forall_spans hP hwc⟩

theorem procedures_forall_spans (hP : KeptThrough P) : ∀ {w : List Token} {ds : List Declaration}
    {d : Nat}, Repeated IsProcedure w ds d → (∀ t ∈ w, P t.span) →
      ∀ span ∈ ds.flatMap Declaration.spans, P span
  | _, _, _, .none,       _  => nofun
  | _, _, _, .more hv hp, hw => by
      rw [List.flatMap_append, List.flatMap_singleton]
      exact List.forall_mem_append.2
        ⟨procedures_forall_spans hP hv fun t ht => hw t (List.mem_append_left _ ht),
          hp.forall_spans hP fun t ht => hw t (List.mem_append_right _ ht)⟩

/-- The span of a procedure leaves its last semicolon out. -/
theorem IsProcedure.forall_spans (hP : KeptThrough P) : ∀ {w : List Token} {p : Declaration}
    {d : Nat}, IsProcedure w p d → (∀ t ∈ w, P t.span) → ∀ span ∈ p.spans, P span
  | _, _, _, .mk _ _ _ h _, hw => by
      obtain ⟨hw, -⟩ := List.forall_mem_append.1 hw
      rw [Declaration.spans]
      exact List.forall_mem_cons.2 ⟨stretch_of_forall hP hw,
        h.forall_spans hP fun t ht => hw t (.tail _ (.tail _ (.tail _ ht)))⟩

end

/-- **What holds of the spans of all tokens holds of all spans of the program that they derive**, if
it is kept in going from one span through another. -/
theorem IsProgram.forall_spans (hP : KeptThrough P) {w : List Token} {p : Program} {d : Nat}
    (h : IsProgram w p d) (hw : ∀ t ∈ w, P t.span) : ∀ span ∈ p.spans, P span := by
  obtain ⟨-, -, -, h, -⟩ := h
  exact List.forall_mem_cons.2 ⟨stretch_of_forall hP hw,
    h.forall_spans hP fun t ht => hw t (.tail _ (.tail _ (.tail _ (List.mem_append_left _ ht))))⟩

end Derivations

/-! ### Spans of names and of values -/

/-- The span of a node is one of the spans of the whole expression. -/
theorem Expression.IsPart.mem_spans {part e : Expression} (h : part.IsPart e) :
    part.span ∈ e.spans := by
  induction h with
  | self => exact span_mem_spans _
  | operand _ ih => exact .tail _ ih
  | left _ ih => exact .tail _ (List.mem_append_left _ ih)
  | right _ ih => exact .tail _ (List.mem_append_right _ ih)

/-- A name is read at a span of the expression. -/
theorem Expression.mem_spans_of_mem_reads {e : Expression} :
    ∀ o ∈ e.reads, o.span ∈ e.spans := by
  induction e with
  | binary op l r span ihl ihr =>
      exact List.forall_mem_append.2 ⟨fun o ho => .tail _ (List.mem_append_left _ (ihl o ho)),
        fun o ho => .tail _ (List.mem_append_right _ (ihr o ho))⟩
  | unary op e span ih => exact fun o ho => .tail _ (ih o ho)
  | num n span => exact nofun
  | var name span => exact List.forall_mem_singleton.2 (.head _)

mutual

/-- A name occurs at a span of the statement. -/
theorem Statement.mem_spans_of_mem_occurrences : ∀ s : Statement, ∀ o ∈ s.occurrences,
    o.span ∈ s.spans
  | .compound ss _, o, ho => by
      rw [occurrences] at ho
      rw [spans]
      exact .tail _ (listMem_spans_of_mem_occurrences ss o ho)
  | .assign _ _ value _, o, ho => by
      rw [occurrences] at ho
      rw [spans]
      rcases List.mem_append.1 ho with ho | ho
      · exact .tail _ (.tail _ (value.mem_spans_of_mem_reads o ho))
      · obtain rfl := List.mem_singleton.1 ho
        exact .tail _ (.head _)
  | .noop, o, ho => by
      rw [occurrences] at ho
      cases ho

theorem Statement.listMem_spans_of_mem_occurrences : ∀ ss, ∀ o ∈ listOccurrences ss,
    o.span ∈ listSpans ss
  | [], o, ho => by
      rw [listOccurrences] at ho
      cases ho
  | s :: ss, o, ho => by
      rw [listOccurrences] at ho
      rw [listSpans]
      rcases List.mem_append.1 ho with ho | ho
      · exact List.mem_append_left _ (s.mem_spans_of_mem_occurrences o ho)
      · exact List.mem_append_right _ (listMem_spans_of_mem_occurrences ss o ho)

end

mutual

/-- The value of an assignment has spans of the statement around it. -/
theorem Statement.mem_spans_of_mem_assignments : ∀ s : Statement, ∀ a ∈ s.assignments,
    a.value.spans ⊆ s.spans
  | .compound ss _, a, ha => by
      rw [assignments] at ha
      rw [spans]
      exact List.subset_cons_of_subset _ (listMem_spans_of_mem_assignments ss a ha)
  | .assign _ _ value _, a, ha => by
      rw [assignments] at ha
      obtain rfl := List.mem_singleton.1 ha
      rw [spans]
      exact List.subset_cons_of_subset _ (List.subset_cons_self _ _)
  | .noop, a, ha => by
      rw [assignments] at ha
      cases ha

theorem Statement.listMem_spans_of_mem_assignments : ∀ ss, ∀ a ∈ listAssignments ss,
    a.value.spans ⊆ listSpans ss
  | [], a, ha => by
      rw [listAssignments] at ha
      cases ha
  | s :: ss, a, ha => by
      rw [listAssignments] at ha
      rw [listSpans]
      rcases List.mem_append.1 ha with ha | ha
      · exact List.subset_append_of_subset_left _ (s.mem_spans_of_mem_assignments a ha)
      · exact List.subset_append_of_subset_right _ (listMem_spans_of_mem_assignments ss a ha)

end

namespace Program

variable {p : Program}

/-- What stands in the body has its spans among those of the program. -/
theorem listSpans_subset_spans (p : Program) :
    Statement.listSpans p.block.body.statements ⊆ p.spans :=
  List.subset_cons_of_subset _
    (List.subset_append_of_subset_right _ (List.subset_cons_of_subset _ (List.Subset.refl _)))

/-- The check of names looks at spans of the program. -/
theorem mem_spans_of_mem_occurrences {o : Occurrence} (h : o ∈ p.occurrences) : o.span ∈ p.spans :=
  p.listSpans_subset_spans (Statement.listMem_spans_of_mem_occurrences _ o h)

/-- The run evaluates nodes with spans of the program. -/
theorem mem_spans_of_isPart {a : Assignment} (ha : a ∈ p.assignments) {node : Expression}
    (h : node.IsPart a.value) : node.span ∈ p.spans :=
  p.listSpans_subset_spans (Statement.listMem_spans_of_mem_assignments _ a ha h.mem_spans)

end Program

end MiniPascal
