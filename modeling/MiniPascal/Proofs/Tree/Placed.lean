import MiniPascal.Proofs.Lexing.Boundary
import MiniPascal.Proofs.Lexing.Slices
import MiniPascal.Proofs.Reading.Exact
import MiniPascal.Proofs.Tree.Nodes
import MiniPascal.Proofs.Tree.Spans

/-!
# Proofs — Tree — Placed

Where the nodes of a tree stand in its text.  The tokens of a text stand one behind another, and
every span of a derived node begins with one of its tokens and ends with one of them
(`Node.DerivedFrom.bounded`); so spans that come from tokens in front stand in front
(`Span.Bounded.before`), and going from one span through a later one ends where the later one does
(`Span.joins_through`).  Main statement (`Program.read_placed`): every node of a tree that is read
reaches from the token that it begins with to the one that it ends with, with its children inside.
-/

namespace MiniPascal

/-! ### Spans and tokens -/

namespace Span

/-- Nothing of the first span lies outside the second. -/
def Inside (a b : Span) : Prop := b.offset ≤ a.offset ∧ a.stop ≤ b.stop

/-- The span begins where `a` begins and ends where `b` ends. -/
def Joins (span a b : Span) : Prop := span.offset = a.offset ∧ span.stop = b.stop

/-- From a span through a later one is from the beginning of the first to the end of the second. -/
theorem joins_through {a b : Span} (h : a.Before b) : (a.through b).Joins a b := by
  refine ⟨rfl, ?_⟩
  rw [stop_through]
  exact Nat.max_eq_right (Nat.le_trans h (Nat.le_add_right _ _))

/-- The span begins with one of the tokens and ends with one of them, and is not empty. -/
structure Bounded (w : List Token) (span : Span) : Prop where
  starts : ∃ t ∈ w, t.span.offset = span.offset
  stops  : ∃ t ∈ w, t.span.stop = span.stop
  pos    : span.offset < span.stop

section Bounded

variable {w v : List Token} {t e : Token} {a b span : Span}

/-- Joining spans keeps within bounds. -/
theorem keptThrough_bounded (w : List Token) : KeptThrough (Bounded w) := by
  intro a b ha hb
  have hpos := ha.pos
  refine ⟨ha.starts, ?_, ?_⟩
  · rcases stop_through_eq_or a b with h | h
    · rw [h]
      exact ha.stops
    · rw [h]
      exact hb.stops
  · rw [stop_through]
    exact Nat.lt_of_lt_of_le hpos (Nat.le_max_left _ _)

theorem bounded_of_mem (hpos : ∀ t ∈ w, t.span.offset < t.span.stop) :
    ∀ t ∈ w, Bounded w t.span :=
  fun t ht => ⟨⟨t, ht, rfl⟩, ⟨t, ht, rfl⟩, hpos t ht⟩

theorem Bounded.mono (h : Bounded w span) (hw : w ⊆ v) : Bounded v span := by
  obtain ⟨⟨t, ht, hstart⟩, ⟨u, hu, hstop⟩, hpos⟩ := h
  exact ⟨⟨t, hw ht, hstart⟩, ⟨u, hw hu, hstop⟩, hpos⟩

/-- What comes from tokens in front stands in front. -/
theorem Bounded.before (ha : Bounded w a) (hb : Bounded v b)
    (h : (w ++ v).Pairwise fun t u => t.span.Before u.span) : a.Before b := by
  obtain ⟨t, ht, hstop⟩ := ha.stops
  obtain ⟨u, hu, hstart⟩ := hb.starts
  have hbefore := (List.pairwise_append.1 h).2.2 t ht u hu
  rwa [Before, hstop, hstart] at hbefore

/-- What comes from some tokens lies between the first and the last of them. -/
theorem Bounded.inside (ha : Bounded (t :: w ++ [e]) a) (hspan : span.Joins t.span e.span)
    (h : (t :: w ++ [e]).Pairwise fun t u => t.span.Before u.span) : a.Inside span := by
  obtain ⟨hstart, hstop⟩ := hspan
  obtain ⟨u, hu, hu'⟩ := ha.starts
  obtain ⟨v, hv, hv'⟩ := ha.stops
  rw [Inside, hstart, hstop, ← hu', ← hv']
  constructor
  · rw [List.cons_append, List.mem_cons] at hu
    rcases hu with rfl | hu
    · exact Nat.le_refl _
    · exact Nat.le_trans (Nat.le_add_right _ _) (List.rel_of_pairwise_cons h hu)
  · rw [List.mem_append, List.mem_singleton] at hv
    rcases hv with hv | rfl
    · exact Nat.le_trans ((List.pairwise_append.1 h).2.2 v hv e (.head _)) (Nat.le_add_right _ _)
    · exact Nat.le_refl _

end Bounded

end Span

/-- The span of a derived node begins with one of its tokens and ends with one of them. -/
theorem Node.DerivedFrom.bounded {node : Node} {w : List Token} {d : Nat}
    (h : node.DerivedFrom w d) (hpos : ∀ t ∈ w, t.span.offset < t.span.stop) :
    node.span.Bounded w := by
  have hkept := Span.keptThrough_bounded w
  have htokens := Span.bounded_of_mem hpos
  cases node with
  | program p => exact IsProgram.forall_spans hkept h htokens _ (.head _)
  | declaration decl =>
      cases decl with
      | var name type span =>
          obtain ⟨-, -, -, -⟩ := h
          exact hkept _ _ (htokens _ (by simp)) (htokens _ (by simp))
      | procedure name decls body span =>
          have hspans := IsProcedure.forall_spans hkept h htokens
          rw [Declaration.spans] at hspans
          exact hspans _ (.head _)
  | compound c => exact IsCompound.forall_spans hkept h htokens _ (.head _)
  | assignment target targetSpan value span =>
      have hspans := IsAssignment.forall_spans hkept h htokens
      rw [Statement.spans] at hspans
      exact hspans _ (.head _)
  | expression e => exact isExpression_forall_spans hkept h htokens _ e.span_mem_spans

/-! ### Nodes in a text -/

/-- What a node of each kind reaches over in the text `s` with the tokens `ts`: a program from
`PROGRAM` to the last token, a variable in a declaration from its name to its type, a procedure from
`PROCEDURE` to the end of its body, a compound from its `BEGIN` to its `END`, with its statements in
order, an assignment from its target to the end of its value, a sign from itself to the end of its
operand, and an operation from one operand to the other, which comes behind it; literals and
variables are their lexemes. -/
def Node.Reaches (s : String) (ts : List Token) : Node → Prop
  | .program p =>
      ∃ t w e d, ts = t :: w ++ [e] ∧ IsProgram ts p d ∧ t.kind = .programWord ∧ e.kind = .dot ∧
        p.span.Joins t.span e.span
  | .declaration (.var name type span) =>
      ∃ n w c t, n :: w ++ [c, t] <:+: ts ∧ n.kind = .identifier ∧ n.span.slice s = name ∧
        (∀ u ∈ w, u.kind = .identifier ∨ u.kind = .comma) ∧ c.kind = .colon ∧
        TypeName.ofKind? t.kind = some type ∧ span.Joins n.span t.span
  | .declaration (.procedure name decls body span) =>
      ∃ t w d, t :: w <:+: ts ∧ IsProcedure (t :: w) (.procedure name decls body span) d ∧
        t.kind = .procedureWord ∧ span.Joins t.span body.span
  | .compound c =>
      (∃ b w e d, b :: w ++ [e] <:+: ts ∧ IsCompound (b :: w ++ [e]) c d ∧ b.kind = .beginWord ∧
        e.kind = .endWord ∧ c.span.Joins b.span e.span) ∧
      (c.statements.filterMap Statement.node?).Pairwise fun a b => a.span.Before b.span
  | .assignment target targetSpan value span =>
      ∃ t a w d, t :: a :: w <:+: ts ∧ IsExpression w value d ∧ t.kind = .identifier ∧
        a.kind = .assign ∧ t.span = targetSpan ∧ targetSpan.slice s = target ∧
        targetSpan.Before value.span ∧ span.Joins targetSpan value.span
  | .expression (.binary op l r span) =>
      ∃ w t v dl dr, w ++ t :: v <:+: ts ∧ IsExpression w l dl ∧
        (Operator.ofSumKind? t.kind = some op ∨ Operator.ofProductKind? t.kind = some op) ∧
        IsExpression v r dr ∧ l.span.stop < r.span.offset ∧ span.Joins l.span r.span
  | .expression (.unary op e span) =>
      ∃ t w d, t :: w <:+: ts ∧ Sign.ofKind? t.kind = some op ∧ IsExpression w e d ∧
        span.Joins t.span e.span
  | .expression (.num n span) =>
      ∃ t ∈ ts, (t.kind = .integerConst ∨ t.kind = .realConst) ∧ t.number = n ∧ t.span = span ∧
        span.slice s = t.lexeme
  | .expression (.var name span) =>
      ∃ t ∈ ts, t.kind = .identifier ∧ t.span = span ∧ span.slice s = name

/-- A node covers characters of the text `s` from the beginning of one of the tokens `ts` to the end
of one of them, reaches over what a node of its kind does, and has its children inside. -/
structure Node.Placed (s : String) (ts : List Token) (node : Node) : Prop where
  covers   : node.span.Covers s
  starts   : ∃ t ∈ ts, t.span.offset = node.span.offset
  stops    : ∃ t ∈ ts, t.span.stop = node.span.stop
  reaches  : node.Reaches s ts
  contains : ∀ child ∈ node.children, child.span.Inside node.span

section Text

variable {s : String} {ts w : List Token} {n d : Nat}

/-- Tokens that stand together in a text stand in order, and none of them is empty. -/
theorem ordered_within (hs : scan s = .ok (ts ++ [.eof n])) (hw : w <:+: ts) :
    w.Pairwise (fun t u => t.span.Before u.span) ∧ ∀ t ∈ w, t.span.offset < t.span.stop := by
  obtain ⟨hordered, hpos⟩ := ordered_of_scan hs
  exact ⟨hordered.sublist hw.sublist, fun t ht => hpos t (hw.subset ht)⟩

/-- What begins with one token and ends with another covers characters of the text. -/
theorem Span.Bounded.covers {span : Span} (hs : scan s = .ok (ts ++ [.eof n]))
    (h : span.Bounded ts) : span.Covers s := by
  have hcovers : ∀ t ∈ ts, t.span.Covers s := fun t ht => by
    obtain ⟨front, back, htext, hspan⟩ := exists_place_of_scan hs ht
    rw [hspan]
    refine Span.covers_of_append htext fun hempty => ?_
    have hpos := (ordered_of_scan hs).2 t ht
    rw [hspan, hempty] at hpos
    exact Nat.lt_irrefl _ hpos
  obtain ⟨⟨t, ht, hstart⟩, ⟨u, hu, hstop⟩, hpos⟩ := h
  refine ⟨?_, hstart ▸ (hcovers t ht).starts, hstop ▸ (hcovers u hu).stops⟩
  rw [Span.stop] at hpos
  omega

/-- In a text, the span of a derived node begins with one of its tokens and ends with one. -/
theorem Node.DerivedFrom.bounded_of_scan {node : Node} (h : node.DerivedFrom w d)
    (hs : scan s = .ok (ts ++ [.eof n])) (hw : w <:+: ts) : node.span.Bounded w :=
  DerivedFrom.bounded h (ordered_within hs hw).2

/-- An expression is within the bounds of the tokens that derive it. -/
theorem isExpression_bounded {e : Expression} (h : IsExpression w e d)
    (hs : scan s = .ok (ts ++ [.eof n])) (hw : w <:+: ts) : e.span.Bounded w :=
  have hderived : (Node.expression e).DerivedFrom w d := h
  hderived.bounded_of_scan hs hw

/-- What is derived from some tokens lies between the first and the last of them. -/
theorem Node.DerivedFrom.inside {node : Node} {v : List Token} (h : node.DerivedFrom v d)
    {t e : Token} {span : Span} (hv : v <:+: t :: w ++ [e])
    (hs : scan s = .ok (ts ++ [.eof n])) (hw : t :: w ++ [e] <:+: ts)
    (hspan : span.Joins t.span e.span) : node.span.Inside span := by
  have hbounded := DerivedFrom.bounded_of_scan h hs (hv.trans hw)
  exact (hbounded.mono hv.subset).inside hspan (ordered_within hs hw).1

/-- From the first token of a stretch to the last one. -/
theorem stretch_joins {t e : Token} (hs : scan s = .ok (ts ++ [.eof n]))
    (hw : t :: w ++ [e] <:+: ts) : (stretch (t :: w ++ [e])).Joins t.span e.span := by
  have hordered := (ordered_within hs hw).1
  rw [stretch_cons_append]
  exact Span.joins_through ((List.pairwise_append.1 hordered).2.2 t (.head _) e (.head _))

/-! ### Nodes of each kind -/

variable (hs : scan s = .ok (ts ++ [.eof n]))
include hs

/-- A program reaches from its word to its point, and its block lies in between. -/
theorem IsProgram.reaches_contains {p : Program} (h : IsProgram ts p d) :
    (Node.program p).Reaches s ts ∧
      ∀ child ∈ (Node.program p).children, child.span.Inside p.span := by
  have hprogram := h
  obtain @⟨t, k, u, e, w, b, d, ht, hk, hu, hb, he⟩ := h
  have hjoins := stretch_joins (t := t) (w := k :: u :: w) (e := e) hs List.infix_rfl
  refine ⟨⟨t, k :: u :: w, e, d, rfl, hprogram, ht, he, hjoins⟩, fun child hchild => ?_⟩
  obtain ⟨v, d', hv, -, hderived⟩ := Node.exists_part_of_block hb hchild
  exact Node.DerivedFrom.inside (w := k :: u :: w) hderived (hv.trans ⟨[t, k, u], [e], rfl⟩) hs
    List.infix_rfl hjoins

/-- The declaration of a variable reaches from its name to the type. -/
theorem IsVariable.reaches {name : String} {type : TypeName} {span : Span}
    (h : IsVariable w (.var name type span)) (hw : w <:+: ts) :
    (Node.declaration (.var name type span)).Reaches s ts := by
  obtain @⟨m, c, t, w, type, hm, hrest, hc, ht⟩ := h
  have hordered := (ordered_within hs hw).1
  have hslice := slice_of_scan hs (hw.subset (.head _))
  refine ⟨m, w, c, t, hw, hm, hslice, hrest, hc, ht, Span.joins_through ?_⟩
  exact List.rel_of_pairwise_cons hordered (by simp)

/-- The last token of a block is the `END` of its body. -/
theorem IsBlock.exists_end {b : Block} (h : IsBlock w b d) (hw : w <:+: ts) :
    ∃ v e, w = v ++ [e] ∧ b.body.span.stop = e.span.stop := by
  obtain @⟨x, y, z, vars, procedures, body, d, d', -, -, hbody⟩ := h
  obtain @⟨b, e, z, ss, d, -, -, -⟩ := hbody
  refine ⟨x ++ (y ++ b :: z), e, by simp, ?_⟩
  exact (stretch_joins hs (List.IsInfix.trans ⟨x ++ y, [], by simp⟩ hw)).2

/-- A procedure reaches from its word to the end of its body, which lies inside. -/
theorem IsProcedure.reaches_contains {name : String} {decls : List Declaration} {body : Compound}
    {span : Span} (h : IsProcedure w (.procedure name decls body span) d) (hw : w <:+: ts) :
    (Node.declaration (.procedure name decls body span)).Reaches s ts ∧
      ∀ child ∈ (Node.declaration (.procedure name decls body span)).children,
        child.span.Inside span := by
  have hprocedure := h
  obtain @⟨t, k, u, f, w, b, d, ht, hk, hu, hb, hf⟩ := h
  have hblock : w <:+: ts := List.IsInfix.trans ⟨[t, k, u], [f], rfl⟩ hw
  obtain ⟨v, e, rfl, hstop⟩ := hb.exists_end hs hblock
  -- The semicolon behind the procedure belongs to its tokens, but not to its span.
  have hwithout : t :: (k :: u :: v) ++ [e] <:+: ts := List.IsInfix.trans ⟨[], [f], by simp⟩ hw
  have hjoins := stretch_joins hs hwithout
  refine ⟨⟨t, _, _, hw, hprocedure, ht, hjoins.1, hjoins.2.trans hstop.symm⟩,
    fun child hchild => ?_⟩
  obtain ⟨x, d', hx, -, hderived⟩ := Node.exists_part_of_block hb hchild
  exact hderived.inside (hx.trans ⟨[t, k, u], [], by simp⟩) hs hwithout hjoins

/-- The statements of a compound stand in order. -/
theorem statements_ordered {ss : List Statement} (h : Separated .semicolon IsStatement w ss d)
    (hw : w <:+: ts) :
    (ss.filterMap Statement.node?).Pairwise fun a b => a.span.Before b.span := by
  induction h with
  | @one w s d h =>
      rw [List.filterMap_cons, List.filterMap_nil]
      cases s.node? <;> simp
  | @more w v t ss s d d' hss ht hv ih =>
      have hw' : w <:+: ts := (List.prefix_append _ _).isInfix.trans hw
      have hv' : v <:+: ts := List.IsInfix.trans ⟨w ++ [t], [], by simp⟩ hw
      rw [List.filterMap_append, List.pairwise_append]
      refine ⟨ih hw', ?_, fun a ha b hb => ?_⟩
      · rw [List.filterMap_cons, List.filterMap_nil]
        cases s.node? <;> simp
      · obtain ⟨s₁, hs₁, hnode₁⟩ := List.mem_filterMap.1 ha
        obtain ⟨s₂, hs₂, hnode₂⟩ := List.mem_filterMap.1 hb
        rw [List.mem_singleton.1 hs₂] at hnode₂
        obtain ⟨front, u, back, d'', rfl, -, hu, -⟩ := hss.exists_part hs₁
        have ha' := Node.DerivedFrom.bounded_of_scan (Node.derivedFrom_of_isStatement hu hnode₁) hs
          (List.IsInfix.trans ⟨front, back, by simp⟩ hw')
        have hb' := Node.DerivedFrom.bounded_of_scan (Node.derivedFrom_of_isStatement hv hnode₂) hs
          hv'
        exact Span.Bounded.before (ha'.mono (by simp)) (hb'.mono (List.subset_cons_self t v))
          (ordered_within hs hw).1

theorem IsCompound.reaches_contains {c : Compound} (h : IsCompound w c d) (hw : w <:+: ts) :
    (Node.compound c).Reaches s ts ∧
      ∀ child ∈ (Node.compound c).children, child.span.Inside c.span := by
  have hcompound := h
  obtain @⟨b, e, w, ss, d, hb, hss, he⟩ := h
  have hjoins := stretch_joins hs hw
  have hinside : w <:+: ts := List.IsInfix.trans ⟨[b], [e], rfl⟩ hw
  refine ⟨⟨⟨b, w, e, _, hw, hcompound, hb, he, hjoins⟩, statements_ordered hs hss hinside⟩,
    fun child hchild => ?_⟩
  obtain ⟨front, v, t, back, d', hv, -, hderived, -⟩ :=
    Node.exists_part_of_compound hcompound hchild
  exact hderived.inside ⟨front, t :: back, by rw [hv]; simp⟩ hs hw hjoins

/-- An assignment reaches from its target to the end of the value's node, which lies inside. -/
theorem IsAssignment.reaches_contains {target : String} {targetSpan span : Span}
    {value : Expression} (h : IsAssignment w (.assign target targetSpan value span) d)
    (hw : w <:+: ts) :
    (Node.assignment target targetSpan value span).Reaches s ts ∧ value.span.Inside span := by
  obtain @⟨t, a, w, value, d, ht, ha, hvalue⟩ := h
  obtain ⟨hordered, hpos⟩ := ordered_within hs hw
  have hbounded : value.span.Bounded w :=
    isExpression_bounded hvalue hs (List.IsInfix.trans ⟨[t, a], [], by simp⟩ hw)
  have htarget : t.span.Bounded [t, a] :=
    ⟨⟨t, .head _, rfl⟩, ⟨t, .head _, rfl⟩, hpos t (.head _)⟩
  have hbefore : t.span.Before value.span := htarget.before hbounded hordered
  have hjoins := Span.joins_through hbefore
  refine ⟨⟨t, a, w, d, hw, hvalue, ht, ha, rfl, slice_of_scan hs (hw.subset (.head _)), hbefore,
    hjoins⟩, ?_, Nat.le_of_eq hjoins.2.symm⟩
  exact Nat.le_trans (Nat.le_add_right _ _) hbefore

/-- An expression reaches over its operands, which lie inside. -/
theorem IsBared.reaches_contains {e : Expression} (h : IsBared w e d) (hw : w <:+: ts) :
    (Node.expression e).Reaches s ts ∧
      ∀ child ∈ (Node.expression e).children, child.span.Inside e.span := by
  obtain ⟨hordered, hpos⟩ := ordered_within hs hw
  cases h with
  | @operation x v t op l r dl dr hl ht hr =>
      have hleft : l.span.Bounded x :=
        isExpression_bounded hl hs ((List.prefix_append _ _).isInfix.trans hw)
      have hright : r.span.Bounded v :=
        isExpression_bounded hr hs (List.IsInfix.trans ⟨x ++ [t], [], by simp⟩ hw)
      have hmiddle : t.span.Bounded [t] :=
        Span.bounded_of_mem (List.forall_mem_singleton.2 (hpos t (by simp))) t (.head _)
      -- The operator is not empty, so there is room between the operands.
      have hbefore : l.span.Before t.span :=
        hleft.before (hmiddle.mono (by simp)) hordered
      have hbehind : t.span.Before r.span :=
        hmiddle.before hright (hordered.sublist (List.sublist_append_right _ _))
      have hapart : l.span.stop < r.span.offset :=
        Nat.lt_of_le_of_lt hbefore (Nat.lt_of_lt_of_le hmiddle.pos hbehind)
      have hjoins := Span.joins_through (Nat.le_of_lt hapart : l.span.Before r.span)
      refine ⟨⟨x, t, v, dl, dr, hw, hl, ht, hr, hapart, hjoins⟩, List.forall_mem_cons.2 ⟨?_, ?_⟩⟩
      · refine ⟨Nat.le_refl _, Nat.le_trans ?_ (Nat.le_of_eq hjoins.2.symm)⟩
        exact Nat.le_of_lt (Nat.lt_trans hapart hright.pos)
      · refine List.forall_mem_singleton.2 ⟨?_, Nat.le_of_eq hjoins.2.symm⟩
        exact Nat.le_of_lt (Nat.lt_trans hleft.pos hapart)
  | @signed t v op e d ht h =>
      have hoperand : e.span.Bounded v :=
        isExpression_bounded h hs ((List.suffix_cons _ _).isInfix.trans hw)
      have hsign : t.span.Bounded [t] :=
        Span.bounded_of_mem (List.forall_mem_singleton.2 (hpos t (.head _))) t (.head _)
      have hbefore : t.span.Before e.span := hsign.before hoperand hordered
      have hjoins := Span.joins_through hbefore
      refine ⟨⟨t, v, d, hw, ht, h, hjoins⟩, List.forall_mem_singleton.2 ⟨?_, ?_⟩⟩
      · exact Nat.le_trans (Nat.le_add_right _ _) hbefore
      · exact Nat.le_of_eq hjoins.2.symm
  | @literal t ht =>
      have hmem : t ∈ ts := hw.subset (.head _)
      exact ⟨⟨t, hmem, ht, rfl, rfl, slice_of_scan hs hmem⟩, nofun⟩
  | @named t ht =>
      have hmem : t ∈ ts := hw.subset (.head _)
      exact ⟨⟨t, hmem, ht, rfl, slice_of_scan hs hmem⟩, nofun⟩

/-- **A node that is derived from tokens of a text is placed in it**; a program takes them all. -/
theorem Node.Placed.of_derivedFrom {node : Node} (h : node.DerivedFrom w d) (hw : w <:+: ts)
    (hprogram : ∀ p, node = .program p → w = ts) : node.Placed s ts := by
  have hbounded := (h.bounded_of_scan hs hw).mono hw.subset
  suffices hplaced : node.Reaches s ts ∧ ∀ child ∈ node.children, child.span.Inside node.span from
    ⟨hbounded.covers hs, hbounded.starts, hbounded.stops, hplaced.1, hplaced.2⟩
  cases node with
  | program p =>
      obtain rfl := hprogram p rfl
      exact IsProgram.reaches_contains hs h
  | declaration decl =>
      cases decl with
      | var name type span => exact ⟨IsVariable.reaches hs h hw, nofun⟩
      | procedure name decls body span => exact IsProcedure.reaches_contains hs h hw
  | compound c => exact IsCompound.reaches_contains hs h hw
  | assignment target targetSpan value span =>
      obtain ⟨hreaches, hvalue⟩ := IsAssignment.reaches_contains hs h hw
      exact ⟨hreaches, List.forall_mem_singleton.2 hvalue⟩
  | expression e =>
      obtain ⟨openers, v, closers, d', rfl, -, -, -, hbared⟩ := isExpression_bares h
      exact hbared.reaches_contains hs (List.IsInfix.trans ⟨openers, closers, by simp⟩ hw)

end Text

/-- A program is no child of a node. -/
theorem Node.not_program_of_mem_children {node : Node} {p : Program} :
    .program p ∉ node.children := by
  cases node with
  | program q => simp [children, Block.nodes]
  | declaration decl => cases decl <;> simp [children, Block.nodes]
  | compound c =>
      rintro h
      obtain ⟨s, -, hs⟩ := List.mem_filterMap.1 h
      cases s <;> cases hs
  | assignment target targetSpan value span => simp [children]
  | expression e => simp [children]

/-- **Spans nest, and stand on tokens.**  Every node of a tree that is read covers some characters
of the text, from the beginning of a token to the end of a token; it reaches over what a node of its
kind does, and its children lie inside it. -/
theorem Program.read_placed {s : String} {p : Program} (h : read s = .ok p) :
    ∃ ts, scan s = .ok (ts ++ [.eof s.utf8ByteSize]) ∧
      ∀ node, (Node.program p).Has node → node.Placed s ts := by
  obtain ⟨w, n, d, hs, hp, -⟩ := exists_of_read h
  obtain ⟨ts, hts, -⟩ := wellSpelled_of_scan hs
  obtain ⟨rfl, hend⟩ := List.append_inj' hts rfl
  refine ⟨w, hend ▸ hs, fun node hnode => ?_⟩
  obtain ⟨v, d', hv, -, hderived⟩ := hnode.derivedFrom hp
  cases hnode with
  | root => exact Node.Placed.of_derivedFrom hs hp List.infix_rfl fun _ _ => rfl
  | child _ hchild =>
      refine Node.Placed.of_derivedFrom hs hderived hv ?_
      rintro q rfl
      exact absurd hchild Node.not_program_of_mem_children

/-- A text with an operation that begins inside parentheses. -/
def productSource : String := "PROGRAM T; BEGIN x := (1 + y) * 2 END."

/-- The operation. -/
def product : Expression :=
  .binary .product (.binary .sum (.num (.int 1) ⟨23, 1⟩) (.var "y" ⟨27, 1⟩) ⟨23, 5⟩)
    (.num (.int 2) ⟨32, 1⟩) ⟨23, 10⟩

/-- The assignment of its value. -/
def productAssignment : Node := .assignment "x" ⟨17, 1⟩ product ⟨17, 16⟩

/-- The program with this assignment. -/
def productProgram : Program :=
  ⟨"T", ⟨[], ⟨[.assign "x" ⟨17, 1⟩ product ⟨17, 16⟩], ⟨11, 26⟩⟩⟩, ⟨0, 38⟩⟩

theorem scan_productSource : scan productSource = .ok
    [⟨.programWord, "PROGRAM", ⟨0, 7⟩⟩, ⟨.identifier, "T", ⟨8, 1⟩⟩, ⟨.semicolon, ";", ⟨9, 1⟩⟩,
      ⟨.beginWord, "BEGIN", ⟨11, 5⟩⟩, ⟨.identifier, "x", ⟨17, 1⟩⟩, ⟨.assign, ":=", ⟨19, 2⟩⟩,
      ⟨.leftParen, "(", ⟨22, 1⟩⟩, ⟨.integerConst, "1", ⟨23, 1⟩⟩, ⟨.plus, "+", ⟨25, 1⟩⟩,
      ⟨.identifier, "y", ⟨27, 1⟩⟩, ⟨.rightParen, ")", ⟨28, 1⟩⟩, ⟨.star, "*", ⟨30, 1⟩⟩,
      ⟨.integerConst, "2", ⟨32, 1⟩⟩, ⟨.endWord, "END", ⟨34, 3⟩⟩, ⟨.dot, ".", ⟨37, 1⟩⟩,
      .eof 38] := by decide +kernel

theorem read_productSource : Program.read productSource = .ok productProgram := by
  rw [Program.read, results_of_scan scan_productSource]
  rfl

theorem has_productAssignment : (Node.program productProgram).Has productAssignment := by
  have hbody : (Node.program productProgram).Has (.compound productProgram.block.body) :=
    .child .root (.head _)
  exact hbody.child (.head _)

theorem Program.read_placed_example :
    (Node.program productProgram).Has (.expression product) ∧
      product.span.slice productSource = "1 + y) * 2" ∧
      ∃ ts, scan productSource = .ok (ts ++ [.eof productSource.utf8ByteSize]) ∧
        (Node.expression product).Placed productSource ts := by
  have hproduct : (Node.program productProgram).Has (.expression product) :=
    has_productAssignment.child (.head _)
  obtain ⟨ts, hs, hplaced⟩ := read_placed read_productSource
  refine ⟨hproduct, ?_, ts, hs, hplaced _ hproduct⟩
  exact @Span.slice_of_append productSource "PROGRAM T; BEGIN x := (".toList "1 + y) * 2".toList
    " END.".toList rfl

end MiniPascal
