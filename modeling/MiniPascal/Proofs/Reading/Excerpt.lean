import MiniPascal.Proofs.Grammar.Parentheses
import MiniPascal.Proofs.Printing.Roundtrip
import MiniPascal.Proofs.Tree.Placed

/-!
# Proofs — Reading — Excerpt

A statement read again on its own.  The text from one token of a scanned text to another lays out
the tokens in between (`writes_slice`), so in the frame of a program it is read as what they derive.
The span of an assignment ends with the last token that belongs to a node of its value; closing
parentheses behind that token belong to the statement, but not to its span
(`Expression.stopsIn`).  Main statement (`Program.read_excerpt`): the text at the span of an
assignment is read as that assignment if no closing parenthesis is next behind it, and otherwise it
lacks a parenthesis and is not read at all.
-/

namespace MiniPascal

/-! ### The text from one token to another -/

/-- Where a lexeme ends depends on the next character alone. -/
theorem Token.Kind.endsAt_append {kind : Token.Kind} {cs : List Char} (hcs : cs ≠ [])
    (ds : List Char) : kind.EndsAt (cs ++ ds) ↔ kind.EndsAt cs := by
  obtain ⟨c, cs, rfl⟩ := List.exists_cons_of_ne_nil hcs
  exact Iff.rfl

/-- What is laid out from one token to another lays out these tokens in front of other texts too. -/
theorem LaysOut.exists_excerpt {ts w : List Token} (hts : ts ≠ []) :
    ∀ {offset : Nat} {cs : List Char} {t : Token}, LaysOut offset cs (t :: w ++ ts) →
      ∃ gap word back, cs = gap ++ (word ++ back) ∧ IsTrivia gap ∧ word ≠ [] ∧
        t.span.offset = offset + byteLength gap ∧
        (w.getLastD t).span.stop = offset + byteLength gap + byteLength word ∧
        Writes Loose (.ofList word) ((t :: w).map Token.bare) := by
  induction w with
  | nil =>
      intro offset cs t h
      obtain ⟨gap, rest, rfl, hgap, ⟨hspells, hrange⟩, -, hspan, -⟩ := h.exists_lexeme hts
      obtain ⟨c, ds, hlexeme, -, -⟩ := head_of_spells hspells
      refine ⟨gap, t.lexeme.toList, rest, rfl, hgap, by rw [hlexeme]; exact List.cons_ne_nil c ds,
        by rw [hspan], ?_, ?_⟩
      · rw [List.getLastD_nil, hspan]
        rfl
      · rw [String.ofList_toList]
        exact (Writes.lexeme hspells hrange).loose
  | cons u w ih =>
      intro offset cs t h
      obtain ⟨gap, rest, rfl, hgap, ⟨hspells, hrange⟩, hends, hspan, hrest⟩ :=
        h.exists_lexeme (List.cons_ne_nil _ _)
      obtain ⟨gap', word, back, rfl, hgap', hne, -, hstop, hwrites⟩ := ih hrest
      have hmore : Writes Loose (.ofList (gap' ++ word)) ((u :: w).map Token.bare) := by
        rw [String.ofList_append]
        exact (Writes.trivia (s := .ofList gap') (by rwa [String.toList_ofList])).andThen hwrites
      have hne' : gap' ++ word ≠ [] := List.append_ne_nil_of_right_ne_nil _ hne
      -- The lexeme ends at what comes next, which is the same in front of every text.
      have hfollow : ∀ ds, Loose ds →
          t.kind.EndsAt ((String.ofList (gap' ++ word)).toList ++ ds) := fun ds _ => by
        rw [String.toList_ofList, Token.Kind.endsAt_append hne']
        rwa [← List.append_assoc, Token.Kind.endsAt_append hne'] at hends
      refine ⟨gap, t.lexeme.toList ++ (gap' ++ word), back, by simp, hgap,
        List.append_ne_nil_of_right_ne_nil _ hne', by rw [hspan], ?_, ?_⟩
      · rw [List.getLastD_cons, hstop, hspan]
        simp only [Span.stop, byteLength_append]
        omega
      · rw [String.ofList_append, String.ofList_toList]
        exact (Writes.lexeme hspells hrange).append hmore hfollow

section Text

variable {s : String} {ts w : List Token} {n : Nat}

/-- **The slice from one token to another lays out the tokens in between**, in front of whatever
ends the last lexeme. -/
theorem writes_slice (hs : scan s = .ok (ts ++ [.eof n])) {t : Token} (hw : t :: w <:+: ts)
    {span : Span} (hspan : span.Joins t.span (w.getLastD t).span) :
    Writes Loose (span.slice s) ((t :: w).map Token.bare) := by
  obtain ⟨front, back, rfl⟩ := hw
  have hlaid := scan_eq_ok_iff.1 hs
  rw [List.append_assoc, List.append_assoc] at hlaid
  obtain ⟨before, rest, htext, hlaid⟩ := hlaid.exists_behind (List.cons_ne_nil _ _)
  obtain ⟨gap, word, behind, rfl, -, -, hoffset, hstop, hwrites⟩ := LaysOut.exists_excerpt
    (List.append_ne_nil_of_right_ne_nil back (List.cons_ne_nil (Token.eof n) [])) hlaid
  have hplace : span = ⟨byteLength (before ++ gap), byteLength word⟩ := by
    obtain ⟨hstart, hend⟩ := hspan
    rw [hoffset] at hstart
    rw [hstop] at hend
    obtain ⟨offset, len⟩ := span
    simp only [Span.stop] at hstart hend
    rw [Span.mk.injEq, byteLength_append]
    omega
  rwa [hplace, Span.slice_of_append (by rw [htext, List.append_assoc])]

/-- The span ends with a token of `w` behind which there are closing parentheses alone. -/
def Span.StopsIn (w : List Token) (span : Span) : Prop :=
  ∃ v u closers, w = v ++ u :: closers ∧ (∀ t ∈ closers, t.kind = .rightParen) ∧
    span.stop = u.span.stop

/-- There may be more tokens in front, and closing parentheses behind. -/
theorem Span.StopsIn.behind {span : Span} (h : span.StopsIn w) (front : List Token)
    {back : List Token} (hback : ∀ t ∈ back, t.kind = .rightParen) :
    span.StopsIn (front ++ (w ++ back)) := by
  obtain ⟨v, u, closers, rfl, hclosers, hstop⟩ := h
  exact ⟨front ++ v, u, closers ++ back, by simp, List.forall_mem_append.2 ⟨hclosers, hback⟩, hstop⟩

/-- Parentheses around an expression are left out. -/
theorem Span.StopsIn.of_bared {e : Expression} {d : Nat} (h : IsExpression w e d)
    (hbared : ∀ v d', v <:+: w → IsBared v e d' → e.span.StopsIn v) : e.span.StopsIn w := by
  obtain ⟨openers, v, closers, d', rfl, -, hclosers, -, hv⟩ := isExpression_bares h
  exact (hbared v d' ⟨openers, closers, by simp⟩ hv).behind openers hclosers

/-- The span of an expression leaves nothing out behind it but closing parentheses. -/
theorem Expression.stopsIn (hs : scan s = .ok (ts ++ [.eof n])) (e : Expression) :
    ∀ {w : List Token} {d : Nat}, IsExpression w e d → w <:+: ts → e.span.StopsIn w := by
  induction e with
  | binary op l r span _ ih =>
      intro w d h hw
      refine .of_bared h fun v d' hv hbared => ?_
      have hv := hv.trans hw
      obtain ⟨⟨_, _, _, _, _, -, -, -, -, -, -, hstop⟩, -⟩ := hbared.reaches_contains hs hv
      cases hbared with
      | @operation x y t _ _ _ _ _ hl ht hr =>
          obtain ⟨z, u, closers, rfl, hclosers, hlast⟩ :=
            ih hr (List.IsInfix.trans ⟨x ++ [t], [], by simp⟩ hv)
          exact ⟨x ++ t :: z, u, closers, by simp, hclosers, hstop.trans hlast⟩
  | unary op e span ih =>
      intro w d h hw
      refine .of_bared h fun v d' hv hbared => ?_
      have hv := hv.trans hw
      obtain ⟨⟨_, _, _, -, -, -, -, hstop⟩, -⟩ := hbared.reaches_contains hs hv
      cases hbared with
      | @signed t x _ _ d ht hx =>
          obtain ⟨z, u, closers, rfl, hclosers, hlast⟩ :=
            ih hx ((List.suffix_cons _ _).isInfix.trans hv)
          exact ⟨t :: z, u, closers, rfl, hclosers, hstop.trans hlast⟩
  | num m span =>
      intro w d h _
      refine .of_bared h fun v d' _ hbared => ?_
      cases hbared with
      | @literal t ht => exact ⟨[], t, [], rfl, nofun, rfl⟩
  | var name span =>
      intro w d h _
      refine .of_bared h fun v d' _ hbared => ?_
      cases hbared with
      | @named t ht => exact ⟨[], t, [], rfl, nofun, rfl⟩

end Text

/-! ### Assignments on their own -/

namespace Program

variable {s text : String} {w : List Token} {target : String} {targetSpan span : Span}
  {value : Expression} {d : Nat}

/-- A text that lays out the tokens of an assignment is read, in the frame of a program, as that
assignment. -/
theorem read_framed (htext : Writes Loose text (w.map Token.bare))
    (h : IsAssignment w (.assign target targetSpan value span) d) (hdepth : d < nestingLimit)
    (hheight : value.height ≤ nestingLimit) :
    ∃ q, read (framed text) = .ok q ∧
      q.block.body.statements.map Statement.bare =
        [(Statement.assign target targetSpan value span).bare] := by
  obtain ⟨us, n, hscan, hus⟩ := (writes_framed htext).scan
  have hbare : us.map Token.bare = (framedWords w).map Token.bare := by
    rw [hus]
    simp only [framedWords, List.map_append, List.map_cons]
    rfl
  have hprogram := isProgram_framed (.one (.assignment h))
  have hvalues : ∀ e ∈ values ⟨"T", ⟨[], ⟨[.assign target targetSpan value span], .none⟩⟩, .none⟩,
      e.height ≤ nestingLimit := by
    simpa [values, Block.values, Declaration.listValues, Compound.values, Statement.listValues,
      Statement.values] using hheight
  obtain ⟨q, hq, hqbare⟩ := (read_of_bare hscan hbare hprogram).1 ⟨hdepth, hvalues⟩
  refine ⟨q, hq, ?_⟩
  have hstatements := congrArg (fun p : Program => p.block.body.statements) hqbare
  simp only [bare, Block.bare, Compound.bare, Statement.listBare_eq_map] at hstatements
  exact hstatements

/-- A text that lays out tokens with an opening parenthesis too many is no statement. -/
theorem read_framed_unbalanced (htext : Writes Loose text (w.map Token.bare)) (h : ¬ Balanced w) :
    ∃ fault, read (framed text) = .error fault := by
  cases hread : read (framed text) with
  | error fault => exact ⟨fault, rfl⟩
  | ok q =>
      obtain ⟨us, n, hscan, hus⟩ := (writes_framed htext).scan
      obtain ⟨v, m, depth, hscan', hprogram, -⟩ := exists_of_read hread
      rw [hscan] at hscan'
      obtain ⟨rfl, -⟩ := List.append_inj' (Except.ok.inj hscan') rfl
      have hkinds : us.map Token.kind = (framedWords w).map Token.kind := by
        have hk := congrArg (List.map Token.kind) hus
        rw [List.map_map] at hk
        refine hk.trans ?_
        simp only [framedWords, List.map_append, List.map_cons, List.map_map]
        rfl
      have hbalanced := hprogram.balanced
      rw [Balanced, hkinds] at hbalanced
      refine absurd ?_ h
      simpa [Balanced, framedWords, nameWord, Token.Kind.word] using hbalanced

/-- **The span of an assignment covers the statement, unless it ends in a parenthesis.**  Read again
in the frame of a program, the text at the span of an assignment is this assignment as the only
statement of the program, if the next token behind the span is no closing parenthesis.  Otherwise
the text has lost the parentheses that the statement ends with, and is not read. -/
theorem read_excerpt {p : Program} (h : read s = .ok p)
    (hassignment : (Node.program p).Has (.assignment target targetSpan value span)) :
    ((tokenFrom? s span.stop).map Token.kind ≠ some .rightParen →
      ∃ q, read (framed (span.slice s)) = .ok q ∧
        q.block.body.statements.map Statement.bare =
          [(Statement.assign target targetSpan value span).bare]) ∧
    ((tokenFrom? s span.stop).map Token.kind = some .rightParen →
      ∃ fault, read (framed (span.slice s)) = .error fault) := by
  obtain ⟨ts, n, depth, hs, hprogram, hdepth, hheights⟩ := exists_of_read h
  have hheight := hheights value (hassignment.values_subset (.head _))
  obtain ⟨front, v, k, back, d, rfl, hd, hderived, hk⟩ := hassignment.exists_assignment hprogram
  have hinside : v <:+: front ++ (v ++ k :: back) := ⟨front, k :: back, by simp⟩
  obtain ⟨⟨_, _, _, _, -, -, -, -, -, -, -, hjoins⟩, -⟩ := hderived.reaches_contains hs hinside
  have hbalanced := hderived.balanced
  have hshallow : d < nestingLimit := Nat.lt_of_lt_of_le hd hdepth
  obtain @⟨t, a, w, value, d, ht, ha, hvalue⟩ := id hderived
  obtain ⟨x, u, closers, rfl, hclosers, hstop⟩ :=
    value.stopsIn hs hvalue (List.IsInfix.trans ⟨[t, a], [], by simp⟩ hinside)
  have hlast := hjoins.2.trans hstop
  have hu : u.span.offset < u.span.stop :=
    (ordered_within hs hinside).2 u (by simp)
  -- The slice ends with the token `u`, so it lays out the tokens up to there.
  have hwrites : Writes Loose ((t.span.through value.span).slice s)
      ((t :: (a :: x ++ [u])).map Token.bare) := by
    refine writes_slice hs (List.IsInfix.trans ⟨[], closers, by simp⟩ hinside) ⟨hjoins.1, ?_⟩
    rw [List.getLastD_eq_getLast?, List.getLast?_concat]
    exact hlast
  cases closers with
  | nil =>
      have hscan : scan s = .ok ((front ++ t :: a :: x) ++ u :: k :: (back ++ [.eof n])) := by
        rw [hs]
        simp
      rw [hlast, tokenFrom?_of_scan hscan hu]
      refine ⟨fun _ => read_framed hwrites hderived hshallow hheight, fun hclosing => ?_⟩
      rcases hk with hk | hk <;> rw [Option.map_some, hk] at hclosing <;> cases hclosing
  | cons c closers =>
      have hscan : scan s =
          .ok ((front ++ t :: a :: x) ++ u :: c :: (closers ++ k :: back ++ [.eof n])) := by
        rw [hs]
        simp
      have hwhole : Balanced (t :: (a :: x ++ [u]) ++ c :: closers) := by simpa using hbalanced
      rw [hlast, tokenFrom?_of_scan hscan hu]
      refine ⟨fun hopen => absurd (congrArg some (hclosers c (.head _))) hopen, fun _ => ?_⟩
      exact read_framed_unbalanced hwrites (hwhole.not_of_append hclosers (List.cons_ne_nil _ _))

/-! ### A statement that ends in a parenthesis -/

/-- A text whose assignment ends in a closing parenthesis. -/
def bracketedSource : String := "PROGRAM T; BEGIN x := (1) END."

/-- The program that it is read as; the span of its assignment is that of `x := (1`. -/
def bracketedProgram : Program :=
  ⟨"T", ⟨[], ⟨[.assign "x" ⟨17, 1⟩ (.num (.int 1) ⟨23, 1⟩) ⟨17, 7⟩], ⟨11, 18⟩⟩⟩, ⟨0, 30⟩⟩

theorem scan_bracketedSource : scan bracketedSource = .ok
    [⟨.programWord, "PROGRAM", ⟨0, 7⟩⟩, ⟨.identifier, "T", ⟨8, 1⟩⟩, ⟨.semicolon, ";", ⟨9, 1⟩⟩,
      ⟨.beginWord, "BEGIN", ⟨11, 5⟩⟩, ⟨.identifier, "x", ⟨17, 1⟩⟩, ⟨.assign, ":=", ⟨19, 2⟩⟩,
      ⟨.leftParen, "(", ⟨22, 1⟩⟩, ⟨.integerConst, "1", ⟨23, 1⟩⟩, ⟨.rightParen, ")", ⟨24, 1⟩⟩,
      ⟨.endWord, "END", ⟨26, 3⟩⟩, ⟨.dot, ".", ⟨29, 1⟩⟩, .eof 30] := by decide +kernel

theorem read_bracketedSource : read bracketedSource = .ok bracketedProgram := by
  rw [read, results_of_scan scan_bracketedSource]
  rfl

theorem has_bracketedAssignment : (Node.program bracketedProgram).Has
    (.assignment "x" ⟨17, 1⟩ (.num (.int 1) ⟨23, 1⟩) ⟨17, 7⟩) := by
  have hbody : (Node.program bracketedProgram).Has (.compound bracketedProgram.block.body) :=
    .child .root (.head _)
  exact hbody.child (.head _)

/-- One statement is read again from its span, the other is not. -/
theorem read_excerpt_example :
    (∃ q, read (framed ((⟨17, 16⟩ : Span).slice productSource)) = .ok q ∧
      q.block.body.statements.map Statement.bare =
        [(Statement.assign "x" ⟨17, 1⟩ product ⟨17, 16⟩).bare]) ∧
    ∃ fault, read (framed ((⟨17, 7⟩ : Span).slice bracketedSource)) = .error fault := by
  have hend : tokenFrom? productSource 33 = some ⟨.endWord, "END", ⟨34, 3⟩⟩ := by
    rw [tokenFrom?, scan_productSource]
    rfl
  have hclosing : tokenFrom? bracketedSource 24 = some ⟨.rightParen, ")", ⟨24, 1⟩⟩ := by
    rw [tokenFrom?, scan_bracketedSource]
    rfl
  refine ⟨(read_excerpt read_productSource has_productAssignment).1 ?_,
    (read_excerpt read_bracketedSource has_bracketedAssignment).2 ?_⟩
  · show (tokenFrom? productSource 33).map Token.kind ≠ some .rightParen
    rw [hend]
    intro h
    cases h
  · show (tokenFrom? bracketedSource 24).map Token.kind = some .rightParen
    rw [hclosing]
    rfl

/-- A statement that is not read again from its span. -/
theorem excerpt_fails :
    read bracketedSource = .ok bracketedProgram ∧
      (Node.program bracketedProgram).Has
        (.assignment "x" ⟨17, 1⟩ (.num (.int 1) ⟨23, 1⟩) ⟨17, 7⟩) ∧
      (⟨17, 7⟩ : Span).slice bracketedSource = "x := (1" ∧
      ¬ ∃ q, read (framed ((⟨17, 7⟩ : Span).slice bracketedSource)) = .ok q ∧
        q.block.body.statements.map Statement.bare =
          [(Statement.assign "x" ⟨17, 1⟩ (.num (.int 1) ⟨23, 1⟩) ⟨17, 7⟩).bare] := by
  have hslice : (⟨17, 7⟩ : Span).slice bracketedSource = "x := (1" :=
    @Span.slice_of_append bracketedSource "PROGRAM T; BEGIN ".toList "x := (1".toList
      ") END.".toList rfl
  have hwrites : Writes Loose ((⟨17, 7⟩ : Span).slice bracketedSource)
      ([⟨.identifier, "x", ⟨17, 1⟩⟩, ⟨.assign, ":=", ⟨19, 2⟩⟩, ⟨.leftParen, "(", ⟨22, 1⟩⟩,
        ⟨.integerConst, "1", ⟨23, 1⟩⟩].map Token.bare) :=
    writes_slice scan_bracketedSource ⟨[_, _, _, _], [_, _, _], rfl⟩ ⟨rfl, rfl⟩
  obtain ⟨fault, hfault⟩ := read_framed_unbalanced hwrites (by rw [Balanced]; decide)
  refine ⟨read_bracketedSource, has_bracketedAssignment, hslice, ?_⟩
  rintro ⟨q, hq, -⟩
  rw [hfault] at hq
  cases hq

end Program

end MiniPascal
