import MiniPascal.Proofs.Printing.Blind
import MiniPascal.Proofs.Printing.Text
import MiniPascal.Proofs.Reading.Blind
import MiniPascal.Proofs.Reading.Exact

/-!
# Proofs — Printing — Roundtrip

Reading the text of a tree again.  The nesting limit of the reader decides: a tree with a text whose
printed nesting is within the limit is read back as it was, up to places, and any other ends in the
fault that the nesting is too deep (`Program.reread`); no tree without a text is read back
(`Program.read_pascal_iff`).  The trees that are themselves read from a text are no exception
(`Program.reread_exact`): the parentheses that are printed count too, so there are texts that are
read, and whose printed form is not (`Program.reread_fails`).
-/

namespace MiniPascal

/-! ### Nesting bounds heights -/

/-- Every node of an expression but the leaf on its longest path is printed with a parenthesis. -/
theorem Expression.height_le (e : Expression) : e.height ≤ e.nesting + 1 := by
  induction e with
  | binary op l r _ ihl ihr => simp only [height, nesting]; omega
  | unary op e _ ih => simp only [height, nesting]; omega
  | num n _ => exact Nat.le_refl 1
  | var name _ => exact Nat.le_refl 1

mutual

/-- No value nests deeper than the statement it stands in. -/
theorem Statement.nesting_of_mem_values : ∀ s : Statement, ∀ e ∈ s.values, e.nesting ≤ s.nesting
  | .compound ss _, e, h => by
      rw [values] at h
      rw [nesting]
      exact Nat.le_succ_of_le (nesting_of_mem_listValues ss e h)
  | .assign _ _ value _, e, h => by
      rw [values] at h
      obtain rfl := List.mem_singleton.1 h
      simp only [nesting, Nat.le_refl]
  | .noop, e, h => by
      rw [values] at h
      cases h

theorem Statement.nesting_of_mem_listValues : ∀ ss, ∀ e ∈ listValues ss, e.nesting ≤ listNesting ss
  | [], e, h => by
      rw [listValues] at h
      cases h
  | s :: ss, e, h => by
      rw [listValues, List.mem_append] at h
      rw [listNesting]
      rcases h with h | h
      · exact Nat.le_trans (s.nesting_of_mem_values e h) (Nat.le_max_left _ _)
      · exact Nat.le_trans (nesting_of_mem_listValues ss e h) (Nat.le_max_right _ _)

end

/-- What a compound assigns is printed one level further in than the compound. -/
theorem Compound.nesting_of_mem_values {c : Compound} {e : Expression} (h : e ∈ c.values) :
    e.nesting < c.nesting := by
  rw [nesting, toStatement, Statement.nesting]
  exact Nat.lt_succ_of_le (Statement.nesting_of_mem_listValues c.statements e h)

mutual

/-- A value nests less deep than the procedure it stands in. -/
theorem Declaration.nesting_of_mem_values : ∀ d : Declaration, ∀ e ∈ d.values,
    e.nesting < d.nesting
  | .var _ _ _, e, h => by
      rw [values] at h
      cases h
  | .procedure _ decls body _, e, h => by
      rw [values, List.mem_append] at h
      rw [nesting]
      rcases h with h | h
      · have hdecls := nesting_of_mem_listValues decls e h
        omega
      · have hbody := Compound.nesting_of_mem_values h
        omega

theorem Declaration.nesting_of_mem_listValues : ∀ ds, ∀ e ∈ listValues ds,
    e.nesting < listNesting ds
  | [], e, h => by
      rw [listValues] at h
      cases h
  | d :: ds, e, h => by
      rw [listValues, List.mem_append] at h
      rw [listNesting]
      rcases h with h | h
      · exact Nat.lt_of_lt_of_le (d.nesting_of_mem_values e h) (Nat.le_max_left _ _)
      · exact Nat.lt_of_lt_of_le (nesting_of_mem_listValues ds e h) (Nat.le_max_right _ _)

end

/-- The fault that the nesting is too deep names no place. -/
theorem ReadingFault.eq_tooDeep_of_bare {f : ReadingFault} (h : f.bare = .grammar .tooDeep) :
    f = .grammar .tooDeep := by
  cases f with
  | lexical cause => cases h
  | grammar cause =>
      cases cause with
      | tooDeep => rfl
      | _ => cases h

namespace Program

variable {p : Program}

/-- What a program assigns is no higher than its printed text nests. -/
theorem height_of_mem_values {e : Expression} (h : e ∈ p.values) : e.height ≤ p.nesting := by
  have hnesting : e.nesting < p.nesting := by
    rw [values, Block.values, List.mem_append] at h
    rw [nesting, Block.nesting]
    rcases h with h | h
    · have hdecls := Declaration.nesting_of_mem_listValues p.block.decls e h
      omega
    · have hbody := Compound.nesting_of_mem_values h
      omega
  exact Nat.le_trans e.height_le hnesting

/-- Where the printed text keeps the one limit, the tree keeps the other. -/
theorem fits_nesting_iff :
    Fits nestingLimit p.nesting p.bare.values ↔ p.nesting ≤ nestingLimit := by
  refine ⟨fun h => h.1, fun h => ⟨h, fun e he => ?_⟩⟩
  rw [values_bare] at he
  obtain ⟨f, hf, rfl⟩ := List.mem_map.1 he
  rw [Expression.height_bare]
  exact Nat.le_trans (height_of_mem_values hf) h

/-! ### Reading what is printed -/

/-- A text is read as what tokens derive, up to places, if its own tokens are these up to places and
the derivation keeps the limits. -/
theorem read_of_bare {s : String} {us w : List Token} {n depth : Nat}
    (hs : scan s = .ok (us ++ [.eof n])) (hbare : us.map Token.bare = w.map Token.bare)
    (h : IsProgram w p depth) :
    (Fits nestingLimit depth p.values → ∃ q, read s = .ok q ∧ q.bare = p.bare) ∧
      (¬ Fits nestingLimit depth p.values → ∃ span, read s = .error ⟨.grammar .tooDeep, span⟩) := by
  have hw : ∀ t ∈ w, t.WellSpelled := by
    intro t ht
    have hmem : t.bare ∈ us.map Token.bare := hbare ▸ List.mem_map_of_mem ht
    obtain ⟨u, hu, hut⟩ := List.mem_map.1 hmem
    rw [Token.WellSpelled, ← Token.kind_eq_of_bare hut, ← Token.lexeme_eq_of_bare hut]
    exact wellSpelled_before_eof hs u hu
  -- The two runs of tokens differ in places alone, and reading is blind to those.
  have hread : ((read s).map bare).mapError (·.cause.bare) =
      ((ofResults ((w ++ [Token.eof n]).map .ok)).map bare).mapError (·.cause.bare) := by
    rw [read, results_of_scan hs]
    refine ofResults_blind ?_
    have hok := congrArg (List.map fun t : Token => (.ok t : Pulled)) hbare
    simp only [List.map_append, List.map_map] at hok ⊢
    exact congrArg (· ++ [_]) hok
  obtain ⟨hfits, hdeep⟩ := ofResults_of_isProgram hw n h
  constructor
  · intro hf
    rw [hfits hf] at hread
    cases hq : read s with
    | error e =>
        rw [hq] at hread
        cases hread
    | ok q =>
        rw [hq] at hread
        exact ⟨q, rfl, Except.ok.inj hread⟩
  · intro hf
    obtain ⟨span, herror⟩ := hdeep hf
    rw [herror] at hread
    cases hq : read s with
    | ok q =>
        rw [hq] at hread
        cases hread
    | error e =>
        rw [hq] at hread
        obtain ⟨cause, span'⟩ := e
        obtain rfl := ReadingFault.eq_tooDeep_of_bare (Except.error.inj hread)
        exact ⟨span', rfl⟩

/-- A text is read as what its words derive, up to places, if that keeps the limits. -/
theorem read_of_writes {s : String} {w : List Token} {depth : Nat} (hs : Writes Anything s w)
    (h : IsProgram w p depth) :
    (Fits nestingLimit depth p.values → ∃ q, read s = .ok q ∧ q.bare = p.bare) ∧
      (¬ Fits nestingLimit depth p.values → ∃ span, read s = .error ⟨.grammar .tooDeep, span⟩) := by
  obtain ⟨us, n, hscan, rfl⟩ := hs.scan
  refine read_of_bare hscan ?_ h
  rw [List.map_map]
  rfl

/-- **Printing and reading again.**  A tree with a text is read back from it, up to places, if its
printed nesting is within the limit; otherwise the nesting is too deep. -/
theorem reread (h : p.Writable) :
    (p.nesting ≤ nestingLimit → ∃ q, read p.pascal = .ok q ∧ q.bare = p.bare) ∧
      (nestingLimit < p.nesting → ∃ span, read p.pascal = .error ⟨.grammar .tooDeep, span⟩) := by
  have hread := read_of_writes (writes h) (isProgram_words h)
  rwa [fits_nesting_iff, p.bare_bare, Nat.not_le] at hread

/-- **Printing and reading are inverse on trees, wherever these come from.**  A tree is read back
from its printed form, up to places, exactly when it has a text and its printed nesting is within
the limit. -/
theorem read_pascal_iff (p : Program) :
    (∃ q, read p.pascal = .ok q ∧ q.bare = p.bare) ↔ p.Writable ∧ p.nesting ≤ nestingLimit := by
  constructor
  · rintro ⟨q, hq, hbare⟩
    obtain ⟨w, n, depth, hscan, hderives, -⟩ := exists_of_read hq
    have hwritable : p.Writable := by
      rw [← writable_bare, ← hbare, writable_bare]
      exact hderives.writable (wellSpelled_before_eof hscan)
    refine ⟨hwritable, Nat.not_lt.1 fun hn => ?_⟩
    obtain ⟨span, hread⟩ := (reread hwritable).2 hn
    rw [hq] at hread
    cases hread
  · rintro ⟨hwritable, hn⟩
    exact (reread hwritable).1 hn

/-- **What was read can be read again from its printed form exactly up to the nesting limit.**  Let
`p` be what a text is read as.  Its printed form is read as `p` up to places, hence as a program
with the same printed forms, exactly when it nests no deeper than the limit; where it nests deeper,
reading it ends in the fault that says so. -/
theorem reread_exact {s : String} (h : read s = .ok p) :
    ((∃ q, read p.pascal = .ok q ∧ q.bare = p.bare ∧ q.sexp = p.sexp ∧ q.pascal = p.pascal) ↔
      p.nesting ≤ nestingLimit) ∧
    (nestingLimit < p.nesting → ∃ e, read p.pascal = .error e ∧
      e.readingReport.category = .grammar ∧
      e.readingReport.text = "nesting too deep: more than 128 levels") := by
  obtain ⟨w, n, depth, hscan, hderives, -⟩ := exists_of_read h
  obtain ⟨hfits, hdeep⟩ := reread (hderives.writable (wellSpelled_before_eof hscan))
  refine ⟨⟨?_, ?_⟩, ?_⟩
  · rintro ⟨q, hq, -⟩
    refine Nat.not_lt.1 fun hn => ?_
    obtain ⟨span, hread⟩ := hdeep hn
    rw [hq] at hread
    cases hread
  · intro hn
    obtain ⟨q, hq, hbare⟩ := hfits hn
    refine ⟨q, hq, hbare, ?_, ?_⟩
    · rw [← q.sexp_bare, hbare, p.sexp_bare]
    · rw [← q.pascal_bare, hbare, p.pascal_bare]
  · intro hn
    obtain ⟨span, hread⟩ := hdeep hn
    exact ⟨_, hread, rfl, tooDeep_text⟩

/-- A text with one sign, printed with parentheses and read again. -/
theorem reread_exact_example :
    ∃ p, read "PROGRAM T; BEGIN x := -1 END." = .ok p ∧ p.nesting = 3 ∧
      ((∃ q, read p.pascal = .ok q ∧ q.bare = p.bare ∧ q.sexp = p.sexp ∧ q.pascal = p.pascal) ↔
        p.nesting ≤ nestingLimit) ∧
      (nestingLimit < p.nesting → ∃ e, read p.pascal = .error e ∧
        e.readingReport.category = .grammar ∧
        e.readingReport.text = "nesting too deep: more than 128 levels") := by
  have hs : scan "PROGRAM T; BEGIN x := -1 END." = .ok
      [⟨.programWord, "PROGRAM", ⟨0, 7⟩⟩, ⟨.identifier, "T", ⟨8, 1⟩⟩, ⟨.semicolon, ";", ⟨9, 1⟩⟩,
        ⟨.beginWord, "BEGIN", ⟨11, 5⟩⟩, ⟨.identifier, "x", ⟨17, 1⟩⟩, ⟨.assign, ":=", ⟨19, 2⟩⟩,
        ⟨.minus, "-", ⟨22, 1⟩⟩, ⟨.integerConst, "1", ⟨23, 1⟩⟩, ⟨.endWord, "END", ⟨25, 3⟩⟩,
        ⟨.dot, ".", ⟨28, 1⟩⟩, .eof 29] := by decide +kernel
  have h : read "PROGRAM T; BEGIN x := -1 END." = .ok
      ⟨"T", ⟨[], ⟨[.assign "x" ⟨17, 1⟩ (.unary .minus (.num (.int 1) ⟨23, 1⟩) ⟨22, 2⟩) ⟨17, 7⟩],
        ⟨11, 17⟩⟩⟩, ⟨0, 29⟩⟩ := by
    rw [read, results_of_scan hs]
    rfl
  exact ⟨_, h, rfl, reread_exact h⟩

/-! ### A statement in a program of its own -/

/-- A text between the text of a program around its only statement. -/
def framed (text : String) : String := "PROGRAM T; BEGIN " ++ (text ++ " END.")

/-- Words between the words of a program around its only statement. -/
def framedWords (w : List Token) : List Token :=
  Token.Kind.programWord.word :: nameWord "T" :: Token.Kind.semicolon.word ::
    (Token.Kind.beginWord.word :: w ++ [Token.Kind.endWord.word]) ++ [Token.Kind.dot.word]

theorem nameable_T : Nameable "T" := ⟨⟨'T', [], rfl, by decide, List.forall_mem_nil _⟩, by decide⟩

/-- A statement in the frame of a program writes the tokens of the program. -/
theorem writes_framed {text : String} {w : List Token} (h : Writes Loose text w) :
    Writes Anything (framed text) (framedWords w) := by
  have hprogram : Writes Anything "PROGRAM " [Token.Kind.programWord.word] :=
    (Writes.word .programWord rfl).loose.thenBlank
  have hsemicolon : Writes Anything "; " [Token.Kind.semicolon.word] :=
    (Writes.word .semicolon rfl).loose.thenBlank
  have hbegin : Writes Anything "BEGIN " [Token.Kind.beginWord.word] :=
    (Writes.word .beginWord rfl).loose.thenBlank
  have hhead := ((hprogram.andThen nameable_T.writes).append hsemicolon
    fun rest _ => loose_of_closing (.inr rfl) _).andThen hbegin
  have hdot : Writes Anything "." [Token.Kind.dot.word] := .symbol .dot rfl fun _ => rfl
  have hend : Writes Anything "END." [Token.Kind.endWord.word, Token.Kind.dot.word] :=
    (Writes.word .endWord rfl).append hdot fun rest _ => by rintro _ ⟨⟩; decide
  have htail := h.thenBlank.andThen hend
  have hwords : framedWords w =
      [Token.Kind.programWord.word, nameWord "T", Token.Kind.semicolon.word,
        Token.Kind.beginWord.word] ++ (w ++ [Token.Kind.endWord.word, Token.Kind.dot.word]) := by
    simp only [framedWords, List.append_assoc, List.nil_append, List.cons_append]
  have htext : framed text = "PROGRAM T; BEGIN " ++ (text ++ " " ++ "END.") := by
    rw [String.append_assoc]
    rfl
  rw [hwords, htext]
  exact hhead.andThen htail

/-- Words of statements with semicolons between them derive the program that they are framed by. -/
theorem isProgram_framed {w : List Token} {ss : List Statement} {d : Nat}
    (h : Separated .semicolon IsStatement w ss d) :
    IsProgram (framedWords w) ⟨"T", ⟨[], ⟨ss, .none⟩⟩, .none⟩ (d + 1) := by
  have hprogram := IsProgram.mk (t := Token.Kind.programWord.word) (n := nameWord "T")
    (s := Token.Kind.semicolon.word) (e := Token.Kind.dot.word) rfl rfl rfl
    (.mk .none .none (isCompound_between h)) rfl
  rwa [stretch_cons_append, Nat.zero_max] at hprogram

/-! ### A text that is read, and whose printed form is not -/

/-- The number one with signs before it. -/
def signedOne : Nat → Expression
  | 0         => .num (.int 1) .none
  | signs + 1 => .unary .minus (signedOne signs) .none

/-- A program that assigns the number one with signs before it. -/
def signedProgram (signs : Nat) : Program :=
  ⟨"T", ⟨[], ⟨[.assign "x" .none (signedOne signs) .none], .none⟩⟩, .none⟩

/-- A text with signs before its only operand, and no parentheses. -/
def signedSource (signs : Nat) : String :=
  "PROGRAM T; BEGIN x := " ++ (String.ofList (List.replicate signs '-') ++ "1 END.")

/-- The words of such a text. -/
def signedWords (signs : Nat) : List Token :=
  Token.Kind.programWord.word :: nameWord "T" :: Token.Kind.semicolon.word ::
    (Token.Kind.beginWord.word :: (nameWord "x" :: Token.Kind.assign.word ::
      (List.replicate signs Token.Kind.minus.word ++ [Number.word (.int 1)])) ++
        [Token.Kind.endWord.word]) ++ [Token.Kind.dot.word]

theorem writable_one : (Number.int 1).Writable := by
  rw [Number.Writable]
  decide

/-- Bare signs have no span. -/
theorem span_signedOne (signs : Nat) : (signedOne signs).span = .none := by
  cases signs <;> rfl

/-- Every sign is one level. -/
theorem isFactor_signedOne (signs : Nat) :
    IsFactor (List.replicate signs Token.Kind.minus.word ++ [Number.word (.int 1)])
      (signedOne signs) signs := by
  induction signs with
  | zero =>
      have hone : (Number.int 1).word.number = .int 1 := Number.number_word writable_one
      have hliteral := IsFactor.literal (t := Number.word (.int 1)) (.inl rfl)
      rwa [hone] at hliteral
  | succ signs ih =>
      have hsigned := IsFactor.signed (t := Token.Kind.minus.word) rfl ih
      rwa [span_signedOne] at hsigned

/-- Signs in front of a number nest one level each, below that of the body. -/
theorem isProgram_signedProgram (signs : Nat) :
    IsProgram (signedWords signs) (signedProgram signs) (signs + 1) := by
  have hassign := IsAssignment.mk (t := nameWord "x") (a := Token.Kind.assign.word) rfl rfl
    (.one (.one (isFactor_signedOne signs)))
  rw [span_signedOne] at hassign
  exact isProgram_framed (.one (.assignment hassign))

theorem writes_signs (signs : Nat) :
    Writes Anything (String.ofList (List.replicate signs '-'))
      (List.replicate signs Token.Kind.minus.word) := by
  induction signs with
  | zero => exact .nil
  | succ signs ih =>
      have hminus : Writes Anything "-" [Token.Kind.minus.word] := .symbol .minus rfl fun _ => rfl
      have hmore := hminus.andThen ih
      have htext : String.ofList (List.replicate (signs + 1) '-') =
          "-" ++ String.ofList (List.replicate signs '-') := by
        rw [List.replicate_succ, String.ofList_cons]
        rfl
      rwa [htext]

theorem nameable_x : Nameable "x" := ⟨⟨'x', [], rfl, by decide, List.forall_mem_nil _⟩, by decide⟩

theorem writes_signedSource (signs : Nat) :
    Writes Anything (signedSource signs) (signedWords signs) := by
  have hhead : Writes Anything "x := " [nameWord "x", Token.Kind.assign.word] :=
    nameable_x.writes.thenSpaced .assign rfl
  have hwhole := writes_framed ((hhead.andThen (writes_signs signs)).andThen writable_one.writes)
  have htext : signedSource signs =
      framed ("x := " ++ String.ofList (List.replicate signs '-') ++ "1") := by
    have hassoc : ∀ a b c d e : String, a ++ b ++ (c ++ (d ++ e)) = a ++ (b ++ c ++ d ++ e) :=
      fun a b c d e => by simp only [String.append_assoc]
    exact hassoc "PROGRAM T; BEGIN " "x := " _ "1" " END."
  rw [htext]
  exact hwhole

theorem bare_signedProgram (signs : Nat) : (signedProgram signs).bare = signedProgram signs := by
  have hone : ∀ n, (signedOne n).bare = signedOne n := by
    intro n
    induction n with
    | zero => rfl
    | succ n ih => rw [signedOne, Expression.bare, ih]
  simp only [signedProgram, bare, Block.bare, Declaration.listBare, Compound.bare,
    Statement.listBare, Statement.bare, hone]

/-- However many signs there are, the program is writable. -/
theorem writable_signedProgram (signs : Nat) : (signedProgram signs).Writable := by
  have hone : ∀ n, (signedOne n).Writable := by
    intro n
    induction n with
    | zero => exact writable_one
    | succ n ih => exact ih
  refine ⟨nameable_T, ⟨[], [], rfl, List.forall_mem_nil _, List.forall_mem_nil _⟩, trivial, ?_⟩
  simp [signedProgram, Compound.Writable, Compound.toStatement, Statement.Writable,
    Statement.ListWritable, nameable_x, hone]

/-- Printed, every sign nests two levels deep. -/
theorem nesting_signedProgram (signs : Nat) : (signedProgram signs).nesting = 2 * signs + 1 := by
  have hone : ∀ n, (signedOne n).nesting = 2 * n := by
    intro n
    induction n with
    | zero => rfl
    | succ n ih => rw [signedOne, Expression.nesting, ih, Nat.mul_succ]
  simp [signedProgram, nesting, Block.nesting, Declaration.listNesting, Compound.nesting,
    Compound.toStatement, Statement.nesting, Statement.listNesting, hone]

/-- As it is written, every sign nests one level deep. -/
theorem fits_signedProgram (signs : Nat) :
    Fits nestingLimit (signs + 1) (signedProgram signs).values ↔ signs < nestingLimit := by
  have hone : ∀ n, (signedOne n).height = n + 1 := by
    intro n
    induction n with
    | zero => rfl
    | succ n ih => rw [signedOne, Expression.height, ih]
  have hvalues : (signedProgram signs).values = [signedOne signs] := by
    simp [signedProgram, values, Block.values, Declaration.listValues, Compound.values,
      Statement.listValues, Statement.values]
  rw [hvalues, Fits.singleton_iff, hone]
  omega

/-- With fewer signs than the limit has levels the text is read; its printed form only with fewer
than half as many. -/
theorem reread_signed_iff {signs : Nat} (h : signs < nestingLimit) :
    ∃ p, read (signedSource signs) = .ok p ∧
      ((∃ q, read p.pascal = .ok q ∧ q.bare = p.bare) ↔ 2 * signs < nestingLimit) := by
  obtain ⟨p, hp, hbare⟩ :=
    (read_of_writes (writes_signedSource signs) (isProgram_signedProgram signs)).1
      ((fits_signedProgram signs).2 h)
  rw [bare_signedProgram] at hbare
  -- What is read has places, but it is printed like the tree without them.
  have hpascal : p.pascal = (signedProgram signs).pascal := by rw [← p.pascal_bare, hbare]
  obtain ⟨hfits, hdeep⟩ := reread (writable_signedProgram signs)
  rw [nesting_signedProgram] at hfits hdeep
  refine ⟨p, hp, ?_⟩
  rw [hpascal, hbare]
  constructor
  · rintro ⟨q, hq, -⟩
    refine Nat.not_le.1 fun hn => ?_
    obtain ⟨span, hread⟩ := hdeep (Nat.lt_succ_of_le hn)
    rw [hq] at hread
    cases hread
  · intro hn
    obtain ⟨q, hq, hq'⟩ := hfits hn
    exact ⟨q, hq, by rw [hq', bare_signedProgram]⟩

/-- A text that is read, and whose printed form is not. -/
theorem reread_fails : ∃ p, read (signedSource 64) = .ok p ∧
    ¬ ∃ q, read p.pascal = .ok q ∧ q.bare = p.bare := by
  obtain ⟨p, hp, hiff⟩ := reread_signed_iff (show 64 < nestingLimit by decide)
  exact ⟨p, hp, fun h => absurd (hiff.1 h) (by decide)⟩

end Program

end MiniPascal
