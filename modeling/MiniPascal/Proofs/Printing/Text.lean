import MiniPascal.Proofs.Printing.Words

/-!
# Proofs — Printing — Text

The text of a tree lays out its words.  `Writes follow s ws` says that `s` is laid out as the words
`ws` wherever it stands, if only what stands behind it satisfies `follow`: the last lexeme of `s`
must end there.  Main statement (`Program.writes`): the text of a tree with a text lays out the
words of the tree, whatever stands behind it.
-/

namespace MiniPascal

/-! ### Laying out -/

/-- In front of a text that satisfies `follow`, the text `s` lays out the words `ws`. -/
def Writes (follow : List Char → Prop) (s : String) (ws : List Token) : Prop :=
  ∀ (offset : Nat) (rest : List Char) (ts : List Token), follow rest →
    LaysOut (offset + byteLength s.toList) rest ts →
      ∃ us, LaysOut offset (s.toList ++ rest) (us ++ ts) ∧ us.map Token.bare = ws

/-- Every text. -/
def Anything (_ : List Char) : Prop := True

/-- Every lexeme ends where `rest` begins. -/
def Loose (rest : List Char) : Prop := ∀ kind : Token.Kind, kind.EndsAt rest

/-- A closing parenthesis and a semicolon continue no lexeme. -/
theorem loose_of_closing {c : Char} (hc : c = ')' ∨ c = ';') (rest : List Char) :
    Loose (c :: rest) := by
  rintro kind _ ⟨⟩
  rcases hc with rfl | rfl <;> cases kind <;> decide

theorem isTrivia_of_blanks {cs : List Char} (h : ∀ c ∈ cs, isBlank c = true) : IsTrivia cs := by
  induction cs with
  | nil => exact .nil
  | cons c cs ih => exact .blank (h c (.head _)) (ih fun d hd => h d (.tail _ hd))

theorem isTrivia_indentation (depth : Nat) : IsTrivia (indentation depth).toList := by
  rw [indentation, String.toList_ofList]
  refine isTrivia_of_blanks fun c hc => ?_
  rw [(List.mem_replicate.1 hc).2]
  decide

namespace Writes

variable {follow follow' : List Char → Prop} {s s' : String} {ws vs : List Token}

theorem nil : Writes follow "" [] := fun _ _ _ _ h => ⟨[], h, rfl⟩

/-- What is written in front of more is written in front of less. -/
theorem imp (h : Writes follow s ws) (himp : ∀ rest, follow' rest → follow rest) :
    Writes follow' s ws := fun offset rest ts hrest => h offset rest ts (himp rest hrest)

/-- One text behind another. -/
theorem append (h : Writes follow s ws) (h' : Writes follow' s' vs)
    (hfollow : ∀ rest, follow' rest → follow (s'.toList ++ rest)) :
    Writes follow' (s ++ s') (ws ++ vs) := by
  intro offset rest ts hrest hts
  rw [String.toList_append, byteLength_append, ← Nat.add_assoc] at hts
  obtain ⟨us', hus', rfl⟩ := h' _ rest ts hrest hts
  obtain ⟨us, hus, rfl⟩ := h offset _ _ (hfollow rest hrest) hus'
  refine ⟨us ++ us', ?_, List.map_append⟩
  rwa [String.toList_append, List.append_assoc, List.append_assoc]

/-- Behind a text that anything may follow. -/
theorem andThen (h : Writes Anything s ws) (h' : Writes follow s' vs) :
    Writes follow (s ++ s') (ws ++ vs) := h.append h' fun _ _ => trivial

/-- A lexeme. -/
theorem lexeme {kind : Token.Kind} (hs : kind.Spells s.toList) (hr : kind.InRange s.toList) :
    Writes kind.EndsAt s [⟨kind, s, .none⟩] := by
  intro offset rest ts hrest hts
  refine ⟨[⟨kind, .ofList s.toList, ⟨offset, _⟩⟩], .lexeme hs hr hrest hts, ?_⟩
  rw [String.ofList_toList]
  rfl

/-- Blanks and comments. -/
theorem trivia (hs : IsTrivia s.toList) : Writes Anything s [] :=
  fun _ _ _ _ hts => ⟨[], .skip hs hts, rfl⟩

/-- A kind that is written in one way. -/
theorem word (kind : Token.Kind) (hs : kind.Spells kind.text.toList) :
    Writes kind.EndsAt kind.text [kind.word] := by
  refine lexeme hs fun hkind => ?_
  obtain ⟨c, cs, hc, hdigit⟩ := Token.Kind.digit_of_spells_number hkind hs
  rcases hkind with rfl | rfl <;> obtain ⟨rfl, -⟩ := List.cons.inj hc <;>
    exact absurd hdigit (by decide)

/-- What anything may follow, anything that satisfies `follow` may. -/
theorem follows (h : Writes Anything s ws) : Writes follow s ws := h.imp fun _ _ => trivial

/-- A text that lays out words whatever follows is scanned to them. -/
theorem scan (h : Writes Anything s ws) :
    ∃ us n, MiniPascal.scan s = .ok (us ++ [.eof n]) ∧ us.map Token.bare = ws := by
  obtain ⟨us, hus, hws⟩ := h 0 [] _ trivial .finish
  rw [List.append_nil] at hus
  exact ⟨us, _, scan_eq_ok_iff.2 hus, hws⟩

/-- What ends one lexeme ends it before anything loose. -/
theorem loose {kind : Token.Kind} (h : Writes kind.EndsAt s ws) : Writes Loose s ws :=
  h.imp fun _ hrest => hrest kind

/-- A symbol that nothing continues. -/
theorem symbol (kind : Token.Kind) (hs : kind.Spells kind.text.toList)
    (hkind : ∀ c, kind.goesOn c = false) : Writes Anything kind.text [kind.word] :=
  (word kind hs).imp fun _ _ c _ => hkind c

/-- Blanks end every lexeme. -/
theorem thenBlanks (h : Writes Loose s ws) (hs : IsTrivia s'.toList) (hne : s'.toList ≠ []) :
    Writes Anything (s ++ s') ws := by
  have happend := h.append (trivia hs) fun rest _ kind => endsAt_of_isTrivia hs hne kind rest
  rwa [List.append_nil] at happend

/-- Behind a blank anything may stand. -/
theorem thenBlank (h : Writes Loose s ws) : Writes Anything (s ++ " ") ws :=
  h.thenBlanks (by decide) (by decide)

/-- Behind a line end anything may stand. -/
theorem thenNewline (h : Writes Loose s ws) : Writes Anything (s ++ "\n") ws :=
  h.thenBlanks (by decide) (by decide)

/-- A symbol or a word with a blank on either side. -/
theorem thenSpaced (h : Writes Loose s ws) (kind : Token.Kind)
    (hs : kind.Spells kind.text.toList) :
    Writes Anything (s ++ (" " ++ (kind.text ++ " "))) (ws ++ [kind.word]) := by
  have hspaced := h.thenBlank.andThen (word kind hs).loose.thenBlank
  rwa [String.append_assoc] at hspaced

/-- A semicolon at the end of a line. -/
theorem thenSemicolon (h : Writes Loose s ws) :
    Writes Anything (s ++ ";\n") (ws ++ [Token.Kind.semicolon.word]) := by
  have hend : Writes Anything ";\n" [Token.Kind.semicolon.word] :=
    (word .semicolon rfl).loose.thenNewline
  exact h.append hend fun rest _ => loose_of_closing (.inr rfl) _

end Writes

/-! ### Expressions -/

/-- A name writes one identifier. -/
theorem Nameable.writes {name : String} (h : Nameable name) : Writes Loose name [nameWord name] :=
  (Writes.lexeme h fun hkind => by rcases hkind with hkind | hkind <;> cases hkind).loose

/-- The literal of a number. -/
theorem Number.Writable.writes {n : Number} (h : n.Writable) :
    Writes Loose (n.text .literal) [n.word] := by
  obtain ⟨word, htext, hspells, hread⟩ := h.exists_literal
  have hlist : (n.text .literal).toList = word := by rw [htext, String.toList_ofList]
  refine (Writes.lexeme (by rwa [hlist]) fun _ => ?_).loose
  rw [hlist, hread]
  rfl

/-- Parentheses separate themselves. -/
theorem Writes.inParentheses {s : String} {ws : List Token} (h : Writes Loose s ws) :
    Writes Anything ("(" ++ s ++ ")") (inParentheses ws) := by
  have hopen : Writes Anything "(" [Token.Kind.leftParen.word] :=
    .symbol .leftParen rfl fun _ => rfl
  have hclose : Writes Anything ")" [Token.Kind.rightParen.word] :=
    .symbol .rightParen rfl fun _ => rfl
  exact (hopen.andThen h).append hclose fun rest _ => loose_of_closing (.inl rfl) rest

/-- The text of an expression lays out its words. -/
theorem Expression.writes {e : Expression} (h : e.Writable) : Writes Loose e.pascal e.words := by
  induction e with
  | binary op l r _ ihl ihr =>
      have hspells : op.kind.Spells op.kind.text.toList := by cases op <;> rfl
      have htext : op.kind.text = op.text := by cases op <;> rfl
      have hinside := ((ihl h.1).thenSpaced op.kind hspells).andThen (ihr h.2)
      have hwhole := hinside.inParentheses
      rw [htext] at hwhole
      refine Writes.follows ?_
      simpa only [pascal, words, String.append_assoc, List.append_assoc, List.singleton_append]
        using hwhole
  | unary op e _ ih =>
      have hsign : Writes Anything op.text [op.kind.word] := by
        cases op with
        | plus => exact .symbol .plus rfl fun _ => rfl
        | minus => exact .symbol .minus rfl fun _ => rfl
      have hwhole := hsign.andThen (ih h).inParentheses
      refine Writes.follows ?_
      simpa only [pascal, words, String.append_assoc, List.singleton_append] using hwhole
  | num n _ => exact Number.Writable.writes h
  | var name _ => exact Nameable.writes h

/-! ### Statements -/

theorem writes_indentation (depth : Nat) : Writes Anything (indentation depth) [] :=
  .trivia (isTrivia_indentation depth)

/-- Statements on their lines, between the lines of a compound. -/
theorem writes_between {s : String} {ws : List Token} (depth : Nat) (h : Writes Anything s ws) :
    Writes Token.Kind.endWord.EndsAt
      (indentation depth ++ "BEGIN\n" ++ s ++ indentation depth ++ "END")
      (Token.Kind.beginWord.word :: ws ++ [Token.Kind.endWord.word]) := by
  have hbegin : Writes Anything "BEGIN\n" [Token.Kind.beginWord.word] :=
    (Writes.word .beginWord rfl).loose.thenNewline
  have hend : Writes Token.Kind.endWord.EndsAt "END" [Token.Kind.endWord.word] := .word .endWord rfl
  have hindent := writes_indentation depth
  have hwhole := (((hindent.andThen hbegin).andThen h).andThen hindent).andThen hend
  rwa [List.append_nil] at hwhole

mutual

/-- The text of a statement lays out its words. -/
theorem Statement.writes : ∀ (depth : Nat) (s : Statement), s.Writable →
    Writes Loose (s.pascal depth) s.words
  | depth, .compound ss _, h => by
      rw [Writable] at h
      rw [pascal, words]
      exact (writes_between depth (list_writes (depth + 1) ss h.2)).loose
  | depth, .assign target _ value _, h => by
      rw [Writable] at h
      have hname := (writes_indentation depth).andThen h.1.writes
      have hassign : Writes Anything (indentation depth ++ target ++ " := ")
          ([] ++ [nameWord target] ++ [Token.Kind.assign.word]) :=
        hname.thenSpaced .assign rfl
      rw [pascal, words]
      exact hassign.andThen (Expression.writes h.2)
  | depth, .noop, _ => by
      rw [pascal, words]
      exact .nil

/-- The text of statements lays out their words. -/
theorem Statement.list_writes : ∀ (depth : Nat) (ss : List Statement), ListWritable ss →
    Writes Anything (listPascal depth ss) (listWords ss)
  | depth, [],           _ => by
      rw [listPascal, listWords]
      exact .nil
  | depth, [s],          h => by
      rw [ListWritable] at h
      rw [listPascal, listWords]
      exact (writes depth s h.1).thenNewline
  | depth, s :: t :: ss, h => by
      rw [ListWritable] at h
      have hwhole := (writes depth s h.1).thenSemicolon.andThen (list_writes depth (t :: ss) h.2)
      rw [listPascal, listWords]
      rwa [List.append_assoc] at hwhole

end

/-- The text of a compound lays out its words, in front of anything that ends its last word. -/
theorem Compound.writes {c : Compound} (h : c.Writable) (depth : Nat) :
    Writes Token.Kind.endWord.EndsAt (c.pascal depth) c.words := by
  rw [Compound.Writable, toStatement, Statement.Writable] at h
  rw [Compound.pascal, Compound.words, toStatement, Statement.pascal, Statement.words]
  exact writes_between depth (Statement.list_writes (depth + 1) c.statements h.2)

/-! ### Declarations -/

theorem TypeName.writes (type : TypeName) : Writes Loose type.text [type.kind.word] := by
  cases type with
  | integer => exact (Writes.word .integerWord rfl).loose
  | real => exact (Writes.word .realWord rfl).loose

/-- The lines of variables lay out their words. -/
theorem Declaration.writes_variableLines (depth : Nat) (ds : List Declaration)
    (h : ∀ d ∈ ds, d.Writable) : Writes Anything (variableLines depth ds) (variableWords ds) := by
  induction ds with
  | nil => exact .nil
  | cons d ds ih =>
      have hmore := ih fun d hd => h d (.tail _ hd)
      cases d with
      | procedure name decls body _ => exact hmore
      | var name type _ =>
          have hname : Nameable name := h _ (.head _)
          have hcolon : Writes Anything (indentation depth ++ name ++ " : ")
              ([] ++ [nameWord name] ++ [Token.Kind.colon.word]) :=
            ((writes_indentation depth).andThen hname.writes).thenSpaced .colon rfl
          exact (hcolon.andThen type.writes).thenSemicolon.andThen hmore

/-- No lines are written exactly where no words are. -/
theorem Declaration.variableLines_eq_empty_iff (depth : Nat) (ds : List Declaration) :
    variableLines depth ds = "" ↔ variableWords ds = [] := by
  induction ds with
  | nil => simp [variableLines, variableWords]
  | cons d ds ih => cases d <;> simp [variableLines, variableWords, ih]

/-- The part for variables lays out its words. -/
theorem Declaration.writes_variablePascal (depth : Nat) (ds : List Declaration)
    (h : ∀ d ∈ ds, d.Writable) :
    Writes Anything (variablePascal depth ds) (variablePartWords ds) := by
  simp only [variablePascal, variablePartWords, variableLines_eq_empty_iff]
  split
  · exact .nil
  · have hvar : Writes Anything "VAR\n" [Token.Kind.varWord.word] :=
      (Writes.word .varWord rfl).loose.thenNewline
    exact ((writes_indentation depth).andThen hvar).andThen
      (writes_variableLines (depth + 1) ds h)

/-- The text of a block lays out its words, if that of its procedures lays out theirs. -/
theorem writes_block {decls : List Declaration} {body : Compound} (depth : Nat)
    (hdecls : ∀ d ∈ decls, d.Writable) (hbody : body.Writable)
    (h : Writes Anything (Declaration.proceduresPascal depth decls)
      (Declaration.proceduresWords decls)) :
    Writes Token.Kind.endWord.EndsAt (Block.pascal depth ⟨decls, body⟩)
      (Block.words ⟨decls, body⟩) := by
  have hwhole := ((Declaration.writes_variablePascal depth decls hdecls).andThen h).andThen
    (body.writes hbody depth)
  rwa [List.append_assoc] at hwhole

mutual

/-- The text of a procedure lays out its words. -/
theorem Declaration.writes_procedure : ∀ (depth : Nat) (d : Declaration), d.Writable →
    Writes Anything (d.procedurePascal depth) d.procedureWords
  | depth, .var _ _ _, _ => by
      rw [procedurePascal, procedureWords]
      exact .nil
  | depth, .procedure name decls body _, h => by
      rw [Writable] at h
      obtain ⟨hname, -, hdecls, hbody⟩ := h
      have hword : Writes Anything "PROCEDURE " [Token.Kind.procedureWord.word] :=
        (Writes.word .procedureWord rfl).loose.thenBlank
      have hhead := (((writes_indentation depth).andThen hword).andThen hname.writes).thenSemicolon
      have hblock := (writes_block (depth + 1) ((listWritable_iff decls).1 hdecls) hbody
        (writes_procedures (depth + 1) decls hdecls)).loose.thenSemicolon
      rw [procedurePascal, procedureWords]
      simpa only [Block.pascal, Block.words, String.append_assoc, List.append_assoc,
        List.nil_append, List.cons_append] using hhead.andThen hblock

/-- The text of procedures lays out their words. -/
theorem Declaration.writes_procedures : ∀ (depth : Nat) (ds : List Declaration), ListWritable ds →
    Writes Anything (proceduresPascal depth ds) (proceduresWords ds)
  | depth, [],      _ => by
      rw [proceduresPascal, proceduresWords]
      exact .nil
  | depth, d :: ds, h => by
      rw [ListWritable] at h
      rw [proceduresPascal, proceduresWords]
      exact (writes_procedure depth d h.1).andThen (writes_procedures depth ds h.2)

end

/-! ### Programs -/

/-- **The text of a program lays out its words**, whatever stands behind it. -/
theorem Program.writes {p : Program} (h : p.Writable) : Writes Anything p.pascal p.words := by
  obtain ⟨hname, -, hdecls, hbody⟩ := h
  have hword : Writes Anything "PROGRAM " [Token.Kind.programWord.word] :=
    (Writes.word .programWord rfl).loose.thenBlank
  have hblock := writes_block 0 ((Declaration.listWritable_iff _).1 hdecls) hbody
    (Declaration.writes_procedures 0 p.block.decls hdecls)
  have hdot : Writes Anything ".\n" [Token.Kind.dot.word] :=
    (Writes.word .dot rfl).loose.thenNewline
  -- A point would continue a number, but this one stands behind the last word of a compound.
  have hend := hblock.append hdot fun rest _ => by rintro _ ⟨⟩; decide
  simpa only [pascal, words, String.append_assoc, List.append_assoc, List.nil_append,
    List.cons_append] using (hword.andThen hname.writes).thenSemicolon.andThen hend

end MiniPascal
