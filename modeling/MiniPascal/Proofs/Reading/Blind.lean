import MiniPascal.Proofs.Agreement
import MiniPascal.Proofs.Tree.Bare
import MiniPascal.Reading.Program

/-!
# Proofs — Reading — Blind

Readers do not look at places.  On tokens that differ in their spans alone a reader yields values
that differ in spans alone, or faults with the same cause up to the span of the token that was
found (`Blind`).  Every reader is blind because its steps are; for `iterate` that is an induction
on the rounds, for the readers with levels one on the levels.  So the reader of whole programs is
(`wholeProgram_blind`), and with it what the results of an input form (`ofResults_blind`).
-/

namespace MiniPascal

/-- A result of the input without its place; a lexical fault is left as it is. -/
def Pulled.bare : Pulled → Pulled
  | .ok t    => .ok t.bare
  | .error e => .error e

/-- A cursor without places. -/
def Cursor.bare (c : Cursor) : Cursor := ⟨c.current.bare, c.rest.map Pulled.bare, .none⟩

/-- A grammatical fault without the place of the token it names. -/
def GrammarFault.bare : GrammarFault → GrammarFault
  | .expected what found => .expected what found.bare
  | fault                => fault

/-- A fault of reading without the place of the token it names. -/
def ReadingFault.bare : ReadingFault → ReadingFault
  | .lexical cause => .lexical cause
  | .grammar cause => .grammar cause.bare

/-- What is told of a fault does not depend on places. -/
theorem GrammarFault.text_bare (f : GrammarFault) : f.bare.text = f.text := by
  cases f <;> rfl

/-- A measured expression without places. -/
def Measured.bare (m : Measured) : Measured := ⟨m.expr.bare, m.height⟩

namespace Reader

variable {α β γ δ : Type}

/-- Faults with the same cause up to places. -/
def SameFault (e f : Located ReadingFault) : Prop := e.cause.bare = f.cause.bare

/-- Cursors with the same tokens ahead up to places. -/
def SameAhead (c d : Cursor) : Prop := c.bare = d.bare

/-- From cursors with the same tokens ahead, readers yield values with the same image under `view`,
or the same fault. -/
abbrev Blind (view : α → γ) (m m' : Reader α) : Prop :=
  Agrees SameFault SameAhead (fun a b => view a = view b) m m'

/-! ### Steps -/

/-- The token looked at is the same but for its span. -/
theorem peek_blind : Blind Token.bare peek peek :=
  fun _ _ h => ⟨congrArg Cursor.current h, h⟩

/-- Of the span read last nothing is looked at. -/
theorem lastSpan_blind : Blind (fun _ => ()) lastSpan lastSpan :=
  fun _ _ h => ⟨rfl, h⟩

theorem spanFrom_blind (start start' : Span) :
    Blind (fun _ => ()) (spanFrom start) (spanFrom start') :=
  .bind lastSpan_blind fun _ _ _ => .pure rfl

/-- A token is consumed on both sides, or both meet the same lexical fault, or both stand at the
last result. -/
theorem take_blind : Blind Token.bare take take := by
  rintro ⟨t, rest, p⟩ ⟨u, rest', q⟩ h
  obtain ⟨ht, hrest⟩ : t.bare = u.bare ∧ rest.map Pulled.bare = rest'.map Pulled.bare := by
    simpa [SameAhead, Cursor.bare] using h
  match rest, rest', hrest with
  | [],               [],                _     => exact ⟨ht, by simp [SameAhead, Cursor.bare, ht]⟩
  | .ok v :: rest,    .ok w :: rest',    hrest =>
      obtain ⟨hv, htail⟩ := List.cons.inj hrest
      have hvw : v.bare = w.bare := Except.ok.inj hv
      exact ⟨ht, by simp [SameAhead, Cursor.bare, hvw, htail]⟩
  | .error e :: rest, .error f :: rest', hrest =>
      obtain ⟨he, htail⟩ := List.cons.inj hrest
      obtain rfl : e = f := Except.error.inj he
      exact ⟨rfl, by simp [SameAhead, Cursor.bare, ht, htail]⟩
  | .ok v :: _,       .error f :: _,     hrest => exact nomatch (List.cons.inj hrest).1
  | .error e :: _,    .ok w :: _,        hrest => exact nomatch (List.cons.inj hrest).1

/-- Faults with the same bare cause are the same but for their spans. -/
theorem failHere_blind {view : α → γ} {cause cause' : GrammarFault} (h : cause.bare = cause'.bare) :
    Blind view (failHere cause) (failHere cause') :=
  fun _ _ hcd => ⟨congrArg ReadingFault.grammar h, hcd⟩

theorem failExpected_blind {view : α → γ} (what : Expected) :
    Blind view (failExpected what) (failExpected what) :=
  .bind peek_blind fun _ _ h => failHere_blind (congrArg (GrammarFault.expected what) h)

/-! ### Combinations of steps -/

/-- Whether a token is of the kind required does not depend on spans. -/
theorem require_blind (kind : Token.Kind) (what : Expected) :
    Blind Token.bare (require kind what) (require kind what) := by
  refine .bind peek_blind fun t u h => ?_
  rw [Token.kind_eq_of_bare h]
  split
  · exact take_blind
  · exact failExpected_blind what

theorem deeper_blind {view : α → γ} {inner : Option (Reader α)}
    (h : ∀ m ∈ inner, Blind view m m) : Blind view (deeper inner) (deeper inner) := by
  cases inner with
  | none => exact failHere_blind rfl
  | some m => exact h m rfl

theorem iterate_blind {view : β → δ} {test : Token.Kind → Option γ} {step : γ → β → Reader β}
    (hstep : ∀ x b b', view b = view b' → Blind view (step x b) (step x b')) (rounds : Nat) :
    ∀ b b', view b = view b' →
      Blind view (iterate test step rounds b) (iterate test step rounds b') := by
  induction rounds with
  | zero => exact fun b b' h => .pure h
  | succ rounds ih =>
      intro b b' h
      refine .bind peek_blind fun t u htu => ?_
      rw [Token.kind_eq_of_bare htu]
      split
      · exact .bind (hstep _ b b' h) ih
      · exact .pure h

/-- The number of rounds is the same on both sides, since as many tokens are ahead. -/
theorem whileAt_blind {view : β → δ} {test : Token.Kind → Option γ} {step : γ → β → Reader β}
    (hstep : ∀ x b b', view b = view b' → Blind view (step x b) (step x b')) {b b' : β}
    (h : view b = view b') : Blind view (whileAt test step b) (whileAt test step b') := by
  intro c d hcd
  have hlength : c.rest.length = d.rest.length := by
    simpa [Cursor.bare] using congrArg (fun e : Cursor => e.rest.length) hcd
  simp only [whileAt, hlength]
  exact iterate_blind hstep _ b b' h c d hcd

/-! ### Expressions -/

theorem heightAbove_blind (child : Nat) : Blind id (heightAbove child) (heightAbove child) := by
  unfold heightAbove
  split
  · exact .pure rfl
  · exact failHere_blind rfl

theorem chain_blind (op? : Token.Kind → Option Operator) {operand : Reader Measured}
    (h : Blind Measured.bare operand operand) :
    Blind Measured.bare (chain op? operand) (chain op? operand) := by
  refine .bind h fun m m' hm => iterate_blind (fun op l l' hl => ?_) _ m m' hm
  refine .bind take_blind fun _ _ _ => .bind h fun r r' hr => ?_
  -- Heights are compared as they are: the limit on them must hold on both sides or on neither.
  obtain ⟨hle, hlh⟩ := Measured.mk.inj hl
  obtain ⟨hre, hrh⟩ := Measured.mk.inj hr
  rw [hlh, hrh]
  refine .bind (heightAbove_blind _) fun n n' hn => .pure ?_
  simp only [Measured.bare, Expression.bare_combine, hle, hre, show n = n' from hn]

theorem sumOf_blind {factor : Reader Measured} (h : Blind Measured.bare factor factor) :
    Blind Measured.bare (sumOf factor) (sumOf factor) :=
  chain_blind _ (chain_blind _ h)

section Factors

variable {inner : Option (Reader Measured)}

/-- Behind a sign stands what is blind, and the span of the whole is not looked at. -/
theorem signed_blind (op : Sign) (h : ∀ m ∈ inner, Blind Measured.bare m m) :
    Blind Measured.bare (signed op inner) (signed op inner) := by
  refine .bind take_blind fun t u _ => .bind (deeper_blind h) fun m m' hm => ?_
  obtain ⟨he, hh⟩ := Measured.mk.inj hm
  rw [hh]
  refine .bind (heightAbove_blind _) fun n n' hn => .pure ?_
  simp only [Measured.bare, Expression.bare, he, show n = n' from hn]

/-- A literal is worth what its lexeme is. -/
theorem literal_blind : Blind Measured.bare literal literal := by
  refine .bind take_blind fun t u h => ?_
  rw [Token.kind_eq_of_bare h, Token.lexeme_eq_of_bare h]
  split
  · exact .pure rfl
  · exact .throw rfl

theorem parenthesized_blind (h : ∀ m ∈ inner, Blind Measured.bare m m) :
    Blind Measured.bare (parenthesized inner) (parenthesized inner) := by
  have hsum : ∀ m ∈ inner.map sumOf, Blind Measured.bare m m := by
    intro m hm
    obtain ⟨f, hf, rfl⟩ := Option.map_eq_some_iff.1 hm
    exact sumOf_blind (h f hf)
  refine .bind take_blind fun _ _ _ => .bind (deeper_blind hsum) fun e e' he => ?_
  exact .bind (require_blind _ _) fun _ _ _ => .pure he

theorem variableName_blind : Blind Measured.bare variableName variableName := by
  refine .bind take_blind fun t u h => .pure ?_
  simp only [Measured.bare, Expression.bare, Token.lexeme_eq_of_bare h]

/-- Which branch is taken depends on the kind of the token alone. -/
theorem factorWith_blind (h : ∀ m ∈ inner, Blind Measured.bare m m) :
    Blind Measured.bare (factorWith inner) (factorWith inner) := by
  refine .bind peek_blind fun t u htu => ?_
  rw [Token.kind_eq_of_bare htu]
  split
  · exact signed_blind .plus h
  · exact signed_blind .minus h
  · exact literal_blind
  · exact literal_blind
  · exact parenthesized_blind h
  · exact variableName_blind
  · exact failExpected_blind _

end Factors

theorem factor_blind (levels : Nat) : Blind Measured.bare (factor levels) (factor levels) := by
  induction levels with
  | zero => exact factorWith_blind fun _ h => nomatch h
  | succ levels ih => exact factorWith_blind fun _ h => Option.some.inj h ▸ ih

theorem expression_blind (levels : Nat) :
    Blind Measured.bare (expression levels) (expression levels) :=
  sumOf_blind (factor_blind levels)

/-! ### Statements -/

theorem name_blind (what : Expected) : Blind Prod.fst (name what) (name what) :=
  .bind (require_blind _ _) fun _ _ h => .pure (Token.lexeme_eq_of_bare h)

theorem assignment_blind {value : Reader Measured} (h : Blind Measured.bare value value) :
    Blind Statement.bare (assignment value) (assignment value) := by
  refine .bind (name_blind _) fun n n' hn => .bind (require_blind _ _) fun _ _ _ => ?_
  refine .bind h fun e e' he => .pure ?_
  obtain ⟨hexpr, -⟩ := Measured.mk.inj he
  simp only [Statement.bare, hexpr, hn]

theorem statement_blind {inner : Reader Compound} {value : Reader Measured}
    (hi : Blind Compound.bare inner inner) (hv : Blind Measured.bare value value) :
    Blind Statement.bare (statement inner value) (statement inner value) := by
  refine .bind peek_blind fun t u htu => ?_
  rw [Token.kind_eq_of_bare htu]
  split
  · refine .bind hi fun c c' hc => .pure ?_
    rw [Compound.bare_toStatement, Compound.bare_toStatement, hc]
  · exact assignment_blind hv
  · exact .pure rfl

/-- Statements are collected at the end of an array, which is compared as the list it becomes. -/
theorem statements_blind {one : Reader Statement} (h : Blind Statement.bare one one) :
    Blind (List.map Statement.bare) (statements one) (statements one) := by
  refine .bind h fun s s' hs => .bind (Q := fun a b : Array Statement =>
    a.toList.map Statement.bare = b.toList.map Statement.bare)
    (whileAt_blind (fun _ a b hab => ?_) (congrArg (fun s => [s]) hs)) fun a b hab => ?_
  · refine .bind take_blind fun _ _ _ => .bind h fun s s' hs => .pure ?_
    simp only [Array.toList_push, List.map_append, hab, List.map_cons, hs, List.map_nil]
  · refine .bind peek_blind fun t u htu => ?_
    rw [Token.kind_eq_of_bare htu]
    split
    · exact failExpected_blind _
    · exact .pure hab

theorem compoundWith_blind {inner : Option (Reader (List Statement))}
    (h : ∀ m ∈ inner, Blind (List.map Statement.bare) m m) :
    Blind Compound.bare (compoundWith inner) (compoundWith inner) := by
  refine .bind (require_blind _ _) fun _ _ _ => .bind (deeper_blind h) fun ss ss' hss => ?_
  refine .bind (require_blind _ _) fun _ _ _ => .bind (spanFrom_blind _ _) fun _ _ _ => .pure ?_
  simp only [Compound.bare, Statement.listBare_eq_map, hss]

theorem compound_blind (levels : Nat) :
    Blind Compound.bare (compound levels) (compound levels) := by
  induction levels with
  | zero => exact compoundWith_blind fun _ h => nomatch h
  | succ levels ih =>
      refine compoundWith_blind fun _ h => Option.some.inj h ▸ ?_
      exact statements_blind (statement_blind ih (expression_blind levels))

/-! ### Declarations -/

theorem typeName_blind : Blind Prod.fst typeName typeName := by
  refine .bind peek_blind fun t u htu => ?_
  rw [Token.kind_eq_of_bare htu]
  split
  · exact .bind take_blind fun _ _ _ => .pure rfl
  · exact .bind take_blind fun _ _ _ => .pure rfl
  · exact failExpected_blind _

/-- Of the names in a list the spans are not looked at. -/
theorem variableList_blind :
    Blind (List.map Declaration.bare) variableList variableList := by
  refine .bind (name_blind _) fun n n' hn => .bind (Q := fun a b : Array (String × Span) =>
    a.toList.map Prod.fst = b.toList.map Prod.fst)
    (whileAt_blind (fun _ a b hab => ?_) (congrArg (fun s => [s]) hn)) fun a b hab => ?_
  · refine .bind take_blind fun _ _ _ => .bind (name_blind _) fun n n' hn => .pure ?_
    simp only [Array.toList_push, List.map_append, hab, List.map_cons, hn, List.map_nil]
  · refine .bind (require_blind _ _) fun _ _ _ => .bind typeName_blind fun ty ty' hty => ?_
    refine .bind (require_blind _ _) fun _ _ _ => .pure ?_
    have hlist : ∀ (type : TypeName × Span) (names : List (String × Span)),
        (names.map fun n => Declaration.var n.1 type.1 (n.2.through type.2)).map Declaration.bare =
          (names.map Prod.fst).map fun name => .var name type.1 .none := by
      intro type names
      simp only [List.map_map]
      exact List.map_congr_left fun n _ => by simp only [Function.comp_apply, Declaration.bare]
    rw [hlist ty, hlist ty', hab, hty]

theorem variablePart_blind :
    Blind (List.map Declaration.bare) variablePart variablePart := by
  refine .bind peek_blind fun t u htu => ?_
  rw [Token.kind_eq_of_bare htu]
  split
  · refine .bind take_blind fun _ _ _ => .bind variableList_blind fun ds ds' hds => ?_
    refine whileAt_blind (fun _ done done' hdone => ?_) hds
    refine .bind variableList_blind fun more more' hmore => .pure ?_
    rw [List.map_append, List.map_append, hdone, hmore]
  · exact .pure rfl

theorem procedure_blind {inner : Option (Reader Block)}
    (h : ∀ m ∈ inner, Blind Block.bare m m) :
    Blind Declaration.bare (procedure inner) (procedure inner) := by
  refine .bind take_blind fun _ _ _ => .bind (name_blind _) fun n n' hn => ?_
  refine .bind (require_blind _ _) fun _ _ _ => .bind (deeper_blind h) fun b b' hb => ?_
  refine .bind (spanFrom_blind _ _) fun _ _ _ => .bind (require_blind _ _) fun _ _ _ => .pure ?_
  obtain ⟨hdecls, hbody⟩ := Block.mk.inj hb
  simp only [Declaration.bare, hn, hdecls, hbody]

theorem blockWith_blind {body : Reader Compound} {inner : Option (Reader Block)}
    (hb : Blind Compound.bare body body) (h : ∀ m ∈ inner, Blind Block.bare m m) :
    Blind Block.bare (blockWith body inner) (blockWith body inner) := by
  refine .bind variablePart_blind fun vs vs' hvs => .bind (Q := fun a b : Array Declaration =>
    a.toList.map Declaration.bare = b.toList.map Declaration.bare)
    (whileAt_blind (fun _ a b hab => ?_) rfl) fun a b hab => ?_
  · refine .bind (procedure_blind h) fun d d' hd => .pure ?_
    simp only [Array.toList_push, List.map_append, hab, List.map_cons, hd, List.map_nil]
  · refine .bind hb fun c c' hc => .pure ?_
    simp only [Block.bare, Declaration.listBare_eq_map, List.map_append, hvs, hab, hc]

theorem block_blind (levels : Nat) : Blind Block.bare (block levels) (block levels) := by
  induction levels with
  | zero => exact blockWith_blind (compound_blind 0) fun _ h => nomatch h
  | succ levels ih =>
      exact blockWith_blind (compound_blind _) fun _ h => Option.some.inj h ▸ ih

/-! ### Programs -/

/-- **Programs are read blindly**: what is read depends on kinds and lexemes alone. -/
theorem program_blind : Blind Program.bare program program := by
  refine .bind (require_blind _ _) fun _ _ _ => .bind (name_blind _) fun n n' hn => ?_
  refine .bind (require_blind _ _) fun _ _ _ => .bind (block_blind _) fun b b' hb => ?_
  refine .bind (require_blind _ _) fun _ _ _ => .bind (spanFrom_blind _ _) fun _ _ _ => .pure ?_
  simp only [Program.bare, hn, hb]

/-- **The reader of whole programs does not look at places.** -/
theorem wholeProgram_blind : Blind Program.bare wholeProgram wholeProgram := by
  refine .bind program_blind fun p p' hp => .bind peek_blind fun t u htu => ?_
  rw [Token.kind_eq_of_bare htu]
  split
  · exact .pure hp
  · exact failExpected_blind _

end Reader

/-- Results of an input that differ in places alone form programs that differ in places alone, or
the same fault up to places. -/
theorem Program.ofResults_blind {rs rs' : List Pulled}
    (h : rs.map Pulled.bare = rs'.map Pulled.bare) :
    ((ofResults rs).map Program.bare).mapError (·.cause.bare) =
      ((ofResults rs').map Program.bare).mapError (·.cause.bare) := by
  match rs, rs', h with
  | [],             [],              _ => rfl
  | .ok t :: rest,  .ok u :: rest',  h =>
      obtain ⟨ht, hrest⟩ := List.cons.inj h
      have htu : t.bare = u.bare := Except.ok.inj ht
      have hahead : Reader.SameAhead ⟨t, rest, ⟨0, 0⟩⟩ ⟨u, rest', ⟨0, 0⟩⟩ := by
        simp only [Reader.SameAhead, Cursor.bare, htu, hrest]
      have hends := Reader.wholeProgram_blind _ _ hahead
      simp only [ofResults]
      cases hm : Reader.wholeProgram ⟨t, rest, ⟨0, 0⟩⟩ <;>
        cases hm' : Reader.wholeProgram ⟨u, rest', ⟨0, 0⟩⟩ <;> rw [hm, hm'] at hends
      · exact congrArg Except.ok hends.1
      · exact hends.elim
      · exact hends.elim
      · exact congrArg Except.error hends.1
  | .error e :: _,  .error f :: _,   h =>
      obtain rfl : e = f := Except.error.inj (List.cons.inj h).1
      rfl
  | .ok _ :: _,     .error _ :: _,   h => exact nomatch (List.cons.inj h).1
  | .error _ :: _,  .ok _ :: _,      h => exact nomatch (List.cons.inj h).1

end MiniPascal
