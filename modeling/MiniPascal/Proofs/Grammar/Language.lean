import Mathlib.Computability.Language
import Mathlib.Order.CompletePartialOrder
import MiniPascal.Proofs.Grammar

/-!
# Proofs — Grammar — Language

The grammar as languages.  `phrase G` holds the runs of tokens that the relation `G` of the grammar
derives something from, and every rule is an inequality between languages, such as
`just .identifier * (just .assign * phrase IsExpression) ≤ phrase IsAssignment`.  None of the
languages is empty (`HasWord`), so what begins a part of a rule also begins the whole.  They are
languages of kinds (`IsProgram.inAnySpelling`): other tokens of the same kinds derive a program too.
Main definition (`Viable`): the kinds that a program, with the end behind it, may begin with.
-/

namespace MiniPascal

open scoped Computability

/-! ### Languages -/

/-- The single tokens of the kinds with a property. -/
def oneOf (p : Token.Kind → Prop) : Language Token := {w | ∃ t, w = [t] ∧ p t.kind}

/-- The single tokens of a kind. -/
abbrev just (kind : Token.Kind) : Language Token := oneOf (· = kind)

/-- The runs of tokens that derive something. -/
def phrase {α : Type} (G : List Token → α → Nat → Prop) : Language Token :=
  {w | ∃ a depth, G w a depth}

/-- The runs of tokens that declare something. -/
def declaring (G : List Token → List Declaration → Prop) : Language Token := {w | ∃ ds, G w ds}

/-- A language that is not empty. -/
class HasWord (L : Language Token) : Prop where
  exists_mem : ∃ w, w ∈ L

/-- The run `w` is the beginning of a word. -/
def Begins (L : Language Token) (w : List Token) : Prop := ∃ v, w ++ v ∈ L

section Languages

variable {L M : Language Token} {u v w : List Token}

theorem HasWord.mono (h : L ≤ M) [hL : HasWord L] : HasWord M := by
  obtain ⟨w, hw⟩ := hL.exists_mem
  exact ⟨w, h hw⟩

instance : HasWord 1 := ⟨[], Language.nil_mem_one⟩

instance : HasWord L∗ := ⟨[], Language.nil_mem_kstar L⟩

instance [hL : HasWord L] [hM : HasWord M] : HasWord (L * M) := by
  obtain ⟨u, hu⟩ := hL.exists_mem
  obtain ⟨v, hv⟩ := hM.exists_mem
  exact ⟨u ++ v, Language.append_mem_mul hu hv⟩

/-- A kind with the property has a token. -/
theorem hasWord_oneOf {p : Token.Kind → Prop} (kind : Token.Kind) (h : p kind) :
    HasWord (oneOf p) := ⟨[⟨kind, "", .none⟩], _, rfl, h⟩

instance (kind : Token.Kind) : HasWord (just kind) := hasWord_oneOf kind rfl

theorem begins_of_mem (h : w ∈ L) : Begins L w := ⟨[], by rwa [List.append_nil]⟩

/-- No token at all begins a word, if there is one. -/
theorem begins_nil [hL : HasWord L] : Begins L [] := hL.exists_mem

theorem Begins.mono (h : L ≤ M) : Begins L w → Begins M w
  | ⟨v, hv⟩ => ⟨v, h hv⟩

/-- What begins the first part begins the whole, since there is a word of the second part. -/
theorem Begins.mul_right [hM : HasWord M] (h : Begins L w) : Begins (L * M) w := by
  obtain ⟨v, hv⟩ := h
  obtain ⟨u, hu⟩ := hM.exists_mem
  exact ⟨v ++ u, by rw [← List.append_assoc]; exact Language.append_mem_mul hv hu⟩

/-- A word of the first part, and what begins the second. -/
theorem Begins.mul_left (hu : u ∈ L) (h : Begins M w) : Begins (L * M) (u ++ w) := by
  obtain ⟨v, hv⟩ := h
  exact ⟨v, by rw [List.append_assoc]; exact Language.append_mem_mul hu hv⟩

end Languages

/-! ### Rules -/

section Repetitions

variable {α : Type} {One : List Token → α → Nat → Prop} {separator : Token.Kind}
  {op? : Token.Kind → Option Operator} {Operand : List Token → Expression → Nat → Prop}

theorem chained_one : phrase Operand ≤ phrase (Chained op? Operand) := by
  rintro _ ⟨_, _, h⟩
  exact ⟨_, _, .one h⟩

/-- A chain goes on with an operator and one operand more. -/
theorem chained_more :
    phrase (Chained op? Operand) * (oneOf (fun k => ∃ op, op? k = some op) * phrase Operand) ≤
      phrase (Chained op? Operand) := by
  rintro _ ⟨_, ⟨_, _, hl⟩, _, ⟨_, ⟨t, rfl, op, ht⟩, _, ⟨_, _, hr⟩, rfl⟩, rfl⟩
  exact ⟨_, _, .more hl ht hr⟩

theorem separated_one : phrase One ≤ phrase (Separated separator One) := by
  rintro _ ⟨_, _, h⟩
  exact ⟨_, _, .one h⟩

/-- A row goes on with a separator and one thing more. -/
theorem separated_more :
    phrase (Separated separator One) * (just separator * phrase One) ≤
      phrase (Separated separator One) := by
  rintro _ ⟨_, ⟨_, _, hw⟩, _, ⟨_, ⟨t, rfl, ht⟩, _, ⟨_, _, hv⟩, rfl⟩, rfl⟩
  exact ⟨_, _, .more hw ht hv⟩

theorem repeated_none : 1 ≤ phrase (Repeated One) := by
  rintro _ rfl
  exact ⟨_, _, .none⟩

/-- A row without separators goes on with one thing more. -/
theorem repeated_more : phrase (Repeated One) * phrase One ≤ phrase (Repeated One) := by
  rintro _ ⟨_, ⟨_, _, hw⟩, _, ⟨_, _, hv⟩, rfl⟩
  exact ⟨_, _, .more hw hv⟩

instance [HasWord (phrase Operand)] : HasWord (phrase (Chained op? Operand)) := .mono chained_one

instance [HasWord (phrase One)] : HasWord (phrase (Separated separator One)) := .mono separated_one

end Repetitions

/-- A sign and a factor make a factor. -/
theorem factor_signed :
    oneOf (fun k => ∃ op, Sign.ofKind? k = some op) * phrase IsFactor ≤ phrase IsFactor := by
  rintro _ ⟨_, ⟨t, rfl, op, ht⟩, _, ⟨_, _, h⟩, rfl⟩
  exact ⟨_, _, .signed ht h⟩

theorem factor_literal : oneOf (fun k => k = .integerConst ∨ k = .realConst) ≤ phrase IsFactor := by
  rintro _ ⟨t, rfl, ht⟩
  exact ⟨_, _, .literal ht⟩

theorem factor_named : just .identifier ≤ phrase IsFactor := by
  rintro _ ⟨t, rfl, ht⟩
  exact ⟨_, _, .named ht⟩

/-- An expression in parentheses is a factor. -/
theorem factor_parenthesized :
    just .leftParen * (phrase IsExpression * just .rightParen) ≤ phrase IsFactor := by
  rintro _ ⟨_, ⟨l, rfl, hl⟩, _, ⟨_, ⟨_, _, h⟩, _, ⟨r, rfl, hr⟩, rfl⟩, rfl⟩
  exact ⟨_, _, .parenthesized hl h hr⟩

instance : HasWord (phrase IsFactor) := .mono factor_named

theorem assignment_rule :
    just .identifier * (just .assign * phrase IsExpression) ≤ phrase IsAssignment := by
  rintro _ ⟨_, ⟨t, rfl, ht⟩, _, ⟨_, ⟨a, rfl, ha⟩, _, ⟨_, _, h⟩, rfl⟩, rfl⟩
  exact ⟨_, _, .mk ht ha h⟩

theorem statement_compound : phrase IsCompound ≤ phrase IsStatement := by
  rintro _ ⟨_, _, h⟩
  exact ⟨_, _, .compound h⟩

theorem statement_assignment : phrase IsAssignment ≤ phrase IsStatement := by
  rintro _ ⟨_, _, h⟩
  exact ⟨_, _, .assignment h⟩

theorem statement_empty : 1 ≤ phrase IsStatement := by
  rintro _ rfl
  exact ⟨_, _, .empty⟩

instance : HasWord (phrase IsStatement) := .mono statement_empty

/-- A compound has statements with semicolons between its two words. -/
theorem compound_rule :
    just .beginWord * (phrase (Separated .semicolon IsStatement) * just .endWord) ≤
      phrase IsCompound := by
  rintro _ ⟨_, ⟨b, rfl, hb⟩, _, ⟨_, ⟨_, _, h⟩, _, ⟨e, rfl, he⟩, rfl⟩, rfl⟩
  exact ⟨_, _, .mk hb h he⟩

instance : HasWord (phrase IsCompound) := .mono compound_rule

theorem name_rule : just .identifier ≤ phrase IsName := by
  rintro _ ⟨t, rfl, ht⟩
  exact ⟨_, _, .mk ht⟩

instance : HasWord (phrase IsName) := .mono name_rule

/-- The words for types. -/
abbrev typeWord : Language Token := oneOf fun k => ∃ type, TypeName.ofKind? k = some type

instance : HasWord typeWord := hasWord_oneOf .integerWord ⟨_, rfl⟩

/-- Names with commas between them have a common type. -/
theorem variableList_rule :
    phrase (Separated .comma IsName) * (just .colon * (typeWord * just .semicolon)) ≤
      declaring IsVariableList := by
  rintro _ ⟨_, ⟨_, _, h⟩, _, ⟨_, ⟨c, rfl, hc⟩, _, ⟨_, ⟨t, rfl, _, ht⟩, _, ⟨s, rfl, hs⟩, rfl⟩, rfl⟩,
    rfl⟩
  exact ⟨_, .mk h hc ht hs⟩

instance : HasWord (declaring IsVariableList) := .mono variableList_rule

theorem variableLists_one : declaring IsVariableList ≤ declaring IsVariableLists := by
  rintro _ ⟨_, h⟩
  exact ⟨_, .one h⟩

theorem variableLists_more :
    declaring IsVariableLists * declaring IsVariableList ≤ declaring IsVariableLists := by
  rintro _ ⟨_, ⟨_, hw⟩, _, ⟨_, hv⟩, rfl⟩
  exact ⟨_, .more hw hv⟩

instance : HasWord (declaring IsVariableLists) := .mono variableLists_one

theorem variablePart_none : 1 ≤ declaring IsVariablePart := by
  rintro _ rfl
  exact ⟨_, .none⟩

/-- Behind the one reserved word stands at least one list. -/
theorem variablePart_some :
    just .varWord * declaring IsVariableLists ≤ declaring IsVariablePart := by
  rintro _ ⟨_, ⟨t, rfl, ht⟩, _, ⟨_, h⟩, rfl⟩
  exact ⟨_, .some ht h⟩

instance : HasWord (declaring IsVariablePart) := .mono variablePart_none

/-- A block has variables, procedures and a body, in this order. -/
theorem block_rule :
    declaring IsVariablePart * (phrase (Repeated IsProcedure) * phrase IsCompound) ≤
      phrase IsBlock := by
  rintro _ ⟨_, ⟨_, hu⟩, _, ⟨_, ⟨_, _, hv⟩, _, ⟨_, _, hw⟩, rfl⟩, rfl⟩
  exact ⟨_, _, .mk hu hv hw⟩

instance : HasWord (phrase (Repeated IsProcedure)) := .mono repeated_none

instance : HasWord (phrase IsBlock) := .mono block_rule

theorem procedure_rule :
    just .procedureWord * (just .identifier * (just .semicolon *
      (phrase IsBlock * just .semicolon))) ≤ phrase IsProcedure := by
  rintro _ ⟨_, ⟨t, rfl, ht⟩, _, ⟨_, ⟨n, rfl, hn⟩, _, ⟨_, ⟨s, rfl, hs⟩, _,
    ⟨_, ⟨_, _, h⟩, _, ⟨e, rfl, he⟩, rfl⟩, rfl⟩, rfl⟩, rfl⟩
  exact ⟨_, _, .mk ht hn hs h he⟩

instance : HasWord (phrase IsProcedure) := .mono procedure_rule

theorem program_rule :
    just .programWord * (just .identifier * (just .semicolon * (phrase IsBlock * just .dot))) ≤
      phrase IsProgram := by
  rintro _ ⟨_, ⟨t, rfl, ht⟩, _, ⟨_, ⟨n, rfl, hn⟩, _, ⟨_, ⟨s, rfl, hs⟩, _,
    ⟨_, ⟨_, _, h⟩, _, ⟨e, rfl, he⟩, rfl⟩, rfl⟩, rfl⟩, rfl⟩
  exact ⟨_, _, .mk ht hn hs h he⟩

instance : HasWord (phrase IsProgram) := .mono program_rule

/-! ### Spellings -/

/-- The words without an end of which every other spelling is a word as well. -/
def inAnySpelling (L : Language Token) : Language Token :=
  {w | (∀ t ∈ w, t.kind ≠ .eof) ∧ ∀ v : List Token, v.map (·.kind) = w.map (·.kind) → v ∈ L}

section Spellings

variable {L M : Language Token} {v w : List Token} {t : Token}

theorem inAnySpelling_mono (h : L ≤ M) : inAnySpelling L ≤ inAnySpelling M :=
  fun _ hw => ⟨hw.1, fun v hv => h (hw.2 v hv)⟩

theorem nil_inAnySpelling : [] ∈ inAnySpelling 1 :=
  ⟨List.forall_mem_nil _, fun _ hv => List.map_eq_nil_iff.1 hv⟩

/-- Whether one token is a word depends on its kind alone. -/
theorem singleton_inAnySpelling {p : Token.Kind → Prop} (ht : p t.kind) (heof : ¬ p .eof) :
    [t] ∈ inAnySpelling (oneOf p) := by
  refine ⟨List.forall_mem_singleton.2 fun hk => heof (hk ▸ ht), fun v hv => ?_⟩
  obtain ⟨u, rfl, hu⟩ := List.map_eq_singleton_iff.1 hv
  exact ⟨u, rfl, hu ▸ ht⟩

/-- Words in any spelling may stand one behind the other. -/
theorem append_inAnySpelling (hv : v ∈ inAnySpelling L) (hw : w ∈ inAnySpelling M) :
    v ++ w ∈ inAnySpelling (L * M) := by
  refine ⟨List.forall_mem_append.2 ⟨hv.1, hw.1⟩, fun x hx => ?_⟩
  rw [List.map_append] at hx
  obtain ⟨v', w', rfl, hv', hw'⟩ := List.map_eq_append_iff.1 hx
  exact Language.append_mem_mul (hv.2 v' hv') (hw.2 w' hw')

theorem cons_inAnySpelling {p : Token.Kind → Prop} (ht : p t.kind) (heof : ¬ p .eof)
    (hw : w ∈ inAnySpelling M) : t :: w ∈ inAnySpelling (oneOf p * M) :=
  append_inAnySpelling (singleton_inAnySpelling ht heof) hw

end Spellings

mutual

/-- A derivation does not look at lexemes, as recursion on it shows; so with every rule below. -/
theorem IsFactor.inAnySpelling : ∀ {w : List Token} {e : Expression} {d : Nat}, IsFactor w e d →
    w ∈ inAnySpelling (phrase IsFactor)
  | _, _, _, .signed ht h           =>
      inAnySpelling_mono factor_signed
        (cons_inAnySpelling ⟨_, ht⟩ nofun h.inAnySpelling)
  | _, _, _, .literal ht            =>
      inAnySpelling_mono factor_literal (singleton_inAnySpelling ht nofun)
  | _, _, _, .parenthesized hl h hr =>
      inAnySpelling_mono factor_parenthesized
        (cons_inAnySpelling hl nofun
          (append_inAnySpelling (isExpression_inAnySpelling h) (singleton_inAnySpelling hr nofun)))
  | _, _, _, .named ht              =>
      inAnySpelling_mono factor_named (singleton_inAnySpelling ht nofun)

theorem isTerm_inAnySpelling : ∀ {w : List Token} {e : Expression} {d : Nat}, IsTerm w e d →
    w ∈ inAnySpelling (phrase IsTerm)
  | _, _, _, .one h        => inAnySpelling_mono chained_one h.inAnySpelling
  | _, _, _, .more hl ht h =>
      inAnySpelling_mono chained_more (append_inAnySpelling (isTerm_inAnySpelling hl)
        (cons_inAnySpelling ⟨_, ht⟩ nofun h.inAnySpelling))

theorem isExpression_inAnySpelling : ∀ {w : List Token} {e : Expression} {d : Nat},
    IsExpression w e d → w ∈ inAnySpelling (phrase IsExpression)
  | _, _, _, .one h        => inAnySpelling_mono chained_one (isTerm_inAnySpelling h)
  | _, _, _, .more hl ht h =>
      inAnySpelling_mono chained_more (append_inAnySpelling (isExpression_inAnySpelling hl)
        (cons_inAnySpelling ⟨_, ht⟩ nofun (isTerm_inAnySpelling h)))

end

theorem IsAssignment.inAnySpelling {w : List Token} {s : Statement} {d : Nat}
    (h : IsAssignment w s d) : w ∈ inAnySpelling (phrase IsAssignment) := by
  obtain ⟨ht, ha, h⟩ := h
  exact inAnySpelling_mono assignment_rule
    (cons_inAnySpelling ht nofun
      (cons_inAnySpelling ha nofun (isExpression_inAnySpelling h)))

mutual

theorem IsStatement.inAnySpelling : ∀ {w : List Token} {s : Statement} {d : Nat},
    IsStatement w s d → w ∈ inAnySpelling (phrase IsStatement)
  | _, _, _, .compound h   => inAnySpelling_mono statement_compound h.inAnySpelling
  | _, _, _, .assignment h => inAnySpelling_mono statement_assignment h.inAnySpelling
  | _, _, _, .empty        => inAnySpelling_mono statement_empty nil_inAnySpelling

theorem statements_inAnySpelling : ∀ {w : List Token} {ss : List Statement} {d : Nat},
    Separated .semicolon IsStatement w ss d →
      w ∈ inAnySpelling (phrase (Separated .semicolon IsStatement))
  | _, _, _, .one h        => inAnySpelling_mono separated_one h.inAnySpelling
  | _, _, _, .more hw ht h =>
      inAnySpelling_mono separated_more (append_inAnySpelling (statements_inAnySpelling hw)
        (cons_inAnySpelling ht nofun h.inAnySpelling))

theorem IsCompound.inAnySpelling : ∀ {w : List Token} {c : Compound} {d : Nat},
    IsCompound w c d → w ∈ inAnySpelling (phrase IsCompound)
  | _, _, _, .mk hb h he =>
      inAnySpelling_mono compound_rule
        (cons_inAnySpelling hb nofun
          (append_inAnySpelling (statements_inAnySpelling h) (singleton_inAnySpelling he nofun)))

end

theorem names_inAnySpelling {w : List Token} {names : List (String × Span)} {d : Nat}
    (h : Separated .comma IsName w names d) :
    w ∈ inAnySpelling (phrase (Separated .comma IsName)) := by
  have hname : ∀ {w n d}, IsName w n d → w ∈ inAnySpelling (phrase IsName) := by
    rintro _ _ _ ⟨ht⟩
    exact inAnySpelling_mono name_rule (singleton_inAnySpelling ht nofun)
  induction h with
  | one h => exact inAnySpelling_mono separated_one (hname h)
  | more _ ht h ih =>
      exact inAnySpelling_mono separated_more (append_inAnySpelling ih
        (cons_inAnySpelling ht nofun (hname h)))

theorem IsVariableList.inAnySpelling {w : List Token} {ds : List Declaration}
    (h : IsVariableList w ds) : w ∈ inAnySpelling (declaring IsVariableList) := by
  obtain ⟨h, hc, ht, hs⟩ := h
  exact inAnySpelling_mono variableList_rule (append_inAnySpelling (names_inAnySpelling h)
    (cons_inAnySpelling hc nofun
      (cons_inAnySpelling ⟨_, ht⟩ nofun
        (singleton_inAnySpelling hs nofun))))

theorem IsVariablePart.inAnySpelling {w : List Token} {ds : List Declaration}
    (h : IsVariablePart w ds) : w ∈ inAnySpelling (declaring IsVariablePart) := by
  cases h with
  | none => exact inAnySpelling_mono variablePart_none nil_inAnySpelling
  | some ht h =>
      refine inAnySpelling_mono variablePart_some
        (cons_inAnySpelling ht nofun ?_)
      induction h with
      | one h => exact inAnySpelling_mono variableLists_one h.inAnySpelling
      | more _ h ih =>
          exact inAnySpelling_mono variableLists_more (append_inAnySpelling ih h.inAnySpelling)

mutual

theorem IsBlock.inAnySpelling : ∀ {w : List Token} {b : Block} {d : Nat}, IsBlock w b d →
    w ∈ inAnySpelling (phrase IsBlock)
  | _, _, _, .mk hu hv hw =>
      inAnySpelling_mono block_rule (append_inAnySpelling hu.inAnySpelling
        (append_inAnySpelling (procedures_inAnySpelling hv) hw.inAnySpelling))

theorem procedures_inAnySpelling : ∀ {w : List Token} {ds : List Declaration} {d : Nat},
    Repeated IsProcedure w ds d → w ∈ inAnySpelling (phrase (Repeated IsProcedure))
  | _, _, _, .none      => inAnySpelling_mono repeated_none nil_inAnySpelling
  | _, _, _, .more hw h =>
      inAnySpelling_mono repeated_more
        (append_inAnySpelling (procedures_inAnySpelling hw) h.inAnySpelling)

theorem IsProcedure.inAnySpelling : ∀ {w : List Token} {p : Declaration} {d : Nat},
    IsProcedure w p d → w ∈ inAnySpelling (phrase IsProcedure)
  | _, _, _, .mk ht hn hs h he =>
      inAnySpelling_mono procedure_rule
        (cons_inAnySpelling ht nofun
          (cons_inAnySpelling hn nofun
            (cons_inAnySpelling hs nofun
              (append_inAnySpelling h.inAnySpelling (singleton_inAnySpelling he nofun)))))

end

/-- **The grammar is one of kinds.**  Tokens of the kinds of a program derive a program, and no
program holds an end. -/
theorem IsProgram.inAnySpelling {w : List Token} {p : Program} {d : Nat} (h : IsProgram w p d) :
    w ∈ inAnySpelling (phrase IsProgram) := by
  obtain ⟨ht, hn, hs, h, he⟩ := h
  exact inAnySpelling_mono program_rule
    (cons_inAnySpelling ht nofun
      (cons_inAnySpelling hn nofun
        (cons_inAnySpelling hs nofun
          (append_inAnySpelling h.inAnySpelling (singleton_inAnySpelling he nofun)))))

/-! ### Kinds -/

/-- The kinds of a program, with the end behind them. -/
def IsSentence (ks : List Token.Kind) : Prop :=
  ∃ w p depth, IsProgram w p depth ∧ ks = w.map (·.kind) ++ [.eof]

/-- Kinds that a sentence begins with. -/
def Viable (ks : List Token.Kind) : Prop := ∃ sentence, IsSentence sentence ∧ ks <+: sentence

/-- The kinds of tokens that begin a program are viable. -/
theorem Begins.viable {w : List Token} (h : Begins (phrase IsProgram) w) :
    Viable (w.map (·.kind)) := by
  obtain ⟨v, p, depth, hp⟩ := h
  refine ⟨_, ⟨w ++ v, p, depth, hp, rfl⟩, v.map (·.kind) ++ [.eof], ?_⟩
  rw [List.map_append, List.append_assoc]

end MiniPascal
