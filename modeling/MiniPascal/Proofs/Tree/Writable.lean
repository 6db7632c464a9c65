import MiniPascal.Proofs.Grammar
import MiniPascal.Proofs.Lexing.Scan

/-!
# Proofs — Tree — Writable

The trees that have a text: names are spelled like names, numbers are those that literals stand for,
no compound is without statements, and in every block the variables come before the procedures.
Main statement (`IsProgram.writable`): whatever tokens of a text derive is such a tree.
-/

namespace MiniPascal

/-- A text that is one name. -/
def Nameable (name : String) : Prop := Token.Kind.identifier.Spells name.toList

/-- A number with a literal: neither negative nor infinite. -/
def Number.Writable : Number → Prop
  | .int i  => 0 ≤ i.toInt
  | .real x => x.isFinite = true ∧ x.isNegative = false

/-- An expression with a text. -/
def Expression.Writable : Expression → Prop
  | .binary _ l r _ => l.Writable ∧ r.Writable
  | .unary _ e _    => e.Writable
  | .num n _        => n.Writable
  | .var name _     => Nameable name

mutual

/-- A statement with a text. -/
def Statement.Writable : Statement → Prop
  | .compound ss _           => ss ≠ [] ∧ Statement.ListWritable ss
  | .assign target _ value _ => Nameable target ∧ value.Writable
  | .noop                    => True

/-- Statements with a text. -/
def Statement.ListWritable : List Statement → Prop
  | []      => True
  | s :: ss => s.Writable ∧ Statement.ListWritable ss

end

/-- A compound with a text. -/
def Compound.Writable (c : Compound) : Prop := c.toStatement.Writable

/-- Whether a declaration declares a variable. -/
def Declaration.isVariable : Declaration → Bool
  | .var _ _ _ => true
  | _          => false

/-- Variables, and then procedures. -/
def VariablesFirst (ds : List Declaration) : Prop :=
  ∃ vars procedures, ds = vars ++ procedures ∧ (∀ d ∈ vars, d.isVariable = true) ∧
    ∀ d ∈ procedures, d.isVariable = false

mutual

/-- A declaration with a text. -/
def Declaration.Writable : Declaration → Prop
  | .var name _ _                => Nameable name
  | .procedure name decls body _ =>
      Nameable name ∧ VariablesFirst decls ∧ Declaration.ListWritable decls ∧ body.Writable

/-- Declarations with a text. -/
def Declaration.ListWritable : List Declaration → Prop
  | []      => True
  | d :: ds => d.Writable ∧ Declaration.ListWritable ds

end

/-- A block with a text. -/
def Block.Writable (b : Block) : Prop :=
  VariablesFirst b.decls ∧ Declaration.ListWritable b.decls ∧ b.body.Writable

/-- A program with a text. -/
def Program.Writable (p : Program) : Prop := Nameable p.name ∧ p.block.Writable

theorem Statement.listWritable_iff (ss : List Statement) :
    ListWritable ss ↔ ∀ s ∈ ss, s.Writable := by
  induction ss with
  | nil => rw [ListWritable]; simp
  | cons s ss ih => rw [ListWritable, ih, List.forall_mem_cons]

theorem Declaration.listWritable_iff (ds : List Declaration) :
    ListWritable ds ↔ ∀ d ∈ ds, d.Writable := by
  induction ds with
  | nil => rw [ListWritable]; simp
  | cons d ds ih => rw [ListWritable, ih, List.forall_mem_cons]

/-! ### Bare trees -/

/-- Whether a tree has a text does not depend on places. -/
theorem Expression.writable_bare {e : Expression} : e.bare.Writable ↔ e.Writable := by
  induction e with
  | binary op l r _ ihl ihr => exact and_congr ihl ihr
  | unary op e _ ih => exact ih
  | num n _ => exact Iff.rfl
  | var name _ => exact Iff.rfl

mutual

/-- Spans do not bear on what is writable; so with everything below. -/
theorem Statement.writable_bare : ∀ s : Statement, s.bare.Writable ↔ s.Writable
  | .compound ss _      => by
      have hne : listBare ss ≠ [] ↔ ss ≠ [] := by rw [listBare_eq_map, Ne, List.map_eq_nil_iff]
      rw [bare, Writable, Writable, hne, listWritable_listBare ss]
  | .assign _ _ value _ => by rw [bare, Writable, Writable, value.writable_bare]
  | .noop               => by rw [bare]

theorem Statement.listWritable_listBare : ∀ ss, ListWritable (listBare ss) ↔ ListWritable ss
  | []      => by rw [listBare]
  | s :: ss => by
      rw [listBare, ListWritable, ListWritable, s.writable_bare, listWritable_listBare ss]

end

theorem Compound.writable_bare {c : Compound} : c.bare.Writable ↔ c.Writable := by
  rw [Writable, ← bare_toStatement, Statement.writable_bare, Writable]

theorem Declaration.isVariable_bare (d : Declaration) : d.bare.isVariable = d.isVariable := by
  cases d <;> rw [bare] <;> rfl

/-- Spans do not bear on the order of declarations. -/
theorem variablesFirst_listBare {ds : List Declaration} :
    VariablesFirst (Declaration.listBare ds) ↔ VariablesFirst ds := by
  rw [Declaration.listBare_eq_map]
  constructor
  · rintro ⟨vs, ps, h, hvs, hps⟩
    obtain ⟨vars, procedures, rfl, rfl, rfl⟩ := List.map_eq_append_iff.1 h
    refine ⟨vars, procedures, rfl, fun d hd => ?_, fun d hd => ?_⟩
    · rw [← d.isVariable_bare, hvs _ (List.mem_map_of_mem hd)]
    · rw [← d.isVariable_bare, hps _ (List.mem_map_of_mem hd)]
  · rintro ⟨vars, procedures, rfl, hvars, hprocedures⟩
    refine ⟨vars.map Declaration.bare, procedures.map Declaration.bare, List.map_append, ?_, ?_⟩
    · simpa only [List.forall_mem_map, Declaration.isVariable_bare] using hvars
    · simpa only [List.forall_mem_map, Declaration.isVariable_bare] using hprocedures

mutual

theorem Declaration.writable_bare : ∀ d : Declaration, d.bare.Writable ↔ d.Writable
  | .var _ _ _                => by rw [bare, Writable, Writable]
  | .procedure _ decls body _ => by
      rw [bare, Writable, Writable, variablesFirst_listBare, listWritable_listBare decls,
        body.writable_bare]

theorem Declaration.listWritable_listBare : ∀ ds, ListWritable (listBare ds) ↔ ListWritable ds
  | []      => by rw [listBare]
  | d :: ds => by
      rw [listBare, ListWritable, ListWritable, d.writable_bare, listWritable_listBare ds]

end

theorem Program.writable_bare {p : Program} : p.bare.Writable ↔ p.Writable :=
  and_congr Iff.rfl (and_congr variablesFirst_listBare
    (and_congr (Declaration.listWritable_listBare p.block.decls) Compound.writable_bare))

/-! ### Tokens of a text derive trees with a text -/

/-- The lexeme of an identifier is a name. -/
theorem Token.WellSpelled.nameable {t : Token} (h : t.WellSpelled) (ht : t.kind = .identifier) :
    Nameable t.lexeme := by
  have hs := h.1
  rwa [ht] at hs

/-- A number of digits alone is writable. -/
theorem writable_of_ofDigits? {digits : List Char} {n : Number}
    (h : Number.ofDigits? digits = some n) : n.Writable := by
  unfold Number.ofDigits? at h
  split at h
  · next hlt =>
      cases h
      have hvalue : (Int64.ofNat (numeral digits)).toInt = numeral digits := by
        rw [← Int64.ofInt_eq_ofNat, Int64.toInt_ofInt_of_le (by omega) (by omega)]
      rw [Number.Writable, hvalue]
      exact Int.natCast_nonneg _
  · cases h

/-- A nearest number without a sign is not negative. -/
theorem Binary64.isNegative_ofScientific (coefficient : Nat) (exponent : Int) :
    (Binary64.ofScientific false coefficient exponent).isNegative = false := by
  have hnearest : ∀ n d, (Binary64.nearest false n d).isNegative = false := by
    intro n d
    unfold Binary64.nearest
    split <;> rfl
  unfold Binary64.ofScientific
  split <;> exact hnearest _ _

/-- A number with a point is writable, since it is finite and has no sign. -/
theorem writable_of_ofPointed? {whole fraction : List Char} {n : Number}
    (h : Number.ofPointed? whole fraction = some n) : n.Writable := by
  simp only [Number.ofPointed?] at h
  split at h
  · next hfinite =>
      cases h
      exact ⟨hfinite, Binary64.isNegative_ofScientific _ _⟩
  · cases h

/-- What a literal stands for is neither negative nor infinite. -/
theorem writable_of_ofLexeme? {kind : Token.Kind} {word : List Char} {n : Number}
    (h : Number.ofLexeme? kind word = some n) : n.Writable := by
  unfold Number.ofLexeme? at h
  split at h
  · exact writable_of_ofDigits? h
  · exact writable_of_ofPointed? h
  · cases h

/-- The number that a literal stands for is writable. -/
theorem Token.WellSpelled.writable_number {t : Token} (h : t.WellSpelled)
    (ht : t.kind = .integerConst ∨ t.kind = .realConst) : t.number.Writable := by
  obtain ⟨n, hn⟩ := Option.isSome_iff_exists.1 (h.2 ht)
  rw [Token.number, hn]
  exact writable_of_ofLexeme? hn

theorem Expression.Writable.combine {l r : Expression} (hl : l.Writable) (op : Operator)
    (hr : r.Writable) : (l.combine op r).Writable := ⟨hl, hr⟩

mutual

/-- What well-spelled tokens derive is writable, by recursion on the derivation; so with every rule
below. -/
theorem IsFactor.writable : ∀ {w : List Token} {e : Expression} {d : Nat}, IsFactor w e d →
    (∀ t ∈ w, t.WellSpelled) → e.Writable
  | _, _, _, .signed _ h,            hw => h.writable fun t ht => hw t (.tail _ ht)
  | _, _, _, .literal ht,            hw => (hw _ (.head _)).writable_number ht
  | _, _, _, .parenthesized _ h _,   hw =>
      isExpression_writable h fun t ht => hw t (.tail _ (List.mem_append_left _ ht))
  | _, _, _, .named ht,              hw => (hw _ (.head _)).nameable ht

theorem isTerm_writable : ∀ {w : List Token} {e : Expression} {d : Nat}, IsTerm w e d →
    (∀ t ∈ w, t.WellSpelled) → e.Writable
  | _, _, _, .one h,        hw => h.writable hw
  | _, _, _, .more hl _ hr, hw =>
      (isTerm_writable hl fun t ht => hw t (List.mem_append_left _ ht)).combine _
        (hr.writable fun t ht => hw t (List.mem_append_right _ (.tail _ ht)))

theorem isExpression_writable : ∀ {w : List Token} {e : Expression} {d : Nat},
    IsExpression w e d → (∀ t ∈ w, t.WellSpelled) → e.Writable
  | _, _, _, .one h,        hw => isTerm_writable h hw
  | _, _, _, .more hl _ hr, hw =>
      (isExpression_writable hl fun t ht => hw t (List.mem_append_left _ ht)).combine _
        (isTerm_writable hr fun t ht => hw t (List.mem_append_right _ (.tail _ ht)))

end

/-- An assignment has a name and a writable value. -/
theorem IsAssignment.writable {w : List Token} {s : Statement} {d : Nat} (h : IsAssignment w s d)
    (hw : ∀ t ∈ w, t.WellSpelled) : s.Writable := by
  obtain ⟨ht, -, h⟩ := h
  exact ⟨(hw _ (.head _)).nameable ht,
    isExpression_writable h fun t ht => hw t (.tail _ (.tail _ ht))⟩

mutual

theorem IsStatement.writable : ∀ {w : List Token} {s : Statement} {d : Nat}, IsStatement w s d →
    (∀ t ∈ w, t.WellSpelled) → s.Writable
  | _, _, _, .compound h,   hw => h.writable hw
  | _, _, _, .assignment h, hw => h.writable hw
  | _, _, _, .empty,        _  => trivial

/-- A row of statements has at least one, and each is writable. -/
theorem statements_writable : ∀ {w : List Token} {ss : List Statement} {d : Nat},
    Separated .semicolon IsStatement w ss d → (∀ t ∈ w, t.WellSpelled) →
      ss ≠ [] ∧ ∀ s ∈ ss, s.Writable
  | _, _, _, .one h,        hw =>
      ⟨List.cons_ne_nil _ _, fun s hs => by
        rw [List.mem_singleton.1 hs]
        exact h.writable hw⟩
  | _, _, _, .more h _ hv, hw => by
      obtain ⟨-, hss⟩ := statements_writable h fun t ht => hw t (List.mem_append_left _ ht)
      refine ⟨by simp, List.forall_mem_append.2 ⟨hss, List.forall_mem_singleton.2 ?_⟩⟩
      exact hv.writable fun t ht => hw t (List.mem_append_right _ (.tail _ ht))

theorem IsCompound.writable : ∀ {w : List Token} {c : Compound} {d : Nat}, IsCompound w c d →
    (∀ t ∈ w, t.WellSpelled) → c.Writable
  | _, _, _, .mk _ h _, hw => by
      obtain ⟨hne, hss⟩ :=
        statements_writable h fun t ht => hw t (.tail _ (List.mem_append_left _ ht))
      exact ⟨hne, (Statement.listWritable_iff _).2 hss⟩

end

theorem names_nameable {w : List Token} {names : List (String × Span)} {d : Nat}
    (h : Separated .comma IsName w names d) (hw : ∀ t ∈ w, t.WellSpelled) :
    ∀ n ∈ names, Nameable n.1 := by
  induction h with
  | one h =>
      obtain ⟨ht⟩ := h
      exact List.forall_mem_singleton.2 ((hw _ (.head _)).nameable ht)
  | more _ _ hv ih =>
      obtain ⟨ht⟩ := hv
      refine List.forall_mem_append.2 ⟨ih fun t ht => hw t (List.mem_append_left _ ht),
        List.forall_mem_singleton.2 ?_⟩
      exact (hw _ (List.mem_append_right _ (.tail _ (.head _)))).nameable ht

/-- A list of variables declares variables with names. -/
theorem IsVariableList.writable {w : List Token} {ds : List Declaration} (h : IsVariableList w ds)
    (hw : ∀ t ∈ w, t.WellSpelled) : ∀ d ∈ ds, d.isVariable = true ∧ d.Writable := by
  obtain ⟨h, -, -, -⟩ := h
  intro d hd
  obtain ⟨n, hn, rfl⟩ := List.mem_map.1 hd
  exact ⟨rfl, names_nameable h (fun t ht => hw t (List.mem_append_left _ ht)) n hn⟩

theorem IsVariableLists.writable {w : List Token} {ds : List Declaration}
    (h : IsVariableLists w ds) (hw : ∀ t ∈ w, t.WellSpelled) :
    ∀ d ∈ ds, d.isVariable = true ∧ d.Writable := by
  induction h with
  | one h => exact h.writable hw
  | more _ hv ih =>
      exact List.forall_mem_append.2 ⟨ih fun t ht => hw t (List.mem_append_left _ ht),
        hv.writable fun t ht => hw t (List.mem_append_right _ ht)⟩

/-- The declarations of variables are writable, and are ones of variables. -/
theorem IsVariablePart.writable {w : List Token} {ds : List Declaration} (h : IsVariablePart w ds)
    (hw : ∀ t ∈ w, t.WellSpelled) : ∀ d ∈ ds, d.isVariable = true ∧ d.Writable := by
  cases h with
  | none => exact fun _ h => nomatch h
  | some _ h => exact h.writable fun t ht => hw t (.tail _ ht)

mutual

/-- A block has its variables first, and its parts are writable. -/
theorem IsBlock.writable : ∀ {w : List Token} {b : Block} {d : Nat}, IsBlock w b d →
    (∀ t ∈ w, t.WellSpelled) → b.Writable
  | _, _, _, .mk hu hv hc, hw => by
      obtain ⟨hwu, hwvc⟩ := List.forall_mem_append.1 hw
      obtain ⟨hwv, hwc⟩ := List.forall_mem_append.1 hwvc
      have hvars := hu.writable hwu
      have hprocedures := procedures_writable hv hwv
      refine ⟨⟨_, _, rfl, fun d hd => (hvars d hd).1, fun d hd => (hprocedures d hd).1⟩,
        (Declaration.listWritable_iff _).2 (List.forall_mem_append.2
          ⟨fun d hd => (hvars d hd).2, fun d hd => (hprocedures d hd).2⟩), hc.writable hwc⟩

/-- The procedures of a block are writable, and are none of its variables. -/
theorem procedures_writable : ∀ {w : List Token} {ds : List Declaration} {d : Nat},
    Repeated IsProcedure w ds d → (∀ t ∈ w, t.WellSpelled) →
      ∀ d ∈ ds, d.isVariable = false ∧ d.Writable
  | _, _, _, .none,       _  => fun _ h => nomatch h
  | _, _, _, .more hv hp, hw =>
      List.forall_mem_append.2
        ⟨procedures_writable hv fun t ht => hw t (List.mem_append_left _ ht),
          List.forall_mem_singleton.2
            (hp.writable fun t ht => hw t (List.mem_append_right _ ht))⟩

theorem IsProcedure.writable : ∀ {w : List Token} {p : Declaration} {d : Nat}, IsProcedure w p d →
    (∀ t ∈ w, t.WellSpelled) → p.isVariable = false ∧ p.Writable
  | _, _, _, .mk _ hn _ h _, hw =>
      ⟨rfl, (hw _ (.tail _ (.head _))).nameable hn,
        h.writable fun t ht => hw t (.tail _ (.tail _ (.tail _ (List.mem_append_left _ ht))))⟩

end

/-- What well-spelled tokens derive has a text. -/
theorem IsProgram.writable {w : List Token} {p : Program} {d : Nat} (h : IsProgram w p d)
    (hw : ∀ t ∈ w, t.WellSpelled) : p.Writable := by
  obtain ⟨-, hn, -, h, -⟩ := h
  exact ⟨(hw _ (.tail _ (.head _))).nameable hn,
    h.writable fun t ht => hw t (.tail _ (.tail _ (.tail _ (List.mem_append_left _ ht))))⟩

end MiniPascal
