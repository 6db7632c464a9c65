import MiniPascal.Proofs.Bindings
import MiniPascal.Proofs.Run.Effect
import MiniPascal.Proofs.Run.Evaluation

/-!
# Proofs — Run — Kinds

Whether a result is an integer or a real is known without its value.  A sign keeps the kind of its
operand, `/` makes a real, and the other operators make an integer of two integers and a real of
everything else; so the kind of an expression follows from the kinds of the variables in it
(`Expression.kindOver?`).  A value has the kind so inferred (`Expression.kindOver?_of_eval`), and an
assignment does to the kinds of the store what it does to the store (`Store.kindStep_of_assign`).
Hence the kinds that a run leaves are those of a run over kinds alone, in which the types of the
declarations do not occur (`Session.runOn_kinds`).
-/

namespace MiniPascal

/-! ### Kinds -/

/-- The two kinds of numbers. -/
inductive NumericKind where
  | integer
  | real
deriving DecidableEq, Repr

/-- The kind of a number. -/
def Number.numericKind : Number → NumericKind
  | .int _  => .integer
  | .real _ => .real

/-- The kind that an operator makes of the kinds of its operands. -/
def Operator.resultKind : Operator → NumericKind → NumericKind → NumericKind
  | .quotient, _,        _        => .real
  | _,         .integer, .integer => .integer
  | _,         _,        _        => .real

/-- The kind of an expression over the kinds of variables; there is none if one of its variables has
none. -/
def Expression.kindOver? (kinds : Bindings NumericKind) : Expression → Option NumericKind
  | .num n _         => some n.numericKind
  | .var name _      => kinds.get? name
  | .unary _ e _     => e.kindOver? kinds
  | .binary op l r _ => do
      let a ← l.kindOver? kinds
      let b ← r.kindOver? kinds
      return op.resultKind a b

/-- The kinds of variables after an assignment. -/
def Assignment.kindStep (kinds : Bindings NumericKind) (a : Assignment) :
    Option (Bindings NumericKind) :=
  (a.value.kindOver? kinds).map (kinds.put a.target)

/-- The kinds of the values in a store. -/
def Store.kinds (s : Store) : Bindings NumericKind := s.map Number.numericKind

/-! ### Operations -/

namespace Number

variable {a b n : Number}

theorem numericKind_of_ofWord? {w : Option Int64} (h : ofWord? w = .ok n) :
    n.numericKind = .integer := by
  cases w <;> cases h
  rfl

theorem numericKind_of_ofReal? {x : Binary64} (h : ofReal? x = .ok n) : n.numericKind = .real := by
  unfold ofReal? at h
  split at h <;> cases h
  rfl

/-- An operation that promotes makes an integer of two integers, and a real of everything else. -/
theorem numericKind_of_arith {words : Int64 → Int64 → Option Int64}
    {reals : Binary64 → Binary64 → Binary64} {op : Operator} (hop : op ≠ .quotient)
    (h : arith words reals a b = .ok n) :
    n.numericKind = op.resultKind a.numericKind b.numericKind := by
  unfold arith at h
  split at h
  · next i j =>
      have hresult : op.resultKind .integer .integer = .integer := by
        cases op <;> first | rfl | exact absurd rfl hop
      exact (numericKind_of_ofWord? h).trans hresult.symm
  · next hints =>
      have hresult : op.resultKind a.numericKind b.numericKind = .real := by
        cases a with
        | real x => cases op <;> rfl
        | int i =>
            cases b with
            | real y => cases op <;> rfl
            | int j => exact (hints i j rfl rfl).elim
      exact (numericKind_of_ofReal? h).trans hresult.symm

/-- **The kind of a result follows from the kinds of the operands.** -/
theorem numericKind_of_binary {op : Operator} (h : binary op a b = .ok n) :
    n.numericKind = op.resultKind a.numericKind b.numericKind := by
  cases op with
  | sum => exact numericKind_of_arith nofun h
  | difference => exact numericKind_of_arith nofun h
  | product => exact numericKind_of_arith nofun h
  | wholeQuotient =>
      rw [binary] at h
      split at h
      · cases h
      · exact numericKind_of_arith nofun h
  | quotient =>
      rw [binary] at h
      split at h
      · cases h
      · exact numericKind_of_ofReal? h

/-- A sign keeps the kind. -/
theorem numericKind_of_unary {op : Sign} (h : unary op a = .ok n) :
    n.numericKind = a.numericKind := by
  cases op with
  | plus =>
      cases h
      rfl
  | minus =>
      cases a with
      | int i => exact numericKind_of_ofWord? h
      | real x =>
          cases h
          rfl

end Number

/-! ### Expressions and assignments -/

variable {s s' : Store}

/-- **A value has the kind that is inferred for its expression.** -/
theorem Expression.kindOver?_of_eval {e : Expression} {n : Number} (h : e.eval s = .ok n) :
    e.kindOver? s.kinds = some n.numericKind := by
  induction e generalizing n with
  | num m span =>
      cases h
      rfl
  | var name span =>
      rw [eval] at h
      cases hname : s.get? name <;> rw [hname] at h <;> cases h
      rw [kindOver?, Store.kinds, Bindings.get?_map, hname, Option.map_some]
  | unary op e span ih =>
      obtain ⟨a, ha, hn⟩ := eval_unary_eq_ok.1 h
      rw [kindOver?, ih ha, Number.numericKind_of_unary hn]
  | binary op l r span ihl ihr =>
      obtain ⟨a, b, ha, hb, hn⟩ := eval_binary_eq_ok.1 h
      rw [kindOver?, ihl ha, ihr hb, Number.numericKind_of_binary hn]
      rfl

namespace Store

/-- An assignment does to the kinds of a store what it does to the store. -/
theorem kindStep_of_assign {a : Assignment} (h : s.assign a = .ok s') :
    a.kindStep s.kinds = some s'.kinds := by
  obtain ⟨n, hvalue, rfl⟩ := exists_value_of_assign h
  rw [Assignment.kindStep, Expression.kindOver?_of_eval hvalue, Option.map_some, kinds, kinds,
    Bindings.map_put]

/-- Assignments in a row do, too. -/
theorem kinds_of_foldlM {as : List Assignment} (h : as.foldlM assign s = .ok s') :
    as.foldlM Assignment.kindStep s.kinds = some s'.kinds := by
  induction as generalizing s with
  | nil =>
      cases h
      rfl
  | cons a as ih =>
      rw [List.foldlM_cons] at h ⊢
      obtain ⟨s₁, hassign, h⟩ := outcome_bind_eq_ok.1 h
      rw [kindStep_of_assign hassign]
      exact ih h

/-- The target of an assignment gets a value of the kind that is inferred for its expression. -/
theorem kind_of_target {a : Assignment} (h : s.assign a = .ok s') :
    ∃ n, s'.get? a.target = some n ∧ a.value.kindOver? s.kinds = some n.numericKind := by
  obtain ⟨n, hvalue, rfl⟩ := exists_value_of_assign h
  refine ⟨n, ?_, Expression.kindOver?_of_eval hvalue⟩
  rw [Bindings.get?_put, if_pos rfl]

end Store

/-! ### Runs -/

/-- Programs with the same assignments have the same run, whatever they declare. -/
theorem Session.runOn_congr {p q : Program} (h : q.assignments = p.assignments) (s : Store) :
    runOn s q = runOn s p := by
  rw [runOn_eq, runOn_eq, Program.effectOn, Program.effectOn, h]

/-- What a run behind a check of names leaves is what a run on the empty store leaves. -/
theorem Run.store_of_ofProgram {p : Program} {remains : Remains}
    (h : (ofProgram p).result = .ok remains) : remains.store = (Session.runOn .empty p).2 := by
  cases hcheck : p.check with
  | error fault scope =>
      rw [ofProgram, hcheck] at h
      cases h
  | ok _ scope =>
      rw [ofProgram_eq hcheck] at h
      rw [Session.runOn_eq]
      cases hfault : (p.effectOn .empty).fault <;> rw [hfault] at h <;> cases h
      rfl

/-- **The kinds of results are known without their values.**  After each assignment that a run
performs, on whatever store it starts, the target has a value of the kind that the kinds before it
let expect.  The kinds of all variables in the store that the run leaves, at its end or at a fault,
are those of a run over kinds alone of the assignments that were performed: all of them, or those
before the one whose expression has no value.  Nothing of this depends on the declarations: a
program with the same assignments has the same run, alone or behind a check of its names. -/
theorem Session.runOn_kinds (p : Program) (s : Store) :
    (∀ done a rest s₁ s₂, p.assignments = done ++ a :: rest →
      done.foldlM Store.assign s = .ok s₁ → s₁.assign a = .ok s₂ →
      ∃ n, s₂.get? a.target = some n ∧ a.value.kindOver? s₁.kinds = some n.numericKind) ∧
    (∃ done rest, p.assignments = done ++ rest ∧
      done.foldlM Store.assign s = .ok (runOn s p).2 ∧
      done.foldlM Assignment.kindStep s.kinds = some (runOn s p).2.kinds ∧
      ((runOn s p).1 = none ∧ rest = [] ∨
        ∃ a more fault, rest = a :: more ∧ a.value.eval (runOn s p).2 = .error fault ∧
          (runOn s p).1 = some fault)) ∧
    ∀ q : Program, q.assignments = p.assignments →
      runOn s q = runOn s p ∧
      ∀ remains, (Run.ofProgram q).result = .ok remains →
        remains.store = (runOn .empty p).2 := by
  refine ⟨fun _ _ _ _ _ _ _ hassign => Store.kind_of_target hassign, ?_, fun q hq => ?_⟩
  · obtain ⟨fault, s', hrun⟩ : ∃ fault s', runOn s p = (fault, s') := ⟨_, _, rfl⟩
    have hfolds := folds_runOn s p
    rw [hrun] at hfolds ⊢
    cases hfolds with
    | toEnd h =>
        exact ⟨_, [], (List.append_nil _).symm, h, Store.kinds_of_foldlM h, .inl ⟨rfl, rfl⟩⟩
    | toFault has h hfault =>
        exact ⟨_, _, has, h, Store.kinds_of_foldlM h, .inr ⟨_, _, _, rfl, hfault, rfl⟩⟩
  · refine ⟨runOn_congr hq s, fun remains hremains => ?_⟩
    rw [Run.store_of_ofProgram hremains, runOn_congr hq]

/-- `x := 1` in a compound of its own, `y := x / 4` and `x := y`, behind declarations. -/
def promoting (decls : List Declaration) : Program where
  name  := "T"
  block :=
    ⟨decls, ⟨[.compound [.assign "x" ⟨54, 1⟩ (.num (.int 1) ⟨59, 1⟩) ⟨54, 6⟩] ⟨48, 16⟩,
      .assign "y" ⟨66, 1⟩
        (.binary .quotient (.var "x" ⟨71, 1⟩) (.num (.int 4) ⟨75, 1⟩) ⟨71, 5⟩) ⟨66, 10⟩,
      .assign "x" ⟨78, 1⟩ (.var "y" ⟨83, 1⟩) ⟨78, 6⟩], ⟨42, 46⟩⟩⟩
  span  := ⟨0, 89⟩

theorem runOn_kinds_example :
    let p := promoting [.var "x" .integer ⟨15, 12⟩, .var "y" .integer ⟨29, 12⟩]
    let s₁ : Store := ⟨[("x", .int 1)]⟩
    (∃ s₂ n, s₁.assign ⟨"y", .binary .quotient (.var "x" ⟨71, 1⟩) (.num (.int 4) ⟨75, 1⟩) ⟨71, 5⟩⟩
        = .ok s₂ ∧ s₂.get? "y" = some n ∧ n.numericKind = .real) ∧
      Session.runOn .empty (promoting []) = Session.runOn .empty p ∧
      ∃ remains, (Run.ofProgram p).result = .ok remains ∧
        remains.store = (Session.runOn .empty p).2 ∧
        remains.store.kinds = ⟨[("x", .real), ("y", .real)]⟩ := by
  intro p s₁
  obtain ⟨htarget, -, hsame⟩ := Session.runOn_kinds p .empty
  obtain ⟨s₂, hs₂⟩ : ∃ s₂, s₁.assign ⟨"y", .binary .quotient (.var "x" ⟨71, 1⟩)
      (.num (.int 4) ⟨75, 1⟩) ⟨71, 5⟩⟩ = .ok s₂ :=
    ⟨s₁.put "y" (.real (.finite false ⟨1021 * binade, by decide⟩)), by decide +kernel⟩
  obtain ⟨n, hn, hkind⟩ := htarget [⟨"x", .num (.int 1) ⟨59, 1⟩⟩] _ _ s₁ s₂ rfl rfl hs₂
  have hends : (Run.ofProgram p).result.toOption.map (·.store.kinds) =
      some ⟨[("x", .real), ("y", .real)]⟩ := by
    decide +kernel
  cases hresult : (Run.ofProgram p).result with
  | error fault =>
      rw [hresult] at hends
      cases hends
  | ok remains =>
      rw [hresult] at hends
      exact ⟨⟨s₂, n, hs₂, hn, (Option.some.inj hkind).symm⟩, (hsame (promoting []) rfl).1, remains,
        rfl, (hsame p rfl).2 remains hresult, Option.some.inj hends⟩

end MiniPascal
