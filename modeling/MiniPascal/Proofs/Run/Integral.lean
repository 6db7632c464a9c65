import MiniPascal.Proofs.Bindings
import MiniPascal.Proofs.Number.Words
import MiniPascal.Proofs.Run.Fold
import MiniPascal.Report

/-!
# Proofs — Run — Integral

Programs of integers compute exactly or stop.  Beside the run over words stands an exact run over
unbounded integers, which never stops: a variable without a value counts as zero there, and a
quotient by zero is zero.  Instead it takes note of every node at which a run over words cannot go
on (`offences`): a read of a variable without a value, a division by zero, a result that is no word.
A program without reals and without `/` runs to its end, on the exact values, if there is no
offence, and it stops at the first one otherwise (`Session.runOn_integral`).
-/

namespace MiniPascal

/-! ### Exact operations -/

/-- The result of an operator on integers; `DIV` is the floor of the quotient.  A quotient `/` is no
integer, and does not occur where this is used. -/
def Operator.exact : Operator → Int → Int → Int
  | .sum,           x, y => x + y
  | .difference,    x, y => x - y
  | .product,       x, y => x * y
  | .wholeQuotient, x, y => x.fdiv y
  | .quotient,      _, _ => 0

/-- The result of a sign before an integer. -/
def Sign.exact : Sign → Int → Int
  | .plus,  x => x
  | .minus, x => -x

/-- What a result is refused for: that it is no word. -/
def wordOffence (i : Int) : Option ArithmeticFault :=
  if IsWord i then none else some .integerOverflow

/-- What an operator between two integers is refused for. -/
def Operator.offence (op : Operator) (x y : Int) : Option ArithmeticFault :=
  if op = .wholeQuotient ∧ y = 0 then some .divisionByZero else wordOffence (op.exact x y)

/-! ### The exact run -/

namespace Expression

/-- Neither a real number nor the operator `/` in it. -/
def Integral : Expression → Prop
  | .binary op l r _ => op ≠ .quotient ∧ l.Integral ∧ r.Integral
  | .unary _ e _     => e.Integral
  | .num n _         => ∃ i, n = .int i
  | .var _ _         => True

/-- The exact value of an expression. -/
def exact (s : Bindings Int) : Expression → Int
  | .binary op l r _    => op.exact (l.exact s) (r.exact s)
  | .unary op e _       => op.exact (e.exact s)
  | .num (.int i) _     => i.toInt
  | .num (.real _) _    => 0
  | .var name _         => (s.get? name).getD 0

/-- The nodes at which a run over words cannot go on, in the order of evaluation: those of the left
operand, those of the right operand, and then the node itself. -/
def offences (s : Bindings Int) : Expression → List (Located RuntimeFault)
  | .binary op l r span =>
      l.offences s ++ r.offences s ++
        (op.offence (l.exact s) (r.exact s)).toList.map (⟨.arithmetic ·, span⟩)
  | .unary op e span    =>
      e.offences s ++ (wordOffence (op.exact (e.exact s))).toList.map (⟨.arithmetic ·, span⟩)
  | .num _ _            => []
  | .var name span      => if name ∈ s.names then [] else [⟨.uninitialized name, span⟩]

end Expression

/-- The store of integers after an assignment. -/
def Assignment.exactStep (s : Bindings Int) (a : Assignment) : Bindings Int :=
  s.put a.target (a.value.exact s)

/-- The offences of assignments, each over the store that those before it have made. -/
def exactOffences (s : Bindings Int) : List Assignment → List (Located RuntimeFault)
  | []      => []
  | a :: as => a.value.offences s ++ exactOffences (a.exactStep s) as

namespace Program

/-- No assignment of the body has a real number or the operator `/` in it. -/
def Integral (p : Program) : Prop := ∀ a ∈ p.assignments, a.value.Integral

/-- The store of integers after the body. -/
def exactStore (p : Program) : Bindings Int := p.assignments.foldl Assignment.exactStep .empty

/-- The offences of the body. -/
def offences (p : Program) : List (Located RuntimeFault) := exactOffences .empty p.assignments

end Program

/-! ### What an offence is told as -/

/-- A fault that integers come to, as it is told: a real overflow is none. -/
def Located.ToldOfIntegers (fault : Located RuntimeFault) : Prop :=
  (∃ name, fault.runtimeReport = ⟨.uninitialized, name, fault.span⟩) ∨
  fault.runtimeReport = ⟨.arithmetic, "division by zero", fault.span⟩ ∨
  fault.runtimeReport = ⟨.arithmetic, "integer overflow", fault.span⟩

/-- What is wrong with a number as a word is that it overflows. -/
theorem wordOffence_cases {i : Int} {cause : ArithmeticFault} (h : wordOffence i = some cause) :
    cause = .divisionByZero ∨ cause = .integerOverflow := by
  unfold wordOffence at h
  split at h <;> cases h
  exact .inr rfl

/-- On integers an operation fails by a zero divisor or by an overflow. -/
theorem Operator.offence_cases {op : Operator} {x y : Int} {cause : ArithmeticFault}
    (h : op.offence x y = some cause) : cause = .divisionByZero ∨ cause = .integerOverflow := by
  unfold offence at h
  split at h
  · cases h
    exact .inl rfl
  · exact wordOffence_cases h

/-- What is wrong at a node is told at its span. -/
theorem toldOfIntegers_node {offence : Option ArithmeticFault} (span : Span)
    (h : ∀ cause, offence = some cause → cause = .divisionByZero ∨ cause = .integerOverflow) :
    ∀ fault ∈ offence.toList.map fun cause => (⟨.arithmetic cause, span⟩ : Located RuntimeFault),
      fault.ToldOfIntegers := by
  cases offence with
  | none => exact nofun
  | some cause =>
      refine List.forall_mem_singleton.2 (.inr ?_)
      obtain rfl | rfl := h cause rfl
      · exact .inl rfl
      · exact .inr rfl

theorem Expression.toldOfIntegers_offences (s : Bindings Int) (e : Expression) :
    ∀ fault ∈ e.offences s, fault.ToldOfIntegers := by
  induction e with
  | binary op l r span ihl ihr =>
      exact List.forall_mem_append.2 ⟨List.forall_mem_append.2 ⟨ihl, ihr⟩,
        toldOfIntegers_node span fun _ => Operator.offence_cases⟩
  | unary op e span ih =>
      exact List.forall_mem_append.2 ⟨ih, toldOfIntegers_node span fun _ => wordOffence_cases⟩
  | num n span => exact nofun
  | var name span =>
      rw [offences]
      split
      · exact nofun
      · exact List.forall_mem_singleton.2 (.inl ⟨name, rfl⟩)

/-- All that can be wrong in a row of assignments is told of integers. -/
theorem toldOfIntegers_exactOffences (as : List Assignment) : ∀ s : Bindings Int,
    ∀ fault ∈ exactOffences s as, fault.ToldOfIntegers := by
  induction as with
  | nil => exact fun _ => nofun
  | cons a as ih =>
      exact fun s => List.forall_mem_append.2 ⟨a.value.toldOfIntegers_offences s, ih _⟩

/-! ### Operations on words -/

namespace Number

/-- An integer as a number of the language. -/
def ofWord (i : Int) : Number := .int (.ofInt i)

/-- An integer as the result of an operation, unless the operation is refused. -/
def unlessRefused (offence : Option ArithmeticFault) (i : Int) : Except ArithmeticFault Number :=
  offence.elim (.ok (ofWord i)) .error

/-- A number becomes a word unless it overflows. -/
theorem ofWord?_word? (i : Int) : ofWord? (word? i) = unlessRefused (wordOffence i) i := by
  by_cases h : IsWord i
  · rw [word?_of_isWord h, wordOffence, if_pos h]
    rfl
  · rw [word?_of_not_isWord h, wordOffence, if_neg h]
    rfl

/-- On words a sign does what it does on integers, unless the result overflows. -/
theorem unary_ofWord (op : Sign) {x : Int} (hx : IsWord x) :
    unary op (ofWord x) = unlessRefused (wordOffence (op.exact x)) (op.exact x) := by
  cases op with
  | plus => rw [Sign.exact, wordOffence, if_pos hx]; rfl
  | minus => rw [ofWord, unary, toInt_ofInt hx, ofWord?_word?]; rfl

/-- On words an operator does what it does on integers, unless it is refused. -/
theorem binary_ofWord {op : Operator} (hop : op ≠ .quotient) {x y : Int} (hx : IsWord x)
    (hy : IsWord y) :
    binary op (ofWord x) (ofWord y) = unlessRefused (op.offence x y) (op.exact x y) := by
  have hplain : op ≠ .wholeQuotient → op.offence x y = wordOffence (op.exact x y) :=
    fun h => if_neg fun h' => h h'.1
  cases op with
  | sum =>
      rw [hplain nofun, ← ofWord?_word?, ofWord, ofWord, binary, arith, toInt_ofInt hx,
        toInt_ofInt hy]
      rfl
  | difference =>
      rw [hplain nofun, ← ofWord?_word?, ofWord, ofWord, binary, arith, toInt_ofInt hx,
        toInt_ofInt hy]
      rfl
  | product =>
      rw [hplain nofun, ← ofWord?_word?, ofWord, ofWord, binary, arith, toInt_ofInt hx,
        toInt_ofInt hy]
      rfl
  | wholeQuotient =>
      have hzero : Int64.ofInt y = 0 ↔ y = 0 := by rw [← toInt_eq_zero, toInt_ofInt hy]
      by_cases hy0 : y = 0
      · subst hy0
        rfl
      · have hne := mt hzero.1 hy0
        have hoffence : Operator.wholeQuotient.offence x y = wordOffence (x.fdiv y) :=
          if_neg fun h => hy0 h.2
        rw [hoffence, ofWord, ofWord, binary, isZero, beq_false_of_ne hne,
          if_neg Bool.false_ne_true, arith, floorDiv?_eq_word? hne, toInt_ofInt hx, toInt_ofInt hy,
          ofWord?_word?]
        rfl
  | quotient => exact absurd rfl hop

end Number

/-! ### The run over words -/

/-- Integers that are words, all of them. -/
def Bindings.AllWords (s : Bindings Int) : Prop := ∀ e ∈ s.entries, IsWord e.2

/-- An exact result with its offences, and what evaluation over words comes to: the result, which is
a word, if there is no offence, and the fault of the first one otherwise. -/
def Settles (x : Int) (offences : List (Located RuntimeFault))
    (outcome : Except (Located RuntimeFault) Number) : Prop :=
  match offences with
  | []         => IsWord x ∧ outcome = .ok (.ofWord x)
  | fault :: _ => outcome = .error fault

namespace Settles

/-- A node whose operands are words. -/
theorem node {x : Int} {offence : Option ArithmeticFault} (h : offence = none → IsWord x)
    (span : Span) :
    Settles x (offence.toList.map (⟨.arithmetic ·, span⟩))
      ((Number.unlessRefused offence x).mapError (⟨.arithmetic ·, span⟩)) := by
  cases offence with
  | none => exact ⟨h rfl, rfl⟩
  | some cause => exact rfl

/-- What comes after an operand comes to its end only if the operand does. -/
theorem bind {x y : Int} {front back : List (Located RuntimeFault)}
    {outcome : Except (Located RuntimeFault) Number}
    {rest : Number → Except (Located RuntimeFault) Number} (h : Settles x front outcome)
    (hrest : IsWord x → Settles y back (rest (.ofWord x))) :
    Settles y (front ++ back) (outcome >>= rest) := by
  cases front with
  | nil =>
      obtain ⟨hx, rfl⟩ := h
      exact hrest hx
  | cons fault more =>
      obtain rfl : outcome = .error fault := h
      exact rfl

end Settles

theorem isWord_of_wordOffence {x : Int} (h : wordOffence x = none) : IsWord x := by
  by_contra hx
  rw [wordOffence, if_neg hx] at h
  cases h

theorem Operator.isWord_of_offence {op : Operator} {x y : Int} (h : op.offence x y = none) :
    IsWord (op.exact x y) := by
  unfold offence at h
  split at h
  · cases h
  · exact isWord_of_wordOffence h

/-- **An expression of integers has its exact value, or the fault of its first offence.** -/
theorem Expression.eval_integral {s : Bindings Int} (hs : s.AllWords) {e : Expression}
    (he : e.Integral) : Settles (e.exact s) (e.offences s) (e.eval (s.map Number.ofWord)) := by
  induction e with
  | num n span =>
      obtain ⟨i, rfl⟩ := he
      exact ⟨isWord_toInt i, by rw [eval, exact, Number.ofWord, Int64.ofInt_toInt]⟩
  | var name span =>
      rw [offences, exact, eval, Bindings.get?_map]
      by_cases hname : name ∈ s.names
      · obtain ⟨i, hi⟩ := Bindings.mem_names_iff.1 hname
        rw [if_pos hname, hi]
        exact ⟨hs _ (Bindings.mem_of_get? hi), rfl⟩
      · rw [if_neg hname, Bindings.get?_eq_none hname]
        exact rfl
  | unary op e span ih =>
      rw [offences, exact, eval]
      refine (ih he).bind fun hx => ?_
      rw [Number.unary_ofWord op hx]
      exact .node isWord_of_wordOffence span
  | binary op l r span ihl ihr =>
      obtain ⟨hop, hl, hr⟩ := he
      rw [offences, exact, eval, List.append_assoc]
      refine (ihl hl).bind fun hx => (ihr hr).bind fun hy => ?_
      rw [Number.binary_ofWord hop hx hy]
      exact .node Operator.isWord_of_offence span

/-- Assigning a word keeps all values words. -/
theorem Bindings.AllWords.exactStep {s : Bindings Int} (hs : s.AllWords) {a : Assignment}
    (ha : IsWord (a.value.exact s)) : (a.exactStep s).AllWords :=
  forall_put hs ha

/-- Assignments of integers run as they do exactly, up to the first offence. -/
theorem forM_integral {as : List Assignment} (has : ∀ a ∈ as, a.value.Integral) :
    ∀ {s : Bindings Int} (journal : Array Event), s.AllWords →
      match exactOffences s as, (forM as Exec.perform : Exec Unit) ⟨s.map .ofWord, journal⟩ with
      | [],         .ok _ m        => (as.foldl Assignment.exactStep s).AllWords ∧
          m.store = (as.foldl Assignment.exactStep s).map .ofWord
      | fault :: _, .error fault' _ => fault' = fault
      | _,          _              => False := by
  induction as with
  | nil => exact fun _ hs => ⟨hs, rfl⟩
  | cons a as ih =>
      intro s journal hs
      obtain ⟨ha, has⟩ := List.forall_mem_cons.1 has
      have hvalue := Expression.eval_integral hs ha
      rw [exactOffences, List.forM_cons, List.foldl_cons]
      cases hoffences : a.value.offences s with
      | cons fault more =>
          -- The exact run goes on from here, but what it takes note of stands behind `fault`.
          rw [hoffences] at hvalue
          have hfault : a.value.eval (s.map .ofWord) = .error fault := hvalue
          rw [bind_of_error (Exec.perform_of_fault hfault)]
          exact rfl
      | nil =>
          rw [hoffences] at hvalue
          obtain ⟨hword, heval⟩ := hvalue
          rw [bind_of_ok (Exec.perform_of_eval heval)]
          dsimp only
          rw [← Bindings.map_put]
          exact ih has _ (hs.exactStep hword)

/-- **Programs of integers compute exactly or stop.**  A program without reals and without `/`, run
on an empty store, stops at its first offence against the exact run, with the fault and the place of
that offence, which is told as a variable without a value, a division by zero or an integer
overflow.  If there is none, it runs to its end, and each variable has its exact value, which is a
word.  Inside, no operation on words overflows that is not refused. -/
theorem Session.runOn_integral {p : Program} (h : p.Integral) :
    (runOn .empty p).1 = p.offences.head? ∧ (∀ fault ∈ p.offences, fault.ToldOfIntegers) ∧
    (p.offences = [] → (∀ e ∈ p.exactStore.entries, IsWord e.2) ∧
      (runOn .empty p).2.entries =
        p.exactStore.entries.map fun e => (e.1, .int (.ofInt e.2))) ∧
    ∀ a b : Int64, guardedFloorDiv a b = some (floorDiv? a b) := by
  have hrun := forM_integral h #[] (s := .empty) nofun
  have hempty : (Bindings.empty : Bindings Int).map Number.ofWord = .empty := rfl
  rw [hempty, ← p.exec_eq_forM] at hrun
  rw [Program.offences, runOn, Program.exactStore]
  cases hoffences : exactOffences .empty p.assignments <;>
    cases hexec : p.exec ⟨.empty, #[]⟩ <;> rw [hoffences, hexec] at hrun
  · obtain ⟨hwords, hstore⟩ := hrun
    refine ⟨rfl, nofun, fun _ => ⟨hwords, ?_⟩, guardedFloorDiv_eq⟩
    dsimp only
    rw [hstore]
    rfl
  · exact hrun.elim
  · exact hrun.elim
  · obtain rfl := hrun
    exact ⟨rfl, hoffences ▸ toldOfIntegers_exactOffences p.assignments .empty, nofun,
      guardedFloorDiv_eq⟩

/-- The statements `a := -7 DIV 2; b := -9223372036854775807 - 1`, and more behind them. -/
def extremes (more : List Statement) : Program :=
  let seven := .unary .minus (.num (.int 7) ⟨22, 1⟩) ⟨21, 2⟩
  let greatest := .unary .minus (.num (.int Int64.maxValue) ⟨38, 19⟩) ⟨37, 20⟩
  ⟨"T", ⟨[], ⟨[.assign "a" ⟨16, 1⟩ (.binary .wholeQuotient seven (.num (.int 2) ⟨28, 1⟩) ⟨21, 8⟩)
      ⟨16, 13⟩,
    .assign "b" ⟨31, 1⟩ (.binary .difference greatest (.num (.int 1) ⟨60, 1⟩) ⟨37, 24⟩) ⟨32, 29⟩] ++
      more, ⟨10, 60⟩⟩⟩, ⟨0, 71⟩⟩

/-- `c := b DIV -1`. -/
def leastNegated : Statement :=
  .assign "c" ⟨63, 1⟩ (.binary .wholeQuotient (.var "b" ⟨68, 1⟩)
    (.unary .minus (.num (.int 1) ⟨75, 1⟩) ⟨74, 2⟩) ⟨68, 8⟩) ⟨63, 13⟩

/-- The floor is taken of a negative quotient and the least word is reached, but not its opposite.
-/
theorem Session.runOn_integral_example :
    ((extremes []).Integral ∧ (runOn .empty (extremes [])).1 = none ∧
      (runOn .empty (extremes [])).2.entries = [("a", .int (-4)), ("b", .int Int64.minValue)]) ∧
    ((extremes [leastNegated]).Integral ∧ (runOn .empty (extremes [leastNegated])).1 =
      some ⟨.arithmetic .integerOverflow, ⟨68, 8⟩⟩) := by
  have hend : (extremes []).Integral := by
    simp [Program.Integral, Program.assignments, extremes, Statement.listAssignments,
      Statement.assignments, Expression.Integral]
  have hstop : (extremes [leastNegated]).Integral := by
    simp [Program.Integral, Program.assignments, extremes, Statement.listAssignments,
      Statement.assignments, Expression.Integral, leastNegated]
  refine ⟨⟨hend, (runOn_integral hend).1.trans ?_, ((runOn_integral hend).2.2.1 ?_).2.trans ?_⟩,
    hstop, (runOn_integral hstop).1.trans ?_⟩
  · rfl
  · rfl
  · rfl
  · rfl

end MiniPascal
