import MiniPascal.Proofs.Bindings
import MiniPascal.Proofs.Json.Number
import MiniPascal.Proofs.Run.Evaluation
import MiniPascal.Proofs.Run.Passes
import MiniPascal.Proofs.Run.Source

/-!
# Proofs — Run — Finite

No infinity, and nothing that is not a number, gets into the store.  The literals of a text are
finite, every operation between numbers is checked, and the one that is not, the sign, keeps a
finite number finite; so a store with finite numbers only leads to such stores
(`Store.Finite.assign`).  All stores that a session of texts passes are therefore finite, and their
values are written as JSON numbers (`Session.run_finite`).
-/

namespace MiniPascal

/-! ### Numbers -/

/-- An integer, or a real that is finite. -/
def Number.Finite : Number → Prop
  | .int _  => True
  | .real x => x.isFinite = true

/-- A sign does not bear on whether a real is finite. -/
theorem Binary64.isFinite_neg (x : Binary64) : x.neg.isFinite = x.isFinite := by
  cases x <;> rfl

namespace Number

variable {a b n : Number}

/-- A number that can be written is finite. -/
theorem Writable.finite (h : n.Writable) : n.Finite := by
  cases n with
  | int i => trivial
  | real x => exact h.1

/-- A sign keeps a finite number finite. -/
theorem finite_of_unary {op : Sign} (ha : a.Finite) (h : unary op a = .ok n) : n.Finite := by
  cases op with
  | plus =>
      cases h
      exact ha
  | minus =>
      cases a with
      | int i =>
          rw [unary] at h
          cases hw : word? (-i.toInt) <;> rw [hw] at h <;> cases h
          trivial
      | real x =>
          cases h
          rwa [Finite, Binary64.isFinite_neg]

theorem finite_of_ofWord? {w : Option Int64} (h : ofWord? w = .ok n) : n.Finite := by
  cases w <;> cases h
  trivial

/-- What is accepted as a real is finite. -/
theorem finite_of_ofReal? {x : Binary64} (h : ofReal? x = .ok n) : n.Finite := by
  unfold ofReal? at h
  split at h
  · next hx =>
      cases h
      exact hx
  · cases h

/-- Arithmetic yields finite numbers, or none. -/
theorem finite_of_arith {words : Int64 → Int64 → Option Int64}
    {reals : Binary64 → Binary64 → Binary64} (h : arith words reals a b = .ok n) : n.Finite := by
  unfold arith at h
  split at h
  · exact finite_of_ofWord? h
  · exact finite_of_ofReal? h

/-- The result of an operator is finite, whatever its operands are. -/
theorem finite_of_binary {op : Operator} (h : binary op a b = .ok n) : n.Finite := by
  cases op with
  | sum => exact finite_of_arith h
  | difference => exact finite_of_arith h
  | product => exact finite_of_arith h
  | wholeQuotient =>
      rw [binary] at h
      split at h
      · cases h
      · exact finite_of_arith h
  | quotient =>
      rw [binary] at h
      split at h
      · cases h
      · exact finite_of_ofReal? h

/-- A finite number is written as a JSON number. -/
theorem Finite.isNumber (h : n.Finite) (style : Json.Style) (depth : Nat) :
    Json.IsNumber (n.plainJson.render style depth).toList := by
  cases n with
  | int i =>
      rw [plainJson, Json.render]
      exact Json.isNumber_intText _
  | real x =>
      rw [plainJson, Json.render]
      exact Json.isNumber_realText h

/-- The zeros are the integer and the reals of either sign. -/
theorem isZero_iff :
    n.isZero = true ↔ n = .int 0 ∨ n = .real (.zero false) ∨ n = .real (.zero true) := by
  constructor
  · intro h
    cases n with
    | int i => exact .inl (congrArg _ (eq_of_beq h))
    | real x =>
        cases x with
        | nan => cases h
        | infinite => cases h
        | finite s m =>
            obtain rfl : m = ⟨0, by decide⟩ := Fin.ext (eq_of_beq h)
            cases s with
            | false => exact .inr (.inl rfl)
            | true => exact .inr (.inr rfl)
  · rintro (rfl | rfl | rfl) <;> rfl

/-- No number is divided by zero. -/
theorem binary_of_isZero {op : Operator} (hop : op = .wholeQuotient ∨ op = .quotient)
    (hb : b.isZero = true) : binary op a b = .error .divisionByZero := by
  obtain rfl | rfl := hop <;> rw [binary, if_pos hb]

end Number

/-! ### Stores -/

/-- A store without infinities and without what is not a number. -/
def Store.Finite (s : Store) : Prop := ∀ e ∈ s.entries, e.2.Finite

variable {s s' : Store}

/-- Over a finite store, what is written in a text has a finite value. -/
theorem Expression.finite_of_eval (hs : s.Finite) {e : Expression} (he : e.Writable) {n : Number}
    (h : e.eval s = .ok n) : n.Finite := by
  induction e generalizing n with
  | num m span =>
      cases h
      exact he.finite
  | var name span =>
      rw [eval] at h
      cases hname : s.get? name <;> rw [hname] at h <;> cases h
      exact hs _ (Bindings.mem_of_get? hname)
  | unary op e span ih =>
      obtain ⟨a, ha, hn⟩ := eval_unary_eq_ok.1 h
      exact Number.finite_of_unary (ih he ha) hn
  | binary op l r span ihl ihr =>
      obtain ⟨a, b, -, -, hn⟩ := eval_binary_eq_ok.1 h
      exact Number.finite_of_binary hn

/-- **An assignment that is written in a text keeps the store finite.** -/
theorem Store.Finite.assign (hs : s.Finite) {a : Assignment} (ha : a.Writable)
    (h : s.assign a = .ok s') : s'.Finite := by
  obtain ⟨n, hvalue, rfl⟩ := exists_value_of_assign h
  exact Bindings.forall_put hs (Expression.finite_of_eval hs ha.2 hvalue)

/-! ### Divisions by zero -/

section Division

variable {l r : Expression} {op : Operator} {span : Span} {z : Number}

/-- A division whose divisor is zero is at fault if the dividend is not. -/
theorem Expression.eval_division (hop : op = .wholeQuotient ∨ op = .quotient) (hz : z.isZero = true)
    (hr : r.eval s = .ok z) {n : Number} (hl : l.eval s = .ok n) :
    (binary op l r span).eval s = .error ⟨.arithmetic .divisionByZero, span⟩ :=
  eval_binary_eq_error.2 (.inr (.inr
    ⟨n, z, .divisionByZero, hl, hr, Number.binary_of_isZero hop hz, rfl⟩))

/-- An assignment with a division whose divisor is zero is not performed. -/
theorem Store.assign_division (hop : op = .wholeQuotient ∨ op = .quotient) (hz : z.isZero = true)
    (hr : r.eval s = .ok z) {a : Assignment} (ha : (Expression.binary op l r span).IsPart a.value) :
    ∃ fault, s.assign a = .error fault := by
  have hdivision : ∃ fault, (Expression.binary op l r span).eval s = .error fault := by
    cases hl : l.eval s with
    | error fault => exact ⟨fault, Expression.eval_binary_eq_error.2 (.inl hl)⟩
    | ok n => exact ⟨_, Expression.eval_division hop hz hr hl⟩
  obtain ⟨fault, hfault⟩ := Expression.exists_fault_of_part ha hdivision
  exact ⟨fault, assign_of_fault hfault⟩

end Division

/-! ### Sessions of texts -/

namespace Session

/-- The programs that texts are read as; a text that is not read is left out. -/
def programs (texts : List String) : List Program :=
  texts.filterMap fun text => (Program.read text).toOption

theorem programs_of_read {source : String} {p : Program} (h : Program.read source = .ok p) :
    programs [source] = [p] := by
  rw [programs, List.filterMap_cons, h]
  rfl

/-- Programs that are read are writable. -/
theorem writable_of_mem_programs {texts : List String} {p : Program} (h : p ∈ programs texts) :
    p.Writable := by
  obtain ⟨text, -, htext⟩ := List.mem_filterMap.1 h
  cases hread : Program.read text with
  | error fault =>
      rw [hread] at htext
      cases htext
  | ok q =>
      rw [hread] at htext
      cases htext
      exact Program.writable_of_read hread

/-- A session of texts passes finite stores only. -/
theorem Passes.finite {texts : List String} (h : Passes .empty (programs texts) s) : s.Finite :=
  h.invariant (fun _ hp _ ha _ _ hs hassign =>
    hs.assign (Program.writable_assignments (writable_of_mem_programs hp) _ ha) hassign) nofun

/-- The stores that the texts of a session leave are passed. -/
theorem passes_of_mem_run {texts : List String} {fault : Option (Located RuntimeFault)}
    (h : .ran fault s ∈ (run .empty texts).1) : Passes .empty (programs texts) s := by
  refine passes_of_mem_outcomes (o := (fault, s)) ?_
  rw [programs, ← filterMap_run]
  exact List.mem_filterMap.2 ⟨_, h, rfl⟩

/-- **No infinity and nothing that is not a number reaches the store.**  Every real in a store that
a session of texts passes is finite, and every value in it is written as a JSON number; what the
texts leave is among these stores.  A division by a zero of any kind and sign is at fault, over any
store, and an assignment with such a division in it is not performed. -/
theorem run_finite (texts : List String) :
    (∀ s, Passes .empty (programs texts) s →
      ∀ e ∈ s.entries, (∀ x, e.2 = .real x → x.isFinite = true) ∧
        ∀ style depth, Json.IsNumber (e.2.plainJson.render style depth).toList) ∧
    (∀ fault s, .ran fault s ∈ (run .empty texts).1 → Passes .empty (programs texts) s) ∧
    ∀ (s : Store) op l r span z, op = .wholeQuotient ∨ op = .quotient → r.eval s = .ok z →
      z = .int 0 ∨ z = .real (.zero false) ∨ z = .real (.zero true) →
        (∀ n, l.eval s = .ok n →
          (Expression.binary op l r span).eval s = .error ⟨.arithmetic .divisionByZero, span⟩) ∧
        ∀ a : Assignment, (Expression.binary op l r span).IsPart a.value →
          ∃ fault, s.assign a = .error fault := by
  refine ⟨fun s h e he => ⟨?_, ?_⟩, fun _ _ h => passes_of_mem_run h, ?_⟩
  · intro x hx
    have hfinite := h.finite e he
    rwa [hx] at hfinite
  · exact (h.finite e he).isNumber
  · intro s op l r span z hop hr hz
    have hz := Number.isZero_iff.2 hz
    exact ⟨fun _ hl => Expression.eval_division hop hz hr hl,
      fun _ ha => Store.assign_division hop hz hr ha⟩

/-- A text whose first quotient is stored and whose second one is not. -/
def quarterSource : String := "PROGRAM T; BEGIN x := 1 / 4; y := 1 / (x - x) END."

/-- `x := 1 / 4`. -/
def quarter : Assignment :=
  ⟨"x", .binary .quotient (.num (.int 1) ⟨22, 1⟩) (.num (.int 4) ⟨26, 1⟩) ⟨22, 5⟩⟩

/-- `y := 1 / (x - x)`. -/
def unbounded : Assignment :=
  ⟨"y", .binary .quotient (.num (.int 1) ⟨34, 1⟩)
    (.binary .difference (.var "x" ⟨39, 1⟩) (.var "x" ⟨43, 1⟩) ⟨39, 5⟩) ⟨34, 10⟩⟩

/-- The store between the two. -/
def quarterStore : Store := ⟨[("x", .real (.finite false ⟨1021 * binade, by decide⟩))]⟩

theorem passes_quarterStore : Passes .empty (programs [quarterSource]) quarterStore := by
  have hs : scan quarterSource = .ok
      [⟨.programWord, "PROGRAM", ⟨0, 7⟩⟩, ⟨.identifier, "T", ⟨8, 1⟩⟩, ⟨.semicolon, ";", ⟨9, 1⟩⟩,
        ⟨.beginWord, "BEGIN", ⟨11, 5⟩⟩, ⟨.identifier, "x", ⟨17, 1⟩⟩, ⟨.assign, ":=", ⟨19, 2⟩⟩,
        ⟨.integerConst, "1", ⟨22, 1⟩⟩, ⟨.slash, "/", ⟨24, 1⟩⟩, ⟨.integerConst, "4", ⟨26, 1⟩⟩,
        ⟨.semicolon, ";", ⟨27, 1⟩⟩, ⟨.identifier, "y", ⟨29, 1⟩⟩, ⟨.assign, ":=", ⟨31, 2⟩⟩,
        ⟨.integerConst, "1", ⟨34, 1⟩⟩, ⟨.slash, "/", ⟨36, 1⟩⟩, ⟨.leftParen, "(", ⟨38, 1⟩⟩,
        ⟨.identifier, "x", ⟨39, 1⟩⟩, ⟨.minus, "-", ⟨41, 1⟩⟩, ⟨.identifier, "x", ⟨43, 1⟩⟩,
        ⟨.rightParen, ")", ⟨44, 1⟩⟩, ⟨.endWord, "END", ⟨46, 3⟩⟩, ⟨.dot, ".", ⟨49, 1⟩⟩,
        .eof 50] := by decide +kernel
  have hread : ∃ p, Program.read quarterSource = .ok p ∧ p.assignments = [quarter, unbounded] := by
    rw [Program.read, results_of_scan hs]
    exact ⟨_, rfl, rfl⟩
  obtain ⟨p, hp, hassignments⟩ := hread
  have hquarter : Store.assign .empty quarter = .ok quarterStore := by decide +kernel
  rw [programs_of_read hp]
  refine .within ⟨[quarter], ⟨[unbounded], hassignments.symm⟩, ?_⟩
  rw [List.foldlM_cons, hquarter]
  rfl

theorem run_finite_example :
    Passes .empty (programs [quarterSource]) quarterStore ∧
      (∀ e ∈ quarterStore.entries, (∀ x, e.2 = .real x → x.isFinite = true) ∧
        ∀ style depth, Json.IsNumber (e.2.plainJson.render style depth).toList) ∧
      ∃ fault, quarterStore.assign unbounded = .error fault := by
  obtain ⟨hfinite, -, hdivision⟩ := run_finite [quarterSource]
  have hzero : (Expression.binary .difference (.var "x" ⟨39, 1⟩) (.var "x" ⟨43, 1⟩) ⟨39, 5⟩).eval
      quarterStore = .ok (.real (.zero false)) := by
    decide +kernel
  exact ⟨passes_quarterStore, hfinite _ passes_quarterStore,
    (hdivision _ _ _ _ _ _ (.inr rfl) hzero (.inr (.inl rfl))).2 unbounded .self⟩

end Session

end MiniPascal
