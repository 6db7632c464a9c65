import MiniPascal.Proofs.Sequence
import MiniPascal.Run

/-!
# Proofs — Run — Fold

Running a program is a left fold over its assignments.  `Program.assignments` lists them in the
order of the text: compounds are taken apart, and empty statements and declarations left out.  The
run of a tree is the run of that list (`Program.exec_eq_forM`), and a list is run up to its first
assignment whose expression has no value, which leaves no trace (`forM_perform`).  In a session each
program starts from the store that the one before it left, however that one ended
(`Session.outcomes_fold`).
-/

namespace MiniPascal

/-! ### Assignments -/

/-- A target and the expression whose value it is given. -/
structure Assignment where
  target : String
  value  : Expression

mutual

/-- The assignments of a statement, those of nested compounds in their place. -/
def Statement.assignments : Statement → List Assignment
  | .compound ss _           => Statement.listAssignments ss
  | .assign target _ value _ => [⟨target, value⟩]
  | .noop                    => []

/-- The assignments of statements in order. -/
def Statement.listAssignments : List Statement → List Assignment
  | []      => []
  | s :: ss => s.assignments ++ Statement.listAssignments ss

end

/-- The assignments of the body of a program. -/
def Program.assignments (p : Program) : List Assignment :=
  Statement.listAssignments p.block.body.statements

/-- The store after an assignment, or the fault of the expression over the store before it. -/
def Store.assign (store : Store) (a : Assignment) : Except (Located RuntimeFault) Store :=
  (a.value.eval store).map (store.put a.target)

namespace Store

variable {s s' : Store} {a : Assignment}

theorem assign_of_eval {n : Number} (h : a.value.eval s = .ok n) :
    s.assign a = .ok (s.put a.target n) := by
  rw [assign, h]
  rfl

theorem assign_of_fault {fault : Located RuntimeFault} (h : a.value.eval s = .error fault) :
    s.assign a = .error fault := by
  rw [assign, h]
  rfl

/-- An assignment that is performed puts a value under its target. -/
theorem exists_value_of_assign (h : s.assign a = .ok s') :
    ∃ n, a.value.eval s = .ok n ∧ s' = s.put a.target n := by
  cases hvalue : a.value.eval s with
  | error fault =>
      rw [assign_of_fault hvalue] at h
      cases h
  | ok n =>
      rw [assign_of_eval hvalue] at h
      cases h
      exact ⟨n, rfl, rfl⟩

end Store

/-! ### The run of a tree -/

namespace Exec

/-- Performs an assignment. -/
def perform (a : Assignment) : Exec Unit := do
  assign a.target (← value a.value)

variable {a : Assignment} {m : Machine}

theorem perform_of_eval {n : Number} (h : a.value.eval m.store = .ok n) :
    perform a m = .ok () ⟨m.store.put a.target n, m.journal.push (.assign a.target n)⟩ :=
  have hvalue : value a.value m = .ok n m := by rw [value, h]
  bind_of_ok hvalue

/-- An assignment whose expression has no value changes nothing. -/
theorem perform_of_fault {fault : Located RuntimeFault} (h : a.value.eval m.store = .error fault) :
    perform a m = .error fault m :=
  have hvalue : value a.value m = .error fault m := by rw [value, h]
  bind_of_error hvalue

end Exec

mutual

/-- A statement runs as its assignments do. -/
theorem Statement.exec_eq_forM : ∀ s : Statement, s.exec = forM s.assignments Exec.perform
  | .compound ss _           => by rw [exec, assignments, listExec_eq_forM ss]
  | .assign target _ value _ => by
      rw [exec, assignments, List.forM_cons, List.forM_nil]
      exact (bind_pure_unit (x := Exec.perform ⟨target, value⟩)).symm
  | .noop                    => by rw [exec, assignments, List.forM_nil]

/-- A row of statements performs its assignments in order. -/
theorem Statement.listExec_eq_forM :
    ∀ ss, listExec ss = forM (listAssignments ss) Exec.perform
  | []      => by rw [listExec, listAssignments, List.forM_nil]
  | s :: ss => by
      rw [listExec, listAssignments, List.forM_append, s.exec_eq_forM, listExec_eq_forM ss]

end

/-- **The run of a program is the run of its assignments in order.** -/
theorem Program.exec_eq_forM (p : Program) (m : Machine) :
    p.exec m = (forM p.assignments Exec.perform : Exec Unit) m := by
  rw [exec, Statement.listExec_eq_forM, assignments]

/-! ### The run of a list -/

/-- What running `as` from the store `s` comes to: all of them are folded into the store and there
is no fault, or those before the first whose expression has no value are, and its fault is the
fault. -/
inductive Folds (s : Store) (as : List Assignment) : Option (Located RuntimeFault) → Store → Prop
  where
  | toEnd {s' : Store} (h : as.foldlM Store.assign s = .ok s') : Folds s as none s'
  | toFault {done rest : List Assignment} {a : Assignment} {fault : Located RuntimeFault}
      {s' : Store} (has : as = done ++ a :: rest) (h : done.foldlM Store.assign s = .ok s')
      (hfault : a.value.eval s' = .error fault) : Folds s as (some fault) s'

/-- One assignment more in front. -/
theorem Folds.cons {s s₁ s' : Store} {a : Assignment} {as : List Assignment}
    {fault : Option (Located RuntimeFault)} (ha : s.assign a = .ok s₁) (h : Folds s₁ as fault s') :
    Folds s (a :: as) fault s' := by
  cases h with
  | toEnd h => exact .toEnd (by rw [List.foldlM_cons, ha]; exact h)
  | @toFault done rest b _ _ has h hfault =>
      have hdone : (a :: done).foldlM Store.assign s = .ok s' := by
        rw [List.foldlM_cons, ha]
        exact h
      exact .toFault (congrArg _ has) hdone hfault

/-- Assignments are run in order, up to the first whose expression has no value. -/
theorem folds_forM (as : List Assignment) : ∀ m : Machine,
    match (forM as Exec.perform : Exec Unit) m with
    | .ok _ m'        => Folds m.store as none m'.store
    | .error fault m' => Folds m.store as (some fault) m'.store := by
  induction as with
  | nil => exact fun _ => .toEnd rfl
  | cons a as ih =>
      intro m
      rw [List.forM_cons]
      cases ha : a.value.eval m.store with
      | error fault =>
          rw [bind_of_error (Exec.perform_of_fault ha)]
          exact .toFault (List.nil_append _).symm rfl ha
      | ok n =>
          have hrest := ih ⟨m.store.put a.target n, m.journal.push (.assign a.target n)⟩
          rw [bind_of_ok (Exec.perform_of_eval ha)]
          split at hrest
          · exact .cons (Store.assign_of_eval ha) hrest
          · exact .cons (Store.assign_of_eval ha) hrest

/-! ### Sessions -/

namespace Session

/-- A program folds its assignments into the store. -/
theorem folds_runOn (store : Store) (p : Program) :
    Folds store p.assignments (runOn store p).1 (runOn store p).2 := by
  have hfolds := folds_forM p.assignments ⟨store, #[]⟩
  rw [← p.exec_eq_forM] at hfolds
  unfold runOn
  cases hrun : p.exec ⟨store, #[]⟩ <;> rw [hrun] at hfolds <;> exact hfolds

/-- The faults that programs run one after another end in, and the stores that they leave. -/
def outcomes (store : Store) : List Program → List (Option (Located RuntimeFault) × Store)
  | []      => []
  | p :: ps => runOn store p :: outcomes (runOn store p).2 ps

/-- The stores between programs run one after another, from the one before the first. -/
def stores (store : Store) (ps : List Program) : List Store :=
  store :: (outcomes store ps).map (·.2)

/-- What a step of a session of texts has come to, if its text was read. -/
def Step.outcome? : Step → Option (Option (Located RuntimeFault) × Store)
  | .unread _        => none
  | .ran fault after => some (fault, after)

/-- A session of texts is the session of the programs that they are read as; a text that is not read
is passed over. -/
theorem filterMap_run (store : Store) (texts : List String) :
    (run store texts).1.filterMap Step.outcome? =
      outcomes store (texts.filterMap fun text => (Program.read text).toOption) := by
  induction texts generalizing store with
  | nil => rfl
  | cons text texts ih =>
      rw [run]
      cases hread : Program.read text with
      | error e =>
          simp only [step, hread, List.filterMap_cons, Step.outcome?, Except.toOption]
          exact ih store
      | ok p =>
          simp only [step, hread, List.filterMap_cons, Step.outcome?, Except.toOption, outcomes]
          exact congrArg _ (ih _)

/-- **A session is a fold.**  Wherever a program stands in a session, it starts from the store that
the programs before it left, and comes to what the fold of its assignments comes to: all of them are
in the store that it leaves, or exactly those before the first whose expression has no value. -/
theorem outcomes_fold (store : Store) (before : List Program) (p : Program)
    (after : List Program) :
    ∃ s fault s', (stores store (before ++ p :: after))[before.length]? = some s ∧
      (outcomes store (before ++ p :: after))[before.length]? = some (fault, s') ∧
      ((fault = none ∧ p.assignments.foldlM Store.assign s = .ok s') ∨
        ∃ done a rest f, p.assignments = done ++ a :: rest ∧
          done.foldlM Store.assign s = .ok s' ∧ a.value.eval s' = .error f ∧ fault = some f) := by
  induction before generalizing store with
  | nil =>
      obtain ⟨fault, s', hrun⟩ : ∃ fault s', runOn store p = (fault, s') := ⟨_, _, rfl⟩
      have hfolds := folds_runOn store p
      rw [hrun] at hfolds
      refine ⟨store, fault, s', rfl, congrArg some hrun, ?_⟩
      cases hfolds with
      | toEnd h => exact .inl ⟨rfl, h⟩
      | toFault has h hfault => exact .inr ⟨_, _, _, _, has, h, hfault, rfl⟩
  | cons q before ih =>
      obtain ⟨s, fault, s', hs, ho, hfold⟩ := ih (runOn store q).2
      exact ⟨s, fault, s', hs, ho, hfold⟩

end Session

end MiniPascal
