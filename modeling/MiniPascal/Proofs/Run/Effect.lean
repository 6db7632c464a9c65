import MiniPascal.Proofs.Bindings
import MiniPascal.Proofs.Run.Evaluation
import MiniPascal.Proofs.Run.Fold

/-!
# Proofs — Run — Effect

What a run does to a machine, as plain data.  The effect of assignments on a store are the values
that they put under their targets, one after another, and the fault that stops them, if there is
one.  A run makes exactly these puts, in the store and in the journal alike, and comes to its end
or to this fault (`Exec.forM_perform`).  So what it comes to does not depend on the journal in front
of it, and a run behind a check of names and one in a session come to the same
(`Run.ofProgram_eq`, `Session.runOn_eq`).
-/

namespace MiniPascal

/-- The values that are put under names, and the fault that comes after them, if one does. -/
structure Effect where
  puts  : List (String × Number)
  fault : Option (Located RuntimeFault)

namespace Store

/-- The effect of assignments on a store: one put for each that is performed. -/
def effect (s : Store) : List Assignment → Effect
  | []      => ⟨[], none⟩
  | a :: as =>
      match a.value.eval s with
      | .error fault => ⟨[], some fault⟩
      | .ok n        =>
          let rest := effect (s.put a.target n) as
          ⟨(a.target, n) :: rest.puts, rest.fault⟩

variable {s s' : Store} {a : Assignment} {done : List Assignment} {fault : Located RuntimeFault}

theorem effect_of_eval {n : Number} (h : a.value.eval s = .ok n) (as : List Assignment) :
    s.effect (a :: as) =
      ⟨(a.target, n) :: (effect (s.put a.target n) as).puts,
        (effect (s.put a.target n) as).fault⟩ := by
  rw [effect, h]

theorem effect_of_fault (h : a.value.eval s = .error fault) (as : List Assignment) :
    s.effect (a :: as) = ⟨[], some fault⟩ := by
  rw [effect, h]

/-- Assignments that can all be performed put a value under each of their targets. -/
theorem effect_of_foldlM (h : done.foldlM assign s = .ok s') :
    (s.effect done).fault = none ∧ (s.effect done).puts.map (·.1) = done.map (·.target) ∧
      s.putAll (s.effect done).puts = s' := by
  induction done generalizing s with
  | nil =>
      cases h
      exact ⟨rfl, rfl, rfl⟩
  | cons a done ih =>
      rw [List.foldlM_cons] at h
      obtain ⟨s₁, hassign, h⟩ := outcome_bind_eq_ok.1 h
      obtain ⟨n, hvalue, rfl⟩ := exists_value_of_assign hassign
      obtain ⟨hfault, htargets, hstore⟩ := ih h
      rw [effect_of_eval hvalue]
      exact ⟨hfault, congrArg (a.target :: ·) htargets, hstore⟩

/-- What comes behind them has its effect on the store that they leave. -/
theorem effect_append (h : done.foldlM assign s = .ok s') (more : List Assignment) :
    s.effect (done ++ more) =
      ⟨(s.effect done).puts ++ (s'.effect more).puts, (s'.effect more).fault⟩ := by
  induction done generalizing s with
  | nil =>
      cases h
      rfl
  | cons a done ih =>
      rw [List.foldlM_cons] at h
      obtain ⟨s₁, hassign, h⟩ := outcome_bind_eq_ok.1 h
      obtain ⟨n, hvalue, rfl⟩ := exists_value_of_assign hassign
      rw [List.cons_append, effect_of_eval hvalue, effect_of_eval hvalue, ih h]
      rfl

/-- The first assignment that cannot be performed ends the effect. -/
theorem effect_stopped (h : done.foldlM assign s = .ok s') (hfault : a.value.eval s' = .error fault)
    (rest : List Assignment) :
    s.effect (done ++ a :: rest) = ⟨(s.effect done).puts, some fault⟩ := by
  rw [effect_append h, effect_of_fault hfault, List.append_nil]

end Store

/-! ### Machines -/

/-- The machine after puts, each of which is in the store and in the journal. -/
def Machine.after (m : Machine) (puts : List (String × Number)) : Machine :=
  ⟨m.store.putAll puts, m.journal ++ puts.map fun e => Event.assign e.1 e.2⟩

/-- What a machine comes to by an effect. -/
def Effect.on (e : Effect) (m : Machine) :
    EStateM.Result (Located RuntimeFault) Machine Unit :=
  match e.fault with
  | none       => .ok () (m.after e.puts)
  | some fault => .error fault (m.after e.puts)

theorem Machine.after_nil (m : Machine) : m.after [] = m := by
  simp [after, Bindings.putAll]

theorem Machine.after_cons (m : Machine) (name : String) (n : Number)
    (puts : List (String × Number)) :
    m.after ((name, n) :: puts) =
      after ⟨m.store.put name n, m.journal.push (.assign name n)⟩ puts := by
  simp [after, Bindings.putAll]

/-- **A run of assignments is their effect on the machine.** -/
theorem Exec.forM_perform (as : List Assignment) : ∀ m : Machine,
    (forM as perform : Exec Unit) m = (m.store.effect as).on m := by
  induction as with
  | nil =>
      intro m
      rw [List.forM_nil, Store.effect, Effect.on, m.after_nil]
      rfl
  | cons a as ih =>
      intro m
      rw [List.forM_cons]
      cases hvalue : a.value.eval m.store with
      | error fault =>
          rw [bind_of_error (perform_of_fault hvalue), Store.effect_of_fault hvalue, Effect.on,
            m.after_nil]
      | ok n =>
          rw [bind_of_ok (perform_of_eval hvalue), ih, Store.effect_of_eval hvalue, Effect.on,
            Effect.on, m.after_cons]

/-- The effect of a program on a store. -/
def Program.effectOn (p : Program) (s : Store) : Effect := s.effect p.assignments

/-- **What a program does to a machine is its effect.** -/
theorem Program.exec_eq_effect (p : Program) (m : Machine) :
    p.exec m = (p.effectOn m.store).on m := by
  rw [exec_eq_forM, Exec.forM_perform, effectOn]

/-- A program of a session has its effect on the store. -/
theorem Session.runOn_eq (store : Store) (p : Program) :
    runOn store p = ((p.effectOn store).fault, store.putAll (p.effectOn store).puts) := by
  rw [runOn, p.exec_eq_effect, Effect.on]
  cases (p.effectOn store).fault <;> rfl

/-- The effect of a program is a fold of its assignments. -/
theorem Program.folds_effectOn (p : Program) (s : Store) :
    Folds s p.assignments (p.effectOn s).fault (s.putAll (p.effectOn s).puts) := by
  have hfolds := Session.folds_runOn s p
  rwa [Session.runOn_eq] at hfolds

/-- A program whose names are in order has its effect on the empty store. -/
theorem Run.ofProgram_eq {p : Program} {scope : Scope} (h : p.check = .ok () scope) :
    ofProgram p =
      ⟨scope.journal.toList ++ (p.effectOn .empty).puts.map (fun e => Event.assign e.1 e.2),
        match (p.effectOn .empty).fault with
        | none       => .ok ⟨scope.symbols, Bindings.empty.putAll (p.effectOn .empty).puts⟩
        | some fault => .error (fault.map .runtime)⟩ := by
  rw [ofProgram, h]
  dsimp only
  rw [p.exec_eq_effect, Effect.on]
  cases (p.effectOn .empty).fault <;> simp [Machine.after]

end MiniPascal
