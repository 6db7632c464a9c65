import MiniPascal.Proofs.Run.Evaluation
import MiniPascal.Proofs.Run.Fold

/-!
# Proofs — Run — Actions

A run as a row of actions.  An assignment evaluates the nodes of its expression one by one, in the
order of `Expression.postorder`, and stores a value once they all have one.  `Program.actions` is
the row of all these actions, known before the program runs.  A run performs it up to the first node
that has no value (`Session.runOn_actions`), and leaves the store that the actions before it have
made.
-/

namespace MiniPascal

/-! ### Actions -/

/-- What a run does next: it evaluates a node, or it stores the value of an assignment. -/
inductive Action where
  | evaluate (node : Expression)
  | store (a : Assignment)

/-- The store after an action, or the fault of a node without a value. -/
def Store.perform (s : Store) : Action → Except (Located RuntimeFault) Store
  | .evaluate node => (node.eval s).map fun _ => s
  | .store a       => s.assign a

/-- The actions of an assignment: its nodes are evaluated, and the value is stored. -/
def Assignment.actions (a : Assignment) : List Action :=
  a.value.postorder.map .evaluate ++ [.store a]

/-- The actions of the body of a program. -/
def Program.actions (p : Program) : List Action := p.assignments.flatMap Assignment.actions

namespace Store

variable {s s' : Store}

/-- Nodes with values are evaluated one after another, and leave the store as it is. -/
theorem perform_nodes {nodes : List Expression} (h : ∀ node ∈ nodes, ∃ n, node.eval s = .ok n) :
    (nodes.map Action.evaluate).foldlM perform s = .ok s := by
  induction nodes with
  | nil => rfl
  | cons node nodes ih =>
      obtain ⟨⟨n, hn⟩, hnodes⟩ := List.forall_mem_cons.1 h
      rw [List.map_cons, List.foldlM_cons, perform, hn]
      exact ih hnodes

/-- An assignment is performed action by action. -/
theorem perform_actions {a : Assignment} (h : s.assign a = .ok s') :
    a.actions.foldlM perform s = .ok s' := by
  obtain ⟨n, hvalue, -⟩ := exists_value_of_assign h
  rw [Assignment.actions, List.foldlM_append, perform_nodes (Expression.evaluated_of_eval hvalue)]
  show [Action.store a].foldlM perform s = .ok s'
  rw [List.foldlM_cons, perform, h]
  rfl

/-- Assignments in a row are performed action by action. -/
theorem perform_flatMap {as : List Assignment} (h : as.foldlM assign s = .ok s') :
    (as.flatMap Assignment.actions).foldlM perform s = .ok s' := by
  induction as generalizing s with
  | nil => exact h
  | cons a as ih =>
      rw [List.foldlM_cons] at h
      obtain ⟨s₁, hassign, h⟩ := outcome_bind_eq_ok.1 h
      rw [List.flatMap_cons, List.foldlM_append, perform_actions hassign]
      exact ih h

end Store

/-- **A run performs its actions up to the first node without a value.**  If there is none, it
performs them all. -/
theorem Session.runOn_actions (s : Store) (p : Program) :
    ((runOn s p).1 = none ∧ p.actions.foldlM Store.perform s = .ok (runOn s p).2) ∨
      ∃ front node back fault, p.actions = front ++ .evaluate node :: back ∧
        front.foldlM Store.perform s = .ok (runOn s p).2 ∧ node.FailsAt (runOn s p).2 fault ∧
        (runOn s p).1 = some fault := by
  obtain ⟨fault, s', hrun⟩ : ∃ fault s', runOn s p = (fault, s') := ⟨_, _, rfl⟩
  have hfolds := folds_runOn s p
  rw [hrun] at hfolds ⊢
  cases hfolds with
  | toEnd h => exact .inl ⟨rfl, Store.perform_flatMap h⟩
  | @toFault done rest a fault _ has h hfault =>
      obtain ⟨front, node, back, hnodes, hfront, hfails⟩ := Expression.exists_first_failing hfault
      have hactions : p.actions =
          (done.flatMap Assignment.actions ++ front.map .evaluate) ++ .evaluate node ::
            (back.map .evaluate ++ .store a :: rest.flatMap Assignment.actions) := by
        rw [Program.actions, has, List.flatMap_append, List.flatMap_cons, Assignment.actions,
          hnodes]
        simp
      refine .inr ⟨_, node, _, fault, hactions, ?_, hfails, rfl⟩
      rw [List.foldlM_append, Store.perform_flatMap h]
      exact Store.perform_nodes hfront

end MiniPascal
