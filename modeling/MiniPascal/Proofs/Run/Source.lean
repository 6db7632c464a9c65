import MiniPascal.Proofs.Reading.Exact
import MiniPascal.Proofs.Run.Fold
import MiniPascal.Proofs.Tree.Writable

/-!
# Proofs — Run — Source

What the program of a text assigns: to targets that are spelled like names, expressions of names and
of numbers with a literal (`Program.writable_assignments`).  The run of a text ends in one of four
ways: the text is not read, its names are at fault, or its assignments are folded into the empty
store, up to a fault or to their end (`Run.ends_ofSource`).
-/

namespace MiniPascal

/-- What is read from a text has a text. -/
theorem Program.writable_of_read {source : String} {p : Program} (h : read source = .ok p) :
    p.Writable := by
  obtain ⟨w, n, depth, hscan, hderives, -⟩ := exists_of_read h
  exact hderives.writable (wellSpelled_before_eof hscan)

/-- A target that is spelled like a name, and an expression with a text. -/
def Assignment.Writable (a : Assignment) : Prop := Nameable a.target ∧ a.value.Writable

mutual

theorem Statement.writable_assignments : ∀ s : Statement, s.Writable →
    ∀ a ∈ s.assignments, a.Writable
  | .compound ss _, h => by
      rw [Writable] at h
      rw [assignments]
      exact listWritable_assignments ss h.2
  | .assign target _ value _, h => by
      rw [Writable] at h
      rw [assignments]
      exact List.forall_mem_singleton.2 h
  | .noop, _ => by
      rw [assignments]
      exact nofun

theorem Statement.listWritable_assignments : ∀ ss, ListWritable ss →
    ∀ a ∈ listAssignments ss, a.Writable
  | [], _ => by
      rw [listAssignments]
      exact nofun
  | s :: ss, h => by
      rw [ListWritable] at h
      rw [listAssignments]
      exact List.forall_mem_append.2
        ⟨s.writable_assignments h.1, listWritable_assignments ss h.2⟩

end

/-- A program with a text assigns expressions with a text. -/
theorem Program.writable_assignments {p : Program} (h : p.Writable) :
    ∀ a ∈ p.assignments, a.Writable := by
  have hbody : p.block.body.toStatement.Writable := h.2.2.2
  rw [Compound.toStatement, Statement.Writable] at hbody
  exact Statement.listWritable_assignments _ hbody.2

/-! ### The run of a text -/

namespace Run

/-- How the run of a text ends. -/
inductive Ends (source : String) : Except (Located Fault) Remains → Prop where
  | unread {fault : Located ReadingFault} (hread : Program.read source = .error fault) :
      Ends source (.error (fault.map .reading))
  | misnamed {p : Program} {fault : Located NameFault} {scope : Scope}
      (hread : Program.read source = .ok p) (hcheck : p.check = .error fault scope) :
      Ends source (.error (fault.map .naming))
  | stopped {p : Program} {scope : Scope} {fault : Located RuntimeFault} {s : Store}
      (hread : Program.read source = .ok p) (hcheck : p.check = .ok () scope)
      (h : Folds .empty p.assignments (some fault) s) : Ends source (.error (fault.map .runtime))
  | finished {p : Program} {scope : Scope} {s : Store}
      (hread : Program.read source = .ok p) (hcheck : p.check = .ok () scope)
      (h : Folds .empty p.assignments none s) : Ends source (.ok ⟨scope.symbols, s⟩)

/-- Every run of a text ends in one of these ways. -/
theorem ends_ofSource (source : String) : Ends source (ofSource source).result := by
  unfold ofSource
  cases hread : Program.read source with
  | error fault => exact .unread hread
  | ok p =>
      simp only [ofProgram]
      cases hcheck : p.check with
      | error fault scope => exact .misnamed hread hcheck
      | ok _ scope =>
          have hfolds := folds_forM p.assignments ⟨.empty, scope.journal⟩
          rw [← p.exec_eq_forM] at hfolds
          dsimp only
          cases hexec : p.exec ⟨.empty, scope.journal⟩ <;> rw [hexec] at hfolds
          · exact .finished hread hcheck hfolds
          · exact .stopped hread hcheck hfolds

/-- A fault of the run itself ends a fold of the assignments. -/
theorem folds_of_runtime {source : String} {fault : Located RuntimeFault}
    (h : (ofSource source).result = .error (fault.map .runtime)) :
    ∃ p scope s, Program.read source = .ok p ∧ p.check = .ok () scope ∧
      Folds .empty p.assignments (some fault) s := by
  have hends := ends_ofSource source
  generalize (ofSource source).result = result at h hends
  cases hends with
  | unread hread => cases h
  | misnamed hread hcheck => cases h
  | @stopped p scope fault' s hread hcheck hfolds =>
      obtain ⟨cause, span⟩ := fault
      obtain ⟨cause', span'⟩ := fault'
      cases h
      exact ⟨p, scope, s, hread, hcheck, hfolds⟩
  | finished hread hcheck hfolds => cases h

end Run

end MiniPascal
