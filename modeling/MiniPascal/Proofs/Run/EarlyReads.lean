import MiniPascal.Proofs.Names.Occurrences
import MiniPascal.Proofs.Run.Actions

/-!
# Proofs — Run — Early reads

Reads of variables before their first assignment.  Which variables are in the store at an action is
known before the run: the targets of the assignments in front of it.  So a read is too early if none
of these has its name (`ReadsTooEarly`), and actions that have been performed contain no such read
(`Store.noneTooEarly_of_perform`).  Main statement (`Session.runOn_earlyReads`): a program without a
read that is too early never misses a value, and one with such reads never comes to its end; it
stops at the first of them, or at an operation that is refused and comes before it.
-/

namespace MiniPascal

/-! ### Reads that are too early -/

/-- The names that actions store values under. -/
def targets (actions : List Action) : List String :=
  actions.filterMap fun action =>
    match action with
    | .evaluate _ => none
    | .store a    => some a.target

/-- Behind the actions `before`, a variable is read that none of them has stored a value under. -/
structure ReadsTooEarly (actions before : List Action) (o : Occurrence) : Prop where
  reads : ∃ after, actions = before ++ .evaluate (.var o.name o.span) :: after
  early : o.name ∉ targets before

/-- No read in these actions is too early. -/
def NoneTooEarly (actions : List Action) : Prop :=
  ∀ before o, ¬ ReadsTooEarly actions before o

variable {actions before front back : List Action} {o : Occurrence}

/-- A read among the first actions is among all of them. -/
theorem ReadsTooEarly.extend (h : ReadsTooEarly front before o) (hfront : front <+: actions) :
    ReadsTooEarly actions before o := by
  obtain ⟨⟨after, rfl⟩, hearly⟩ := h
  obtain ⟨rest, rfl⟩ := hfront
  exact ⟨⟨after ++ rest, by simp⟩, hearly⟩

/-- If some read is too early, there is a first one. -/
theorem exists_first_tooEarly {before : List Action} {o : Occurrence}
    (h : ReadsTooEarly actions before o) :
    ∃ before o, ReadsTooEarly actions before o ∧ NoneTooEarly before := by
  by_cases hbefore : NoneTooEarly before
  · exact ⟨before, o, h, hbefore⟩
  · obtain ⟨earlier, o', hearlier⟩ : ∃ earlier o', ReadsTooEarly before earlier o' := by
      simpa [NoneTooEarly] using hbefore
    have hprefix : before <+: actions := by
      obtain ⟨after, rfl⟩ := h.reads
      exact List.prefix_append _ _
    have hshorter : earlier.length < before.length := by
      obtain ⟨after, rfl⟩ := hearlier.reads
      simp
    exact exists_first_tooEarly (hearlier.extend hprefix)
termination_by before.length

/-- The first read that is too early comes behind actions without one, unless it is the next. -/
theorem exists_split_before {action : Action} (h : ReadsTooEarly (front ++ action :: back) before o)
    (hfront : NoneTooEarly front) (haction : action ≠ .evaluate (.var o.name o.span)) :
    ∃ between, before = front ++ action :: between := by
  obtain ⟨after, hactions⟩ := h.reads
  rcases List.append_eq_append_iff.1 hactions with ⟨between, rfl, hrest⟩ | ⟨rest, rfl, hrest⟩
  · rcases List.cons_eq_append_iff.1 hrest with ⟨-, hread⟩ | ⟨between, rfl, -⟩
    · cases hread
      exact absurd rfl haction
    · exact ⟨between, rfl⟩
  · rcases List.cons_eq_append_iff.1 hrest with ⟨rfl, hread⟩ | ⟨rest, rfl, -⟩
    · cases hread
      exact absurd rfl haction
    · exact (hfront before o ⟨⟨rest, rfl⟩, h.early⟩).elim

/-! ### What is in the store -/

namespace Store

variable {s s' : Store}

/-- After actions there are values under the names that had one, and under the targets. -/
theorem mem_names_of_perform {name : String} (h : actions.foldlM perform s = .ok s') :
    name ∈ s'.names ↔ name ∈ s.names ∨ name ∈ targets actions := by
  induction actions generalizing s with
  | nil =>
      cases h
      simp [targets]
  | cons action actions ih =>
      rw [List.foldlM_cons] at h
      obtain ⟨s₁, haction, h⟩ := outcome_bind_eq_ok.1 h
      rw [ih h]
      cases action with
      | evaluate node =>
          rw [perform] at haction
          cases hvalue : node.eval s <;> rw [hvalue] at haction <;> cases haction
          rfl
      | store a =>
          obtain ⟨n, -, rfl⟩ := exists_value_of_assign haction
          have htargets : targets (.store a :: actions) = a.target :: targets actions := rfl
          rw [Bindings.mem_names_put, htargets, List.mem_cons]
          tauto

/-- A variable that is read has a value. -/
theorem noneTooEarly_of_perform (h : actions.foldlM perform .empty = .ok s') :
    NoneTooEarly actions := by
  rintro before o ⟨⟨after, rfl⟩, hearly⟩
  rw [List.foldlM_append] at h
  obtain ⟨s₁, hbefore, h⟩ := outcome_bind_eq_ok.1 h
  rw [List.foldlM_cons] at h
  obtain ⟨s₂, hread, -⟩ := outcome_bind_eq_ok.1 h
  have hname : o.name ∉ s₁.names := by
    rw [mem_names_of_perform hbefore]
    exact not_or.2 ⟨List.not_mem_nil, hearly⟩
  rw [perform, Expression.eval, Bindings.get?_eq_none hname] at hread
  cases hread

end Store

/-! ### Runs -/

/-- **Reading before assigning is caught exactly.**  If no read of a program is too early, its run
on an empty store never misses the value of a variable.  If some read is, the run does not come to
its end: it stops at the first such read, or at an operation that is refused, all of whose actions
come before this read. -/
theorem Session.runOn_earlyReads (p : Program) :
    (NoneTooEarly p.actions →
      ∀ name span, (runOn .empty p).1 ≠ some ⟨.uninitialized name, span⟩) ∧
    (¬ NoneTooEarly p.actions →
      ∃ before o, ReadsTooEarly p.actions before o ∧ NoneTooEarly before ∧
        ((runOn .empty p).1 = some ⟨.uninitialized o.name, o.span⟩ ∨
          ∃ front node back cause s, before = front ++ .evaluate node :: back ∧
            front.foldlM Store.perform .empty = .ok s ∧
            node.FailsAt s ⟨.arithmetic cause, node.span⟩ ∧
            (runOn .empty p).1 = some ⟨.arithmetic cause, node.span⟩)) := by
  rcases runOn_actions .empty p with ⟨hend, hperform⟩ | ⟨front, node, back, fault, hactions,
    hperform, hfails, hfault⟩
  · rw [hend]
    exact ⟨fun _ _ _ => nofun, fun h => absurd (Store.noneTooEarly_of_perform hperform) h⟩
  · have hfront := Store.noneTooEarly_of_perform hperform
    rcases hfails.cases with ⟨name, span, rfl, hname, rfl⟩ | ⟨hnode, cause, rfl⟩
    -- The node is a variable that is not in the store: it is the first read that is too early.
    · have hread : ReadsTooEarly p.actions front ⟨name, span⟩ := by
        refine ⟨⟨back, hactions⟩, fun htarget => hname ?_⟩
        exact (Store.mem_names_of_perform hperform).2 (.inr htarget)
      exact ⟨fun h => absurd hread (h _ _),
        fun _ => ⟨front, ⟨name, span⟩, hread, hfront, .inl hfault⟩⟩
    -- The node is an operation: whatever read is too early comes behind it.
    · refine ⟨fun _ name span h => ?_, fun h => ?_⟩
      · rw [hfault] at h
        cases h
      · obtain ⟨before, o, hread⟩ : ∃ before o, ReadsTooEarly p.actions before o := by
          simpa [NoneTooEarly] using h
        obtain ⟨before, o, hread, hbefore⟩ := exists_first_tooEarly hread
        have haction : Action.evaluate node ≠ .evaluate (.var o.name o.span) :=
          fun h => hnode _ _ (Action.evaluate.inj h)
        obtain ⟨between, hsplit⟩ := exists_split_before (hactions ▸ hread) hfront haction
        exact ⟨before, o, hread, hbefore, .inr ⟨front, node, between, cause, _, hsplit, hperform,
          hfails, hfault⟩⟩

/-- `x := x + 1` behind an assignment to a variable. -/
def increment (target : String) (value : Expression) : Program where
  name  := "T"
  block :=
    ⟨[], ⟨[.assign target ⟨17, 1⟩ value ⟨17, 12⟩,
      .assign "x" ⟨31, 1⟩
        (.binary .sum (.var "x" ⟨36, 1⟩) (.num (.int 1) ⟨40, 1⟩) ⟨36, 5⟩) ⟨31, 10⟩], ⟨11, 34⟩⟩⟩
  span  := ⟨0, 46⟩

theorem runOn_earlyReads_example :
    let quotient : Expression :=
      .binary .wholeQuotient (.num (.int 1) ⟨22, 1⟩) (.num (.int 0) ⟨28, 1⟩) ⟨22, 7⟩
    (NoneTooEarly (increment "x" (.num (.int 0) ⟨28, 1⟩)).actions ∧
      ∀ name span, (Session.runOn .empty (increment "x" (.num (.int 0) ⟨28, 1⟩))).1 ≠
        some ⟨.uninitialized name, span⟩) ∧
    ∃ before o, ReadsTooEarly (increment "y" quotient).actions before o ∧ NoneTooEarly before ∧
      ((Session.runOn .empty (increment "y" quotient)).1 = some ⟨.uninitialized o.name, o.span⟩ ∨
        ∃ front node back cause s, before = front ++ .evaluate node :: back ∧
          front.foldlM Store.perform .empty = .ok s ∧
          node.FailsAt s ⟨.arithmetic cause, node.span⟩ ∧
          (Session.runOn .empty (increment "y" quotient)).1 =
            some ⟨.arithmetic cause, node.span⟩) := by
  intro quotient
  have hperform : (increment "x" (.num (.int 0) ⟨28, 1⟩)).actions.foldlM Store.perform .empty =
      .ok ⟨[("x", .int 1)]⟩ := by decide
  have hnone := Store.noneTooEarly_of_perform hperform
  have hread : ReadsTooEarly (increment "y" quotient).actions
      (⟨"y", quotient⟩ : Assignment).actions ⟨"x", ⟨36, 1⟩⟩ :=
    ⟨⟨_, rfl⟩, by decide⟩
  exact ⟨⟨hnone, (Session.runOn_earlyReads _).1 hnone⟩,
    (Session.runOn_earlyReads _).2 fun h => h _ _ hread⟩

end MiniPascal
