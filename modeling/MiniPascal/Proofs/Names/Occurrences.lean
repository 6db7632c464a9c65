import MiniPascal.Proofs.Bindings
import MiniPascal.Proofs.Sequence
import MiniPascal.Scope

/-!
# Proofs — Names — Occurrences

The names in the body of a program, in the order in which they are checked: for each assignment the
variables of its value from left to right, and then its target.  The check of a body mentions these
occurrences one after another (`Statement.listCheck_eq_forM`), up to the first whose name has no
symbol, and it changes no symbol (`Check.forM_mentionAt`, `Check.forM_mentionAt_undeclared`).
-/

namespace MiniPascal

/-- A name where it stands in a program. -/
structure Occurrence where
  name : String
  span : Span
deriving DecidableEq, Repr

/-- The variables of an expression from left to right. -/
def Expression.reads : Expression → List Occurrence
  | .binary _ l r _ => l.reads ++ r.reads
  | .unary _ e _    => e.reads
  | .num _ _        => []
  | .var name span  => [⟨name, span⟩]

mutual

/-- The names in a statement, those of a value before its target. -/
def Statement.occurrences : Statement → List Occurrence
  | .compound ss _                    => Statement.listOccurrences ss
  | .assign target targetSpan value _ => value.reads ++ [⟨target, targetSpan⟩]
  | .noop                             => []

/-- The names in statements in order. -/
def Statement.listOccurrences : List Statement → List Occurrence
  | []      => []
  | s :: ss => s.occurrences ++ Statement.listOccurrences ss

end

/-- The names in the body of a program. -/
def Program.occurrences (p : Program) : List Occurrence :=
  Statement.listOccurrences p.block.body.statements

/-! ### The check as a list of mentions -/

namespace Check

/-- Mentions a name at its place. -/
def mentionAt (o : Occurrence) : Check Unit := mention o.name o.span

end Check

/-- The check of an expression looks up what it reads, in order. -/
theorem Expression.check_eq_forM (e : Expression) : e.check = forM e.reads Check.mentionAt := by
  induction e with
  | binary op l r span ihl ihr => rw [check, reads, List.forM_append, ihl, ihr]
  | unary op e span ih => rw [check, reads, ih]
  | num n span => rw [check, reads, List.forM_nil]
  | var name span =>
      rw [check, reads, List.forM_cons, List.forM_nil]
      exact (bind_pure_unit (x := Check.mentionAt ⟨name, span⟩)).symm

mutual

/-- A statement is checked as its names are mentioned. -/
theorem Statement.check_eq_forM : ∀ s : Statement, s.check = forM s.occurrences Check.mentionAt
  | .compound ss _                    => by rw [check, occurrences, listCheck_eq_forM ss]
  | .assign target targetSpan value _ => by
      rw [check, occurrences, List.forM_append, value.check_eq_forM, List.forM_cons, List.forM_nil]
      exact congrArg _ (funext fun _ =>
        (bind_pure_unit (x := Check.mentionAt ⟨target, targetSpan⟩)).symm)
  | .noop                             => by rw [check, occurrences, List.forM_nil]

/-- The check of statements looks up what occurs in them, in order. -/
theorem Statement.listCheck_eq_forM :
    ∀ ss, listCheck ss = forM (listOccurrences ss) Check.mentionAt
  | []      => by rw [listCheck, listOccurrences, List.forM_nil]
  | s :: ss => by
      rw [listCheck, listOccurrences, List.forM_append, s.check_eq_forM, listCheck_eq_forM ss]

end

/-! ### Mentions in a row -/

namespace Scope

/-- The scope after names have been looked up. -/
def afterLookups (s : Scope) (os : List Occurrence) : Scope :=
  ⟨s.symbols, s.journal ++ os.map fun o => Event.lookup o.name⟩

theorem afterLookups_nil (s : Scope) : s.afterLookups [] = s := by
  simp [afterLookups]

theorem afterLookups_append (s : Scope) (os more : List Occurrence) :
    s.afterLookups (os ++ more) = (s.afterLookups os).afterLookups more :=
  congrArg (Scope.mk s.symbols) (Array.toList_inj.1 (by simp [afterLookups]))

theorem afterLookups_singleton (s : Scope) (o : Occurrence) :
    s.afterLookups [o] = ⟨s.symbols, s.journal.push (.lookup o.name)⟩ := by
  simp [afterLookups]

end Scope

namespace Check

variable {o : Occurrence} {s : Scope}

theorem lookup_eq (name : String) (s : Scope) :
    lookup name s = .ok (s.symbols.get? name) ⟨s.symbols, s.journal.push (.lookup name)⟩ := rfl

theorem mentionAt_of_declared (h : o.name ∈ s.symbols.names) :
    mentionAt o s = .ok () (s.afterLookups [o]) := by
  obtain ⟨symbol, hsymbol⟩ := Bindings.mem_names_iff.1 h
  rw [mentionAt, mention, bind_of_ok (lookup_eq o.name s), hsymbol, Scope.afterLookups_singleton]
  rfl

/-- A name that is not declared stops the check at its span. -/
theorem mentionAt_of_undeclared (h : o.name ∉ s.symbols.names) :
    mentionAt o s = .error ⟨.undeclared o.name, o.span⟩ (s.afterLookups [o]) := by
  rw [mentionAt, mention, bind_of_ok (lookup_eq o.name s), Bindings.get?_eq_none h,
    Scope.afterLookups_singleton]
  rfl

/-- Names with symbols are looked up, all of them, before what comes after them is checked. -/
theorem forM_mentionAt_append (os : List Occurrence) {more : List Occurrence} : ∀ {s : Scope},
    (∀ o ∈ os, o.name ∈ s.symbols.names) →
      (forM (os ++ more) mentionAt : Check Unit) s =
        (forM more mentionAt : Check Unit) (s.afterLookups os) := by
  induction os with
  | nil =>
      intro s _
      rw [List.nil_append, Scope.afterLookups_nil]
  | cons o os ih =>
      intro s h
      obtain ⟨ho, hos⟩ := List.forall_mem_cons.1 h
      rw [List.cons_append, List.forM_cons, bind_of_ok (mentionAt_of_declared ho),
        ← List.singleton_append, Scope.afterLookups_append]
      exact ih hos

theorem forM_mentionAt {os : List Occurrence} (h : ∀ o ∈ os, o.name ∈ s.symbols.names) :
    (forM os mentionAt : Check Unit) s = .ok () (s.afterLookups os) := by
  have hall := @forM_mentionAt_append os [] s h
  rwa [List.append_nil, List.forM_nil] at hall

/-- The first name without a symbol is the last to be looked up. -/
theorem forM_mentionAt_undeclared {os more : List Occurrence}
    (h : ∀ o ∈ os, o.name ∈ s.symbols.names) (ho : o.name ∉ s.symbols.names) :
    (forM (os ++ o :: more) mentionAt : Check Unit) s =
      .error ⟨.undeclared o.name, o.span⟩ (s.afterLookups (os ++ [o])) := by
  have hfault := mentionAt_of_undeclared (s := s.afterLookups os) ho
  rw [forM_mentionAt_append os h, List.forM_cons, bind_of_error hfault, Scope.afterLookups_append]

end Check

end MiniPascal
