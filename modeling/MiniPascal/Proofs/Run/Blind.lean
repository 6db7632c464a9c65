import MiniPascal.Proofs.Agreement
import MiniPascal.Proofs.Tree.Bare
import MiniPascal.Report
import MiniPascal.Run

/-!
# Proofs — Run — Blind

Neither the check of names nor the run of a program looks at places, except to say where a fault
is.  A tree and its bare form therefore go through the same steps, write the same journal, and stop
with the same cause if they stop (`check_blind`, `exec_blind`).  What is told of a run without its
places is that of the bare program (`Run.ofProgram_bare`).
-/

namespace MiniPascal

/-- Faults with the same cause. -/
def SameCause {α : Type} (e f : Located α) : Prop := e.cause = f.cause

theorem SameCause.refl {α : Type} (e : Located α) : SameCause e e := rfl

/-! ### Names -/

/-- Whether a name is declared does not depend on where it stands. -/
theorem Check.mention_blind (name : String) (span span' : Span) :
    Agrees SameCause Eq Eq (Check.mention name span) (Check.mention name span') := by
  refine .bind (.refl .refl _) ?_
  rintro a _ rfl
  cases a with
  | none => exact .throw rfl
  | some symbol => exact .pure rfl

/-- What a declaration enters does not depend on where it stands. -/
theorem Check.enterVariable_blind (name : String) (type : TypeName) (span span' : Span) :
    Agrees SameCause Eq Eq (Check.enterVariable name type span)
      (Check.enterVariable name type span') := by
  refine .bind (.refl .refl _) ?_
  rintro a _ rfl
  split
  · exact .refl .refl _
  · exact .throw rfl

/-- The check of an expression does not look at spans; so with everything below. -/
theorem Expression.check_blind (e : Expression) :
    Agrees SameCause Eq Eq e.check e.bare.check := by
  induction e with
  | binary op l r _ ihl ihr => exact .bind ihl fun _ _ _ => ihr
  | unary op e _ ih => exact ih
  | num n _ => exact .pure rfl
  | var name span => exact Check.mention_blind name span _

mutual

theorem Statement.check_blind : ∀ s : Statement, Agrees SameCause Eq Eq s.check s.bare.check
  | .compound ss _           => by
      rw [Statement.bare, Statement.check, Statement.check]
      exact Statement.listCheck_blind ss
  | .assign target _ value _ => by
      rw [Statement.bare, Statement.check, Statement.check]
      exact .bind value.check_blind fun _ _ _ => Check.mention_blind target _ _
  | .noop                    => by
      rw [Statement.bare, Statement.check]
      exact .pure rfl

theorem Statement.listCheck_blind :
    ∀ ss, Agrees SameCause Eq Eq (Statement.listCheck ss) (Statement.listCheck (listBare ss))
  | []      => by
      rw [Statement.listBare, Statement.listCheck]
      exact .pure rfl
  | s :: ss => by
      rw [Statement.listBare, Statement.listCheck, Statement.listCheck]
      exact .bind s.check_blind fun _ _ _ => Statement.listCheck_blind ss

end

theorem Declaration.check_blind (d : Declaration) :
    Agrees SameCause Eq Eq d.check d.bare.check := by
  cases d with
  | var name type span =>
      rw [Declaration.bare]
      exact Check.enterVariable_blind name type span _
  | procedure name decls body span =>
      rw [Declaration.bare]
      exact .pure rfl

theorem Declaration.listCheck_blind (ds : List Declaration) :
    Agrees SameCause Eq Eq (Declaration.listCheck ds) (Declaration.listCheck (listBare ds)) := by
  induction ds with
  | nil =>
      rw [Declaration.listBare]
      exact .pure rfl
  | cons d ds ih =>
      rw [Declaration.listBare]
      exact .bind d.check_blind fun _ _ _ => ih

theorem Block.check_blind (b : Block) : Agrees SameCause Eq Eq b.check b.bare.check :=
  .bind (Declaration.listCheck_blind b.decls) fun _ _ _ =>
    Statement.listCheck_blind b.body.statements

/-! ### Values and stores -/

section Causes

variable {ε ε' α β : Type} (f : ε → ε')

theorem mapError_bind (x : Except ε α) (k : α → Except ε β) :
    (x >>= k).mapError f = x.mapError f >>= fun a => (k a).mapError f := by
  cases x <;> rfl

theorem mapError_mapError {δ : Type} (g : δ → ε) (x : Except δ α) :
    (x.mapError g).mapError f = x.mapError fun e => f (g e) := by
  cases x <;> rfl

end Causes

/-- The bare form of an expression has the same value, or fails with the same cause. -/
theorem Expression.eval_blind (store : Store) (e : Expression) :
    (e.bare.eval store).mapError Located.cause = (e.eval store).mapError Located.cause := by
  induction e with
  | binary op l r span ihl ihr =>
      simp only [Expression.bare, Expression.eval, mapError_bind, mapError_mapError, ihl, ihr]
  | unary op e span ih =>
      simp only [Expression.bare, Expression.eval, mapError_bind, mapError_mapError, ih]
  | num n _ => rfl
  | var name span =>
      simp only [Expression.bare, Expression.eval]
      cases store.get? name <;> rfl

/-- The value of an expression does not depend on spans. -/
theorem Exec.value_blind (e : Expression) :
    Agrees SameCause Eq Eq (Exec.value e) (Exec.value e.bare) := by
  rintro m _ rfl
  have h := e.eval_blind m.store
  simp only [Exec.value]
  cases he : e.eval m.store <;> cases hb : e.bare.eval m.store <;> rw [he, hb] at h
  · exact ⟨(Except.error.inj h).symm, rfl⟩
  · cases h
  · cases h
  · exact ⟨(Except.ok.inj h).symm, rfl⟩

mutual

/-- What a statement does to the store does not depend on spans. -/
theorem Statement.exec_blind : ∀ s : Statement, Agrees SameCause Eq Eq s.exec s.bare.exec
  | .compound ss _           => by
      rw [Statement.bare, Statement.exec, Statement.exec]
      exact Statement.listExec_blind ss
  | .assign target _ value _ => by
      rw [Statement.bare, Statement.exec, Statement.exec]
      refine .bind (Exec.value_blind value) ?_
      rintro n _ rfl
      exact .refl .refl _
  | .noop                    => by
      rw [Statement.bare, Statement.exec]
      exact .pure rfl

theorem Statement.listExec_blind :
    ∀ ss, Agrees SameCause Eq Eq (Statement.listExec ss) (Statement.listExec (listBare ss))
  | []      => by
      rw [Statement.listBare, Statement.listExec]
      exact .pure rfl
  | s :: ss => by
      rw [Statement.listBare, Statement.listExec, Statement.listExec]
      exact .bind s.exec_blind fun _ _ _ => Statement.listExec_blind ss

end

/-! ### Runs -/

/-- What is told of a fault apart from its place: its category and the message. -/
def Located.told (f : Located Fault) : Category × String := (f.report.category, f.report.message)

/-- Faults with the same cause are told alike. -/
theorem Located.told_eq_of_cause {f g : Located Fault} (h : f.cause = g.cause) :
    f.told = g.told := by
  obtain ⟨cause, span⟩ := f
  obtain ⟨_, span'⟩ := g
  obtain rfl : cause = _ := h
  rcases cause with (cause | cause) | cause | (cause | name) <;> rfl

/-- What is told of a run apart from places: its journal, and what it leaves behind or the category
and the message of its fault. -/
def Run.told (r : Run) : List Event × Except (Category × String) Remains :=
  (r.journal, r.result.mapError Located.told)

/-- Runs that end in faults are told alike if the journals and the causes are the same. -/
theorem Run.told_fault {journal : List Event} {f g : Located Fault} (h : f.cause = g.cause) :
    Run.told ⟨journal, .error f⟩ = Run.told ⟨journal, .error g⟩ :=
  congrArg (fun t => (journal, Except.error t)) (Located.told_eq_of_cause h)

/-- **A run does not depend on the places in its tree.** -/
theorem Run.ofProgram_bare (p : Program) :
    (Run.ofProgram p).told = (Run.ofProgram p.bare).told := by
  have hcheck : SameEnd SameCause Eq Eq p.check p.bare.check := p.block.check_blind _ _ rfl
  unfold Run.ofProgram
  cases hc : p.check <;> cases hb : p.bare.check <;> rw [hc, hb] at hcheck
  · next scope _ scope' =>
      obtain rfl : scope = scope' := hcheck.2
      have hexec : SameEnd SameCause Eq Eq (p.exec ⟨.empty, scope.journal⟩)
          (p.bare.exec ⟨.empty, scope.journal⟩) :=
        Statement.listExec_blind p.block.body.statements _ _ rfl
      dsimp only
      cases he : p.exec ⟨.empty, scope.journal⟩ <;>
        cases hx : p.bare.exec ⟨.empty, scope.journal⟩ <;> rw [he, hx] at hexec
      · next m _ m' =>
          obtain rfl : m = m' := hexec.2
          rfl
      · exact hexec.elim
      · exact hexec.elim
      · next e m f m' =>
          obtain ⟨hcause, rfl⟩ := hexec
          exact Run.told_fault (congrArg Fault.runtime hcause)
  · exact hcheck.elim
  · exact hcheck.elim
  · next e scope f scope' =>
      obtain ⟨hcause, rfl⟩ := hcheck
      exact Run.told_fault (congrArg Fault.naming hcause)

end MiniPascal
