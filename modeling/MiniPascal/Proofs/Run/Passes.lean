import MiniPascal.Proofs.Run.Evaluation
import MiniPascal.Proofs.Run.Fold

/-!
# Proofs — Run — Passes

The stores that a run comes by.  Nothing but an assignment changes the store, so these are the store
that a run starts from and the one after each assignment that it performs; in a session each program
adds its own, from the store that the one before it left.  What holds of the first store and is kept
by every assignment holds of all stores that a session passes (`Session.Passes.invariant`).
-/

namespace MiniPascal

/-- Running `as` from `s` comes by `s'`: it is the store after some first assignments. -/
def Passes (s : Store) (as : List Assignment) (s' : Store) : Prop :=
  ∃ done, done <+: as ∧ done.foldlM Store.assign s = .ok s'

/-- What a fold comes to in the end is passed. -/
theorem Folds.passes {s s' : Store} {as : List Assignment} {fault : Option (Located RuntimeFault)}
    (h : Folds s as fault s') : Passes s as s' := by
  cases h with
  | toEnd h => exact ⟨as, List.prefix_rfl, h⟩
  | toFault has h _ => exact ⟨_, ⟨_, has.symm⟩, h⟩

section Invariants

variable {I : Store → Prop}

/-- What every assignment keeps is kept by assignments in a row. -/
theorem foldlM_invariant {as : List Assignment}
    (hstep : ∀ a ∈ as, ∀ s s', I s → s.assign a = .ok s' → I s') :
    ∀ {s s'}, I s → as.foldlM Store.assign s = .ok s' → I s' := by
  induction as with
  | nil =>
      intro s s' hs h
      cases h
      exact hs
  | cons a as ih =>
      intro s s' hs h
      obtain ⟨ha, has⟩ := List.forall_mem_cons.1 hstep
      rw [List.foldlM_cons] at h
      obtain ⟨s₁, hassign, h⟩ := outcome_bind_eq_ok.1 h
      exact ih has (ha s s₁ hs hassign) h

theorem Passes.invariant {s s' : Store} {as : List Assignment} (h : Passes s as s')
    (hstep : ∀ a ∈ as, ∀ s s', I s → s.assign a = .ok s' → I s') (hs : I s) : I s' := by
  obtain ⟨done, hdone, hfold⟩ := h
  exact foldlM_invariant (fun a ha => hstep a (hdone.subset ha)) hs hfold

namespace Session

/-- Running programs one after another from `s` comes by `s'`. -/
inductive Passes : Store → List Program → Store → Prop where
  | within {s s' : Store} {p : Program} {ps : List Program}
      (h : MiniPascal.Passes s p.assignments s') : Passes s (p :: ps) s'
  | later {s s' : Store} {p : Program} {ps : List Program}
      (h : Passes (runOn s p).2 ps s') : Passes s (p :: ps) s'

/-- The stores that the programs of a session leave are passed. -/
theorem passes_of_mem_outcomes {ps : List Program} : ∀ {s : Store}
    {o : Option (Located RuntimeFault) × Store}, o ∈ outcomes s ps → Passes s ps o.2 := by
  induction ps with
  | nil => exact nofun
  | cons p ps ih =>
      intro s o ho
      rcases List.mem_cons.1 ho with rfl | ho
      · exact .within (folds_runOn s p).passes
      · exact .later (ih ho)

/-- **What holds at first and is kept by every assignment holds of all stores that are passed.** -/
theorem Passes.invariant {s s' : Store} {ps : List Program} (h : Passes s ps s')
    (hstep : ∀ p ∈ ps, ∀ a ∈ p.assignments, ∀ s s', I s → s.assign a = .ok s' → I s')
    (hs : I s) : I s' := by
  induction h with
  | within h => exact h.invariant (hstep _ (.head _)) hs
  | later h ih =>
      refine ih (fun p hp => hstep p (.tail _ hp)) ?_
      exact (folds_runOn _ _).passes.invariant (hstep _ (.head _)) hs

end Session

end Invariants

end MiniPascal
