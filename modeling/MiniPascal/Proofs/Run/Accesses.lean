import MiniPascal.Proofs.Names.Occurrences
import MiniPascal.Proofs.Run.Evaluation
import MiniPascal.Proofs.Run.Fold

/-!
# Proofs — Run — Accesses

What a run reads and writes.  `Expression.lookups` are the variables whose values the evaluation of
an expression asks for: a right operand is not reached unless the left one has a value.  `accesses`
are the reads and writes of a run in their order.  A run that keeps to some names comes to the same
on all stores with the same values under these, and leaves every other name as it was
(`Session.runOn_sameOn`).
-/

namespace MiniPascal

/-! ### Expressions -/

namespace Expression

variable {s t : Store} {e : Expression}

/-- The variables whose values are asked for, in order. -/
def lookups (s : Store) : Expression → List Occurrence
  | .binary _ l r _ =>
      l.lookups s ++
        match l.eval s with
        | .ok _    => r.lookups s
        | .error _ => []
  | .unary _ e _    => e.lookups s
  | .num _ _        => []
  | .var name span  => [⟨name, span⟩]

/-- Only what an expression reads is looked up. -/
theorem lookups_subset_reads : e.lookups s ⊆ e.reads := by
  induction e with
  | binary op l r span ihl ihr =>
      rw [lookups, reads]
      refine List.append_subset.2 ⟨List.subset_append_of_subset_left _ ihl, ?_⟩
      cases l.eval s with
      | ok a => exact List.subset_append_of_subset_right _ ihr
      | error fault => exact List.nil_subset _
  | unary op e span ih => exact ih
  | num n span => exact List.nil_subset _
  | var name span => exact List.Subset.refl _

/-- A variable without a value is asked for where it is blamed. -/
theorem mem_lookups_of_uninitialized {name : String} {span : Span}
    (h : e.eval s = .error ⟨.uninitialized name, span⟩) : ⟨name, span⟩ ∈ e.lookups s := by
  induction e with
  | binary op l r _ ihl ihr =>
      rw [lookups]
      rcases eval_binary_eq_error.1 h with hl | ⟨a, hl, hr⟩ | ⟨_, _, _, _, _, _, hfault⟩
      · exact List.mem_append_left _ (ihl hl)
      · rw [hl]
        exact List.mem_append_right _ (ihr hr)
      · cases hfault
  | unary op e _ ih =>
      rcases eval_unary_eq_error.1 h with he | ⟨_, _, _, _, hfault⟩
      · exact ih he
      · cases hfault
  | num n _ => cases h
  | var other _ =>
      rw [eval] at h
      cases hvalue : s.get? other with
      | some n =>
          rw [hvalue] at h
          cases h
      | none =>
          rw [hvalue] at h
          cases h
          exact List.mem_singleton_self _

/-- **Evaluation depends on nothing but the values that it asks for.** -/
theorem eval_congr (h : ∀ o ∈ e.lookups s, t.get? o.name = s.get? o.name) :
    e.eval t = e.eval s := by
  induction e with
  | binary op l r span ihl ihr =>
      rw [lookups, List.forall_mem_append] at h
      rw [eval, eval, ihl h.1]
      cases hl : l.eval s with
      | error fault => rfl
      | ok a =>
          rw [hl] at h
          rw [ihr h.2]
  | unary op e span ih => rw [eval, eval, ih h]
  | num n span => rfl
  | var name span => rw [eval, eval, h _ (List.mem_singleton_self _)]

end Expression

/-! ### Assignments in a row -/

/-- A read of a variable, or a write to one. -/
inductive Access where
  | read (o : Occurrence)
  | write (name : String)
deriving DecidableEq, Repr

/-- The variable that is read or written. -/
def Access.name : Access → String
  | .read o     => o.name
  | .write name => name

/-- The reads and writes of a run, up to its end or its fault. -/
def accesses (s : Store) : List Assignment → List Access
  | []      => []
  | a :: as =>
      (a.value.lookups s).map .read ++
        match s.assign a with
        | .ok s'   => .write a.target :: accesses s' as
        | .error _ => []

/-- Every access is a read or the write of some assignment. -/
theorem mem_accesses {access : Access} {as : List Assignment} : ∀ {s : Store},
    access ∈ accesses s as →
      ∃ a ∈ as, (∃ o ∈ a.value.reads, access = .read o) ∨ access = .write a.target := by
  induction as with
  | nil => exact nofun
  | cons a as ih =>
      intro s h
      rw [accesses] at h
      rcases List.mem_append.1 h with h | h
      · obtain ⟨o, ho, rfl⟩ := List.mem_map.1 h
        exact ⟨a, .head _, .inl ⟨o, Expression.lookups_subset_reads ho, rfl⟩⟩
      · cases hassign : s.assign a with
        | error fault =>
            rw [hassign] at h
            cases h
        | ok s' =>
            rw [hassign] at h
            rcases List.mem_cons.1 h with rfl | h
            · exact ⟨a, .head _, .inr rfl⟩
            · obtain ⟨b, hb, haccess⟩ := ih h
              exact ⟨b, .tail _ hb, haccess⟩

/-- The same values under the names of `V`. -/
def Store.SameOn (V : String → Prop) (s t : Store) : Prop :=
  ∀ name, V name → t.get? name = s.get? name

section Confinement

variable {V : String → Prop} {s t : Store}

/-- Stores that agree on names still do after the same assignment. -/
theorem Store.SameOn.put (h : s.SameOn V t) (name : String) (n : Number) :
    Store.SameOn V (s.put name n) (t.put name n) := by
  intro other hother
  rw [Bindings.get?_put, Bindings.get?_put, h other hother]

/-- An assignment to another name changes nothing about these. -/
theorem Store.sameOn_put {name : String} (h : ¬ V name) (n : Number) :
    Store.SameOn V s (s.put name n) := by
  intro other hother
  have hne : name ≠ other := fun heq => h (heq ▸ hother)
  rw [Bindings.get?_put, if_neg hne]

theorem Store.SameOn.trans {u : Store} (h : s.SameOn V t) (h' : t.SameOn V u) : s.SameOn V u :=
  fun name hname => (h' name hname).trans (h name hname)

/-- The fault of a run, if there is one, and the store that it leaves. -/
def Exec.outcome :
    EStateM.Result (Located RuntimeFault) Machine Unit → Option (Located RuntimeFault) × Store
  | .ok _ m    => (none, m.store)
  | .error e m => (some e, m.store)

/-- Assignments that keep to `V` come to the same on stores that are the same there. -/
theorem outcome_sameOn (as : List Assignment) : ∀ {m n : Machine},
    (∀ access ∈ accesses m.store as, V access.name) → m.store.SameOn V n.store →
      let left := Exec.outcome ((forM as Exec.perform : Exec Unit) m)
      let right := Exec.outcome ((forM as Exec.perform : Exec Unit) n)
      right.1 = left.1 ∧ left.2.SameOn V right.2 ∧
        n.store.SameOn (fun name => ¬ V name) right.2 := by
  induction as with
  | nil => exact fun _ hmn => ⟨rfl, hmn, fun _ _ => rfl⟩
  | cons a as ih =>
      intro m n h hmn
      rw [accesses, List.forall_mem_append, List.forall_mem_map] at h
      have heval : a.value.eval n.store = a.value.eval m.store :=
        Expression.eval_congr fun o ho => hmn o.name (h.1 o ho)
      rw [List.forM_cons]
      cases hvalue : a.value.eval m.store with
      | error fault =>
          rw [bind_of_error (Exec.perform_of_fault hvalue),
            bind_of_error (Exec.perform_of_fault (heval.trans hvalue))]
          exact ⟨rfl, hmn, fun _ _ => rfl⟩
      | ok x =>
          rw [Store.assign_of_eval hvalue] at h
          obtain ⟨htarget, hrest⟩ := List.forall_mem_cons.1 h.2
          -- Both runs put the same value under a name of `V`, and go on.
          rw [bind_of_ok (Exec.perform_of_eval hvalue),
            bind_of_ok (Exec.perform_of_eval (heval.trans hvalue))]
          obtain ⟨hfault, hsame, hother⟩ :=
            ih (m := ⟨_, _⟩) (n := ⟨_, _⟩) hrest (hmn.put a.target x)
          exact ⟨hfault, hsame, (Store.sameOn_put (not_not_intro htarget) x).trans hother⟩

/-- **A run depends on nothing but the names that it keeps to, and changes no other.** -/
theorem Session.runOn_sameOn {p : Program} (h : ∀ access ∈ accesses s p.assignments, V access.name)
    (hst : s.SameOn V t) :
    (runOn t p).1 = (runOn s p).1 ∧ (runOn s p).2.SameOn V (runOn t p).2 ∧
      t.SameOn (fun name => ¬ V name) (runOn t p).2 := by
  have hrun : ∀ u, runOn u p = Exec.outcome (p.exec ⟨u, #[]⟩) := fun _ => rfl
  rw [hrun s, hrun t, p.exec_eq_forM, p.exec_eq_forM]
  exact outcome_sameOn p.assignments (m := ⟨s, #[]⟩) (n := ⟨t, #[]⟩) h hst

end Confinement

end MiniPascal
