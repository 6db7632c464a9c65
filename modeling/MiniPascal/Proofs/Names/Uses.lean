import MiniPascal.Proofs.Names.Resolution
import MiniPascal.Proofs.Run.Accesses
import MiniPascal.Proofs.Run.Source

/-!
# Proofs — Names — Uses

The check of names and the run are two walks over one tree, the one with a table and the other with
a store.  The names that the run of a text can come by are among those that the check has looked up,
and since a name in a text is no reserved word each of them stands for a variable
(`Program.isVariable_of_access`).  So a run binds declared variables only, stops at reads that the
check has passed, and does not depend on anything else in the store (`Run.ofSource_names`).
-/

namespace MiniPascal

/-- A name stands for a variable. -/
def SymbolTable.IsVariable (t : SymbolTable) (name : String) : Prop :=
  ∃ type, t.get? name = some (.declared name type)

/-! ### Names in a tree -/

/-- No name is the word of a type. -/
theorem Nameable.ne_type {name : String} (h : Nameable name) (type : TypeName) :
    name ≠ type.text := by
  rintro rfl
  have hword := h.2
  rw [String.ofList_toList] at hword
  cases type <;> cases hword

theorem Expression.nameable_reads {e : Expression} (h : e.Writable) :
    ∀ o ∈ e.reads, Nameable o.name := by
  induction e with
  | binary op l r span ihl ihr => exact List.forall_mem_append.2 ⟨ihl h.1, ihr h.2⟩
  | unary op e span ih => exact ih h
  | num n span => exact nofun
  | var name span => exact List.forall_mem_singleton.2 h

mutual

/-- The names of an assignment occur in the statement that it is part of. -/
theorem Statement.mem_occurrences : ∀ s : Statement, ∀ a ∈ s.assignments,
    a.value.reads ⊆ s.occurrences ∧ ∃ o ∈ s.occurrences, o.name = a.target
  | .compound ss _, a, h => by
      rw [assignments] at h
      rw [occurrences]
      exact listMem_occurrences ss a h
  | .assign target targetSpan value _, a, h => by
      rw [assignments] at h
      obtain rfl := List.mem_singleton.1 h
      rw [occurrences]
      exact ⟨List.subset_append_left _ _, ⟨target, targetSpan⟩,
        List.mem_append_right _ (List.mem_singleton_self _), rfl⟩
  | .noop, a, h => by
      rw [assignments] at h
      cases h

theorem Statement.listMem_occurrences : ∀ ss, ∀ a ∈ listAssignments ss,
    a.value.reads ⊆ listOccurrences ss ∧ ∃ o ∈ listOccurrences ss, o.name = a.target
  | [], a, h => by
      rw [listAssignments] at h
      cases h
  | s :: ss, a, h => by
      rw [listAssignments] at h
      rw [listOccurrences]
      rcases List.mem_append.1 h with h | h
      · obtain ⟨hreads, o, ho, htarget⟩ := s.mem_occurrences a h
        exact ⟨List.subset_append_of_subset_left _ hreads, o, List.mem_append_left _ ho, htarget⟩
      · obtain ⟨hreads, o, ho, htarget⟩ := listMem_occurrences ss a h
        exact ⟨List.subset_append_of_subset_right _ hreads, o, List.mem_append_right _ ho, htarget⟩

end

/-! ### Names in the table -/

/-- Variables that are not named like a type hide none. -/
theorem Variable.hidden_eq_nil {vs : List Variable} : ∀ {earlier : List Variable},
    (∀ v ∈ earlier ++ vs, Nameable v.name) → hidden earlier vs = [] := by
  induction vs with
  | nil => exact fun _ => rfl
  | cons v vs ih =>
      intro earlier h
      rw [List.append_cons] at h
      have hfree : v.type.text ∉ earlier.map (·.name) := by
        intro htype
        obtain ⟨w, hw, hname⟩ := List.mem_map.1 htype
        have hwName := h w (List.mem_append_left _ (List.mem_append_left _ hw))
        exact hwName.ne_type v.type hname
      rw [hidden, if_neg hfree]
      exact ih h

namespace Program

variable {source : String} {p : Program} {scope : Scope}

theorem nameable_declared (h : p.Writable) : ∀ v ∈ p.declared, Nameable v.name := by
  intro v hv
  obtain ⟨d, hd, hvar⟩ := List.mem_filterMap.1 hv
  have hwritable := (Declaration.listWritable_iff _).1 h.2.2.1 d hd
  cases d with
  | var name type span =>
      cases hvar
      rw [Declaration.Writable] at hwritable
      exact hwritable
  | procedure name decls body span => cases hvar

/-- No declaration that can be written declares over a type. -/
theorem hidden_of_writable (h : p.Writable) : Variable.hidden [] p.declared = [] :=
  Variable.hidden_eq_nil (nameable_declared h)

/-- The check of a text stops at its first name that stands for nothing, or comes to its end. -/
theorem check_of_read (hread : read source = .ok p) :
    ((∀ o ∈ p.occurrences, o.name ∈ p.knownNames) ∧
      p.check = .ok () (p.entered.afterLookups p.occurrences)) ∨
    ∃ front o back, p.occurrences = front ++ o :: back ∧
      (∀ o' ∈ front, o'.name ∈ p.knownNames) ∧ o.name ∉ p.knownNames ∧
      p.check = .error ⟨.undeclared o.name, o.span⟩ (p.entered.afterLookups (front ++ [o])) := by
  have hhidden := hidden_of_writable (writable_of_read hread)
  cases hundeclared : p.undeclared with
  | nil =>
      have hcheck := check_of_declared hhidden hundeclared
      exact .inl ⟨(scope_of_check hcheck).2, hcheck⟩
  | cons o more =>
      obtain ⟨front, back, hoccurrences, hfront, ho, -⟩ := List.filter_eq_cons_iff.1 hundeclared
      have hknown : ∀ o' ∈ front, o'.name ∈ p.knownNames :=
        fun o' ho' => by simpa using hfront o' ho'
      have hunknown := of_decide_eq_true ho
      exact .inr ⟨front, o, back, hoccurrences, hknown, hunknown,
        check_at_unknown hhidden hoccurrences hknown hunknown⟩

/-- A known name that is no reserved word stands for a variable. -/
theorem isVariable_of_mem_knownNames {name : String} (hname : Nameable name)
    (h : name ∈ p.knownNames) : (SymbolTable.ofVariables p.declared).IsVariable name := by
  rw [knownNames] at h
  -- The two types are known as well, but no name in a text is spelled like them.
  rcases List.mem_cons.1 h with rfl | h
  · exact absurd rfl (hname.ne_type .integer)
  rcases List.mem_cons.1 h with rfl | h
  · exact absurd rfl (hname.ne_type .real)
  exact SymbolTable.get?_of_declared h

/-- After the check every name that occurs is that of a variable. -/
theorem isVariable_of_mem_occurrences (hcheck : p.check = .ok () scope) {o : Occurrence}
    (hname : Nameable o.name) (h : o ∈ p.occurrences) : scope.symbols.IsVariable o.name := by
  obtain ⟨rfl, hknown⟩ := scope_of_check hcheck
  have hvariable := isVariable_of_mem_knownNames hname (hknown o h)
  rwa [← p.symbols_entered] at hvariable

/-- An assignment of a text that has been checked has the names of variables only. -/
theorem isVariable_of_mem_assignments (hread : read source = .ok p)
    (hcheck : p.check = .ok () scope) {a : Assignment} (ha : a ∈ p.assignments) :
    (∀ o ∈ a.value.reads, scope.symbols.IsVariable o.name) ∧ scope.symbols.IsVariable a.target := by
  have hwritable := writable_assignments (writable_of_read hread) a ha
  obtain ⟨hreads, t, ht, htarget⟩ := Statement.listMem_occurrences _ a ha
  refine ⟨fun o ho => ?_, ?_⟩
  · exact isVariable_of_mem_occurrences hcheck (Expression.nameable_reads hwritable.2 o ho)
      (hreads ho)
  · rw [← htarget]
    exact isVariable_of_mem_occurrences hcheck (htarget ▸ hwritable.1) ht

/-- **A run of a text that has been checked reads and writes variables only.** -/
theorem isVariable_of_access (hread : read source = .ok p) (hcheck : p.check = .ok () scope)
    {s : Store} {access : Access} (h : access ∈ accesses s p.assignments) :
    scope.symbols.IsVariable access.name := by
  obtain ⟨a, ha, ⟨o, ho, rfl⟩ | rfl⟩ := mem_accesses h
  · exact (isVariable_of_mem_assignments hread hcheck ha).1 o ho
  · exact (isVariable_of_mem_assignments hread hcheck ha).2

end Program

/-! ### Names in the store -/

/-- What assignments make of a store are puts under their targets. -/
theorem exists_puts_of_foldlM {as : List Assignment} : ∀ {s s' : Store},
    as.foldlM Store.assign s = .ok s' →
      ∃ puts : List (String × Number), puts.map (·.1) = as.map (·.target) ∧ s' = s.putAll puts := by
  induction as with
  | nil =>
      intro s s' h
      cases h
      exact ⟨[], rfl, rfl⟩
  | cons a as ih =>
      intro s s' h
      rw [List.foldlM_cons] at h
      obtain ⟨s₁, hassign, h⟩ := outcome_bind_eq_ok.1 h
      obtain ⟨puts, htargets, rfl⟩ := ih h
      obtain ⟨n, -, rfl⟩ := Store.exists_value_of_assign hassign
      exact ⟨(a.target, n) :: puts, congrArg (a.target :: ·) htargets, rfl⟩

/-- Assignments on an empty store bind their targets in the order of the first assignment. -/
theorem names_of_foldlM {as : List Assignment} {s : Store}
    (h : as.foldlM Store.assign .empty = .ok s) : s.names = (as.map (·.target)).eraseDups := by
  obtain ⟨puts, htargets, rfl⟩ := exists_puts_of_foldlM h
  rw [Bindings.names_putAll, htargets]

/-! ### The run of a text -/

namespace Run

/-- **The check and the run agree on names.**  A run to the end binds the targets of the assignments
in the order of the first one, and all of them are variables of the table.  A run that stops at a
variable without a value has passed the check, the variable is in the table, and the place is that
of a read that the check has looked up.  And whenever a text passes the check, its run accesses
variables of the table only; so it comes to the same whatever there is under other names, and leaves
them. -/
theorem ofSource_names (source : String) :
    (∀ remains, (ofSource source).result = .ok remains → ∃ p, Program.read source = .ok p ∧
      (∀ name ∈ remains.store.names, remains.symbols.IsVariable name) ∧
      remains.store.names = (p.assignments.map (·.target)).eraseDups) ∧
    (∀ name span, (ofSource source).result = .error ⟨.runtime (.uninitialized name), span⟩ →
      ∃ p scope, Program.read source = .ok p ∧ p.check = .ok () scope ∧
        scope.symbols.IsVariable name ∧ (∃ a ∈ p.assignments, ⟨name, span⟩ ∈ a.value.reads) ∧
        ⟨name, span⟩ ∈ p.occurrences ∧ scope.journal.toList =
          p.entered.journal.toList ++ p.occurrences.map fun o => .lookup o.name) ∧
    ∀ p scope, Program.read source = .ok p → p.check = .ok () scope →
      (∀ access ∈ accesses .empty p.assignments, scope.symbols.IsVariable access.name) ∧
      ∀ s : Store, (∀ name, scope.symbols.IsVariable name → s.get? name = none) →
        (Session.runOn s p).1 = (Session.runOn .empty p).1 ∧
        (∀ name, scope.symbols.IsVariable name →
          (Session.runOn s p).2.get? name = (Session.runOn .empty p).2.get? name) ∧
        ∀ name, ¬ scope.symbols.IsVariable name →
          (Session.runOn s p).2.get? name = s.get? name := by
  refine ⟨fun remains h => ?_, fun name span h => ?_, fun p scope hread hcheck => ?_⟩
  · have hends := ends_ofSource source
    rw [h] at hends
    cases hends with
    | @finished p scope s hread hcheck hfolds =>
        cases hfolds with
        | toEnd hfold =>
            have hnames := names_of_foldlM hfold
            refine ⟨p, hread, fun name hname => ?_, hnames⟩
            rw [hnames, List.mem_eraseDups] at hname
            obtain ⟨a, ha, rfl⟩ := List.mem_map.1 hname
            exact (Program.isVariable_of_mem_assignments hread hcheck ha).2
  · let fault : Located RuntimeFault := ⟨.uninitialized name, span⟩
    obtain ⟨p, scope, s, hread, hcheck, hfolds⟩ := @folds_of_runtime source fault h
    cases hfolds with
    | @toFault done rest a _ _ hassignments hfold hfault =>
        have ha : a ∈ p.assignments := by simp [hassignments]
        have hread' := Expression.lookups_subset_reads
          (Expression.mem_lookups_of_uninitialized hfault)
        refine ⟨p, scope, hread, hcheck, ?_, ⟨a, ha, hread'⟩, ?_, ?_⟩
        · exact (Program.isVariable_of_mem_assignments hread hcheck ha).1 _ hread'
        · exact (Statement.listMem_occurrences _ a ha).1 hread'
        · obtain ⟨rfl, -⟩ := Program.scope_of_check hcheck
          simp [Scope.afterLookups]
  · have haccess : ∀ access ∈ accesses .empty p.assignments, scope.symbols.IsVariable access.name :=
      fun _ h => Program.isVariable_of_access hread hcheck h
    refine ⟨haccess, fun s hs => ?_⟩
    have hsame : Store.SameOn scope.symbols.IsVariable .empty s := hs
    exact Session.runOn_sameOn haccess hsame

/-- A text whose run comes to its end. -/
def assignedSource : String := "PROGRAM T; VAR x : REAL; BEGIN x := 1 END."

/-- A text whose run stops at a variable that has no value. -/
def unassignedSource : String := "PROGRAM T; VAR x : REAL; BEGIN x := x END."

theorem scan_assignedSource : scan assignedSource = .ok
    [⟨.programWord, "PROGRAM", ⟨0, 7⟩⟩, ⟨.identifier, "T", ⟨8, 1⟩⟩, ⟨.semicolon, ";", ⟨9, 1⟩⟩,
      ⟨.varWord, "VAR", ⟨11, 3⟩⟩, ⟨.identifier, "x", ⟨15, 1⟩⟩, ⟨.colon, ":", ⟨17, 1⟩⟩,
      ⟨.realWord, "REAL", ⟨19, 4⟩⟩, ⟨.semicolon, ";", ⟨23, 1⟩⟩, ⟨.beginWord, "BEGIN", ⟨25, 5⟩⟩,
      ⟨.identifier, "x", ⟨31, 1⟩⟩, ⟨.assign, ":=", ⟨33, 2⟩⟩, ⟨.integerConst, "1", ⟨36, 1⟩⟩,
      ⟨.endWord, "END", ⟨38, 3⟩⟩, ⟨.dot, ".", ⟨41, 1⟩⟩, .eof 42] := by decide +kernel

theorem scan_unassignedSource : scan unassignedSource = .ok
    [⟨.programWord, "PROGRAM", ⟨0, 7⟩⟩, ⟨.identifier, "T", ⟨8, 1⟩⟩, ⟨.semicolon, ";", ⟨9, 1⟩⟩,
      ⟨.varWord, "VAR", ⟨11, 3⟩⟩, ⟨.identifier, "x", ⟨15, 1⟩⟩, ⟨.colon, ":", ⟨17, 1⟩⟩,
      ⟨.realWord, "REAL", ⟨19, 4⟩⟩, ⟨.semicolon, ";", ⟨23, 1⟩⟩, ⟨.beginWord, "BEGIN", ⟨25, 5⟩⟩,
      ⟨.identifier, "x", ⟨31, 1⟩⟩, ⟨.assign, ":=", ⟨33, 2⟩⟩, ⟨.identifier, "x", ⟨36, 1⟩⟩,
      ⟨.endWord, "END", ⟨38, 3⟩⟩, ⟨.dot, ".", ⟨41, 1⟩⟩, .eof 42] := by decide +kernel

theorem ofSource_names_example :
    (∃ remains, (ofSource assignedSource).result = .ok remains ∧ remains.store.names = ["x"] ∧
      ∀ name ∈ remains.store.names, remains.symbols.IsVariable name) ∧
    (ofSource unassignedSource).result = .error ⟨.runtime (.uninitialized "x"), ⟨36, 1⟩⟩ ∧
    ∃ p scope, Program.read unassignedSource = .ok p ∧ p.check = .ok () scope ∧
      scope.symbols.IsVariable "x" ∧ .read ⟨"x", ⟨36, 1⟩⟩ ∈ accesses .empty p.assignments ∧
      ∀ access ∈ accesses .empty p.assignments, scope.symbols.IsVariable access.name := by
  have hend : ∃ remains, (ofSource assignedSource).result = .ok remains ∧
      remains.store.names = ["x"] := by
    rw [ofSource, Program.read, results_of_scan scan_assignedSource]
    exact ⟨_, rfl, rfl⟩
  have hstop : (ofSource unassignedSource).result =
      .error ⟨.runtime (.uninitialized "x"), ⟨36, 1⟩⟩ := by
    rw [ofSource, Program.read, results_of_scan scan_unassignedSource]
    rfl
  obtain ⟨remains, hremains, hx⟩ := hend
  obtain ⟨q, -, hvariables, -⟩ := (ofSource_names assignedSource).1 remains hremains
  obtain ⟨p, scope, hread, hcheck, hy, -⟩ := (ofSource_names unassignedSource).2.1 _ _ hstop
  have haccesses := ((ofSource_names unassignedSource).2.2 p scope hread hcheck).1
  refine ⟨⟨remains, hremains, hx, hvariables⟩, hstop, p, scope, hread, hcheck, hy, ?_, haccesses⟩
  rw [Program.read, results_of_scan scan_unassignedSource] at hread
  cases hread
  exact .head _

end Run

end MiniPascal
