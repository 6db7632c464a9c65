import MiniPascal.Proofs.Names.Uses
import MiniPascal.Proofs.Run.Blind
import MiniPascal.Proofs.Run.Effect

/-!
# Proofs — Names — Declarations

What a run owes to the declarations in front of it.  No declaration that can be written is refused,
so all that they are good for is to make names known; which names of the body are unknown depends on
the set of the names that are declared, and what the body puts in the store not even on these
(`Run.result_of_names`).  Main statement: texts with the same body that declare the same names leave
the same store behind or end in faults that are told alike, whatever the types, the order and the
repetitions of the declarations and whatever the procedures; and if the variables are the same, the
tables and the journals are as well (`Run.ofSource_declarations`).
-/

namespace MiniPascal

/-! ### Declarations without places -/

/-- A variable without its place. -/
def Variable.bare (v : Variable) : Variable := ⟨v.name, v.type, .none⟩

theorem Declaration.declared?_bare (d : Declaration) :
    d.bare.declared? = d.declared?.map Variable.bare := by
  cases d with
  | var name type span =>
      rw [bare]
      rfl
  | procedure name decls body span =>
      rw [bare]
      rfl

namespace Program

variable {p q : Program}

theorem declared_bare (p : Program) : p.bare.declared = p.declared.map Variable.bare := by
  change (Declaration.listBare p.block.decls).filterMap Declaration.declared? = _
  rw [Declaration.listBare_eq_map, List.filterMap_map, declared, List.map_filterMap]
  exact congrArg (List.filterMap · p.block.decls) (funext Declaration.declared?_bare)

theorem names_declared_bare (p : Program) :
    p.bare.declared.map (·.name) = p.declared.map (·.name) := by
  rw [declared_bare, List.map_map]
  rfl

/-- A check comes to its end if that of the bare program does, and with the same scope. -/
theorem check_bare_eq_ok {scope : Scope} :
    p.bare.check = .ok () scope ↔ p.check = .ok () scope := by
  have hcheck : SameEnd SameCause Eq Eq p.check p.bare.check := p.block.check_blind _ _ rfl
  cases hleft : p.check <;> cases hright : p.bare.check <;> rw [hleft, hright] at hcheck
  · rw [hcheck.2]
  · exact hcheck.elim
  · exact hcheck.elim
  · exact ⟨nofun, nofun⟩

/-- Programs with the same body and the same declared names have the same unknown names. -/
theorem undeclared_of_names (hbody : q.block.body = p.block.body)
    (hnames : ∀ name, name ∈ q.declared.map (·.name) ↔ name ∈ p.declared.map (·.name)) :
    q.undeclared = p.undeclared := by
  have hknown : ∀ name, name ∈ q.knownNames ↔ name ∈ p.knownNames := by
    intro name
    simp only [knownNames, List.mem_cons, hnames]
  rw [undeclared, undeclared, occurrences, occurrences, hbody]
  exact List.filter_congr fun o _ => decide_eq_decide.2 (not_congr (hknown o.name))

end Program

/-! ### Runs -/

namespace Run

/-- What is told of the end of a run apart from places: the last store, or the category and the
message of the fault. -/
def toldStore (r : Run) : Except (Category × String) Store := r.told.2.map (·.store)

/-- What is told of the store is what the run comes to. -/
theorem toldStore_eq (r : Run) : r.toldStore = (r.result.map (·.store)).mapError Located.told := by
  rw [toldStore, told]
  cases r.result <;> rfl

variable {source source' : String} {p q : Program}

/-- A run depends on the names that are declared and on the body. -/
theorem result_of_names (hp : p.Writable) (hq : q.Writable) (hbody : q.block.body = p.block.body)
    (hnames : ∀ name, name ∈ q.declared.map (·.name) ↔ name ∈ p.declared.map (·.name)) :
    (ofProgram q).result.map (·.store) = (ofProgram p).result.map (·.store) := by
  have hundeclared := Program.undeclared_of_names hbody hnames
  have hhidden := Program.hidden_of_writable hp
  have hhidden' := Program.hidden_of_writable hq
  cases h : p.undeclared with
  | nil =>
      have hcheck := Program.check_of_declared hhidden h
      have hcheck' := Program.check_of_declared hhidden' (hundeclared.trans h)
      have heffect : q.effectOn .empty = p.effectOn .empty := by
        rw [Program.effectOn, Program.effectOn, Program.assignments, Program.assignments, hbody]
      rw [ofProgram_eq hcheck, ofProgram_eq hcheck', heffect]
      cases (p.effectOn .empty).fault <;> rfl
  | cons o more =>
      obtain ⟨_, _, _, hcheck⟩ := Program.check_of_undeclared hhidden h
      obtain ⟨_, _, _, hcheck'⟩ := Program.check_of_undeclared hhidden' (hundeclared.trans h)
      rw [ofProgram, ofProgram, hcheck, hcheck']

/-- **Declarations only decide which names there are.**  Let two texts be read as programs with the
same body, places aside.  If they declare the same names, in whatever order, however often and with
whatever types and procedures, their runs leave the same store behind, or end in faults of the same
category with the same message.  If moreover they declare the same variables in the same order, so
that only the procedures differ, their checks come to the same table, and their runs are told
alike with everything in their journals. -/
theorem ofSource_declarations (hp : Program.read source = .ok p)
    (hq : Program.read source' = .ok q) (hbody : q.block.body.bare = p.block.body.bare) :
    ((∀ name, name ∈ q.declared.map (·.name) ↔ name ∈ p.declared.map (·.name)) →
      (ofSource source').toldStore = (ofSource source).toldStore) ∧
    (q.declared.map Variable.bare = p.declared.map Variable.bare →
      (∀ scope, q.check = .ok () scope ↔ p.check = .ok () scope) ∧
      (ofSource source').told = (ofSource source).told) := by
  have hpBare : (ofSource source).told = (ofProgram p.bare).told := by
    rw [ofSource, hp]
    exact ofProgram_bare p
  have hqBare : (ofSource source').told = (ofProgram q.bare).told := by
    rw [ofSource, hq]
    exact ofProgram_bare q
  refine ⟨fun hnames => ?_, fun hvariables => ?_⟩
  · have hresult : (ofProgram q.bare).result.map (·.store) =
        (ofProgram p.bare).result.map (·.store) := by
      refine result_of_names (Program.writable_bare.2 (Program.writable_of_read hp))
        (Program.writable_bare.2 (Program.writable_of_read hq)) hbody fun name => ?_
      rw [Program.names_declared_bare, Program.names_declared_bare]
      exact hnames name
    have hstore := congrArg (Except.mapError Located.told) hresult
    rw [← toldStore_eq, ← toldStore_eq] at hstore
    rw [toldStore, toldStore, hpBare, hqBare]
    exact hstore
  · -- A check is made of the variables and of the names in the body, and these are the same.
    have hcheck : q.bare.check = p.bare.check := by
      have hoccurrences : q.bare.occurrences = p.bare.occurrences :=
        congrArg (fun body : Compound => Statement.listOccurrences body.statements) hbody
      rw [Program.check_eq, Program.check_eq, Program.declared_bare, Program.declared_bare,
        hvariables, hoccurrences]
    refine ⟨fun scope => ?_, ?_⟩
    · rw [← Program.check_bare_eq_ok, hcheck, Program.check_bare_eq_ok]
    · have hexec : q.bare.exec = p.bare.exec :=
        funext fun m => congrArg (fun body : Compound => Statement.listExec body.statements m) hbody
      rw [hpBare, hqBare, ofProgram, ofProgram, hcheck, hexec]

/-- `assignedSource` with its variable declared twice, and as an integer. -/
def redeclaredSource : String := "PROGRAM T; VAR x, x : INTEGER; BEGIN x := 1 END."

/-- `assignedSource` with a procedure that assigns to an unknown variable. -/
def procedureSource : String :=
  "PROGRAM T; VAR x : REAL; PROCEDURE P; BEGIN y := 2 END; BEGIN x := 1 END."

/-- The body of these texts, without its places. -/
def assignedBody : Compound := ⟨[.assign "x" .none (.num (.int 1) .none) .none], .none⟩

theorem scan_redeclaredSource : scan redeclaredSource = .ok
    [⟨.programWord, "PROGRAM", ⟨0, 7⟩⟩, ⟨.identifier, "T", ⟨8, 1⟩⟩, ⟨.semicolon, ";", ⟨9, 1⟩⟩,
      ⟨.varWord, "VAR", ⟨11, 3⟩⟩, ⟨.identifier, "x", ⟨15, 1⟩⟩, ⟨.comma, ",", ⟨16, 1⟩⟩,
      ⟨.identifier, "x", ⟨18, 1⟩⟩, ⟨.colon, ":", ⟨20, 1⟩⟩, ⟨.integerWord, "INTEGER", ⟨22, 7⟩⟩,
      ⟨.semicolon, ";", ⟨29, 1⟩⟩, ⟨.beginWord, "BEGIN", ⟨31, 5⟩⟩, ⟨.identifier, "x", ⟨37, 1⟩⟩,
      ⟨.assign, ":=", ⟨39, 2⟩⟩, ⟨.integerConst, "1", ⟨42, 1⟩⟩, ⟨.endWord, "END", ⟨44, 3⟩⟩,
      ⟨.dot, ".", ⟨47, 1⟩⟩, .eof 48] := by decide +kernel

theorem scan_procedureSource : scan procedureSource = .ok
    [⟨.programWord, "PROGRAM", ⟨0, 7⟩⟩, ⟨.identifier, "T", ⟨8, 1⟩⟩, ⟨.semicolon, ";", ⟨9, 1⟩⟩,
      ⟨.varWord, "VAR", ⟨11, 3⟩⟩, ⟨.identifier, "x", ⟨15, 1⟩⟩, ⟨.colon, ":", ⟨17, 1⟩⟩,
      ⟨.realWord, "REAL", ⟨19, 4⟩⟩, ⟨.semicolon, ";", ⟨23, 1⟩⟩,
      ⟨.procedureWord, "PROCEDURE", ⟨25, 9⟩⟩, ⟨.identifier, "P", ⟨35, 1⟩⟩,
      ⟨.semicolon, ";", ⟨36, 1⟩⟩, ⟨.beginWord, "BEGIN", ⟨38, 5⟩⟩, ⟨.identifier, "y", ⟨44, 1⟩⟩,
      ⟨.assign, ":=", ⟨46, 2⟩⟩, ⟨.integerConst, "2", ⟨49, 1⟩⟩, ⟨.endWord, "END", ⟨51, 3⟩⟩,
      ⟨.semicolon, ";", ⟨54, 1⟩⟩, ⟨.beginWord, "BEGIN", ⟨56, 5⟩⟩, ⟨.identifier, "x", ⟨62, 1⟩⟩,
      ⟨.assign, ":=", ⟨64, 2⟩⟩, ⟨.integerConst, "1", ⟨67, 1⟩⟩, ⟨.endWord, "END", ⟨69, 3⟩⟩,
      ⟨.dot, ".", ⟨72, 1⟩⟩, .eof 73] := by decide +kernel

theorem ofSource_declarations_example :
    (ofSource assignedSource).toldStore = .ok ⟨[("x", .int 1)]⟩ ∧
      (ofSource redeclaredSource).toldStore = (ofSource assignedSource).toldStore ∧
      (ofSource procedureSource).told = (ofSource assignedSource).told := by
  have hread : ∃ p, Program.read assignedSource = .ok p ∧
      p.block.body.bare = assignedBody ∧
      p.declared.map Variable.bare = [⟨"x", .real, .none⟩] := by
    rw [Program.read, results_of_scan scan_assignedSource]
    exact ⟨_, rfl, rfl, rfl⟩
  have hredeclared : ∃ p, Program.read redeclaredSource = .ok p ∧
      p.block.body.bare = assignedBody ∧
      p.declared.map (·.name) = ["x", "x"] := by
    rw [Program.read, results_of_scan scan_redeclaredSource]
    exact ⟨_, rfl, rfl, rfl⟩
  have hprocedure : ∃ p, Program.read procedureSource = .ok p ∧
      p.block.body.bare = assignedBody ∧
      p.declared.map Variable.bare = [⟨"x", .real, .none⟩] := by
    rw [Program.read, results_of_scan scan_procedureSource]
    exact ⟨_, rfl, rfl, rfl⟩
  obtain ⟨p, hp, hbody, hvariables⟩ := hread
  obtain ⟨q, hq, hqBody, hqNames⟩ := hredeclared
  obtain ⟨r, hr, hrBody, hrVariables⟩ := hprocedure
  have hnames : p.declared.map (·.name) = ["x"] := by
    simpa [Function.comp_def, Variable.bare] using congrArg (List.map Variable.name) hvariables
  refine ⟨?_, ?_, ?_⟩
  · rw [ofSource, Program.read, results_of_scan scan_assignedSource]
    rfl
  · refine (ofSource_declarations hp hq (hqBody.trans hbody.symm)).1 fun name => ?_
    rw [hqNames, hnames]
    simp
  · exact ((ofSource_declarations hp hr (hrBody.trans hbody.symm)).2
      (hrVariables.trans hvariables.symm)).2

end Run

end MiniPascal
