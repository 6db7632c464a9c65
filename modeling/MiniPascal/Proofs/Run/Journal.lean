import MiniPascal.Proofs.Names.Uses
import MiniPascal.Proofs.Run.Effect

/-!
# Proofs — Run — Journal

The journal of a run tells what the run does.  What is written down by the check is determined by
the declarations (`Variable.events`) and by the names of the body up to the first that stands for
nothing (`upToUnknown`), and what is written down by the run by its effect.  So the symbols and the
store that a run leaves are those that the journal leads to from nothing (`Run.journal_faithful`).
-/

namespace MiniPascal

/-! ### Events -/

namespace Event

/-- The symbol that is defined. -/
def definition? : Event → Option Symbol
  | .define symbol => some symbol
  | _              => none

/-- The name that is assigned to, with the value. -/
def assignment? : Event → Option (String × Number)
  | .assign name value => some (name, value)
  | _                  => none

/-- The table that the definitions of a journal make of an empty one. -/
def replaySymbols (journal : List Event) : SymbolTable :=
  (journal.filterMap definition?).foldl SymbolTable.define .empty

/-- The store that the assignments of a journal make of an empty one. -/
def replayStore (journal : List Event) : Store :=
  Bindings.empty.putAll (journal.filterMap assignment?)

/-- Events of a kind that is not looked for. -/
theorem filterMap_map_eq_nil {α β : Type} {event : α → Event} {f : Event → Option β}
    (h : ∀ a, f (event a) = none) (as : List α) : (as.map event).filterMap f = [] := by
  rw [List.filterMap_map]
  exact List.filterMap_eq_nil_iff.2 fun a _ => h a

theorem filterMap_assignment?_assigns (puts : List (String × Number)) :
    (puts.map fun e => assign e.1 e.2).filterMap assignment? = puts := by
  rw [List.filterMap_map]
  exact List.filterMap_some

end Event

/-! ### Declarations -/

namespace Variable

/-- What is written of variables that are declared behind `earlier`: of each a look-up of its type,
its definition, and the latest symbol that its name had before, if it had one. -/
def events (earlier : List Variable) : List Variable → List Event
  | []      => []
  | v :: vs =>
      .lookup v.type.text :: .define v.symbol ::
        (((definitions earlier).reverse.find? (·.name = v.name)).toList.map (.redeclare v.name) ++
          events (earlier ++ [v]) vs)

/-- The definitions among the events of declarations are the symbols declared. -/
theorem filterMap_definition?_events (vs : List Variable) : ∀ earlier,
    (events earlier vs).filterMap Event.definition? = vs.map symbol := by
  induction vs with
  | nil => exact fun _ => rfl
  | cons v vs ih =>
      intro earlier
      rw [events, List.filterMap_cons_none rfl,
        List.filterMap_cons_some (f := Event.definition?) rfl, List.filterMap_append,
        Event.filterMap_map_eq_nil fun _ => rfl, ih]
      rfl

theorem filterMap_assignment?_events (vs : List Variable) : ∀ earlier,
    (events earlier vs).filterMap Event.assignment? = [] := by
  induction vs with
  | nil => exact fun _ => rfl
  | cons v vs ih =>
      intro earlier
      rw [events, List.filterMap_cons_none rfl, List.filterMap_cons_none rfl,
        List.filterMap_append, Event.filterMap_map_eq_nil fun _ => rfl, ih]
      rfl

end Variable

namespace Scope

/-- Variables that are entered are written down. -/
theorem journal_afterEntries (vs : List Variable) : ∀ {s : Scope} {earlier : List Variable},
    s.symbols = .ofVariables earlier →
      (s.afterEntries vs).journal.toList = s.journal.toList ++ Variable.events earlier vs := by
  induction vs with
  | nil => exact fun _ => (List.append_nil _).symm
  | cons v vs ih =>
      intro s earlier h
      have hprevious : s.symbols.get? v.name =
          (Variable.definitions earlier).reverse.find? (·.name = v.name) := by
        rw [h, SymbolTable.get?_ofSymbols]
      rw [afterEntries, List.foldl_cons]
      refine (ih (symbols_afterEntry h v)).trans ?_
      rw [Variable.events, ← hprevious]
      simp [afterEntry]

end Scope

/-! ### Names -/

/-- The names that an assignment is checked for: the variables of its value from left to right, and
then its target. -/
def Assignment.names (a : Assignment) : List String := a.value.reads.map (·.name) ++ [a.target]

/-- The names of a program, assignment by assignment. -/
def Program.names (p : Program) : List String := p.assignments.flatMap Assignment.names

mutual

/-- The names in a statement occur in the order of its assignments. -/
theorem Statement.names_occurrences : ∀ s : Statement,
    s.occurrences.map (·.name) = s.assignments.flatMap Assignment.names
  | .compound ss _           => by rw [occurrences, assignments, listNames_occurrences ss]
  | .assign target _ value _ => by
      rw [occurrences, assignments, List.flatMap_singleton, List.map_append]
      rfl
  | .noop                    => by
      rw [occurrences, assignments]
      rfl

theorem Statement.listNames_occurrences : ∀ ss,
    (listOccurrences ss).map (·.name) = (listAssignments ss).flatMap Assignment.names
  | []      => by
      rw [listOccurrences, listAssignments]
      rfl
  | s :: ss => by
      rw [listOccurrences, listAssignments, List.map_append, List.flatMap_append,
        s.names_occurrences, listNames_occurrences ss]

end

/-- Names up to the first that is not known, with this one. -/
def upToUnknown (known : List String) : List String → List String
  | []            => []
  | name :: names => if name ∈ known then name :: upToUnknown known names else [name]

/-- Where all names are known, none is cut off. -/
theorem upToUnknown_of_known {known names : List String} (h : ∀ name ∈ names, name ∈ known) :
    upToUnknown known names = names := by
  induction names with
  | nil => rfl
  | cons name names ih =>
      obtain ⟨hname, hnames⟩ := List.forall_mem_cons.1 h
      rw [upToUnknown, if_pos hname, ih hnames]

/-- The first unknown name is the last one looked up. -/
theorem upToUnknown_append {known names : List String} {name : String}
    (h : ∀ name ∈ names, name ∈ known) (hname : name ∉ known) (more : List String) :
    upToUnknown known (names ++ name :: more) = names ++ [name] := by
  induction names with
  | nil => exact if_neg hname
  | cons first names ih =>
      obtain ⟨hfirst, hnames⟩ := List.forall_mem_cons.1 h
      rw [List.cons_append, upToUnknown, if_pos hfirst, ih hnames]
      rfl

namespace Program

variable {source : String} {p : Program}

theorem names_occurrences (p : Program) : p.occurrences.map (·.name) = p.names :=
  Statement.listNames_occurrences _

/-- What the check writes down: the two types, the declarations, and the names that it looks up. -/
def checkEvents (p : Program) : List Event :=
  .define (.builtin .integer) :: .define (.builtin .real) ::
    (Variable.events [] p.declared ++ (upToUnknown p.knownNames p.names).map .lookup)

/-- The definitions among the events of the check are those of the types and the declarations. -/
theorem filterMap_definition?_checkEvents (p : Program) :
    p.checkEvents.filterMap Event.definition? = Variable.definitions p.declared := by
  rw [checkEvents, List.filterMap_cons_some (f := Event.definition?) rfl,
    List.filterMap_cons_some (f := Event.definition?) rfl, List.filterMap_append,
    Variable.filterMap_definition?_events, Event.filterMap_map_eq_nil fun _ => rfl,
    List.append_nil, Variable.definitions]

theorem filterMap_assignment?_checkEvents (p : Program) :
    p.checkEvents.filterMap Event.assignment? = [] := by
  rw [checkEvents, List.filterMap_cons_none rfl, List.filterMap_cons_none rfl,
    List.filterMap_append, Variable.filterMap_assignment?_events,
    Event.filterMap_map_eq_nil fun _ => rfl, List.append_nil]

/-- What the check has written down after look-ups: the types, the declarations, and these. -/
theorem journal_afterLookups (p : Program) (os : List Occurrence) :
    (p.entered.afterLookups os).journal.toList =
      .define (.builtin .integer) :: .define (.builtin .real) ::
        (Variable.events [] p.declared ++ (os.map (·.name)).map .lookup) := by
  have hinitial : Scope.initial.symbols = .ofVariables [] := rfl
  have hentered := Scope.journal_afterEntries p.declared hinitial
  rw [Scope.afterLookups, Array.toList_appendList, entered, hentered, List.map_map]
  rfl

/-- The check of a text succeeds exactly if all names stand for something, and writes down its
events in any case. -/
theorem check_journal (hread : read source = .ok p) :
    ((∀ name ∈ p.names, name ∈ p.knownNames) ∧
      ∃ scope, p.check = .ok () scope ∧ scope.symbols = .ofVariables p.declared ∧
        scope.journal.toList = p.checkEvents) ∨
    ((¬ ∀ name ∈ p.names, name ∈ p.knownNames) ∧
      ∃ fault scope, p.check = .error fault scope ∧ scope.journal.toList = p.checkEvents) := by
  rcases check_of_read hread with ⟨hknown, hcheck⟩ | ⟨front, o, back, ho, hfront, hunknown, hcheck⟩
  · have hnames : ∀ name ∈ p.names, name ∈ p.knownNames := by
      rw [← p.names_occurrences]
      exact List.forall_mem_map.2 hknown
    refine .inl ⟨hnames, _, hcheck, p.symbols_entered, ?_⟩
    rw [journal_afterLookups, checkEvents, upToUnknown_of_known hnames, p.names_occurrences]
  · have hnames : p.names = front.map (·.name) ++ o.name :: back.map (·.name) := by
      rw [← p.names_occurrences, ho, List.map_append, List.map_cons]
    refine .inr ⟨fun h => hunknown (h _ (by simp [hnames])), _, _, hcheck, ?_⟩
    rw [journal_afterLookups, checkEvents, hnames,
      upToUnknown_append (List.forall_mem_map.2 hfront) hunknown, List.map_append]
    rfl

end Program

/-! ### Runs -/

namespace Run

variable {source : String} {p : Program}

/-- What is written down behind the check does not bear on the symbols, and is all there is of the
assignments. -/
theorem replaySymbols_checked (p : Program) (puts : List (String × Number)) :
    Event.replaySymbols (p.checkEvents ++ puts.map fun e => .assign e.1 e.2) =
      .ofVariables p.declared := by
  rw [Event.replaySymbols, List.filterMap_append, Event.filterMap_map_eq_nil fun _ => rfl,
    List.append_nil, p.filterMap_definition?_checkEvents, SymbolTable.ofVariables,
    SymbolTable.ofSymbols, Bindings.putAll, List.foldl_map]
  rfl

/-- The assignments in a journal are those of the run. -/
theorem filterMap_assignment?_checked (p : Program) (puts : List (String × Number)) :
    (p.checkEvents ++ puts.map fun e => Event.assign e.1 e.2).filterMap Event.assignment? =
      puts := by
  rw [List.filterMap_append, p.filterMap_assignment?_checkEvents, List.nil_append,
    Event.filterMap_assignment?_assigns]

/-- A run to the end has put values under all targets, in order. -/
theorem targets_of_finished (hfault : (p.effectOn .empty).fault = none) :
    (p.effectOn .empty).puts.map (·.1) = p.assignments.map (·.target) := by
  have hfolds := p.folds_effectOn .empty
  rw [hfault] at hfolds
  cases hfolds with
  | toEnd h => exact (Store.effect_of_foldlM h).2.1

/-- A run that stops has put values under the targets in front of the one that it stops at. -/
theorem puts_of_stopped {fault : Located RuntimeFault}
    (hfault : (p.effectOn .empty).fault = some fault) :
    ∃ done a rest, p.assignments = done ++ a :: rest ∧
      done.foldlM Store.assign .empty = .ok (Bindings.empty.putAll (p.effectOn .empty).puts) ∧
      a.value.eval (Bindings.empty.putAll (p.effectOn .empty).puts) = .error fault ∧
      (p.effectOn .empty).puts = (Store.effect .empty done).puts ∧
      (p.effectOn .empty).puts.map (·.1) = done.map (·.target) := by
  have hfolds := p.folds_effectOn .empty
  rw [hfault] at hfolds
  cases hfolds with
  | @toFault done rest a _ _ hassignments h hstopped =>
      have hputs : (p.effectOn .empty).puts = (Store.effect .empty done).puts := by
        rw [Program.effectOn, hassignments, Store.effect_stopped h hstopped]
      exact ⟨done, a, rest, hassignments, h, hstopped, hputs,
        hputs ▸ (Store.effect_of_foldlM h).2.1⟩

/-- **The journal of a run is faithful.**  It begins with the two types and the declarations, each
redeclaration with the latest symbol that it replaces.  Then come the names of the body, assignment
by assignment, up to the first that stands for nothing; and if there is none, which is to say if the
check succeeds, the values of the assignments that are performed.  Replayed, it gives the symbols
and the store of a run that comes to its end, and for a run that stops, the store over which the
next assignment has no value. -/
theorem journal_faithful (hread : Program.read source = .ok p) :
    (ofSource source).journal =
      .define (.builtin .integer) :: .define (.builtin .real) ::
        (Variable.events [] p.declared ++
          ((upToUnknown p.knownNames p.names).map .lookup ++
            if ∀ name ∈ p.names, name ∈ p.knownNames then
              (p.effectOn .empty).puts.map fun e => .assign e.1 e.2
            else [])) ∧
    ((∃ scope, p.check = .ok () scope) ↔ ∀ name ∈ p.names, name ∈ p.knownNames) ∧
    (∀ remains, (ofSource source).result = .ok remains →
      remains.symbols = Event.replaySymbols (ofSource source).journal ∧
      remains.store = Event.replayStore (ofSource source).journal ∧
      ((ofSource source).journal.filterMap Event.assignment?).map (·.1) =
        p.assignments.map (·.target)) ∧
    ∀ fault : Located RuntimeFault, (ofSource source).result = .error (fault.map .runtime) →
      ∃ done a rest, p.assignments = done ++ a :: rest ∧
        done.foldlM Store.assign .empty = .ok (Event.replayStore (ofSource source).journal) ∧
        a.value.eval (Event.replayStore (ofSource source).journal) = .error fault ∧
        (ofSource source).journal.filterMap Event.assignment? = (Store.effect .empty done).puts ∧
        ((ofSource source).journal.filterMap Event.assignment?).map (·.1) =
          done.map (·.target) := by
  rw [ofSource, hread]
  dsimp only
  rcases Program.check_journal hread with
    ⟨hknown, scope, hcheck, hsymbols, hjournal⟩ | ⟨hunknown, fault, scope, hcheck, hjournal⟩
  · rw [ofProgram_eq hcheck, hjournal]
    dsimp only
    rw [replaySymbols_checked, Event.replayStore, filterMap_assignment?_checked]
    refine ⟨?_, ⟨fun _ => hknown, fun _ => ⟨scope, hcheck⟩⟩, ?_, ?_⟩
    · rw [if_pos hknown, Program.checkEvents, List.cons_append, List.cons_append,
        List.append_assoc]
    · cases hfault : (p.effectOn .empty).fault with
      | none =>
          rintro remains ⟨⟩
          exact ⟨hsymbols, rfl, targets_of_finished hfault⟩
      | some fault => rintro remains ⟨⟩
    · cases hfault : (p.effectOn .empty).fault with
      | none => rintro fault ⟨⟩
      | some fault =>
          rintro ⟨cause, span⟩ h
          obtain rfl : fault = ⟨cause, span⟩ := by
            obtain ⟨cause', span'⟩ := fault
            cases h
            rfl
          exact puts_of_stopped hfault
  · rw [ofProgram, hcheck]
    dsimp only
    rw [hjournal, if_neg hunknown, List.append_nil]
    refine ⟨rfl, ⟨?_, fun hknown => absurd hknown hunknown⟩, ?_, ?_⟩
    · rintro ⟨_, ⟨⟩⟩
    · rintro remains ⟨⟩
    · rintro ⟨cause, span⟩ h
      cases h

/-- A text that declares a variable twice, and then assigns to it once before its run stops. -/
def redeclaringSource : String :=
  "PROGRAM T; VAR x : REAL; x : INTEGER; BEGIN x := 1; x := x DIV 0 END."

theorem scan_redeclaringSource : scan redeclaringSource = .ok
    [⟨.programWord, "PROGRAM", ⟨0, 7⟩⟩, ⟨.identifier, "T", ⟨8, 1⟩⟩, ⟨.semicolon, ";", ⟨9, 1⟩⟩,
      ⟨.varWord, "VAR", ⟨11, 3⟩⟩, ⟨.identifier, "x", ⟨15, 1⟩⟩, ⟨.colon, ":", ⟨17, 1⟩⟩,
      ⟨.realWord, "REAL", ⟨19, 4⟩⟩, ⟨.semicolon, ";", ⟨23, 1⟩⟩, ⟨.identifier, "x", ⟨25, 1⟩⟩,
      ⟨.colon, ":", ⟨27, 1⟩⟩, ⟨.integerWord, "INTEGER", ⟨29, 7⟩⟩, ⟨.semicolon, ";", ⟨36, 1⟩⟩,
      ⟨.beginWord, "BEGIN", ⟨38, 5⟩⟩, ⟨.identifier, "x", ⟨44, 1⟩⟩, ⟨.assign, ":=", ⟨46, 2⟩⟩,
      ⟨.integerConst, "1", ⟨49, 1⟩⟩, ⟨.semicolon, ";", ⟨50, 1⟩⟩, ⟨.identifier, "x", ⟨52, 1⟩⟩,
      ⟨.assign, ":=", ⟨54, 2⟩⟩, ⟨.identifier, "x", ⟨57, 1⟩⟩, ⟨.divWord, "DIV", ⟨59, 3⟩⟩,
      ⟨.integerConst, "0", ⟨63, 1⟩⟩, ⟨.endWord, "END", ⟨65, 3⟩⟩, ⟨.dot, ".", ⟨68, 1⟩⟩,
      .eof 69] := by decide +kernel

theorem journal_faithful_example :
    ∃ p, Program.read redeclaringSource = .ok p ∧
      (ofSource redeclaringSource).journal =
        [.define (.builtin .integer), .define (.builtin .real), .lookup "REAL",
          .define (.declared "x" .real), .lookup "INTEGER", .define (.declared "x" .integer),
          .redeclare "x" (.declared "x" .real), .lookup "x", .lookup "x", .lookup "x",
          .assign "x" (.int 1)] ∧
      ∃ done a rest, p.assignments = done ++ a :: rest ∧ done.map (·.target) = ["x"] ∧
        a.value.eval ⟨[("x", .int 1)]⟩ = .error ⟨.arithmetic .divisionByZero, ⟨57, 7⟩⟩ := by
  obtain ⟨p, hread⟩ : ∃ p, Program.read redeclaringSource = .ok p := by
    rw [Program.read, results_of_scan scan_redeclaringSource]
    exact ⟨_, rfl⟩
  have hresult : (ofSource redeclaringSource).result =
      .error (Located.map .runtime ⟨.arithmetic .divisionByZero, ⟨57, 7⟩⟩) := by
    rw [ofSource, Program.read, results_of_scan scan_redeclaringSource]
    rfl
  obtain ⟨hjournal, -, -, hstopped⟩ := journal_faithful hread
  obtain ⟨done, a, rest, hassignments, -, hfault, -, htargets⟩ := hstopped _ hresult
  have hp := hread
  rw [Program.read, results_of_scan scan_redeclaringSource] at hp
  cases hp
  rw [hjournal] at hfault htargets ⊢
  exact ⟨_, hread, rfl, done, a, rest, hassignments, htargets.symm, hfault⟩

end Run

end MiniPascal
