import MiniPascal.Proofs.Names.Occurrences
import MiniPascal.Report

/-!
# Proofs — Names — Resolution

What the check of names comes to.  A declaration is refused if its type has been declared over by an
earlier one (`Variable.hidden`), and a name in the body if it stands neither for a type nor for a
declared variable (`Program.undeclared`).  The check stops at the first declaration that is refused,
or else at the first such name, and says so; otherwise the table that it makes has the two types and
then the variables in the order of their first declaration, each with its last one
(`Program.check_exact`).  Procedures play no part.
-/

namespace MiniPascal

/-! ### Variables -/

/-- A variable as it is declared. -/
structure Variable where
  name : String
  type : TypeName
  span : Span
deriving DecidableEq, Repr

namespace Variable

/-- What the name of a variable stands for. -/
def symbol (v : Variable) : Symbol := .declared v.name v.type

/-- The name of the type, which is looked up for the whole declaration. -/
def typeOccurrence (v : Variable) : Occurrence := ⟨v.type.text, v.span⟩

/-- The declarations whose type has been declared over, by one of `earlier` or by one in front of
them. -/
def hidden (earlier : List Variable) : List Variable → List Variable
  | []      => []
  | v :: vs =>
      if v.type.text ∈ earlier.map (·.name) then v :: hidden (earlier ++ [v]) vs
      else hidden (earlier ++ [v]) vs

/-- The types and then the variables, in the order of their definition. -/
def definitions (vs : List Variable) : List Symbol :=
  .builtin .integer :: .builtin .real :: vs.map symbol

end Variable

/-- The variable of a declaration; a procedure declares none. -/
def Declaration.declared? : Declaration → Option Variable
  | .var name type span => some ⟨name, type, span⟩
  | .procedure _ _ _ _  => none

namespace Program

/-- The variables that a program declares. -/
def declared (p : Program) : List Variable := p.block.decls.filterMap Declaration.declared?

/-- The names that stand for something in the body. -/
def knownNames (p : Program) : List String := "INTEGER" :: "REAL" :: p.declared.map (·.name)

/-- The names in the body that stand for nothing. -/
def undeclared (p : Program) : List Occurrence := p.occurrences.filter (·.name ∉ p.knownNames)

/-- All that is to be said against the names of a program. -/
def nameReports (p : Program) : List Report :=
  (Variable.hidden [] p.declared).map
      (fun v => ⟨.naming, "unknown type '" ++ v.type.text ++ "'", v.span⟩) ++
    p.undeclared.map fun o => ⟨.naming, "undeclared variable '" ++ o.name ++ "'", o.span⟩

/-- A program with its procedures left out. -/
def withoutProcedures (p : Program) : Program :=
  { p with block := ⟨p.block.decls.filter (·.declared?.isSome), p.block.body⟩ }

end Program

/-! ### Tables -/

namespace SymbolTable

/-- The table of symbols entered in order. -/
def ofSymbols (ss : List Symbol) : SymbolTable :=
  Bindings.empty.putAll (ss.map fun s => (s.name, s))

theorem ofSymbols_append_singleton (ss : List Symbol) (s : Symbol) :
    ofSymbols (ss ++ [s]) = (ofSymbols ss).define s := by
  rw [ofSymbols, List.map_append, Bindings.putAll_append]
  rfl

/-- A table has the names of its symbols, each where it came first. -/
theorem names_ofSymbols (ss : List Symbol) :
    (ofSymbols ss).names = (ss.map Symbol.name).eraseDups := by
  rw [ofSymbols, Bindings.names_putAll, List.map_map]
  rfl

/-- Under a name stands the symbol that was defined last. -/
theorem get?_ofSymbols (ss : List Symbol) (name : String) :
    (ofSymbols ss).get? name = ss.reverse.find? (·.name = name) := by
  rw [ofSymbols, Bindings.get?_putAll, ← List.map_reverse, List.find?_map, Option.map_map]
  exact Option.map_id'

/-- The table of variables that have been declared. -/
abbrev ofVariables (vs : List Variable) : SymbolTable := ofSymbols (Variable.definitions vs)

variable {vs : List Variable} {name : String}

theorem ofVariables_append_singleton (vs : List Variable) (v : Variable) :
    ofVariables (vs ++ [v]) = (ofVariables vs).define v.symbol := by
  rw [ofVariables, ← ofSymbols_append_singleton, Variable.definitions, List.map_append]
  rfl

theorem names_ofVariables (vs : List Variable) :
    (ofVariables vs).names = ("INTEGER" :: "REAL" :: vs.map (·.name)).eraseDups := by
  rw [names_ofSymbols, Variable.definitions, List.map_cons, List.map_cons, List.map_map]
  rfl

/-- Under a name stands the variable that was declared last, or else the type of this name. -/
theorem get?_ofVariables (vs : List Variable) (name : String) :
    (ofVariables vs).get? name = ((vs.map Variable.symbol).reverse.find? (·.name = name)).or
      ([.builtin .real, .builtin .integer].find? (·.name = name)) := by
  rw [get?_ofSymbols, Variable.definitions, List.reverse_cons, List.reverse_cons, List.append_assoc,
    List.find?_append]
  rfl

/-- A name that has been declared stands for a variable. -/
theorem get?_of_declared (h : name ∈ vs.map (·.name)) :
    ∃ type, (ofVariables vs).get? name = some (.declared name type) := by
  obtain ⟨v, hv, rfl⟩ := List.mem_map.1 h
  obtain ⟨symbol, hsymbol⟩ : ∃ symbol,
      (vs.map Variable.symbol).reverse.find? (·.name = v.name) = some symbol := by
    refine Option.isSome_iff_exists.1 (List.find?_isSome.2 ⟨v.symbol, ?_, ?_⟩)
    · exact List.mem_reverse.2 (List.mem_map_of_mem hv)
    · exact decide_eq_true rfl
  have hname : symbol.name = v.name := by simpa using List.find?_some hsymbol
  -- It need not be `v` that is found, but whatever it is has been declared under that name.
  obtain ⟨w, -, rfl⟩ := List.mem_map.1 (List.mem_reverse.1 (List.mem_of_find?_eq_some hsymbol))
  exact ⟨w.type, by rw [get?_ofVariables, hsymbol, ← hname]; rfl⟩

/-- The name of a type stands for it unless it has been declared over. -/
theorem get?_of_not_declared {type : TypeName} (h : type.text ∉ vs.map (·.name)) :
    (ofVariables vs).get? type.text = some (.builtin type) := by
  have hnone : (vs.map Variable.symbol).reverse.find? (·.name = type.text) = none := by
    rw [List.find?_eq_none]
    intro symbol hsymbol
    obtain ⟨v, hv, rfl⟩ := List.mem_map.1 (List.mem_reverse.1 hsymbol)
    exact mt of_decide_eq_true fun hname => h (List.mem_map.2 ⟨v, hv, hname⟩)
  rw [get?_ofVariables, hnone, Option.none_or]
  cases type <;> rfl

end SymbolTable

/-! ### Entries in a row -/

namespace Scope

/-- The scope after a variable has been entered. -/
def afterEntry (s : Scope) (v : Variable) : Scope :=
  ⟨s.symbols.define v.symbol,
    s.journal ++ (Event.lookup v.type.text :: .define v.symbol ::
      (s.symbols.get? v.name).toList.map (Event.redeclare v.name))⟩

/-- The scope after variables have been entered in order. -/
def afterEntries (s : Scope) (vs : List Variable) : Scope := vs.foldl afterEntry s

theorem symbols_afterEntry {s : Scope} {earlier : List Variable}
    (h : s.symbols = .ofVariables earlier) (v : Variable) :
    (s.afterEntry v).symbols = .ofVariables (earlier ++ [v]) := by
  rw [afterEntry, h, SymbolTable.ofVariables_append_singleton]

/-- Entering variables defines their symbols one after another. -/
theorem symbols_afterEntries (vs : List Variable) : ∀ {s : Scope} {earlier : List Variable},
    s.symbols = .ofVariables earlier →
      (s.afterEntries vs).symbols = .ofVariables (earlier ++ vs) := by
  induction vs with
  | nil =>
      intro s earlier h
      rw [List.append_nil]
      exact h
  | cons v vs ih =>
      intro s earlier h
      rw [List.append_cons]
      exact ih (symbols_afterEntry h v)

end Scope

namespace Check

/-- Enters a variable as it is declared. -/
def enter (v : Variable) : Check Unit := enterVariable v.name v.type v.span

variable {v : Variable} {s : Scope} {earlier : List Variable}

/-- A definition yields the symbol that it replaces, and is written down. -/
theorem define_eq (symbol : Symbol) (s : Scope) :
    define symbol s = .ok (s.symbols.get? symbol.name)
      ⟨s.symbols.define symbol, s.journal.push (.define symbol)⟩ := rfl

/-- A variable is entered if its type has not been declared over. -/
theorem enter_of_free (hs : s.symbols = .ofVariables earlier)
    (h : v.type.text ∉ earlier.map (·.name)) : enter v s = .ok () (s.afterEntry v) := by
  have hbuiltin := SymbolTable.get?_of_not_declared h
  rw [← hs] at hbuiltin
  rw [enter, enterVariable, bind_of_ok (lookup_eq v.type.text s), hbuiltin, Scope.afterEntry]
  show (define v.symbol >>= _) _ = _
  rw [bind_of_ok (define_eq _ _)]
  dsimp only [Variable.symbol, Symbol.name]
  -- The journal tells of a redeclaration exactly if there is a symbol to be replaced.
  cases s.symbols.get? v.name <;> rfl

/-- It is refused if its type has been declared over. -/
theorem enter_of_hidden (hs : s.symbols = .ofVariables earlier)
    (h : v.type.text ∈ earlier.map (·.name)) :
    enter v s = .error ⟨.unknownType v.type.text, v.span⟩ (s.afterLookups [v.typeOccurrence]) := by
  obtain ⟨type, htype⟩ := SymbolTable.get?_of_declared h
  rw [← hs] at htype
  rw [enter, enterVariable, bind_of_ok (lookup_eq v.type.text s), htype,
    Scope.afterLookups_singleton]
  rfl

/-- Variables are entered in order if none of them is hidden. -/
theorem forM_enter (vs : List Variable) : ∀ {s : Scope} {earlier : List Variable},
    s.symbols = .ofVariables earlier → Variable.hidden earlier vs = [] →
      (forM vs enter : Check Unit) s = .ok () (s.afterEntries vs) := by
  induction vs with
  | nil => exact fun _ _ => rfl
  | cons v vs ih =>
      intro s earlier hs h
      rw [Variable.hidden] at h
      split at h
      · cases h
      · next hfree =>
          rw [List.forM_cons, bind_of_ok (enter_of_free hs hfree)]
          exact ih (Scope.symbols_afterEntry hs v) h

/-- The first hidden variable is refused, once those in front of it have been entered. -/
theorem forM_enter_hidden (vs : List Variable) : ∀ {s : Scope} {earlier more : List Variable},
    s.symbols = .ofVariables earlier → Variable.hidden earlier vs = v :: more →
      ∃ front back, vs = front ++ v :: back ∧
        (forM vs enter : Check Unit) s = .error ⟨.unknownType v.type.text, v.span⟩
          ((s.afterEntries front).afterLookups [v.typeOccurrence]) := by
  induction vs with
  | nil => exact fun _ h => nomatch h
  | cons w vs ih =>
      intro s earlier more hs h
      rw [Variable.hidden] at h
      split at h
      · next hhidden =>
          obtain ⟨rfl, -⟩ := List.cons.inj h
          refine ⟨[], vs, rfl, ?_⟩
          rw [List.forM_cons, bind_of_error (enter_of_hidden hs hhidden)]
          rfl
      · next hfree =>
          obtain ⟨front, back, rfl, hfault⟩ := ih (Scope.symbols_afterEntry hs w) h
          refine ⟨w :: front, back, rfl, ?_⟩
          rw [List.forM_cons, bind_of_ok (enter_of_free hs hfree)]
          exact hfault

end Check

/-! ### The check of a program -/

/-- Of declarations those of variables are entered, in order. -/
theorem Declaration.listCheck_eq_forM (ds : List Declaration) :
    listCheck ds = forM (ds.filterMap declared?) Check.enter := by
  induction ds with
  | nil => rfl
  | cons d ds ih =>
      cases d with
      | var name type span => rw [listCheck, ih]; rfl
      | procedure name decls body span => rw [listCheck, ih]; rfl

namespace Program

variable {p : Program}

/-- **The check enters the declared variables and then looks up the occurrences**, in two loops one
behind the other. -/
theorem check_eq (p : Program) :
    p.check = ((forM p.declared Check.enter : Check Unit) >>= fun _ =>
      forM p.occurrences Check.mentionAt) .initial := by
  rw [check, Block.check, Declaration.listCheck_eq_forM, Statement.listCheck_eq_forM]
  rfl

/-- The scope once all variables have been entered. -/
def entered (p : Program) : Scope := Scope.initial.afterEntries p.declared

/-- When all variables have been entered, the table is that of the declarations. -/
theorem symbols_entered (p : Program) : p.entered.symbols = .ofVariables p.declared :=
  have hinitial : Scope.initial.symbols = .ofVariables [] := rfl
  Scope.symbols_afterEntries p.declared hinitial

/-- What is known is what has been declared, and the types. -/
theorem mem_names_entered {name : String} :
    name ∈ p.entered.symbols.names ↔ name ∈ p.knownNames := by
  rw [symbols_entered, SymbolTable.names_ofVariables, List.mem_eraseDups, knownNames]

/-- The check stops at the first hidden declaration. -/
theorem check_of_hidden {v : Variable} {more : List Variable}
    (h : Variable.hidden [] p.declared = v :: more) :
    ∃ front back, p.declared = front ++ v :: back ∧
      p.check = .error ⟨.unknownType v.type.text, v.span⟩
        ((Scope.initial.afterEntries front).afterLookups [v.typeOccurrence]) := by
  obtain ⟨front, back, hdeclared, hfault⟩ := Check.forM_enter_hidden (s := .initial) _ rfl h
  exact ⟨front, back, hdeclared, by rw [check_eq, bind_of_error hfault]⟩

/-- If no declaration is hidden, it stops at the first name that stands for nothing. -/
theorem check_at_unknown {front back : List Occurrence} {o : Occurrence}
    (hhidden : Variable.hidden [] p.declared = []) (h : p.occurrences = front ++ o :: back)
    (hfront : ∀ o' ∈ front, o'.name ∈ p.knownNames) (ho : o.name ∉ p.knownNames) :
    p.check = .error ⟨.undeclared o.name, o.span⟩ (p.entered.afterLookups (front ++ [o])) := by
  rw [check_eq, bind_of_ok (Check.forM_enter _ rfl hhidden), h]
  refine Check.forM_mentionAt_undeclared (fun o' ho' => mem_names_entered.2 (hfront o' ho')) ?_
  rwa [← entered, mem_names_entered]

/-- The check stops at the first occurrence that is not declared. -/
theorem check_of_undeclared {o : Occurrence} {more : List Occurrence}
    (hhidden : Variable.hidden [] p.declared = []) (h : p.undeclared = o :: more) :
    ∃ front back, p.occurrences = front ++ o :: back ∧
      p.check = .error ⟨.undeclared o.name, o.span⟩ (p.entered.afterLookups (front ++ [o])) := by
  obtain ⟨front, back, hoccurrences, hfront, ho, -⟩ := List.filter_eq_cons_iff.1 h
  have hknown : ∀ o' ∈ front, o'.name ∈ p.knownNames := fun o' ho' => by simpa using hfront o' ho'
  exact ⟨front, back, hoccurrences,
    check_at_unknown hhidden hoccurrences hknown (of_decide_eq_true ho)⟩

/-- If there is no such name either, it comes to its end. -/
theorem check_of_declared (hhidden : Variable.hidden [] p.declared = []) (h : p.undeclared = []) :
    p.check = .ok () (p.entered.afterLookups p.occurrences) := by
  rw [check_eq, bind_of_ok (Check.forM_enter _ rfl hhidden)]
  refine Check.forM_mentionAt fun o ho => mem_names_entered.2 ?_
  simpa using List.filter_eq_nil_iff.1 h o ho

/-- A check that comes to its end has looked up every name in the body, and each of them stands for
something. -/
theorem scope_of_check {scope : Scope} (h : p.check = .ok () scope) :
    scope = p.entered.afterLookups p.occurrences ∧ ∀ o ∈ p.occurrences, o.name ∈ p.knownNames := by
  cases hhidden : Variable.hidden [] p.declared with
  | cons v more =>
      obtain ⟨front, back, -, hcheck⟩ := check_of_hidden hhidden
      rw [hcheck] at h
      cases h
  | nil =>
      cases hundeclared : p.undeclared with
      | cons o more =>
          obtain ⟨front, back, -, hcheck⟩ := check_of_undeclared hhidden hundeclared
          rw [hcheck] at h
          cases h
      | nil =>
          rw [check_of_declared hhidden hundeclared] at h
          cases h
          exact ⟨rfl, fun o ho => by simpa using List.filter_eq_nil_iff.1 hundeclared o ho⟩

/-- **The check of names is exact.**  It fails with what is first to be said against the names of a
program.  If nothing is, it makes a table of the types and of the variables in the order of their
first definition, each with its last one.  The same program without procedures is checked the same
way. -/
theorem check_exact (p : Program) :
    (match p.nameReports with
      | report :: _ => ∃ fault scope, p.check = .error fault scope ∧ fault.namingReport = report
      | []          => ∃ scope, p.check = .ok () scope ∧
          scope.symbols.names = p.knownNames.eraseDups ∧
          ∀ name, scope.symbols.get? name =
            (Variable.definitions p.declared).reverse.find? (·.name = name)) ∧
    p.withoutProcedures.check = p.check := by
  constructor
  · rw [nameReports]
    cases hhidden : Variable.hidden [] p.declared with
    | cons v more =>
        obtain ⟨front, back, -, hcheck⟩ := check_of_hidden hhidden
        exact ⟨_, _, hcheck, rfl⟩
    | nil =>
        cases hundeclared : p.undeclared with
        | cons o more =>
            obtain ⟨front, back, -, hcheck⟩ := check_of_undeclared hhidden hundeclared
            exact ⟨_, _, hcheck, rfl⟩
        | nil =>
            refine ⟨_, check_of_declared hhidden hundeclared, ?_, fun name => ?_⟩
            · exact (congrArg _ p.symbols_entered).trans (SymbolTable.names_ofVariables _)
            · exact (congrArg (Bindings.get? · name) p.symbols_entered).trans
                (SymbolTable.get?_ofSymbols _ name)
  · have hdeclared : p.withoutProcedures.declared = p.declared := by
      rw [declared, withoutProcedures, declared, List.filterMap_filter]
      congr
      funext d
      cases d <;> rfl
    rw [check_eq, hdeclared]
    exact p.check_eq.symm

end Program

end MiniPascal
