import MiniPascal.Proofs.Bindings.Indexed
import MiniPascal.Proofs.Names.Resolution

/-!
# Proofs — Names — Table

The table of symbols with an index of their names.  A definition looks the name of its symbol up in
the index, and replaces the symbol where the index leads, or puts a new one at the end of the list
and its name into the index; it yields the symbol that it replaced.  This is the table that names
are checked with (`IndexedTable.define_eq`): it begins with the two types, whose places a variable
of the same name can take, and never loses its way.  Main statement: `IndexedTable.defined`.
-/

namespace MiniPascal

/-- Symbols, and the place of each name among them. -/
abbrev IndexedTable := Indexed Symbol

namespace IndexedTable

/-- Enters a symbol under its name, and yields the one that it replaces. -/
def define (t : IndexedTable) (s : Symbol) : Option (Option Symbol × IndexedTable) :=
  t.enter s.name s fun _ => s

/-- The symbol of a name, if it has one. -/
def lookup (t : IndexedTable) (name : String) : Option (Option Symbol) := t.find? name

/-- The table after definitions. -/
def defineAll (t : IndexedTable) (symbols : List Symbol) : Option IndexedTable :=
  symbols.foldlM (fun t s => (t.define s).map (·.2)) t

/-- The table before any declaration. -/
def initial : Option IndexedTable := defineAll .empty [.builtin .integer, .builtin .real]

/-- The table without its index. -/
def toTable (t : IndexedTable) : SymbolTable := t.toBindings Symbol.name

variable {t : IndexedTable} {name : String}

theorem names_toTable (t : IndexedTable) : t.toTable.names = t.entries.map Symbol.name :=
  Indexed.names_toBindings _ t

/-- **To define a symbol is to enter it into the table**, and never fails. -/
theorem define_eq (h : t.Fits Symbol.name) (s : Symbol) :
    ∃ t', t.define s = some (t.toTable.get? s.name, t') ∧ t'.Fits Symbol.name ∧
      t'.toTable = t.toTable.define s :=
  Indexed.enter_eq h s (fun _ => s) rfl fun _ _ => rfl

/-- The symbol that is found is that of the table, and finding it never fails. -/
theorem lookup_eq (h : t.Fits Symbol.name) (name : String) :
    t.lookup name = some (t.toTable.get? name) :=
  Indexed.find?_eq h name

/-- Definitions in a row never fail. -/
theorem exists_defineAll (h : t.Fits Symbol.name) (symbols : List Symbol) :
    ∃ t', t.defineAll symbols = some t' ∧ t'.Fits Symbol.name ∧
      t'.toTable = symbols.foldl SymbolTable.define t.toTable := by
  induction symbols generalizing t with
  | nil => exact ⟨t, rfl, h, rfl⟩
  | cons s symbols ih =>
      obtain ⟨u, hdefine, hfits, htable⟩ := define_eq h s
      obtain ⟨t', hmore, hfits', htable'⟩ := ih hfits
      refine ⟨t', ?_, hfits', ?_⟩
      · rw [defineAll, List.foldlM_cons, hdefine]
        exact hmore
      · rw [htable', htable]
        rfl

theorem defineAll_append (t : IndexedTable) (symbols more : List Symbol) :
    t.defineAll (symbols ++ more) = (t.defineAll symbols).bind fun t => t.defineAll more :=
  List.foldlM_append

/-- A table that is filled from the start is filled with the two types first. -/
theorem initial_bind (symbols : List Symbol) :
    (initial.bind fun t => t.defineAll symbols) =
      defineAll .empty (.builtin .integer :: .builtin .real :: symbols) :=
  (defineAll_append _ [.builtin .integer, .builtin .real] symbols).symm

/-- What stands at a place is found under its name. -/
theorem get?_toTable (h : t.Fits Symbol.name) {s : Symbol} {place : Nat}
    (hplace : t.entries[place]? = some s) : t.toTable.get? s.name = some s := by
  have hentry : t.toTable.entries[place]? = some (s.name, s) := by
    rw [toTable, Indexed.toBindings, List.getElem?_map, hplace, Option.map_some]
  exact Bindings.get?_of_getElem? h.nodup hentry

/-- A definition moves no symbol, and replaces only the one that has its name. -/
theorem getElem?_of_define (h : t.Fits Symbol.name) {s old : Symbol} {previous : Option Symbol}
    {t' : IndexedTable} (hdefine : t.define s = some (previous, t')) {place : Nat}
    (hplace : t.entries[place]? = some old) :
    t'.entries[place]? = some (if s.name = old.name then s else old) := by
  obtain ⟨t'', hdefine', hfits', htable⟩ := define_eq h s
  obtain rfl : t' = t'' := congrArg Prod.snd (Option.some.inj (hdefine.symm.trans hdefine'))
  have hname : (t'.entries.map Symbol.name)[place]? = some old.name := by
    have hold : (t.entries.map Symbol.name)[place]? = some old.name := by
      rw [List.getElem?_map, hplace, Option.map_some]
    rw [← names_toTable] at hold ⊢
    rw [htable, SymbolTable.define, Bindings.names_put]
    split
    · exact hold
    · rw [List.getElem?_append_left (List.getElem?_eq_some_iff.1 hold).1, hold]
  rw [List.getElem?_map, Option.map_eq_some_iff] at hname
  obtain ⟨new, hnew, hname⟩ := hname
  have hfound := get?_toTable hfits' hnew
  rw [hname, htable, SymbolTable.define, Bindings.get?_put, get?_toTable h hplace] at hfound
  rw [hnew, ← hfound]
  split <;> rfl

/-! ### Main statement -/

/-- **A table of symbols is an ordered map under their names.**  After any definitions it lists the
two types and then the names in the order of their first definition, each once; under a name the
last symbol that was defined with it is found, and the index leads to it and nowhere else.  It is
the table that names are checked with.  A further definition yields what was found under its name
before, changes what is found under no other name, moves no symbol and replaces no other. -/
theorem defined (symbols : List Symbol) :
    ∃ t, (initial.bind fun t => t.defineAll symbols) = some t ∧
      t.toTable = symbols.foldl SymbolTable.define .initial ∧
      t.entries.map Symbol.name = ("INTEGER" :: "REAL" :: symbols.map Symbol.name).eraseDups ∧
      (t.entries.map Symbol.name).Nodup ∧
      (∀ name, t.lookup name = some
        ((.builtin .integer :: .builtin .real :: symbols).reverse.find? (·.name = name))) ∧
      (∀ name symbol, t.lookup name = some (some symbol) →
        symbol.name = name ∧ symbol ∈ t.entries) ∧
      (∀ (name : String) (place : Nat), t.index[name]? = some place ↔
        ∃ symbol, t.entries[place]? = some symbol ∧ symbol.name = name) ∧
      ∀ symbol : Symbol, ∃ previous t', t.define symbol = some (previous, t') ∧
        t.lookup symbol.name = some previous ∧
        (∀ name, t'.lookup name =
          if symbol.name = name then some (some symbol) else t.lookup name) ∧
        ∀ (place : Nat) old, t.entries[place]? = some old →
          t'.entries[place]? = some (if symbol.name = old.name then symbol else old) := by
  obtain ⟨t, hdefine, hfits, htable⟩ := exists_defineAll Indexed.fits_empty
    (.builtin .integer :: .builtin .real :: symbols)
  have hsymbols : t.toTable = .ofSymbols (.builtin .integer :: .builtin .real :: symbols) := by
    rw [htable, SymbolTable.ofSymbols, Bindings.putAll, List.foldl_map]
    rfl
  have hlookup : ∀ name, t.lookup name = some
      ((.builtin .integer :: .builtin .real :: symbols).reverse.find? (·.name = name)) :=
    fun name => by rw [lookup_eq hfits, hsymbols, SymbolTable.get?_ofSymbols]
  refine ⟨t, ?_, htable, ?_, IndexOf.nodup hfits, hlookup, fun name symbol h => ?_,
    fun name place => hfits.index_iff, fun symbol => ?_⟩
  · rw [initial_bind, hdefine]
  · rw [← names_toTable, hsymbols, SymbolTable.names_ofSymbols]
    rfl
  · rw [lookup_eq hfits, Option.some.injEq] at h
    obtain ⟨symbol', hmem, heq⟩ := List.mem_map.1 (Bindings.mem_of_get? h)
    obtain ⟨rfl, rfl⟩ := Prod.mk.inj heq
    exact ⟨rfl, hmem⟩
  · obtain ⟨t', hdefine', hfits', htable'⟩ := define_eq hfits symbol
    refine ⟨_, t', hdefine', lookup_eq hfits symbol.name, fun name => ?_,
      fun _ _ hplace => getElem?_of_define hfits hdefine' hplace⟩
    rw [lookup_eq hfits', htable', SymbolTable.define, Bindings.get?_put, lookup_eq hfits]
    split <;> rfl

end IndexedTable

end MiniPascal
