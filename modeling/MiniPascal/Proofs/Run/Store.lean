import MiniPascal.Proofs.Bindings.Indexed
import MiniPascal.Store
import Mathlib.Data.Finset.Card

/-!
# Proofs — Run — Store

The store of a run with an index of its names.  An assignment looks its target up in the index, and
changes the value where the index leads, or puts a new name at the end of the list and into the
index.  This is the store that programs run on (`IndexedStore.assign_eq`): it lists the names in the
order of their first assignment, each once and with the value of its last, and never loses its way.
Two such stores are compared with their indices, which makes no difference
(`IndexedStore.agrees_eq`).  Main statement: `IndexedStore.assigned`.
-/

namespace MiniPascal

/-- Variables with their values, and the place of each variable among them. -/
abbrev IndexedStore := Indexed (String × Number)

namespace IndexedStore

/-- Gives a variable a value. -/
def assign (s : IndexedStore) (name : String) (value : Number) : Option IndexedStore :=
  (s.enter name (name, value) fun e => (e.1, value)).map (·.2)

/-- The value of a variable, if it has one. -/
def get (s : IndexedStore) (name : String) : Option (Option Number) :=
  (s.find? name).map fun e => e.map (·.2)

/-- The store after assignments. -/
def assignAll (assignments : List (String × Number)) : Option IndexedStore :=
  assignments.foldlM (fun s a => s.assign a.1 a.2) .empty

/-- The same variables in the same order with values that agree, and the same index. -/
def agrees (s t : IndexedStore) : Bool :=
  Store.entriesAgree s.entries t.entries && s.index == t.index

/-- The store without its index. -/
def toStore (s : IndexedStore) : Store := ⟨s.entries⟩

variable {s t : IndexedStore}

/-- A store by index is the bindings of its entries. -/
theorem toStore_eq (s : IndexedStore) : s.toStore = (s.toBindings Prod.fst).map Prod.snd := by
  rw [toStore, Indexed.toBindings, Bindings.map, List.map_map]
  exact congrArg Bindings.mk (List.map_id s.entries).symm

theorem names_toStore (s : IndexedStore) : s.toStore.names = s.entries.map Prod.fst := rfl

/-! ### Assignments and values -/

/-- **To assign is to put a value under a name**, and never fails. -/
theorem assign_eq (h : s.Fits Prod.fst) (name : String) (value : Number) :
    ∃ t, s.assign name value = some t ∧ t.Fits Prod.fst ∧
      t.toStore = s.toStore.put name value := by
  obtain ⟨t, henter, hfits, hput⟩ := Indexed.enter_eq h (name, value) (fun e => (e.1, value)) rfl
    fun e he => congrArg (·, value) he
  refine ⟨t, ?_, hfits, ?_⟩
  · rw [assign, henter, Option.map_some]
  · rw [toStore_eq, toStore_eq, hput, Bindings.map_put]

/-- The value that is found is that of the store, and finding it never fails. -/
theorem get_eq (h : s.Fits Prod.fst) (name : String) :
    s.get name = some (s.toStore.get? name) := by
  rw [get, Indexed.find?_eq h, toStore_eq, Bindings.get?_map, Option.map_some]

/-- Assignments in a row never fail. -/
theorem exists_assignAll (assignments : List (String × Number)) :
    ∃ s, assignAll assignments = some s ∧ s.Fits Prod.fst ∧
      s.toStore = Bindings.empty.putAll assignments := by
  have hrun : ∀ {s : IndexedStore}, s.Fits Prod.fst →
      ∃ t : IndexedStore, assignments.foldlM (fun s a => s.assign a.1 a.2) s = some t ∧
        t.Fits Prod.fst ∧ t.toStore = s.toStore.putAll assignments := by
    induction assignments with
    | nil => exact fun {s} h => ⟨s, rfl, h, rfl⟩
    | cons a assignments ih =>
        intro s h
        obtain ⟨u, hassign, hfits, hput⟩ := assign_eq h a.1 a.2
        obtain ⟨t, hmore, htfits, hall⟩ := ih hfits
        refine ⟨t, ?_, htfits, ?_⟩
        · rw [List.foldlM_cons, hassign]
          exact hmore
        · rw [hall, hput]
          rfl
  exact hrun Indexed.fits_empty

/-! ### Stores that agree -/

/-- Entries agree one by one. -/
theorem entriesAgree_iff {es fs : List (String × Number)} :
    Store.entriesAgree es fs = true ↔
      List.Forall₂ (fun e f => e.1 = f.1 ∧ e.2.agrees f.2 = true) es fs := by
  induction es generalizing fs with
  | nil => cases fs <;> simp [Store.entriesAgree]
  | cons e es ih =>
      cases fs with
      | nil => simp [Store.entriesAgree]
      | cons f fs => simp [Store.entriesAgree, ih]

/-- Lists of variables that agree have the same names. -/
theorem names_eq_of_entriesAgree {es fs : List (String × Number)}
    (h : Store.entriesAgree es fs = true) : es.map Prod.fst = fs.map Prod.fst := by
  rw [← List.forall₂_eq_eq_eq, List.forall₂_map_left_iff, List.forall₂_map_right_iff]
  exact (entriesAgree_iff.1 h).imp fun _ _ hpair => hpair.1

/-- **The indices make no difference**, as the same names have the same index. -/
theorem agrees_eq (hs : s.Fits Prod.fst) (ht : t.Fits Prod.fst) :
    s.agrees t = s.toStore.agrees t.toStore := by
  rw [agrees, Store.agrees, toStore, toStore, Bool.and_eq_left_iff_imp]
  intro hentries
  rw [Indexed.Fits, ← names_eq_of_entriesAgree hentries] at ht
  exact IndexOf.beq hs ht

/-- Nothing agrees with what is not a number. -/
theorem nan_agrees (n : Number) : Number.agrees (.real .nan) n = false := by cases n <;> rfl

/-- A value that is no number agrees with nothing, not even with itself. -/
theorem not_agrees_of_nan {name : String} (h : (name, .real .nan) ∈ s.entries) :
    s.agrees t = false := by
  rw [Bool.eq_false_iff, agrees, Ne, Bool.and_eq_true, entriesAgree_iff]
  rintro ⟨hentries, -⟩
  obtain ⟨place, hplace⟩ := List.mem_iff_get.1 h
  have hvalue := (hentries.get place.isLt (hentries.length_eq ▸ place.isLt)).2
  rw [hplace, nan_agrees] at hvalue
  cases hvalue

/-! ### Main statement -/

/-- **A store is an ordered map.**  After any assignments it lists the variables in the order of
their first assignment, each once, with the value of its last; a value is found exactly if it is
listed; there are as many entries as distinct names; and the index leads from each name to its entry
and nowhere else.  It is the store that a program runs on.  Two such stores are equal exactly if
their lists are, name by name and value by value. -/
theorem assigned (assignments : List (String × Number)) :
    ∃ s, assignAll assignments = some s ∧ s.toStore = Bindings.empty.putAll assignments ∧
      s.entries.map Prod.fst = (assignments.map Prod.fst).eraseDups ∧
      (s.entries.map Prod.fst).Nodup ∧
      (∀ name value, (name, value) ∈ s.entries ↔
        (assignments.reverse.find? (·.1 = name)).map Prod.snd = some value) ∧
      (∀ name, ∃ found, s.get name = some found ∧
        ∀ value, found = some value ↔ (name, value) ∈ s.entries) ∧
      s.entries.length = (assignments.map Prod.fst).toFinset.card ∧
      (∀ (name : String) (place : Nat), s.index[name]? = some place ↔
        ∃ value, s.entries[place]? = some (name, value)) ∧
      ∀ others t, assignAll others = some t →
        s.agrees t = s.toStore.agrees t.toStore ∧
        (s.agrees t = true ↔
          List.Forall₂ (fun e f => e.1 = f.1 ∧ e.2.agrees f.2 = true) s.entries t.entries) ∧
        ∀ name, (name, .real .nan) ∈ s.entries → s.agrees t = false := by
  obtain ⟨s, hassign, hfits, hstore⟩ := exists_assignAll assignments
  have hnames : s.entries.map Prod.fst = (assignments.map Prod.fst).eraseDups := by
    rw [← names_toStore, hstore]
    exact Bindings.names_putAll assignments
  have hnodup := IndexOf.nodup hfits
  have hlisted : ∀ {name value}, s.toStore.get? name = some value ↔ (name, value) ∈ s.entries :=
    Bindings.get?_eq_some_iff hnodup
  refine ⟨s, hassign, hstore, hnames, hnodup, fun name value => ?_, fun name => ?_, ?_,
    fun name place => ?_, fun others t ht => ?_⟩
  · rw [← hlisted, hstore, Bindings.get?_putAll]
  · exact ⟨_, get_eq hfits name, fun value => hlisted⟩
  · rw [← List.length_map, ← List.toFinset_card_of_nodup hnodup, hnames]
    congr 1
    ext name
    rw [List.mem_toFinset, List.mem_toFinset, List.mem_eraseDups]
  · rw [hfits.index_iff]
    constructor
    · rintro ⟨⟨_, value⟩, hplace, rfl⟩
      exact ⟨value, hplace⟩
    · rintro ⟨value, hplace⟩
      exact ⟨_, hplace, rfl⟩
  · obtain ⟨t', ht', htfits, -⟩ := exists_assignAll others
    obtain rfl : t = t' := Option.some.inj (ht.symm.trans ht')
    have hagrees := agrees_eq hfits htfits
    exact ⟨hagrees, by rw [hagrees]; exact entriesAgree_iff, fun _ => not_agrees_of_nan⟩

end IndexedStore

end MiniPascal
