import MiniPascal.Proofs.Bindings
import Mathlib.Data.List.Nodup

/-!
# Proofs — Bindings — Indexed

Bindings kept as a list of entries and an index, which has the place of every name in the list.  A
new name goes to the end of both; a name that is there is looked up in the index, and its entry is
changed in place.  A place where no entry is would be a failure, but there are none: the index has
exactly the names of the list (`IndexOf`), and entering keeps it so.  Main statements: what is kept
this way are bindings, to look up a name is to find it in them (`Indexed.find?_eq`), and to enter
something is to put it there (`Indexed.enter_eq`).
-/

namespace MiniPascal

/-! ### An index of names -/

/-- The index has exactly the names of the list, each with its place. -/
def IndexOf (index : Std.HashMap String Nat) (names : List String) : Prop :=
  ∀ (name : String) (place : Nat), index[name]? = some place ↔ names[place]? = some name

namespace IndexOf

variable {index index' : Std.HashMap String Nat} {names : List String} {name : String}
  {place place' : Nat}

theorem empty : IndexOf ∅ [] := fun _ _ => by
  rw [Std.HashMap.getElem?_empty, List.getElem?_nil]
  exact ⟨nofun, nofun⟩

/-- A name stands at one place only. -/
theorem eq_of_getElem? (h : IndexOf index names) (hplace : names[place]? = some name)
    (hplace' : names[place']? = some name) : place = place' := by
  have hindex := (h name place).2 hplace
  rw [(h name place').2 hplace'] at hindex
  exact (Option.some.inj hindex).symm

/-- An index has each name once. -/
theorem nodup (h : IndexOf index names) : names.Nodup := by
  rw [List.nodup_iff_injective_getElem]
  intro i j hij
  have hi : names[i.val]? = some names[i.val] := List.getElem?_eq_getElem i.isLt
  have hj : names[j.val]? = some names[i.val] := by
    rw [show names[i.val] = names[j.val] from hij]
    exact List.getElem?_eq_getElem j.isLt
  exact Fin.ext (h.eq_of_getElem? hi hj)

/-- What the index does not find is not there. -/
theorem not_mem_iff (h : IndexOf index names) : name ∉ names ↔ index[name]? = none := by
  rw [List.mem_iff_getElem?, not_exists, Option.eq_none_iff_forall_ne_some]
  exact forall_congr' fun place => not_congr (h name place).symm

/-- A new name goes to the end. -/
theorem insert (h : IndexOf index names) (hname : name ∉ names) :
    IndexOf (index.insert name names.length) (names ++ [name]) := by
  intro other place
  rw [Std.HashMap.getElem?_insert, List.getElem?_append]
  by_cases hother : name = other
  · subst hother
    rw [if_pos (beq_self_eq_true name)]
    have hnone : names[place]? ≠ some name := fun hplace => hname (List.mem_of_getElem? hplace)
    constructor
    · rintro ⟨⟩
      rw [if_neg (Nat.lt_irrefl _), Nat.sub_self]
      rfl
    · intro hplace
      split at hplace
      · exact absurd hplace hnone
      · next hlength =>
          have hzero := (List.getElem?_eq_some_iff.1 hplace).1
          rw [List.length_singleton] at hzero
          exact congrArg some (by omega)
  · rw [if_neg (by simpa using hother), h other place]
    split
    · rfl
    · next hlength =>
        rw [List.getElem?_eq_none (Nat.le_of_not_lt hlength)]
        refine ⟨nofun, fun hplace => ?_⟩
        exact absurd (List.mem_singleton.1 (List.mem_of_getElem? hplace)).symm hother

/-- Two indices of the same names are equal. -/
theorem beq (h : IndexOf index names) (h' : IndexOf index' names) : (index == index') = true := by
  refine Std.HashMap.Equiv.beq (.of_forall_getElem?_eq fun name => ?_)
  refine Option.ext fun place => ?_
  rw [h name place, h' name place]

end IndexOf

/-! ### A name among entries -/

namespace Bindings

variable {α : Type} {name : String} {value old : α} {entries : List (String × α)} {place : Nat}

/-- A new name is put behind all others. -/
theorem putEntry_of_not_mem (h : name ∉ entries.map (·.1)) :
    putEntry name value entries = entries ++ [(name, value)] := by
  induction entries with
  | nil => rfl
  | cons e rest ih =>
      rw [List.map_cons, List.mem_cons, not_or] at h
      rw [putEntry, if_neg (Ne.symm h.1), ih h.2, List.cons_append]

/-- A name that is there once is put where it is. -/
theorem putEntry_of_getElem? (hnodup : (entries.map (·.1)).Nodup)
    (h : entries[place]? = some (name, old)) :
    putEntry name value entries = entries.set place (name, value) := by
  induction entries generalizing place with
  | nil => cases h
  | cons e rest ih =>
      rw [List.map_cons, List.nodup_cons] at hnodup
      cases place with
      | zero =>
          obtain rfl : e = (name, old) := Option.some.inj h
          rw [putEntry, if_pos rfl, List.set_cons_zero]
      | succ place =>
          rw [List.getElem?_cons_succ] at h
          have hne : e.1 ≠ name := by
            rintro rfl
            exact hnodup.1 (List.mem_map.2 ⟨_, List.mem_of_getElem? h, rfl⟩)
          rw [putEntry, if_neg hne, ih hnodup.2 h, List.set_cons_succ]

/-- A name that is there once is found where it is. -/
theorem get?_of_getElem? {b : Bindings α} (hnodup : b.names.Nodup)
    (h : b.entries[place]? = some (name, value)) : b.get? name = some value := by
  obtain ⟨entries⟩ := b
  simp only [names, get?] at hnodup h ⊢
  induction entries generalizing place with
  | nil => cases h
  | cons e rest ih =>
      rw [List.map_cons, List.nodup_cons] at hnodup
      cases place with
      | zero =>
          obtain rfl : e = (name, value) := Option.some.inj h
          rw [List.find?_cons_of_pos (by simp), Option.map_some]
      | succ place =>
          rw [List.getElem?_cons_succ] at h
          have hne : e.1 ≠ name := by
            rintro rfl
            exact hnodup.1 (List.mem_map.2 ⟨_, List.mem_of_getElem? h, rfl⟩)
          rw [List.find?_cons_of_neg (by simpa using hne)]
          exact ih hnodup.2 h

/-- Where names are distinct, what is found is what stands there. -/
theorem get?_eq_some_iff {b : Bindings α} (hnodup : b.names.Nodup) :
    b.get? name = some value ↔ (name, value) ∈ b.entries := by
  refine ⟨mem_of_get?, fun h => ?_⟩
  obtain ⟨place, hplace⟩ := List.mem_iff_getElem?.1 h
  exact get?_of_getElem? hnodup hplace

end Bindings

/-! ### Entries with an index -/

/-- Entries in the order in which their names came, and the place of each name. -/
structure Indexed (ε : Type) where
  entries : List ε
  index   : Std.HashMap String Nat

namespace Indexed

variable {ε : Type}

/-- No names at all. -/
def empty : Indexed ε := ⟨[], ∅⟩

/-- The entry of a name, if there is one.  It fails if the index has a place where no entry is. -/
def find? (t : Indexed ε) (name : String) : Option (Option ε) :=
  match t.index[name]? with
  | none       => some none
  | some place => t.entries[place]?.map some

/-- Enters something under a new name, or changes what is there, and yields what was there.  It
fails if the index has a place where no entry is. -/
def enter (t : Indexed ε) (name : String) (entry : ε) (change : ε → ε) :
    Option (Option ε × Indexed ε) :=
  match t.index[name]? with
  | none       => some (none, ⟨t.entries ++ [entry], t.index.insert name t.entries.length⟩)
  | some place =>
      t.entries[place]?.map fun old => (some old, ⟨t.entries.set place (change old), t.index⟩)

variable {key : ε → String} {t : Indexed ε} {name : String}

/-- The index is that of the keys of the entries. -/
def Fits (key : ε → String) (t : Indexed ε) : Prop := IndexOf t.index (t.entries.map key)

/-- Entries under their keys. -/
def toBindings (key : ε → String) (t : Indexed ε) : Bindings ε :=
  ⟨t.entries.map fun e => (key e, e)⟩

theorem fits_empty : (empty : Indexed ε).Fits key := .empty

theorem names_toBindings (key : ε → String) (t : Indexed ε) :
    (t.toBindings key).names = t.entries.map key := by
  simp [toBindings, Bindings.names]

/-- Where an entry is, its key leads. -/
theorem Fits.index_iff (h : t.Fits key) {place : Nat} :
    t.index[name]? = some place ↔ ∃ e, t.entries[place]? = some e ∧ key e = name := by
  rw [h name place, List.getElem?_map, Option.map_eq_some_iff]

theorem Fits.nodup (h : t.Fits key) : (t.toBindings key).names.Nodup := by
  rw [names_toBindings]
  exact IndexOf.nodup h

/-- **To look up a name is to find it in the bindings**, and never fails. -/
theorem find?_eq (h : t.Fits key) (name : String) :
    t.find? name = some ((t.toBindings key).get? name) := by
  rw [find?]
  split
  · next hindex =>
      have hname : name ∉ (t.toBindings key).names := by
        rw [names_toBindings]
        exact (IndexOf.not_mem_iff h).2 hindex
      rw [Bindings.get?_eq_none hname]
  · next place hindex =>
      obtain ⟨e, he, rfl⟩ := h.index_iff.1 hindex
      have hentry : (t.toBindings key).entries[place]? = some (key e, e) := by
        rw [toBindings, List.getElem?_map, he, Option.map_some]
      rw [he, Bindings.get?_of_getElem? h.nodup hentry, Option.map_some]

/-- A new entry is put behind all others, and so is its name in the index. -/
theorem Fits.append (h : t.Fits key) {entry : ε} (hname : key entry ∉ t.entries.map key) :
    Fits key ⟨t.entries ++ [entry], t.index.insert (key entry) t.entries.length⟩ ∧
      toBindings key ⟨t.entries ++ [entry], t.index.insert (key entry) t.entries.length⟩ =
        (t.toBindings key).put (key entry) entry := by
  constructor
  · have hindexed := IndexOf.insert h hname
    rw [List.length_map] at hindexed
    rw [Fits, List.map_append]
    exact hindexed
  · rw [← names_toBindings] at hname
    rw [Bindings.put, Bindings.putEntry_of_not_mem hname, toBindings, List.map_append]
    rfl

/-- An entry that is changed keeps its name, so no name moves. -/
theorem Fits.set (h : t.Fits key) {old entry : ε} {place : Nat}
    (hplace : t.entries[place]? = some old) (hkey : key entry = key old) :
    Fits key ⟨t.entries.set place entry, t.index⟩ ∧
      toBindings key ⟨t.entries.set place entry, t.index⟩ =
        (t.toBindings key).put (key old) entry := by
  constructor
  · have hkeys : (t.entries.set place entry).map key = t.entries.map key := by
      have hold : (t.entries.map key)[place]? = some (key old) := by
        rw [List.getElem?_map, hplace, Option.map_some]
      obtain ⟨hlength, hget⟩ := List.getElem?_eq_some_iff.1 hold
      rw [List.map_set, hkey, ← hget, List.set_getElem_self]
    rw [Fits, hkeys]
    exact h
  · have hentry : (t.toBindings key).entries[place]? = some (key old, old) := by
      rw [toBindings, List.getElem?_map, hplace, Option.map_some]
    rw [Bindings.put, Bindings.putEntry_of_getElem? h.nodup hentry, toBindings, List.map_set, hkey]
    rfl

/-- **To enter something is to put it into the bindings.**  It never fails, yields what was found
under the name before, and keeps the index. -/
theorem enter_eq (h : t.Fits key) (entry : ε) (change : ε → ε) (hkey : key entry = name)
    (hchange : ∀ e, key e = name → change e = entry) :
    ∃ t', t.enter name entry change = some ((t.toBindings key).get? name, t') ∧
      t'.Fits key ∧ t'.toBindings key = (t.toBindings key).put name entry := by
  have hfind := find?_eq h name
  subst hkey
  rw [find?] at hfind
  rw [enter]
  split at hfind
  · next hindex =>
      refine ⟨_, ?_, h.append ((IndexOf.not_mem_iff h).2 hindex)⟩
      rw [← Option.some.inj hfind]
  · next place hindex =>
      obtain ⟨old, hplace, hold⟩ := h.index_iff.1 hindex
      rw [hplace, Option.map_some] at hfind
      refine ⟨⟨t.entries.set place entry, t.index⟩, ?_, hold ▸ h.set hplace hold.symm⟩
      rw [hplace, Option.map_some, hchange old hold, ← Option.some.inj hfind]

end Indexed

end MiniPascal
