import MiniPascal.Bindings
import Mathlib.Data.List.Induction

/-!
# Proofs — Bindings

Bindings made of a whole list of puts, and bindings with other values.  After a list of puts the
names are those of the list in the order of their first appearance (`names_putAll`), and the value
of a name is the last that was put under it (`get?_putAll`).
-/

namespace MiniPascal

namespace Bindings

variable {α β : Type}

/-! ### Entries -/

/-- What is found stands in the entries. -/
theorem mem_of_get? {b : Bindings α} {name : String} {value : α} (h : b.get? name = some value) :
    (name, value) ∈ b.entries := by
  obtain ⟨e, he, rfl⟩ := Option.map_eq_some_iff.1 h
  have hname : e.1 = name := by simpa using List.find?_some he
  rw [← hname]
  exact List.mem_of_find?_eq_some he

/-- A name is bound if it has a value. -/
theorem mem_names_iff {b : Bindings α} {name : String} :
    name ∈ b.names ↔ ∃ value, b.get? name = some value := by
  constructor
  · intro h
    obtain ⟨e, he, rfl⟩ := List.mem_map.1 h
    have hsome : (b.entries.find? (·.1 = e.1)).isSome := List.find?_isSome.2 ⟨e, he, by simp⟩
    obtain ⟨e', he'⟩ := Option.isSome_iff_exists.1 hsome
    exact ⟨e'.2, by rw [get?, he', Option.map_some]⟩
  · rintro ⟨value, h⟩
    exact List.mem_map_of_mem (mem_of_get? h)

/-- Nothing is found under a name that was not bound. -/
theorem get?_eq_none {b : Bindings α} {name : String} (h : name ∉ b.names) : b.get? name = none :=
  Option.eq_none_iff_forall_ne_some.2 fun value hvalue => h (mem_names_iff.2 ⟨value, hvalue⟩)

/-- A put adds its name to the names. -/
theorem mem_names_put {b : Bindings α} {name other : String} {value : α} :
    other ∈ (b.put name value).names ↔ other = name ∨ other ∈ b.names := by
  rw [names_put]
  split
  · next h => exact ⟨.inr, fun hother => hother.elim (fun heq => heq ▸ h) id⟩
  · rw [List.mem_append, List.mem_singleton, or_comm]

/-- A put adds no name a second time. -/
theorem nodup_names_put {b : Bindings α} (h : b.names.Nodup) (name : String) (value : α) :
    (b.put name value).names.Nodup := by
  rw [names_put]
  split
  · exact h
  · next hnew =>
      refine List.nodup_append.2 ⟨h, List.pairwise_singleton _ _, fun other hother => ?_⟩
      rw [List.forall_mem_singleton]
      rintro rfl
      exact hnew hother

/-- What holds of all values and of a new one holds of all values once it is put. -/
theorem forall_put {P : α → Prop} {b : Bindings α} {name : String} {value : α}
    (hb : ∀ e ∈ b.entries, P e.2) (hv : P value) : ∀ e ∈ (b.put name value).entries, P e.2 := by
  obtain ⟨entries⟩ := b
  simp only [put] at hb ⊢
  induction entries with
  | nil => exact List.forall_mem_singleton.2 hv
  | cons e rest ih =>
      obtain ⟨he, hrest⟩ := List.forall_mem_cons.1 hb
      rw [putEntry]
      split
      · exact List.forall_mem_cons.2 ⟨hv, hrest⟩
      · exact List.forall_mem_cons.2 ⟨he, ih hrest⟩

/-! ### Other values -/

/-- The same names in the same order, each with what its value is mapped to. -/
def map (f : α → β) (b : Bindings α) : Bindings β := ⟨b.entries.map fun e => (e.1, f e.2)⟩

theorem get?_map (f : α → β) (b : Bindings α) (name : String) :
    (b.map f).get? name = (b.get? name).map f := by
  simp only [map, get?, List.find?_map, Option.map_map]
  rfl

theorem map_put (f : α → β) (b : Bindings α) (name : String) (value : α) :
    (b.put name value).map f = (b.map f).put name (f value) := by
  obtain ⟨entries⟩ := b
  simp only [map, put]
  congr 1
  induction entries with
  | nil => rfl
  | cons e rest ih =>
      rw [List.map_cons, putEntry, putEntry]
      split
      · rfl
      · rw [List.map_cons, ih]

/-! ### Many puts -/

/-- The bindings after values have been put under names in order. -/
def putAll (b : Bindings α) (puts : List (String × α)) : Bindings α :=
  puts.foldl (fun b e => b.put e.1 e.2) b

theorem putAll_append (b : Bindings α) (puts more : List (String × α)) :
    b.putAll (puts ++ more) = (b.putAll puts).putAll more :=
  List.foldl_append

/-- One name more is kept if it is new. -/
theorem eraseDups_append_singleton (names : List String) (name : String) :
    (names ++ [name]).eraseDups =
      if name ∈ names then names.eraseDups else names.eraseDups ++ [name] := by
  rw [List.eraseDups_append]
  split
  · next h => simp [List.removeAll, h]
  · next h => simp [List.removeAll, h, List.eraseDups_cons]

/-- **Names come in the order of their first appearance, each once.** -/
theorem names_putAll (puts : List (String × α)) :
    ((empty : Bindings α).putAll puts).names = (puts.map (·.1)).eraseDups := by
  induction puts using List.reverseRecOn with
  | nil => rfl
  | append_singleton puts e ih =>
      have hmem : e.1 ∈ ((empty : Bindings α).putAll puts).names ↔ e.1 ∈ puts.map (·.1) := by
        rw [ih, List.mem_eraseDups]
      rw [putAll_append, List.map_append, List.map_singleton, eraseDups_append_singleton]
      show ((empty.putAll puts).put e.1 e.2).names = _
      rw [names_put, if_congr hmem rfl rfl, ih]

/-- **The value of a name is the last one that was put under it.** -/
theorem get?_putAll (puts : List (String × α)) (name : String) :
    ((empty : Bindings α).putAll puts).get? name =
      (puts.reverse.find? (·.1 = name)).map (·.2) := by
  induction puts using List.reverseRecOn with
  | nil => rfl
  | append_singleton puts e ih =>
      rw [putAll_append, List.reverse_append, List.reverse_singleton, List.singleton_append,
        List.find?_cons]
      show ((empty.putAll puts).put e.1 e.2).get? name = _
      rw [get?_put, ih]
      by_cases h : e.1 = name <;> simp [h]

end Bindings

end MiniPascal
