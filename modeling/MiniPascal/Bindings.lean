/-!
# Bindings

Values under names, in the order in which the names came.  `put` gives a name its value: a name
that is there keeps its place, a new one goes to the end.  What `get?` finds after a `put` is the
new value at its name and the old one everywhere else.
-/

namespace MiniPascal

/-- Names with their values, each name once, in the order of their first appearance. -/
structure Bindings (α : Type) where
  entries : List (String × α)
deriving DecidableEq, Repr

namespace Bindings

variable {α : Type}

/-- No names at all. -/
def empty : Bindings α := ⟨[]⟩

/-- The entries after a name got a value. -/
def putEntry (name : String) (value : α) : List (String × α) → List (String × α)
  | []        => [(name, value)]
  | e :: rest => if e.1 = name then (name, value) :: rest else e :: putEntry name value rest

/-- Gives a name a value. -/
def put (b : Bindings α) (name : String) (value : α) : Bindings α :=
  ⟨putEntry name value b.entries⟩

/-- The value of a name. -/
def get? (b : Bindings α) (name : String) : Option α :=
  (b.entries.find? (·.1 = name)).map (·.2)

/-- The names in order. -/
def names (b : Bindings α) : List String := b.entries.map (·.1)

/-- The number of names. -/
def size (b : Bindings α) : Nat := b.entries.length

/-- A name that was put has the new value, any other its old one. -/
theorem get?_put (b : Bindings α) (name other : String) (value : α) :
    (b.put name value).get? other = if name = other then some value else b.get? other := by
  obtain ⟨entries⟩ := b
  simp only [put, get?]
  induction entries with
  | nil => by_cases h : name = other <;> simp [putEntry, h]
  | cons e rest ih =>
      by_cases he : e.1 = name
      · by_cases h : name = other <;> simp_all [putEntry]
      · by_cases h : e.1 = other
        · have : name ≠ other := fun hn => he (h.trans hn.symm)
          rw [putEntry, if_neg he]
          simp [h, this]
        · simpa [putEntry, he, h] using ih

/-- A name that is there keeps its place, a new one goes to the end. -/
theorem names_put (b : Bindings α) (name : String) (value : α) :
    (b.put name value).names = if name ∈ b.names then b.names else b.names ++ [name] := by
  obtain ⟨entries⟩ := b
  simp only [put, names]
  induction entries with
  | nil => simp [putEntry]
  | cons e rest ih =>
      by_cases he : e.1 = name
      · simp [putEntry, he]
      · have : name ≠ e.1 := fun h => he h.symm
        by_cases hm : name ∈ rest.map (·.1) <;> simp_all [putEntry]

end Bindings

end MiniPascal
