/-!
# Proofs — Sequence

Computations in two parts.  A computation here has a state and yields a value or a fault; reading,
checking and running are all of this kind.  What a whole comes to is told by its parts: it yields
what the second part yields from where the first one ended, and a fault of the first part is a fault
of the whole.
-/

namespace MiniPascal

variable {ε σ α β : Type} {m : EStateM ε σ α} {k : α → EStateM ε σ β} {s t : σ} {e : ε}

/-- Where the first part succeeds, the second goes on from its state. -/
theorem bind_of_ok {a : α} (h : m s = .ok a t) : (m >>= k) s = k a t := by
  show EStateM.bind m k s = k a t
  rw [EStateM.bind, h]

/-- Where the first part fails, the whole does. -/
theorem bind_of_error (h : m s = .error e t) : (m >>= k) s = .error e t := by
  show EStateM.bind m k s = .error e t
  rw [EStateM.bind, h]

/-- A whole yields what its second part yields from where the first one came to. -/
theorem bind_eq_ok {b : β} :
    (m >>= k) s = .ok b t ↔ ∃ a u, m s = .ok a u ∧ k a u = .ok b t := by
  constructor
  · intro h
    cases hm : m s with
    | ok a u => exact ⟨a, u, rfl, (bind_of_ok hm).symm.trans h⟩
    | error f u =>
        rw [bind_of_error hm] at h
        cases h
  · rintro ⟨a, u, hm, hk⟩
    rw [bind_of_ok hm, hk]

/-- A whole fails in one of its parts. -/
theorem bind_eq_error :
    (m >>= k) s = .error e t ↔ m s = .error e t ∨ ∃ a u, m s = .ok a u ∧ k a u = .error e t := by
  constructor
  · intro h
    cases hm : m s with
    | ok a u => exact .inr ⟨a, u, rfl, (bind_of_ok hm).symm.trans h⟩
    | error f u =>
        rw [bind_of_error hm] at h
        cases h
        exact .inl rfl
  · rintro (hm | ⟨a, u, hm, hk⟩)
    · exact bind_of_error hm
    · rw [bind_of_ok hm, hk]

end MiniPascal
