/-!
# Proofs — Agreement

Two computations that end alike.  A computation here has a state and yields a value or a fault.
`Agrees E S R m m'` says that from states related by `S` both `m` and `m'` yield values related by
`R`, or both yield faults related by `E`, and in either case end in states related by `S`.  What
agrees step by step agrees as a whole (`Agrees.bind`).
-/

namespace MiniPascal

variable {ε σ α β : Type} {E : ε → ε → Prop} {S : σ → σ → Prop}

/-- Two ends of computations that are alike. -/
def SameEnd (E : ε → ε → Prop) (S : σ → σ → Prop) (R : α → α → Prop) :
    EStateM.Result ε σ α → EStateM.Result ε σ α → Prop
  | .ok a s,    .ok b t    => R a b ∧ S s t
  | .error e s, .error f t => E e f ∧ S s t
  | _,          _          => False

/-- Two computations that end alike from like states. -/
def Agrees (E : ε → ε → Prop) (S : σ → σ → Prop) (R : α → α → Prop) (m m' : EStateM ε σ α) : Prop :=
  ∀ s t, S s t → SameEnd E S R (m s) (m' t)

namespace Agrees

theorem pure {R : α → α → Prop} {a b : α} (h : R a b) :
    Agrees E S R (Pure.pure a) (Pure.pure b) :=
  fun _ _ hst => ⟨h, hst⟩

theorem throw {R : α → α → Prop} {e f : ε} (h : E e f) :
    Agrees E S R (throw e) (throw f) :=
  fun _ _ hst => ⟨h, hst⟩

/-- A computation agrees with itself from the same state. -/
theorem refl (hE : ∀ e, E e e) (m : EStateM ε σ α) : Agrees E Eq Eq m m := by
  rintro s _ rfl
  cases h : m s with
  | ok a t => exact ⟨rfl, rfl⟩
  | error e t => exact ⟨hE e, rfl⟩

/-- First steps that agree, and then whatever agrees on their values. -/
theorem bind {Q : α → α → Prop} {R : β → β → Prop} {m m' : EStateM ε σ α}
    {k k' : α → EStateM ε σ β} (hm : Agrees E S Q m m')
    (hk : ∀ a b, Q a b → Agrees E S R (k a) (k' b)) : Agrees E S R (m >>= k) (m' >>= k') := by
  intro s t hst
  have first := hm s t hst
  show SameEnd E S R (EStateM.bind m k s) (EStateM.bind m' k' t)
  unfold EStateM.bind
  cases hs : m s <;> cases ht : m' t <;> rw [hs, ht] at first
  · exact hk _ _ first.1 _ _ first.2
  · exact first.elim
  · exact first.elim
  · exact first

end Agrees

end MiniPascal
