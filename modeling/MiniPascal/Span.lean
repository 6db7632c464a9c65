/-!
# Span

A stretch of source text, in bytes of its UTF-8 form.  `a.through b` begins where `a` begins and
ends where the later of the two ends, so for two stretches in source order it is the least one
that covers both.
-/

namespace MiniPascal

/-- `len` bytes from byte `offset` on. -/
structure Span where
  offset : Nat
  len    : Nat
deriving DecidableEq, Repr, Inhabited

namespace Span

/-- The first byte after the stretch. -/
def stop (s : Span) : Nat := s.offset + s.len

/-- From the beginning of `a` to the later of the two ends. -/
def through (a b : Span) : Span := ⟨a.offset, max a.stop b.stop - a.offset⟩

/-- `a.through b` ends where the later of the two ends. -/
theorem stop_through (a b : Span) : (a.through b).stop = max a.stop b.stop := by
  simp only [through, stop]
  omega

/-- `a.through b` ends where one of the two ends. -/
theorem stop_through_eq_or (a b : Span) :
    (a.through b).stop = a.stop ∨ (a.through b).stop = b.stop := by
  rw [stop_through]
  rcases Nat.le_total a.stop b.stop with h | h
  · exact .inr (Nat.max_eq_right h)
  · exact .inl (Nat.max_eq_left h)

end Span

end MiniPascal
