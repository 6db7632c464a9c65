import MiniPascal.Proofs.Lexing.Spelling

/-!
# Proofs — Lexing — Trivia

What may stand between two lexemes: blanks and closed comments, in any order (`IsTrivia`).  `trivia`
cuts such a run off the front of a text (`isTrivia_trivia`), and a run put in front of a text is cut
off together with what the text itself begins with (`trivia_append_of_isTrivia`).  No lexeme begins
with a blank or an opening brace, so nothing is cut off in front of one (`trivia_of_spells`), and
none goes on with either (`endsAt_of_isTrivia`).
-/

namespace MiniPascal

/-- Blanks and closed comments. -/
inductive IsTrivia : List Char → Prop where
  | nil : IsTrivia []
  | blank {c : Char} {cs : List Char} (hc : isBlank c = true) (t : IsTrivia cs) : IsTrivia (c :: cs)
  | comment {inside cs : List Char} (hi : '}' ∉ inside) (t : IsTrivia cs) :
      IsTrivia ('{' :: (inside ++ '}' :: cs))

theorem IsTrivia.append {t u : List Char} (ht : IsTrivia t) (hu : IsTrivia u) :
    IsTrivia (t ++ u) := by
  induction ht with
  | nil => exact hu
  | blank hc _ ih => exact .blank hc ih
  | comment hi _ ih =>
      rw [List.cons_append, List.append_assoc, List.cons_append]
      exact .comment hi ih

mutual

/-- What is cut off in front is trivia. -/
theorem isTrivia_trivia : ∀ cs, IsTrivia (trivia cs).1
  | []      => by rw [trivia]; exact .nil
  | c :: cs => by
      rw [trivia]
      split
      · next hc => exact .blank hc (isTrivia_trivia cs)
      · split
        · next hc =>
            split
            · next inside rest h =>
                obtain ⟨body, t, rfl, hbody, ht⟩ := comment_closed cs h
                exact hc ▸ .comment hbody ht
            · exact .nil
        · exact .nil

/-- A cut comment is the text up to the first closing brace, and trivia behind it. -/
theorem comment_closed : ∀ (cs : List Char) {inside rest : List Char},
    comment cs = some (inside, rest) →
      ∃ body t, inside = body ++ '}' :: t ∧ '}' ∉ body ∧ IsTrivia t
  | [],      _, _, h => by simp [comment] at h
  | c :: cs, _, _, h => by
      rw [comment] at h
      split at h
      · next hc =>
          cases h
          exact ⟨[], _, by rw [hc]; rfl, by simp, isTrivia_trivia cs⟩
      · next hc =>
          obtain ⟨cut, hcut, h'⟩ := Option.map_eq_some_iff.1 h
          cases h'
          have hpair : comment cs = some (cut.1, cut.2) := hcut
          obtain ⟨body, t, heq, hbody, ht⟩ := comment_closed cs hpair
          exact ⟨c :: body, t, by rw [heq]; rfl, by simp [hbody, Ne.symm hc], ht⟩

end

/-- A comment ends at its first closing brace, whatever follows. -/
theorem comment_append_of_not_mem {inside : List Char} (h : '}' ∉ inside) (cs : List Char) :
    comment (inside ++ '}' :: cs) = some (inside ++ '}' :: (trivia cs).1, (trivia cs).2) := by
  induction inside with
  | nil => rw [List.nil_append, comment, if_pos rfl]; rfl
  | cons c inside ih =>
      rw [List.mem_cons, not_or] at h
      rw [List.cons_append, comment, if_neg (Ne.symm h.1), ih h.2]
      rfl

/-- Trivia in front of a text is cut off with the trivia that the text begins with. -/
theorem trivia_append_of_isTrivia {t : List Char} (ht : IsTrivia t) (cs : List Char) :
    trivia (t ++ cs) = (t ++ (trivia cs).1, (trivia cs).2) := by
  induction ht with
  | nil => rfl
  | blank hc _ ih => rw [List.cons_append, trivia, if_pos hc, ih]; rfl
  | @comment inside u hi _ ih =>
      have happend : '{' :: (inside ++ '}' :: u) ++ cs = '{' :: (inside ++ '}' :: (u ++ cs)) := by
        simp
      have hbrace : isBlank '{' = false := by decide
      rw [happend, trivia, if_neg (by simp [hbrace]), if_pos rfl, comment_append_of_not_mem hi, ih]
      simp

/-- Trivia is what is cut off whole. -/
theorem isTrivia_iff {t : List Char} : IsTrivia t ↔ (trivia t).2 = [] := by
  constructor
  · intro ht
    have hcut := trivia_append_of_isTrivia ht []
    rw [List.append_nil] at hcut
    rw [hcut, trivia]
  · intro h
    have hcut := trivia_append t
    rw [h, List.append_nil] at hcut
    exact hcut ▸ isTrivia_trivia t

instance : DecidablePred IsTrivia := fun _ => decidable_of_iff _ isTrivia_iff.symm

/-- A name begins with neither a blank nor an opening brace. -/
theorem head_of_wordlike {word : List Char} (h : Wordlike word) :
    ∃ c cs, word = c :: cs ∧ isBlank c = false ∧ c ≠ '{' := by
  obtain ⟨c, cs, rfl, hc, -⟩ := h
  refine ⟨c, cs, rfl, Bool.eq_false_iff.2 fun hb => ?_, ?_⟩
  · rw [not_isAlphabetic_of_isBlank hb] at hc
    cases hc
  · rintro rfl
    exact absurd hc (by decide)

/-- A number begins with neither a blank nor an opening brace. -/
theorem head_of_number {kind : Token.Kind} {word : List Char}
    (hkind : kind = .integerConst ∨ kind = .realConst) (hw : kind.Spells word) :
    ∃ c cs, word = c :: cs ∧ isBlank c = false ∧ c ≠ '{' := by
  obtain ⟨c, cs, rfl, hc⟩ := Token.Kind.digit_of_spells_number hkind hw
  refine ⟨c, cs, rfl, isBlank_of_isDigit hc, ?_⟩
  rintro rfl
  exact absurd hc (by decide)

/-- A lexeme begins with neither a blank nor an opening brace. -/
theorem head_of_spells {kind : Token.Kind} {word : List Char} (h : kind.Spells word) :
    ∃ c cs, word = c :: cs ∧ isBlank c = false ∧ c ≠ '{' := by
  by_cases hres : kind.isReserved = true
  · rw [(Token.Kind.spells_of_isReserved hres word).1 h]
    exact head_of_wordlike (Token.Kind.wordlike_of_isReserved hres)
  · cases kind with
    | identifier => exact head_of_wordlike h.1
    | integerConst => exact head_of_number (.inl rfl) h
    | realConst => exact head_of_number (.inr rfl) h
    | eof => exact h.elim
    | _ =>
        first
        | exact absurd rfl hres
        | (obtain rfl := h; exact ⟨_, _, rfl, by decide, by decide⟩)

namespace Token.Kind

/-- No lexeme goes on with a blank. -/
theorem not_goesOn_of_isBlank {c : Char} (hc : isBlank c = true) (kind : Token.Kind) :
    kind.goesOn c = false := by
  have hword := not_isAlphanumeric_of_isBlank hc
  have hdigit : c.isDigit = false := Bool.eq_false_iff.2 fun h => by
    rw [isBlank_of_isDigit h] at hc
    cases hc
  have hpoint : c ≠ '.' := by rintro rfl; exact absurd hc (by decide)
  have hequals : c ≠ '=' := by rintro rfl; exact absurd hc (by decide)
  cases kind <;> simp [goesOn, hword, hdigit, hpoint, hequals]

/-- No lexeme goes on with an opening brace. -/
theorem not_goesOn_brace (kind : Token.Kind) : kind.goesOn '{' = false := by
  cases kind <;> decide

end Token.Kind

/-- Nothing is cut off in front of a lexeme. -/
theorem trivia_of_spells {kind : Token.Kind} {word : List Char} (h : kind.Spells word)
    (rest : List Char) : trivia (word ++ rest) = ([], word ++ rest) := by
  obtain ⟨c, cs, rfl, hblank, hbrace⟩ := head_of_spells h
  rw [List.cons_append, trivia, if_neg (by simp [hblank]), if_neg hbrace]

/-- No lexeme goes on with a blank or with the brace of a comment. -/
theorem endsAt_of_isTrivia {t : List Char} (ht : IsTrivia t) (hne : t ≠ []) (kind : Token.Kind)
    (rest : List Char) : kind.EndsAt (t ++ rest) := by
  cases ht with
  | nil => exact absurd rfl hne
  | @blank c cs hc _ =>
      rintro _ ⟨⟩
      exact Token.Kind.not_goesOn_of_isBlank hc kind
  | comment hi _ =>
      rintro _ ⟨⟩
      exact Token.Kind.not_goesOn_brace kind

end MiniPascal
