import MiniPascal.Proofs.Lexing.Scan

/-!
# Proofs — Lexing — Lossless

A text that is scanned is its lexemes in order with trivia before, between and behind them, and
nothing else (`scan_lossless`).  `interleave front parts` is such a text: each part is a token with
the text that stands behind its lexeme.  Where a token stands is then the number of bytes before
it, and that no lexeme could have been longer is a condition on the text behind it.
-/

namespace MiniPascal

/-- The text of `front`, and then of each token's lexeme with what stands behind it. -/
def interleave (front : List Char) (parts : List (Token × List Char)) : List Char :=
  front ++ parts.flatMap fun part => part.1.lexeme.toList ++ part.2

theorem interleave_cons (front : List Char) (t : Token) (gap : List Char)
    (parts : List (Token × List Char)) :
    interleave front ((t, gap) :: parts) = front ++ (t.lexeme.toList ++ interleave gap parts) := by
  simp [interleave]

theorem interleave_append (t front : List Char) (parts : List (Token × List Char)) :
    interleave (t ++ front) parts = t ++ interleave front parts :=
  List.append_assoc t front _

/-- Each part of a text that begins at byte `offset` with `front` is trivia behind a lexeme: the
lexeme is spelled as its kind says, stands where its token says, and ends before what follows. -/
def PartsFit (offset : Nat) (front : List Char) (parts : List (Token × List Char)) : Prop :=
  ∀ before t gap after, parts = before ++ (t, gap) :: after →
    IsTrivia gap ∧ t.kind.Spells t.lexeme.toList ∧
      t.span = ⟨offset + byteLength (interleave front before), byteLength t.lexeme.toList⟩ ∧
      t.kind.EndsAt (interleave gap after)

/-- Behind trivia the parts fit where these end. -/
theorem PartsFit.skip {offset : Nat} {t front : List Char} {parts : List (Token × List Char)}
    (h : PartsFit (offset + byteLength t) front parts) : PartsFit offset (t ++ front) parts := by
  intro before u gap after hparts
  obtain ⟨hgap, hw, hspan, he⟩ := h before u gap after hparts
  refine ⟨hgap, hw, ?_, he⟩
  rw [hspan, interleave_append, byteLength_append, Nat.add_assoc]

/-- A token in front of the parts fits if it sits where the trivia end. -/
theorem PartsFit.cons {offset : Nat} {t : Token} {front : List Char}
    {parts : List (Token × List Char)} (ht : IsTrivia front) (hw : t.kind.Spells t.lexeme.toList)
    (hspan : t.span = ⟨offset, byteLength t.lexeme.toList⟩)
    (he : t.kind.EndsAt (interleave front parts))
    (h : PartsFit (offset + byteLength t.lexeme.toList) front parts) :
    PartsFit offset [] ((t, front) :: parts) := by
  intro before u gap after hparts
  cases before with
  | nil =>
      cases hparts
      exact ⟨ht, hw, hspan, he⟩
  | cons part before =>
      rw [List.cons_append, List.cons.injEq] at hparts
      obtain ⟨rfl, hparts⟩ := hparts
      obtain ⟨hgap, hw', hspan', he'⟩ := h before u gap after hparts
      refine ⟨hgap, hw', ?_, he'⟩
      rw [hspan', interleave_cons, List.nil_append, byteLength_append, Nat.add_assoc]

/-- What is laid out is an interleaving of lexemes and trivia. -/
theorem LaysOut.exists_parts {offset : Nat} {cs : List Char} {ts : List Token}
    (h : LaysOut offset cs ts) :
    ∃ front parts, cs = interleave front parts ∧
      ts = parts.map (·.1) ++ [.eof (offset + byteLength cs)] ∧
      IsTrivia front ∧ PartsFit offset front parts := by
  induction h with
  | finish => exact ⟨[], [], rfl, rfl, .nil, fun before _ _ _ h => by cases before <;> cases h⟩
  | @skip offset t cs ts ht _ ih =>
      obtain ⟨front, parts, rfl, rfl, hfront, hfit⟩ := ih
      refine ⟨t ++ front, parts, (interleave_append t front parts).symm, ?_, ht.append hfront,
        hfit.skip⟩
      rw [byteLength_append, Nat.add_assoc]
  | @lexeme offset kind word cs ts hw _ he _ ih =>
      obtain ⟨front, parts, rfl, rfl, hfront, hfit⟩ := ih
      have hword : word = (String.ofList word).toList := String.toList_ofList.symm
      refine ⟨[], (⟨kind, .ofList word, ⟨offset, byteLength word⟩⟩, front) :: parts, ?_, ?_, .nil,
        .cons hfront ?_ ?_ he ?_⟩
      · rw [interleave_cons, ← hword, List.nil_append]
      · rw [byteLength_append, Nat.add_assoc]
        rfl
      · rw [← hword]
        exact hw
      · rw [← hword]
      · rw [← hword]
        exact hfit

/-- **Scanning loses nothing and takes what it can.**  A text that is scanned is trivia, lexeme,
trivia, … up to its end.  Each token has the lexeme that stands there and the bytes that it takes
there, the lexeme has the form of the token's kind and could not have been longer, and the end
stands behind the last byte. -/
theorem scan_lossless {s : String} {ts : List Token} (h : scan s = .ok ts) :
    ∃ front parts, s.toList = interleave front parts ∧
      ts = parts.map (·.1) ++ [.eof s.utf8ByteSize] ∧ IsTrivia front ∧
      ∀ before t gap after, parts = before ++ (t, gap) :: after →
        IsTrivia gap ∧ t.kind.Spells t.lexeme.toList ∧
          t.span = ⟨byteLength (interleave front before), byteLength t.lexeme.toList⟩ ∧
          t.kind.EndsAt (interleave gap after) := by
  obtain ⟨front, parts, hs, hts, hfront, hfit⟩ := (scan_eq_ok_iff.1 h).exists_parts
  rw [Nat.zero_add, byteLength_toList] at hts
  refine ⟨front, parts, hs, hts, hfront, fun before t gap after hparts => ?_⟩
  have hpart := hfit before t gap after hparts
  rwa [Nat.zero_add] at hpart

/-- A text with a letter of two bytes, a sign of two characters, and a comment before the end. -/
theorem scan_lossless_example :
    scan " é:=30{c}" = .ok [⟨.identifier, "é", ⟨1, 2⟩⟩, ⟨.assign, ":=", ⟨3, 2⟩⟩,
        ⟨.integerConst, "30", ⟨5, 2⟩⟩, .eof 10] ∧
      ∃ front parts, " é:=30{c}".toList = interleave front parts ∧
        [⟨.identifier, "é", ⟨1, 2⟩⟩, ⟨.assign, ":=", ⟨3, 2⟩⟩, ⟨.integerConst, "30", ⟨5, 2⟩⟩,
            .eof 10] = parts.map (·.1) ++ [.eof " é:=30{c}".utf8ByteSize] ∧ IsTrivia front ∧
        ∀ before t gap after, parts = before ++ (t, gap) :: after →
          IsTrivia gap ∧ t.kind.Spells t.lexeme.toList ∧
            t.span = ⟨byteLength (interleave front before), byteLength t.lexeme.toList⟩ ∧
            t.kind.EndsAt (interleave gap after) := by
  have h : scan " é:=30{c}" = .ok [⟨.identifier, "é", ⟨1, 2⟩⟩, ⟨.assign, ":=", ⟨3, 2⟩⟩,
      ⟨.integerConst, "30", ⟨5, 2⟩⟩, .eof 10] := by decide +kernel
  exact ⟨h, scan_lossless h⟩

end MiniPascal
