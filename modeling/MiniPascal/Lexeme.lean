import MiniPascal.Text.Blank
import MiniPascal.Text.Numeric
import MiniPascal.Token

/-!
# Lexeme

The two things that a program text is made of: lexemes, and the trivia between them.  `trivia`
splits off the blanks and closed comments at the front of a text, and `lexeme?` the longest lexeme
there.  Both only cut the text in two (`trivia_append`, `lexeme?_append`), and a lexeme is never
empty (`lexeme?_ne_nil`).
-/

namespace MiniPascal

mutual

/-- The blanks and closed comments at the front of a text, and the rest.  The rest begins with an
opening brace exactly when a comment is not closed. -/
def trivia : List Char → List Char × List Char
  | []      => ([], [])
  | c :: cs =>
      if isBlank c then
        let cut := trivia cs
        (c :: cut.1, cut.2)
      else if c = '{' then
        match comment cs with
        | some (inside, rest) => (c :: inside, rest)
        | none                => ([], c :: cs)
      else ([], c :: cs)

/-- The text after an opening brace, cut behind the closing brace and the trivia that follows it. -/
def comment : List Char → Option (List Char × List Char)
  | []      => none
  | c :: cs =>
      if c = '}' then
        let cut := trivia cs
        some (c :: cut.1, cut.2)
      else (comment cs).map fun cut => (c :: cut.1, cut.2)

end

/-- The number that begins with the digit `c`: a run of digits, and a point with a second run,
maybe empty, if a point follows the first. -/
def numberLexeme (c : Char) (cs : List Char) : Token.Kind × List Char × List Char :=
  let whole := c :: cs.takeWhile Char.isDigit
  match cs.dropWhile Char.isDigit with
  | '.' :: rest =>
      (.realConst, whole ++ '.' :: rest.takeWhile Char.isDigit, rest.dropWhile Char.isDigit)
  | rest        => (.integerConst, whole, rest)

/-- The word that begins with the letter `c`: a reserved word if it is spelled like one, a name
otherwise. -/
def wordLexeme (c : Char) (cs : List Char) : Token.Kind × List Char × List Char :=
  let word := c :: cs.takeWhile isAlphanumeric
  ((Token.Kind.ofWord? (.ofList word)).getD .identifier, word, cs.dropWhile isAlphanumeric)

/-- The operator or delimiter that begins with `c`; the assignment sign alone has two characters. -/
def symbolLexeme? : Char → List Char → Option (Token.Kind × List Char × List Char)
  | ':', '=' :: rest => some (.assign, [':', '='], rest)
  | c,   rest        => (Token.Kind.ofSymbol? c).map fun kind => (kind, [c], rest)

/-- The longest lexeme at the front of a text, with its kind and the rest. -/
def lexeme? : List Char → Option (Token.Kind × List Char × List Char)
  | []      => none
  | c :: cs =>
      if c.isDigit then some (numberLexeme c cs)
      else if isAlphabetic c then some (wordLexeme c cs)
      else symbolLexeme? c cs

/-- The number that a literal stands for, if it is in range. -/
def Number.ofLexeme? (kind : Token.Kind) (lexeme : List Char) : Option Number :=
  match kind with
  | .integerConst => Number.ofDigits? lexeme
  | .realConst    =>
      Number.ofPointed? (lexeme.takeWhile Char.isDigit) (lexeme.dropWhile Char.isDigit).tail
  | _             => none

mutual

/-- Trivia and rest make up the text. -/
theorem trivia_append : ∀ cs, (trivia cs).1 ++ (trivia cs).2 = cs
  | []      => by simp [trivia]
  | c :: cs => by
      rw [trivia]
      split
      · simp [trivia_append cs]
      · split
        · split
          · next h => simp [comment_append cs h]
          · rfl
        · rfl

/-- The two parts of a cut comment make up the text. -/
theorem comment_append : ∀ (cs : List Char) {cut : List Char × List Char},
    comment cs = some cut → cut.1 ++ cut.2 = cs
  | [],      _,   h => by simp [comment] at h
  | c :: cs, cut, h => by
      rw [comment] at h
      split at h
      · cases h
        simp [trivia_append cs]
      · obtain ⟨cut', h', rfl⟩ := Option.map_eq_some_iff.1 h
        simp [comment_append cs h']

end

/-- A number and what it leaves are the text. -/
theorem numberLexeme_append (c : Char) (cs : List Char) :
    (numberLexeme c cs).2.1 ++ (numberLexeme c cs).2.2 = c :: cs := by
  have key := List.takeWhile_append_dropWhile (p := Char.isDigit) (l := cs)
  unfold numberLexeme
  split
  · next rest h =>
      rw [h] at key
      simpa [List.takeWhile_append_dropWhile] using key
  · simp [key]

theorem wordLexeme_append (c : Char) (cs : List Char) :
    (wordLexeme c cs).2.1 ++ (wordLexeme c cs).2.2 = c :: cs := by
  simp [wordLexeme, List.takeWhile_append_dropWhile]

theorem symbolLexeme?_append {c : Char} {cs word rest : List Char} {kind : Token.Kind}
    (h : symbolLexeme? c cs = some (kind, word, rest)) : word ++ rest = c :: cs := by
  unfold symbolLexeme? at h
  split at h
  · cases h
    rfl
  · obtain ⟨_, -, h'⟩ := Option.map_eq_some_iff.1 h
    cases h'
    rfl

/-- Lexeme and rest make up the text. -/
theorem lexeme?_append {cs word rest : List Char} {kind : Token.Kind}
    (h : lexeme? cs = some (kind, word, rest)) : word ++ rest = cs := by
  cases cs with
  | nil => simp [lexeme?] at h
  | cons c cs =>
      rw [lexeme?] at h
      split at h
      · have := numberLexeme_append c cs
        rwa [Option.some.inj h] at this
      · split at h
        · have := wordLexeme_append c cs
          rwa [Option.some.inj h] at this
        · exact symbolLexeme?_append h

/-- A lexeme is not empty. -/
theorem lexeme?_ne_nil {cs word rest : List Char} {kind : Token.Kind}
    (h : lexeme? cs = some (kind, word, rest)) : word ≠ [] := by
  cases cs with
  | nil => simp [lexeme?] at h
  | cons c cs =>
      rw [lexeme?] at h
      split at h
      · unfold numberLexeme at h
        split at h <;> cases h <;> simp
      · split at h
        · cases h
          simp
        · unfold symbolLexeme? at h
          split at h
          · cases h
            simp
          · obtain ⟨_, -, h'⟩ := Option.map_eq_some_iff.1 h
            cases h'
            simp

end MiniPascal
