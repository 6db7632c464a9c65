import MiniPascal.Fault
import MiniPascal.Lexeme

/-!
# Input

A text in the course of being read, and the tokens it yields.  `next` takes one token or one
lexical fault off the front; after a fault the input can be read further, and at its end it yields
the same `eof` for ever.  Every result but `eof` makes the input shorter (`next_shorter`), so
`drain` reads it to the end.
-/

namespace MiniPascal

/-- The number of bytes of a run of characters in UTF-8. -/
def byteLength (cs : List Char) : Nat := cs.foldr (fun c n => c.utf8Size + n) 0

/-- The characters still to be read, and how many bytes and characters lie before them. -/
structure Input where
  offset : Nat
  index  : Nat
  chars  : List Char
deriving Repr

/-- What one reading step yields. -/
abbrev Pulled := Except (Located LexicalFault) Token

/-- Whether a step has reached the end of the text. -/
def Pulled.atEnd : Pulled → Bool
  | .ok t    => t.kind == .eof
  | .error _ => false

namespace Input

/-- A text from its beginning. -/
def ofString (s : String) : Input := ⟨0, 0, s.toList⟩

/-- The input after `read`, of which `rest` is left. -/
def past (i : Input) (read rest : List Char) : Input :=
  ⟨i.offset + byteLength read, i.index + read.length, rest⟩

/-- A lexeme as a token; a number out of range is a fault of the whole literal. -/
def token (i : Input) (kind : Token.Kind) (word : List Char) : Pulled :=
  let lexeme := String.ofList word
  let span := ⟨i.offset, byteLength word⟩
  match kind with
  | .integerConst | .realConst =>
      if (Number.ofLexeme? kind word).isSome then .ok ⟨kind, lexeme, span⟩
      else .error ⟨.outOfRange lexeme, span⟩
  | _ => .ok ⟨kind, lexeme, span⟩

/-- The next token or fault of an input without trivia at its front.  An unclosed comment takes
all the rest with it, a character that begins no lexeme only itself. -/
def nextLexeme (i : Input) : Pulled × Input :=
  match i.chars with
  | []        => (.ok (.eof i.offset), i)
  | '{' :: _  => (.error ⟨.unterminatedComment, ⟨i.offset, 1⟩⟩, i.past i.chars [])
  | c :: rest =>
      match lexeme? i.chars with
      | some (kind, word, rest) => (i.token kind word, i.past word rest)
      | none =>
          (.error ⟨.invalidCharacter c i.index, ⟨i.offset, c.utf8Size⟩⟩, i.past [c] rest)

/-- The next token or fault, and the input behind it. -/
def next (i : Input) : Pulled × Input :=
  (i.past (trivia i.chars).1 (trivia i.chars).2).nextLexeme

/-- What is not the end of the text takes at least one character. -/
theorem nextLexeme_shorter {i : Input} (h : i.nextLexeme.1.atEnd = false) :
    i.nextLexeme.2.chars.length < i.chars.length := by
  unfold nextLexeme at h ⊢
  split at h
  · simp [Pulled.atEnd, Token.eof] at h
  · next hc => simp [hc, past]
  · next c rest _ hc =>
      split at h
      · next kind word rest' hl =>
          have := congrArg List.length (lexeme?_append hl)
          have := List.length_pos_iff.2 (lexeme?_ne_nil hl)
          simp only [hl, past, List.length_append] at *
          omega
      · next hl => simp [hc, past]

/-- Every step that does not reach the end leaves a shorter input. -/
theorem next_shorter {i : Input} (h : i.next.1.atEnd = false) :
    i.next.2.chars.length < i.chars.length := by
  have hs := nextLexeme_shorter h
  have := congrArg List.length (trivia_append i.chars)
  simp only [past, List.length_append] at *
  unfold next
  simp only [past]
  omega

/-- All results up to and with the first `eof`, and the input that is left then. -/
def drain (i : Input) : List Pulled × Input :=
  let r := i.next
  if _ : r.1.atEnd then ([r.1], r.2)
  else
    let more := drain r.2
    (r.1 :: more.1, more.2)
termination_by i.chars.length
decreasing_by
  rename_i h
  exact next_shorter (by simpa using h)

/-- All results up to and with the first `eof`. -/
def results (i : Input) : List Pulled := i.drain.1

end Input

/-- The values of a list of results, or the first error in it. -/
def allOk {ε α : Type} : List (Except ε α) → Except ε (List α)
  | []               => .ok []
  | .error e :: _    => .error e
  | .ok a    :: rest => (allOk rest).map (a :: ·)

/-- The tokens of a text, the last of them `eof`, or its first lexical fault. -/
def scan (s : String) : Except (Located LexicalFault) (List Token) :=
  allOk (Input.ofString s).results

end MiniPascal
