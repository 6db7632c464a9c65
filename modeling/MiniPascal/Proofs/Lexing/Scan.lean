import Mathlib.Control.Monad.Basic
import MiniPascal.Input
import MiniPascal.Proofs.Lexing.Trivia

/-!
# Proofs — Lexing — Scan

Scanning as a relation between a text and its tokens.  `LaysOut offset cs ts` says that `cs`,
standing at byte `offset`, is trivia and lexemes in turn up to its end, that `ts` are the tokens of
those lexemes with the end behind them, and that every lexeme ends where the next thing begins.
Main statement (`scan_eq_ok_iff`): `scan` yields `ts` exactly when the text lays out `ts`.  What a
closed text is scanned to is decided by evaluation, by the equality test for `Except` imported here.
-/

namespace MiniPascal

/-! ### Bytes -/

@[simp] theorem byteLength_nil : byteLength [] = 0 := rfl

@[simp] theorem byteLength_cons (c : Char) (cs : List Char) :
    byteLength (c :: cs) = c.utf8Size + byteLength cs := rfl

@[simp] theorem byteLength_append (cs ds : List Char) :
    byteLength (cs ++ ds) = byteLength cs + byteLength ds := by
  induction cs with
  | nil => simp
  | cons c cs ih => simp only [List.cons_append, byteLength_cons, ih, Nat.add_assoc]

/-- The number of bytes that is counted here is that of the string. -/
theorem byteLength_toList (s : String) : byteLength s.toList = s.utf8ByteSize := by
  suffices h : ∀ cs, byteLength cs = (String.ofList cs).utf8ByteSize by
    rw [h, String.ofList_toList]
  intro cs
  induction cs with
  | nil => rfl
  | cons c cs ih =>
      have hcons : String.ofList (c :: cs) = String.singleton c ++ String.ofList cs := by simp
      rw [hcons, String.utf8ByteSize_append, String.utf8ByteSize_singleton, byteLength_cons, ih]

/-! ### The relation -/

/-- A lexeme that is a number is in range. -/
def Token.Kind.InRange (kind : Token.Kind) (word : List Char) : Prop :=
  kind = .integerConst ∨ kind = .realConst → (Number.ofLexeme? kind word).isSome = true

/-- The text `cs` from byte `offset` on lays out the tokens `ts`. -/
inductive LaysOut : Nat → List Char → List Token → Prop where
  | finish {offset : Nat} : LaysOut offset [] [.eof offset]
  | skip {offset : Nat} {t cs : List Char} {ts : List Token} (ht : IsTrivia t)
      (h : LaysOut (offset + byteLength t) cs ts) : LaysOut offset (t ++ cs) ts
  | lexeme {offset : Nat} {kind : Token.Kind} {word cs : List Char} {ts : List Token}
      (hw : kind.Spells word) (hr : kind.InRange word) (he : kind.EndsAt cs)
      (h : LaysOut (offset + byteLength word) cs ts) :
      LaysOut offset (word ++ cs) (⟨kind, .ofList word, ⟨offset, byteLength word⟩⟩ :: ts)

namespace Input

/-- A lexeme in range becomes its token. -/
theorem token_of_inRange (i : Input) {kind : Token.Kind} {word : List Char}
    (h : kind.InRange word) :
    i.token kind word = .ok ⟨kind, .ofList word, ⟨i.offset, byteLength word⟩⟩ := by
  cases kind with
  | integerConst => exact if_pos (h (.inl rfl))
  | realConst => exact if_pos (h (.inr rfl))
  | _ => rfl

/-- Only a lexeme in range becomes a token. -/
theorem token_eq_ok {i : Input} {kind : Token.Kind} {word : List Char} {t : Token}
    (h : i.token kind word = .ok t) :
    kind.InRange word ∧ t = ⟨kind, .ofList word, ⟨i.offset, byteLength word⟩⟩ := by
  have hr : kind.InRange word := by
    rintro (rfl | rfl)
    all_goals
      simp only [token] at h
      split at h
      · assumption
      · cases h
  rw [token_of_inRange i hr] at h
  cases h
  exact ⟨hr, rfl⟩

/-- The token of a lexeme is not the end of the text. -/
theorem atEnd_token {kind : Token.Kind} {word : List Char} {span : Span}
    (h : kind.Spells word) : Pulled.atEnd (.ok ⟨kind, .ofList word, span⟩) = false := by
  cases kind <;> first | rfl | exact h.elim

/-- Trivia in front of an input is passed over. -/
theorem next_skip (offset index : Nat) {t : List Char} (ht : IsTrivia t) (cs : List Char) :
    next ⟨offset, index, t ++ cs⟩ = next ⟨offset + byteLength t, index + t.length, cs⟩ := by
  simp only [next, trivia_append_of_isTrivia ht, past, byteLength_append, List.length_append,
    Nat.add_assoc]

/-- A lexeme in front of an input is the next thing. -/
theorem next_lexeme (offset index : Nat) {kind : Token.Kind} {word cs : List Char}
    (hw : kind.Spells word) (he : kind.EndsAt cs) :
    next ⟨offset, index, word ++ cs⟩ =
      (token ⟨offset, index, word ++ cs⟩ kind word, past ⟨offset, index, word ++ cs⟩ word cs) := by
  obtain ⟨c, ds, rfl, -, hbrace⟩ := head_of_spells hw
  have hpast : ∀ i : Input, i.past [] i.chars = i := fun _ => rfl
  simp only [next, trivia_of_spells hw cs]
  rw [hpast ⟨offset, index, c :: ds ++ cs⟩]
  unfold nextLexeme
  split
  · next h => cases h
  · next h => exact absurd (List.cons.inj h).1 hbrace
  · rw [lexeme?_append_of_spells hw he]

/-- What an input yields next is decided behind the trivia at its front: the end of the text, a
fault, or the token of a lexeme that ends before what is left. -/
theorem next_cases (i : Input) :
    ∃ t rest, i.chars = t ++ rest ∧ IsTrivia t ∧
      ((rest = [] ∧ i.next.1 = .ok (.eof (i.offset + byteLength t))) ∨
        (∃ e, i.next.1 = .error e) ∨
        ∃ kind word, kind.Spells word ∧ kind.InRange word ∧ kind.EndsAt i.next.2.chars ∧
          rest = word ++ i.next.2.chars ∧
          i.next.2.offset = i.offset + byteLength t + byteLength word ∧
          i.next.1 = .ok ⟨kind, .ofList word, ⟨i.offset + byteLength t, byteLength word⟩⟩) := by
  refine ⟨_, _, (trivia_append i.chars).symm, isTrivia_trivia i.chars, ?_⟩
  simp only [next, past]
  generalize trivia i.chars = cut
  unfold nextLexeme
  split
  · next h => exact .inl ⟨h, rfl⟩
  · exact .inr (.inl ⟨_, rfl⟩)
  · split
    · next kind word rest hl =>
        obtain ⟨hcut, hw, he⟩ := lexeme?_eq_some_iff.1 hl
        cases htoken : token ⟨i.offset + byteLength cut.1, i.index + cut.1.length, cut.2⟩ kind word
          with
        | error e => exact .inr (.inl ⟨e, rfl⟩)
        | ok a =>
            obtain ⟨hr, rfl⟩ := token_eq_ok htoken
            exact .inr (.inr ⟨kind, word, hw, hr, he, hcut, rfl, rfl⟩)
    · exact .inr (.inl ⟨_, rfl⟩)

/-- An input that begins with the end of the text yields that end alone. -/
theorem results_of_atEnd {i : Input} (h : i.next.1.atEnd = true) : i.results = [i.next.1] := by
  rw [results, drain, dif_pos h]

/-- Anything but the end of the text is followed by the results of the input behind it. -/
theorem results_of_not_atEnd {i : Input} (h : i.next.1.atEnd = false) :
    i.results = i.next.1 :: i.next.2.results := by
  rw [results, drain, dif_neg (by simp [h])]
  rfl

end Input

/-! ### Scanning lays out, and what is laid out is scanned -/

/-- What a text lays out is what an input on it yields, wherever the input stands. -/
theorem LaysOut.allOk_results {offset : Nat} {cs : List Char} {ts : List Token}
    (h : LaysOut offset cs ts) :
    ∀ index, allOk (Input.results ⟨offset, index, cs⟩) = .ok ts := by
  induction h with
  | finish => intro index; rw [Input.results_of_atEnd rfl]; rfl
  | @skip offset t cs ts ht _ ih =>
      intro index
      -- Trivia yields nothing by itself: the input in front of it and the one behind it agree.
      have hnext := Input.next_skip offset index ht cs
      have hresults : Input.results ⟨offset, index, t ++ cs⟩ =
          Input.results ⟨offset + byteLength t, index + t.length, cs⟩ := by
        rw [Input.results, Input.drain, hnext]
        rw [Input.results, Input.drain.eq_def ⟨offset + byteLength t, _, cs⟩]
      rw [hresults, ih]
  | @lexeme offset kind word cs ts hw hr he _ ih =>
      intro index
      have hnext := Input.next_lexeme offset index hw he
      rw [Input.token_of_inRange _ hr] at hnext
      rw [Input.results_of_not_atEnd (by rw [hnext]; exact Input.atEnd_token hw), hnext]
      have hrest := ih (index + word.length)
      simp only [allOk, Input.past] at hrest ⊢
      rw [hrest]
      rfl

/-- What an input yields without a fault is laid out by its text. -/
theorem laysOut_of_allOk_results (i : Input) {ts : List Token} (h : allOk i.results = .ok ts) :
    LaysOut i.offset i.chars ts := by
  obtain ⟨t, rest, hchars, ht, hcases⟩ := i.next_cases
  rw [hchars]
  refine .skip ht ?_
  rcases hcases with ⟨rfl, hnext⟩ | ⟨e, hnext⟩ | ⟨kind, word, hw, hr, he, rfl, hoffset, hnext⟩
  · rw [Input.results_of_atEnd (by rw [hnext]; rfl), hnext] at h
    cases h
    exact .finish
  · rw [Input.results_of_not_atEnd (by rw [hnext]; rfl), hnext] at h
    cases h
  · have hend : i.next.1.atEnd = false := by rw [hnext]; exact Input.atEnd_token hw
    rw [Input.results_of_not_atEnd hend, hnext, allOk] at h
    cases hmore : allOk i.next.2.results with
    | error e => rw [hmore] at h; cases h
    | ok us =>
        rw [hmore] at h
        cases h
        have hshorter := Input.next_shorter hend
        have ih := laysOut_of_allOk_results i.next.2 hmore
        rw [hoffset] at ih
        exact .lexeme hw hr he ih
termination_by i.chars.length

/-- **Scanning.**  A text is scanned to the tokens that it lays out, and to no others. -/
theorem scan_eq_ok_iff {s : String} {ts : List Token} :
    scan s = .ok ts ↔ LaysOut 0 s.toList ts :=
  ⟨fun h => laysOut_of_allOk_results (.ofString s) h, fun h => h.allOk_results 0⟩

/-! ### The tokens of a text -/

/-- All results are values exactly when they are the results of those values. -/
theorem allOk_eq_ok_iff {ε α : Type} {rs : List (Except ε α)} {as : List α} :
    allOk rs = .ok as ↔ rs = as.map .ok := by
  induction rs generalizing as with
  | nil => cases as <;> simp [allOk]
  | cons r rs ih =>
      cases r with
      | error e => cases as <;> simp [allOk]
      | ok a =>
          cases hrs : allOk rs with
          | error e =>
              cases as with
              | nil => simp [allOk, hrs, Except.map]
              | cons b bs => simp [allOk, hrs, Except.map, ← ih]
          | ok cs => cases as <;> simp [allOk, hrs, Except.map, ← ih]

/-- What an input on a scanned text yields. -/
theorem results_of_scan {s : String} {ts : List Token} (h : scan s = .ok ts) :
    (Input.ofString s).results = ts.map .ok :=
  allOk_eq_ok_iff.1 h

/-- A token whose lexeme is of its kind and, if it is a number, in range. -/
def Token.WellSpelled (t : Token) : Prop :=
  t.kind.Spells t.lexeme.toList ∧ t.kind.InRange t.lexeme.toList

/-- What is laid out are well-spelled tokens with the end behind them. -/
theorem LaysOut.exists_words {offset : Nat} {cs : List Char} {ts : List Token}
    (h : LaysOut offset cs ts) :
    ∃ us, ts = us ++ [.eof (offset + byteLength cs)] ∧ ∀ t ∈ us, t.WellSpelled := by
  induction h with
  | finish => exact ⟨[], rfl, fun _ h => nomatch h⟩
  | skip _ _ ih =>
      rw [byteLength_append, ← Nat.add_assoc]
      exact ih
  | @lexeme offset kind word cs ts hw hr he _ ih =>
      obtain ⟨us, rfl, hus⟩ := ih
      refine ⟨⟨kind, .ofList word, ⟨offset, byteLength word⟩⟩ :: us, ?_, ?_⟩
      · rw [byteLength_append, ← Nat.add_assoc]
        rfl
      · rintro t (_ | ⟨_, ht⟩)
        · simp only [Token.WellSpelled, String.toList_ofList]
          exact ⟨hw, hr⟩
        · exact hus t ht

/-- The tokens of a text are well spelled, and the end stands behind its last byte. -/
theorem wellSpelled_of_scan {s : String} {ts : List Token} (h : scan s = .ok ts) :
    ∃ us, ts = us ++ [.eof s.utf8ByteSize] ∧ ∀ t ∈ us, t.WellSpelled := by
  obtain ⟨us, hts, hus⟩ := (scan_eq_ok_iff.1 h).exists_words
  rw [Nat.zero_add, byteLength_toList] at hts
  exact ⟨us, hts, hus⟩

/-- What is scanned in front of the end is well spelled. -/
theorem wellSpelled_before_eof {s : String} {us : List Token} {n : Nat}
    (h : scan s = .ok (us ++ [.eof n])) : ∀ t ∈ us, t.WellSpelled := by
  obtain ⟨vs, hvs, hspelled⟩ := wellSpelled_of_scan h
  obtain ⟨rfl, -⟩ := List.append_inj' hvs rfl
  exact hspelled

end MiniPascal
