import MiniPascal.Proofs.Lexing.Classes

/-!
# Proofs — Lexing — Spelling

What a lexeme of each kind looks like, and where it ends.  `kind.Spells word` says that `word` is a
lexeme of the kind; `kind.goesOn c` says that a lexeme of the kind, were it followed by `c`, would
not end there.  Main statement (`lexeme?_eq_some_iff`): what is cut off the front of a text is
exactly a spelled word that the text behind it does not go on with, so a text has at most one cut.
-/

namespace MiniPascal

/-! ### The forms of words and numbers -/

/-- A letter, and then characters that may continue a name. -/
def Wordlike (word : List Char) : Prop :=
  ∃ c cs, word = c :: cs ∧ isAlphabetic c = true ∧ ∀ d ∈ cs, isAlphanumeric d = true

/-- Digits and nothing else. -/
def AllDigits (word : List Char) : Prop := ∀ d ∈ word, d.isDigit = true

namespace Token.Kind

/-- Whether a kind is that of one reserved word. -/
def isReserved : Token.Kind → Bool
  | .programWord | .varWord | .divWord | .integerWord | .realWord | .beginWord | .endWord
  | .procedureWord => true
  | _ => false

/-- The lexemes of a kind: names are no reserved words, the two kinds of numbers have their forms,
and every other kind but the end has the one lexeme that it is written as. -/
def Spells : Token.Kind → List Char → Prop
  | .identifier,   word => Wordlike word ∧ ofWord? (.ofList word) = none
  | .integerConst, word => word ≠ [] ∧ AllDigits word
  | .realConst,    word =>
      ∃ whole fraction, word = whole ++ '.' :: fraction ∧ whole ≠ [] ∧ AllDigits whole ∧
        AllDigits fraction
  | .eof,          _    => False
  | kind,          word => word = kind.text.toList

/-- Whether a lexeme of the kind does not end before `c`: a word goes on with what continues names,
an integer with a digit or with the point that makes it a real, a real with a digit, and a colon
with the sign that makes it an assignment. -/
def goesOn : Token.Kind → Char → Bool
  | .integerConst, c => c.isDigit || c == '.'
  | .realConst,    c => c.isDigit
  | .colon,        c => c == '='
  | kind,          c => (kind == .identifier || kind.isReserved) && isAlphanumeric c

/-- Whether a lexeme of the kind ends where `rest` begins. -/
def EndsAt (kind : Token.Kind) (rest : List Char) : Prop := ∀ c ∈ rest.head?, kind.goesOn c = false

/-- A reserved word is looked up as its kind. -/
theorem ofWord?_eq_some_iff {word : String} {kind : Token.Kind} :
    ofWord? word = some kind ↔ kind.isReserved = true ∧ word = kind.text := by
  constructor
  · intro h
    obtain ⟨front, back, hwords, -⟩ := List.lookup_eq_some_iff.1 h
    have hmem : (word, kind) ∈ reservedWords := by simp [hwords]
    exact (by decide : ∀ p ∈ reservedWords, p.2.isReserved = true ∧ p.1 = p.2.text) _ hmem
  · rintro ⟨hk, rfl⟩
    cases kind <;> first | rfl | cases hk

/-- A reserved word is spelled like a name. -/
theorem wordlike_of_isReserved {kind : Token.Kind} (h : kind.isReserved = true) :
    Wordlike kind.text.toList := by
  cases kind <;>
    first
    | exact ⟨_, _, rfl, by decide, List.all_eq_true.1 (by decide)⟩
    | cases h

/-- A reserved kind spells its word. -/
theorem spells_of_isReserved {kind : Token.Kind} (h : kind.isReserved = true) (word : List Char) :
    kind.Spells word ↔ word = kind.text.toList := by
  cases kind <;> first | rfl | cases h

theorem goesOn_of_isReserved {kind : Token.Kind} (h : kind.isReserved = true) :
    kind.goesOn = isAlphanumeric := by
  funext c
  cases kind <;> first | rfl | cases h

/-- A number begins with a digit. -/
theorem digit_of_spells_number {kind : Token.Kind} {word : List Char}
    (hkind : kind = .integerConst ∨ kind = .realConst) (hw : kind.Spells word) :
    ∃ c cs, word = c :: cs ∧ c.isDigit = true := by
  rcases hkind with rfl | rfl
  · obtain ⟨c, cs, rfl⟩ := List.exists_cons_of_ne_nil hw.1
    exact ⟨c, cs, rfl, hw.2 c (.head _)⟩
  · obtain ⟨whole, fraction, rfl, hne, hwhole, -⟩ := hw
    obtain ⟨c, cs, rfl⟩ := List.exists_cons_of_ne_nil hne
    exact ⟨c, cs ++ '.' :: fraction, rfl, hwhole c (.head _)⟩

/-- A symbol of one character spells that character. -/
theorem spells_of_ofSymbol? {c : Char} {kind : Token.Kind} (h : ofSymbol? c = some kind) :
    kind.Spells [c] := by
  unfold ofSymbol? at h
  split at h <;> cases h <;> rfl

end Token.Kind

/-! ### Runs of characters -/

section Runs

variable {p : Char → Bool} {run rest : List Char}

/-- A run that the rest does not continue is taken whole. -/
theorem takeWhile_append_of_stop (hrun : ∀ c ∈ run, p c = true)
    (hrest : ∀ c ∈ rest.head?, p c = false) : (run ++ rest).takeWhile p = run := by
  rw [List.takeWhile_append_of_pos hrun]
  cases rest with
  | nil => simp
  | cons c cs => simp [hrest c rfl]

/-- What is left behind such a run is the rest. -/
theorem dropWhile_append_of_stop (hrun : ∀ c ∈ run, p c = true)
    (hrest : ∀ c ∈ rest.head?, p c = false) : (run ++ rest).dropWhile p = rest := by
  rw [List.dropWhile_append_of_pos hrun]
  cases rest with
  | nil => simp
  | cons c cs => simp [hrest c rfl]

/-- Where runs end is told by the texts that begin with them. -/
theorem append_inj_of_stop {run' rest' : List Char} (hrun : ∀ c ∈ run, p c = true)
    (hrun' : ∀ c ∈ run', p c = true) (hrest : ∀ c ∈ rest.head?, p c = false)
    (hrest' : ∀ c ∈ rest'.head?, p c = false) (h : run ++ rest = run' ++ rest') :
    run = run' ∧ rest = rest' := by
  have htaken := congrArg (List.takeWhile p) h
  rw [takeWhile_append_of_stop hrun hrest, takeWhile_append_of_stop hrun' hrest'] at htaken
  rw [htaken] at h
  exact ⟨htaken, List.append_cancel_left h⟩

/-- What is taken has the property. -/
theorem forall_mem_takeWhile (cs : List Char) : ∀ c ∈ cs.takeWhile p, p c = true :=
  List.all_eq_true.1 List.all_takeWhile

/-- What is left begins with a character that does not have it. -/
theorem stop_dropWhile (cs : List Char) : ∀ c ∈ (cs.dropWhile p).head?, p c = false := by
  intro c hc
  have h := List.head?_dropWhile_not p cs
  rw [Option.mem_def.1 hc] at h
  exact h

end Runs

/-! ### The cut of each form -/

/-- What is cut off as a number is spelled like one and ends there. -/
theorem numberLexeme_spells {c : Char} {cs word rest : List Char} {kind : Token.Kind}
    (hc : c.isDigit = true) (h : numberLexeme c cs = (kind, word, rest)) :
    kind.Spells word ∧ kind.EndsAt rest := by
  have whole : AllDigits (c :: cs.takeWhile Char.isDigit) := by
    intro d hd
    rcases List.mem_cons.1 hd with rfl | hd
    · exact hc
    · exact forall_mem_takeWhile cs d hd
  unfold numberLexeme at h
  split at h
  · next tail htail =>
      cases h
      exact ⟨⟨_, _, rfl, by simp, whole, forall_mem_takeWhile tail⟩, stop_dropWhile tail⟩
  · next hpoint =>
      cases h
      refine ⟨⟨by simp, whole⟩, fun d hd => ?_⟩
      have hdigit := stop_dropWhile cs d hd
      obtain ⟨tail, htail⟩ := List.head?_eq_some_iff.1 hd
      have hne : d ≠ '.' := fun e => hpoint tail (e ▸ htail)
      simp [Token.Kind.goesOn, hdigit, hne]

/-- A number that ends before the rest is cut off whole. -/
theorem numberLexeme_of_spells {c : Char} {cs rest : List Char} {kind : Token.Kind}
    (hkind : kind = .integerConst ∨ kind = .realConst) (hw : kind.Spells (c :: cs))
    (hrest : kind.EndsAt rest) : numberLexeme c (cs ++ rest) = (kind, c :: cs, rest) := by
  unfold numberLexeme
  rcases hkind with rfl | rfl
  · -- A point behind the digits would make a real of them, which `EndsAt` excludes.
    obtain ⟨-, hdigits⟩ := hw
    have hcs : ∀ d ∈ cs, d.isDigit = true := fun d hd => hdigits d (.tail _ hd)
    have hstop : ∀ d ∈ rest.head?, d.isDigit = false := fun d hd =>
      (Bool.or_eq_false_iff.1 (hrest d hd)).1
    rw [takeWhile_append_of_stop hcs hstop, dropWhile_append_of_stop hcs hstop]
    split
    · next tail =>
        have hpoint := hrest '.' rfl
        simp [Token.Kind.goesOn] at hpoint
    · rfl
  · obtain ⟨whole, fraction, hword, hne, hwhole, hfraction⟩ := hw
    cases whole with
    | nil => exact absurd rfl hne
    | cons b whole =>
        rw [List.cons_append, List.cons.injEq] at hword
        obtain ⟨rfl, rfl⟩ := hword
        have hcs : ∀ d ∈ whole, d.isDigit = true := fun d hd => hwhole d (.tail _ hd)
        have hstop : ∀ d ∈ ('.' :: (fraction ++ rest)).head?, d.isDigit = false := by
          intro d hd
          cases hd
          decide
        have happend : whole ++ '.' :: fraction ++ rest = whole ++ '.' :: (fraction ++ rest) := by
          simp
        rw [happend, takeWhile_append_of_stop hcs hstop, dropWhile_append_of_stop hcs hstop]
        simp only [takeWhile_append_of_stop hfraction hrest,
          dropWhile_append_of_stop hfraction hrest, List.cons_append]

/-- What is cut off as a word is spelled like one and ends there. -/
theorem wordLexeme_spells {c : Char} {cs word rest : List Char} {kind : Token.Kind}
    (hc : isAlphabetic c = true) (h : wordLexeme c cs = (kind, word, rest)) :
    kind.Spells word ∧ kind.EndsAt rest := by
  simp only [wordLexeme] at h
  cases hk : Token.Kind.ofWord? (.ofList (c :: cs.takeWhile isAlphanumeric)) with
  | none =>
      rw [hk] at h
      cases h
      exact ⟨⟨⟨_, _, rfl, hc, forall_mem_takeWhile cs⟩, hk⟩, stop_dropWhile cs⟩
  | some k =>
      rw [hk] at h
      cases h
      obtain ⟨hres, htext⟩ := Token.Kind.ofWord?_eq_some_iff.1 hk
      have hword : c :: cs.takeWhile isAlphanumeric = k.text.toList := by
        rw [← htext, String.toList_ofList]
      refine ⟨(Token.Kind.spells_of_isReserved hres _).2 hword, fun d hd => ?_⟩
      rw [Option.getD_some, Token.Kind.goesOn_of_isReserved hres]
      exact stop_dropWhile cs d hd

/-- A word that ends before the rest is cut off whole, as the kind that it is looked up as. -/
theorem wordLexeme_of_wordlike {c : Char} {cs rest : List Char}
    (hcs : ∀ d ∈ cs, isAlphanumeric d = true) (hrest : ∀ d ∈ rest.head?, isAlphanumeric d = false) :
    wordLexeme c (cs ++ rest) =
      ((Token.Kind.ofWord? (.ofList (c :: cs))).getD .identifier, c :: cs, rest) := by
  simp only [wordLexeme, takeWhile_append_of_stop hcs hrest, dropWhile_append_of_stop hcs hrest]

/-- What is cut off as a symbol is spelled like one and ends there. -/
theorem symbolLexeme?_spells {c : Char} {cs word rest : List Char} {kind : Token.Kind}
    (h : symbolLexeme? c cs = some (kind, word, rest)) : kind.Spells word ∧ kind.EndsAt rest := by
  unfold symbolLexeme? at h
  split at h
  · cases h
    exact ⟨rfl, fun _ _ => rfl⟩
  · next hpair =>
      obtain ⟨k, hk, h'⟩ := Option.map_eq_some_iff.1 h
      cases h'
      refine ⟨Token.Kind.spells_of_ofSymbol? hk, fun d hd => ?_⟩
      obtain ⟨tail, rfl⟩ := List.head?_eq_some_iff.1 hd
      unfold Token.Kind.ofSymbol? at hk
      split at hk <;> cases hk <;> try rfl
      -- Only the colon is left: an equals sign behind it would have been cut off with it.
      exact beq_eq_false_iff_ne.2 fun e => hpair tail rfl (e ▸ rfl)

/-! ### The cut of a text -/

/-- What is cut off the front of a text is a lexeme that ends there. -/
theorem lexeme?_spells {cs word rest : List Char} {kind : Token.Kind}
    (h : lexeme? cs = some (kind, word, rest)) : kind.Spells word ∧ kind.EndsAt rest := by
  cases cs with
  | nil => cases h
  | cons c cs =>
      rw [lexeme?] at h
      split at h
      · next hd => exact numberLexeme_spells hd (Option.some.inj h)
      · split at h
        · next ha => exact wordLexeme_spells ha (Option.some.inj h)
        · exact symbolLexeme?_spells h

/-- A word in front of a text that it ends at is looked up and cut off. -/
theorem lexeme?_of_wordlike {word rest : List Char} (hw : Wordlike word)
    (hrest : ∀ d ∈ rest.head?, isAlphanumeric d = false) :
    lexeme? (word ++ rest) =
      some ((Token.Kind.ofWord? (.ofList word)).getD .identifier, word, rest) := by
  obtain ⟨c, cs, rfl, hc, hcs⟩ := hw
  have hd := not_isDigit_of_isAlphabetic hc
  rw [List.cons_append, lexeme?, if_neg (by simp [hd]), if_pos hc,
    wordLexeme_of_wordlike hcs hrest]

/-- A number in front of a text that it ends at is cut off. -/
theorem lexeme?_of_number {kind : Token.Kind} {word rest : List Char}
    (hkind : kind = .integerConst ∨ kind = .realConst) (hw : kind.Spells word)
    (hrest : kind.EndsAt rest) : lexeme? (word ++ rest) = some (kind, word, rest) := by
  obtain ⟨c, cs, rfl, hc⟩ := Token.Kind.digit_of_spells_number hkind hw
  rw [List.cons_append, lexeme?, if_pos hc, numberLexeme_of_spells hkind hw hrest]

/-- A lexeme in front of a text that it ends at is cut off. -/
theorem lexeme?_append_of_spells {kind : Token.Kind} {word rest : List Char}
    (hw : kind.Spells word) (hrest : kind.EndsAt rest) :
    lexeme? (word ++ rest) = some (kind, word, rest) := by
  by_cases hres : kind.isReserved = true
  · obtain rfl := (Token.Kind.spells_of_isReserved hres word).1 hw
    have hlookup : Token.Kind.ofWord? (.ofList kind.text.toList) = some kind :=
      Token.Kind.ofWord?_eq_some_iff.2 ⟨hres, String.ofList_toList⟩
    have hstop : ∀ d ∈ rest.head?, isAlphanumeric d = false := by
      rw [← Token.Kind.goesOn_of_isReserved hres]
      exact hrest
    rw [lexeme?_of_wordlike (Token.Kind.wordlike_of_isReserved hres) hstop, hlookup]
    rfl
  · cases kind with
    | identifier => rw [lexeme?_of_wordlike hw.1 hrest, hw.2]; rfl
    | integerConst => exact lexeme?_of_number (.inl rfl) hw hrest
    | realConst => exact lexeme?_of_number (.inr rfl) hw hrest
    | eof => exact hw.elim
    | colon =>
        obtain rfl : word = [':'] := hw
        cases rest with
        | nil => rfl
        | cons d rest =>
            have hd : d ≠ '=' := beq_eq_false_iff_ne.1 (hrest d rfl)
            rw [List.cons_append, lexeme?, if_neg (by decide), if_neg (by decide), symbolLexeme?]
            · rfl
            · rintro tail - ⟨rfl, -⟩
              exact hd rfl
    | plus => obtain rfl : word = ['+'] := hw; rfl
    | minus => obtain rfl : word = ['-'] := hw; rfl
    | star => obtain rfl : word = ['*'] := hw; rfl
    | slash => obtain rfl : word = ['/'] := hw; rfl
    | leftParen => obtain rfl : word = ['('] := hw; rfl
    | rightParen => obtain rfl : word = [')'] := hw; rfl
    | assign => obtain rfl : word = [':', '='] := hw; rfl
    | semicolon => obtain rfl : word = [';'] := hw; rfl
    | comma => obtain rfl : word = [','] := hw; rfl
    | dot => obtain rfl : word = ['.'] := hw; rfl
    | _ => exact absurd rfl hres

/-- **The cut of a text.**  A lexeme is cut off the front of a text exactly when the text is that
lexeme followed by something that it ends at. -/
theorem lexeme?_eq_some_iff {cs word rest : List Char} {kind : Token.Kind} :
    lexeme? cs = some (kind, word, rest) ↔
      cs = word ++ rest ∧ kind.Spells word ∧ kind.EndsAt rest := by
  constructor
  · intro h
    exact ⟨(lexeme?_append h).symm, lexeme?_spells h⟩
  · rintro ⟨rfl, hw, hrest⟩
    exact lexeme?_append_of_spells hw hrest

end MiniPascal
