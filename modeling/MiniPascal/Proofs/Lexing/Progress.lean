import MiniPascal.Proofs.Lexing.Places

/-!
# Proofs — Lexing — Progress

Reading a text to its end, past every fault on the way.  A call passes over trivia and takes
characters off the front of what is left: a lexeme, a number out of range, a character that begins
nothing, or an unclosed comment with all that follows it (`Takes`).  It always takes at least one,
so the calls on a text come to its end (`Pulls`).  Main statement (`Input.calls_progress`): a text
is what its calls pass over and take, in order and without a remainder, and from then on every call
yields the same end.
-/

namespace MiniPascal

/-! ### What is left when trivia has been cut off -/

/-- A comment is not closed only if there is no closing brace. -/
theorem comment_eq_none {cs : List Char} (h : comment cs = none) : '}' ∉ cs := by
  induction cs with
  | nil => exact List.not_mem_nil
  | cons c cs ih =>
      rw [comment] at h
      split at h
      · cases h
      · next hc =>
          rw [List.mem_cons, not_or]
          exact ⟨Ne.symm hc, ih (Option.map_eq_none_iff.1 h)⟩

mutual

/-- Trivia stops at an opening brace only if no closing one follows. -/
theorem trivia_brace : ∀ (cs : List Char) {rest : List Char},
    (trivia cs).2 = '{' :: rest → '}' ∉ rest
  | [],      _, h => by
      rw [trivia] at h
      cases h
  | c :: cs, _, h => by
      rw [trivia] at h
      split at h
      · exact trivia_brace cs h
      · split at h
        · split at h
          · next inside rest hc =>
              obtain rfl := h
              exact comment_brace cs hc
          · next hc =>
              obtain ⟨-, rfl⟩ := List.cons.inj h
              exact comment_eq_none hc
        · next hc => exact absurd (List.cons.inj h).1 hc

/-- So does the trivia behind a comment. -/
theorem comment_brace : ∀ (cs : List Char) {inside rest : List Char},
    comment cs = some (inside, '{' :: rest) → '}' ∉ rest
  | [],      _, _, h => by
      rw [comment] at h
      cases h
  | c :: cs, _, _, h => by
      rw [comment] at h
      split at h
      · exact trivia_brace cs (congrArg Prod.snd (Option.some.inj h))
      · obtain ⟨⟨inside, rest⟩, hcut, h'⟩ := Option.map_eq_some_iff.1 h
        cases h'
        exact comment_brace cs hcut

end

/-- Trivia does not stop at a blank. -/
theorem trivia_blank {cs rest : List Char} {c : Char} (h : (trivia cs).2 = c :: rest) :
    isBlank c = false := by
  have hagain := trivia_append_of_isTrivia (isTrivia_trivia cs) (trivia cs).2
  rw [trivia_append, h] at hagain
  have hnil : (trivia (c :: rest)).1 = [] :=
    List.self_eq_append_right.1 (congrArg Prod.fst hagain)
  rw [trivia] at hnil
  split at hnil
  · cases hnil
  · next hc => exact Bool.eq_false_iff.2 hc

/-! ### One call -/

/-- The end of a text of so many bytes, as a call yields it. -/
def Pulled.eof (bytes : Nat) : Pulled := .ok (.eof bytes)

/-- What a call that stands at byte `offset` behind `index` characters takes, what follows it, and
what the call yields. -/
inductive Takes (offset index : Nat) : List Char → List Char → Pulled → Prop where
  | lexeme {kind : Token.Kind} {word rest : List Char} (hw : kind.Spells word)
      (hr : kind.InRange word) (he : kind.EndsAt rest) :
      Takes offset index word rest (.ok ⟨kind, .ofList word, ⟨offset, byteLength word⟩⟩)
  | literal {kind : Token.Kind} {word rest : List Char} (hw : kind.Spells word)
      (hr : ¬ kind.InRange word) (he : kind.EndsAt rest) :
      Takes offset index word rest
        (.error ⟨.outOfRange (.ofList word), ⟨offset, byteLength word⟩⟩)
  | character {c : Char} {rest : List Char} (hblank : isBlank c = false) (hbrace : c ≠ '{')
      (hc : lexeme? (c :: rest) = none) :
      Takes offset index [c] rest (.error ⟨.invalidCharacter c index, ⟨offset, c.utf8Size⟩⟩)
  | comment {inside : List Char} (hi : '}' ∉ inside) :
      Takes offset index ('{' :: inside) [] (.error ⟨.unterminatedComment, ⟨offset, 1⟩⟩)

namespace Takes

variable {offset index : Nat} {taken rest : List Char} {r : Pulled}

/-- At least one character is taken. -/
theorem ne_nil (h : Takes offset index taken rest r) : taken ≠ [] := by
  cases h with
  | lexeme hw | literal hw =>
      obtain ⟨c, cs, rfl, -⟩ := head_of_spells hw
      exact List.cons_ne_nil c cs
  | character | comment => exact List.cons_ne_nil _ _

/-- The end of the text takes nothing. -/
theorem not_atEnd (h : Takes offset index taken rest r) : r.atEnd = false := by
  cases h with
  | lexeme hw => exact Input.atEnd_token hw
  | literal | character | comment => rfl

end Takes

namespace Input

/-- A number that is not in range is a fault of the whole literal. -/
theorem token_of_not_inRange (i : Input) {kind : Token.Kind} {word : List Char}
    (h : ¬ kind.InRange word) :
    i.token kind word = .error ⟨.outOfRange (.ofList word), ⟨i.offset, byteLength word⟩⟩ := by
  cases kind with
  | integerConst | realConst => exact if_neg fun hsome => h fun _ => hsome
  | _ => exact absurd (fun hkind => nomatch hkind) h

theorem past_past (i : Input) (read more rest rest' : List Char) :
    (i.past read rest).past more rest' = i.past (read ++ more) rest' := by
  simp only [past, byteLength_append, List.length_append, Nat.add_assoc]

/-- An input without trivia at its front takes what the next call yields. -/
theorem takes_nextLexeme {i : Input} (hne : i.chars ≠ [])
    (hblank : ∀ c cs, i.chars = c :: cs → isBlank c = false)
    (hbrace : ∀ cs, i.chars = '{' :: cs → '}' ∉ cs) :
    ∃ taken rest r, i.chars = taken ++ rest ∧ Takes i.offset i.index taken rest r ∧
      i.nextLexeme = (r, i.past taken rest) := by
  unfold nextLexeme
  split
  · next hchars => exact absurd hchars hne
  · next inside hchars =>
      exact ⟨_, [], _, (List.append_nil _).symm, hchars ▸ .comment (hbrace inside hchars), rfl⟩
  · next c cs hc hchars =>
      split
      · next kind word rest hl =>
          obtain ⟨hcut, hw, he⟩ := lexeme?_eq_some_iff.1 hl
          by_cases hr : kind.InRange word
          · exact ⟨word, rest, _, hcut, .lexeme hw hr he, by rw [token_of_inRange i hr]⟩
          · exact ⟨word, rest, _, hcut, .literal hw hr he, by rw [token_of_not_inRange i hr]⟩
      · next hl =>
          exact ⟨[c], cs, _, hchars, .character (hblank c cs hchars) hc (hchars ▸ hl), rfl⟩

/-- In front of trivia and nothing else stands the end of the text. -/
theorem next_of_isTrivia {i : Input} (h : IsTrivia i.chars) :
    i.next = (.eof (i.offset + byteLength i.chars), i.past i.chars []) := by
  have hcut := trivia_append_of_isTrivia h []
  rw [trivia, List.append_nil] at hcut
  simp only [next, hcut, nextLexeme, past, Pulled.eof]

/-! ### All calls -/

/-- What one call passes over, what it takes, and what it yields for that. -/
structure Pull where
  gap    : List Char
  taken  : List Char
  result : Pulled

/-- The characters that calls have passed over and taken. -/
def pulledText (ps : List Pull) : List Char := ps.flatMap fun p => p.gap ++ p.taken

theorem pulledText_cons (p : Pull) (ps : List Pull) :
    pulledText (p :: ps) = p.gap ++ (p.taken ++ pulledText ps) := by
  simp [pulledText]

/-- The input that is left after calls. -/
def afterCalls : Nat → Input → Input
  | 0,     i => i
  | n + 1, i => afterCalls n i.next.2

/-- The calls on an input up to the end of its text, in front of which `last` is trivia. -/
inductive Pulls : Input → List Pull → List Char → Prop where
  | finish {i : Input} (ht : IsTrivia i.chars) : Pulls i [] i.chars
  | call {i : Input} {gap taken rest last : List Char} {r : Pulled} {ps : List Pull}
      (hchars : i.chars = gap ++ (taken ++ rest)) (hgap : IsTrivia gap)
      (htakes : Takes (i.offset + byteLength gap) (i.index + gap.length) taken rest r)
      (hnext : i.next = (r, i.past (gap ++ taken) rest))
      (h : Pulls (i.past (gap ++ taken) rest) ps last) : Pulls i (⟨gap, taken, r⟩ :: ps) last

/-- Every input comes to its end. -/
theorem exists_pulls (i : Input) : ∃ ps last, Pulls i ps last := by
  by_cases hend : (trivia i.chars).2 = []
  · exact ⟨[], i.chars, .finish (isTrivia_iff.2 hend)⟩
  · obtain ⟨taken, rest, r, hcut, htakes, hlexeme⟩ :=
      takes_nextLexeme (i := i.past (trivia i.chars).1 (trivia i.chars).2) hend
        (fun _ _ => trivia_blank) fun _ => trivia_brace i.chars
    have hchars : i.chars = (trivia i.chars).1 ++ (taken ++ rest) := by
      rw [← hcut]
      exact (trivia_append i.chars).symm
    have hnext : i.next = (r, i.past ((trivia i.chars).1 ++ taken) rest) := by
      rw [← past_past i _ taken (trivia i.chars).2]
      exact hlexeme
    have hshorter : (i.past ((trivia i.chars).1 ++ taken) rest).chars.length < i.chars.length := by
      have hnot : i.next.1.atEnd = false := by rw [hnext]; exact htakes.not_atEnd
      have hshorter := next_shorter hnot
      rwa [hnext] at hshorter
    obtain ⟨ps, last, hpulls⟩ := exists_pulls (i.past ((trivia i.chars).1 ++ taken) rest)
    exact ⟨_, last, .call hchars (isTrivia_trivia i.chars) htakes hnext hpulls⟩
termination_by i.chars.length

namespace Pulls

variable {i : Input} {ps : List Pull} {last : List Char}

/-- **Nothing is lost.**  What calls pass over and take, and the trivia before the end, is the
text. -/
theorem chars_eq (h : Pulls i ps last) : i.chars = pulledText ps ++ last := by
  induction h with
  | finish => rfl
  | @call i gap taken rest last r ps hchars _ _ _ _ ih =>
      have hrest : rest = pulledText ps ++ last := ih
      rw [hchars, pulledText_cons, hrest]
      simp only [List.append_assoc]

/-- Behind the last thing pulled stand trivia alone. -/
theorem isTrivia_last (h : Pulls i ps last) : IsTrivia last := by
  induction h with
  | finish ht => exact ht
  | call _ _ _ _ _ ih => exact ih

/-- Every call takes a byte of its own. -/
theorem length_le (h : Pulls i ps last) : ps.length ≤ byteLength i.chars := by
  induction h with
  | finish => exact Nat.zero_le _
  | @call i gap taken rest last r ps hchars _ htakes _ _ ih =>
      have hpos := byteLength_pos htakes.ne_nil
      have hrest : ps.length ≤ byteLength rest := ih
      rw [hchars, byteLength_append, byteLength_append, List.length_cons]
      omega

/-- After some of the calls the others are left, and what the former passed over and took lies
before. -/
theorem afterCalls (before : List Pull) : ∀ {i : Input} {after : List Pull},
    Pulls i (before ++ after) last →
      (i.afterCalls before.length).offset = i.offset + byteLength (pulledText before) ∧
      (i.afterCalls before.length).index = i.index + (pulledText before).length ∧
      Pulls (i.afterCalls before.length) after last := by
  induction before with
  | nil => exact fun h => ⟨rfl, rfl, h⟩
  | cons p before ih =>
      intro i after h
      cases h with
      | @call _ gap taken rest _ r _ _ _ _ hnext h =>
          obtain ⟨hoffset, hindex, hafter⟩ := ih h
          rw [List.length_cons, Input.afterCalls, hnext]
          refine ⟨?_, ?_, hafter⟩
          · rw [hoffset, pulledText_cons, ← List.append_assoc, byteLength_append, ← Nat.add_assoc]
            rfl
          · rw [hindex, pulledText_cons, ← List.append_assoc, List.length_append, ← Nat.add_assoc]
            rfl

/-- **At the end, calls yield the end for ever.** -/
theorem calls_finished {i : Input} (h : i.chars = []) (n : Nat) :
    i.calls n = List.replicate n (.eof i.offset) := by
  obtain ⟨offset, index, _⟩ := i
  obtain rfl := h
  have hnext : next ⟨offset, index, []⟩ = (.eof offset, ⟨offset, index, []⟩) :=
    next_of_isTrivia .nil
  induction n with
  | zero => rfl
  | succ n ih => rw [calls, hnext, ih, List.replicate_succ]

/-- Calls yield what they take, and then the end, however many there are. -/
theorem calls_eq (h : Pulls i ps last) (m : Nat) :
    ∀ n ≤ m, i.calls n = (ps.map Pull.result ++
      List.replicate m (Pulled.eof (i.offset + byteLength i.chars))).take n := by
  induction h with
  | @finish i ht =>
      intro n hn
      rw [List.map_nil, List.nil_append, List.take_replicate, Nat.min_eq_left hn]
      cases n with
      | zero => rfl
      | succ n =>
          rw [calls, next_of_isTrivia ht, calls_finished rfl n, List.replicate_succ]
          rfl
  | @call i gap taken rest last r ps hchars _ _ hnext _ ih =>
      intro n hn
      have hbytes : (i.past (gap ++ taken) rest).offset + byteLength rest =
          i.offset + byteLength i.chars := by
        rw [hchars, ← List.append_assoc, byteLength_append _ rest, ← Nat.add_assoc]
        rfl
      cases n with
      | zero => rfl
      | succ n =>
          have hmore := ih n (Nat.le_of_succ_le hn)
          rw [show (i.past (gap ++ taken) rest).chars = rest from rfl, hbytes] at hmore
          rw [calls, hnext, hmore]
          rfl

end Pulls

/-- **Reading makes progress, past every fault.**  The calls on a text take one stretch of it after
another, none of them empty, with trivia before each and behind the last and nothing else.  So there
are at most as many as the text has bytes; then every further call yields the end of the text, which
stands behind its last byte. -/
theorem calls_progress (s : String) :
    ∃ ps last, s.toList = pulledText ps ++ last ∧ IsTrivia last ∧
      (∀ before p after, ps = before ++ p :: after →
        IsTrivia p.gap ∧ p.taken ≠ [] ∧ p.result.atEnd = false ∧
        Takes (byteLength (pulledText before ++ p.gap)) (pulledText before ++ p.gap).length p.taken
          (pulledText after ++ last) p.result ∧
        ((ofString s).afterCalls before.length).chars = pulledText (p :: after) ++ last ∧
        ((ofString s).afterCalls before.length).next.1 = p.result ∧
        ((ofString s).afterCalls before.length).next.2.chars = pulledText after ++ last) ∧
      ps.length ≤ s.utf8ByteSize ∧
      ∀ n, (ofString s).calls n =
        (ps.map Pull.result ++ List.replicate n (Pulled.eof s.utf8ByteSize)).take n := by
  obtain ⟨ps, last, h⟩ := exists_pulls (ofString s)
  have hlength := h.length_le
  have hcalls := fun n => h.calls_eq n n (Nat.le_refl n)
  have hbytes : byteLength (ofString s).chars = s.utf8ByteSize := byteLength_toList s
  have hoffset : (ofString s).offset = 0 := rfl
  rw [hbytes] at hlength
  rw [hbytes, hoffset, Nat.zero_add] at hcalls
  refine ⟨ps, last, h.chars_eq, h.isTrivia_last, ?_, hlength, hcalls⟩
  rintro before p after rfl
  obtain ⟨hoffset, hindex, hafter⟩ := Pulls.afterCalls before h
  generalize (ofString s).afterCalls before.length = i at hoffset hindex hafter ⊢
  have hchars := hafter.chars_eq
  cases hafter with
  | @call _ gap taken rest _ r _ _ hgap htakes hnext hmore =>
      have hrest : rest = pulledText after ++ last := hmore.chars_eq
      rw [hoffset, hindex, hrest] at htakes
      rw [byteLength_append, List.length_append, hnext]
      refine ⟨hgap, htakes.ne_nil, htakes.not_atEnd, ?_, hchars, rfl, hrest⟩
      rwa [show (ofString s).offset = 0 from rfl, show (ofString s).index = 0 from rfl,
        Nat.zero_add, Nat.zero_add] at htakes

end Input

end MiniPascal
