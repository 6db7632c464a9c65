import MiniPascal.Proofs.Lexing.Scan

/-!
# Proofs — Lexing — Boundary

Places in a text that do not fall inside a character.  `IsBoundary` is validity of a byte position
in the sense of the library's strings, which is to say that the bytes before it are those of a run
of characters (`isBoundary_iff`).  `span.Covers s` says that a stretch is not empty and goes from
one boundary to another.  Main statement (`Input.sits_of_mem_results`): every token of a text covers
its characters or is the end of the text, and so does every lexical fault.
-/

namespace MiniPascal

/-- A character of the text begins at byte `n`, or the text ends there. -/
abbrev IsBoundary (s : String) (n : Nat) : Prop := String.Pos.Raw.IsValid s ⟨n⟩

/-- A boundary is where a text falls into two. -/
theorem isBoundary_iff {s : String} {n : Nat} :
    IsBoundary s n ↔ ∃ front back, s.toList = front ++ back ∧ byteLength front = n := by
  rw [IsBoundary, String.Pos.Raw.isValid_iff_exists_append]
  constructor
  · rintro ⟨front, back, rfl, hn⟩
    refine ⟨front.toList, back.toList, String.toList_append, ?_⟩
    rw [byteLength_toList]
    exact (congrArg String.Pos.Raw.byteIdx hn).symm
  · rintro ⟨front, back, hs, rfl⟩
    refine ⟨.ofList front, .ofList back, ?_, ?_⟩
    · rw [← String.ofList_append, ← hs, String.ofList_toList]
    · have hfront := byteLength_toList (.ofList front)
      rw [String.toList_ofList] at hfront
      rw [hfront]
      rfl

/-- The text ends at a boundary. -/
theorem isBoundary_utf8ByteSize (s : String) : IsBoundary s s.utf8ByteSize :=
  isBoundary_iff.2 ⟨s.toList, [], (List.append_nil _).symm, byteLength_toList s⟩

/-- No boundary lies behind the text. -/
theorem IsBoundary.le {s : String} {n : Nat} (h : IsBoundary s n) : n ≤ s.utf8ByteSize := by
  obtain ⟨front, back, hs, rfl⟩ := isBoundary_iff.1 h
  rw [← byteLength_toList, hs, byteLength_append]
  exact Nat.le_add_right _ _

/-! ### Stretches -/

/-- A stretch of at least one byte from one boundary of the text to another. -/
structure Span.Covers (span : Span) (s : String) : Prop where
  pos    : 1 ≤ span.len
  starts : IsBoundary s span.offset
  stops  : IsBoundary s span.stop

/-- Characters that stand somewhere in a text are covered there. -/
theorem Span.covers_of_append {s : String} {front word back : List Char}
    (hs : s.toList = front ++ (word ++ back)) (hword : word ≠ []) :
    Span.Covers ⟨byteLength front, byteLength word⟩ s where
  pos    := by
    obtain ⟨c, cs, rfl⟩ := List.exists_cons_of_ne_nil hword
    exact Nat.le_trans c.utf8Size_pos (Nat.le_add_right _ _)
  starts := isBoundary_iff.2 ⟨front, word ++ back, hs, rfl⟩
  stops  := isBoundary_iff.2
    ⟨front ++ word, back, by rw [hs, List.append_assoc], byteLength_append front word⟩

/-- From one stretch to another is a stretch again, in whichever order they stand. -/
theorem Span.Covers.through {s : String} {a b : Span} (ha : a.Covers s) (hb : b.Covers s) :
    (a.through b).Covers s where
  pos    := by
    have hpos := ha.pos
    simp only [Span.through, Span.stop]
    omega
  starts := ha.starts
  stops  := by
    rcases Span.stop_through_eq_or a b with h | h
    · rw [h]
      exact ha.stops
    · rw [h]
      exact hb.stops

/-! ### Results of an input -/

/-- A token covers characters of the text or is its end.  So does a fault, and one that blames a
character stands at that character, which it counts and measures. -/
def Pulled.Sits (s : String) : Pulled → Prop
  | .ok t    => t.span.Covers s ∨ t = .eof s.utf8ByteSize
  | .error e => e.span.Covers s ∧ ∀ c position, e.cause = .invalidCharacter c position →
      ∃ front back, s.toList = front ++ c :: back ∧ front.length = position ∧
        e.span = ⟨byteLength front, c.utf8Size⟩

namespace Input

/-- The input has come to some place in the text, and counts what lies before it. -/
def IsOn (s : String) (i : Input) : Prop :=
  ∃ front, s.toList = front ++ i.chars ∧ i.offset = byteLength front ∧ i.index = front.length

variable {s : String} {i : Input}

theorem isOn_ofString (s : String) : (ofString s).IsOn s := ⟨[], rfl, rfl, rfl⟩

/-- Reading on keeps to the text. -/
theorem IsOn.past (h : i.IsOn s) {read rest : List Char} (hchars : i.chars = read ++ rest) :
    (i.past read rest).IsOn s := by
  obtain ⟨front, hs, hoffset, hindex⟩ := h
  refine ⟨front ++ read, ?_, ?_, ?_⟩
  · rw [hs, hchars, List.append_assoc]
    rfl
  · rw [byteLength_append, ← hoffset]
    rfl
  · rw [List.length_append, ← hindex]
    rfl

/-- Characters ahead of an input are covered where they stand. -/
theorem IsOn.covers (h : i.IsOn s) {word rest : List Char} (hchars : i.chars = word ++ rest)
    (hword : word ≠ []) : Span.Covers ⟨i.offset, byteLength word⟩ s := by
  obtain ⟨front, hs, hoffset, -⟩ := h
  rw [hoffset]
  exact Span.covers_of_append (hchars ▸ hs) hword

theorem sits_token {kind : Token.Kind} {word : List Char}
    (h : Span.Covers ⟨i.offset, byteLength word⟩ s) : (i.token kind word).Sits s := by
  have hfault : Pulled.Sits s
      (.error ⟨.outOfRange (.ofList word), ⟨i.offset, byteLength word⟩⟩) := ⟨h, nofun⟩
  unfold token
  split
  · split
    · exact .inl h
    · exact hfault
  · split
    · exact .inl h
    · exact hfault
  · exact .inl h

/-- One step from a place in the text yields what sits there, and leads to another place. -/
theorem IsOn.nextLexeme (h : i.IsOn s) : i.nextLexeme.1.Sits s ∧ i.nextLexeme.2.IsOn s := by
  unfold Input.nextLexeme
  split
  · next hchars =>
      -- Nothing is left, so everything lies before.
      refine ⟨.inr ?_, h⟩
      obtain ⟨front, hs, hoffset, -⟩ := h
      rw [hoffset, ← byteLength_toList, hs, hchars, List.append_nil]
  · next rest hchars =>
      have hbrace : i.chars = ['{'] ++ rest := hchars
      exact ⟨⟨h.covers hbrace (List.cons_ne_nil _ _), nofun⟩,
        h.past (List.append_nil _).symm⟩
  · next c rest _ hchars =>
      split
      · next kind word rest' hl =>
          have hcut := (lexeme?_append hl).symm
          exact ⟨sits_token (h.covers hcut (lexeme?_ne_nil hl)), h.past hcut⟩
      · have hcharacter : i.chars = [c] ++ rest := hchars
        refine ⟨⟨h.covers hcharacter (List.cons_ne_nil _ _), ?_⟩, h.past hcharacter⟩
        rintro _ _ ⟨⟩
        obtain ⟨front, hs, hoffset, hindex⟩ := h
        exact ⟨front, rest, hchars ▸ hs, hindex.symm, by rw [hoffset]⟩

/-- What a call yields sits in the text, and so does the place it leads to. -/
theorem IsOn.next (h : i.IsOn s) : i.next.1.Sits s ∧ i.next.2.IsOn s :=
  (h.past (trivia_append i.chars).symm).nextLexeme

theorem sits_results (i : Input) (h : i.IsOn s) : ∀ r ∈ i.results, r.Sits s := by
  obtain ⟨hsits, hnext⟩ := h.next
  cases hend : i.next.1.atEnd with
  | true =>
      rw [results_of_atEnd hend]
      exact List.forall_mem_singleton.2 hsits
  | false =>
      have hshorter := next_shorter hend
      rw [results_of_not_atEnd hend]
      exact List.forall_mem_cons.2 ⟨hsits, sits_results i.next.2 hnext⟩
termination_by i.chars.length

/-- **All results of a text sit in it.** -/
theorem sits_of_mem_results {r : Pulled} (h : r ∈ (ofString s).results) : r.Sits s :=
  sits_results _ (isOn_ofString s) r h

end Input

end MiniPascal
