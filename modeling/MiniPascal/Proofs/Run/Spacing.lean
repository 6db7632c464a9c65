import MiniPascal.Proofs.Lexing.Lossless
import MiniPascal.Proofs.Reading.Blind
import MiniPascal.Proofs.Run.Blind

/-!
# Proofs — Run — Spacing

Blanks and comments between lexemes mean nothing.  The lexemes of a scanned text, written down
again with other trivia between them, are scanned to the same tokens up to places
(`LaysOut.exists_respaced`): each is still spelled as its kind says, and ends where the trivia
begins.  Everything behind the scan is blind to places, so the two texts run alike
(`respaced_run_told`).
-/

namespace MiniPascal

/-- Well-spelled tokens with trivia behind each of them are laid out as themselves up to places. -/
theorem LaysOut.exists_respaced {parts : List (Token × List Char)}
    (hspelled : ∀ part ∈ parts, part.1.WellSpelled)
    (hgaps : ∀ part ∈ parts, IsTrivia part.2 ∧ part.2 ≠ []) :
    ∀ offset, ∃ us, LaysOut offset (interleave [] parts)
        (us ++ [.eof (offset + byteLength (interleave [] parts))]) ∧
      us.map Token.bare = parts.map fun part => part.1.bare := by
  induction parts with
  | nil => exact fun offset => ⟨[], .finish, rfl⟩
  | cons part parts ih =>
      intro offset
      obtain ⟨t, gap⟩ := part
      obtain ⟨hspells, hrange⟩ := hspelled (t, gap) (.head _)
      obtain ⟨hgap, hne⟩ := hgaps (t, gap) (.head _)
      obtain ⟨us, hus, hbare⟩ := ih (fun part hpart => hspelled part (.tail _ hpart))
        (fun part hpart => hgaps part (.tail _ hpart))
        (offset + byteLength t.lexeme.toList + byteLength gap)
      have htext : interleave [] ((t, gap) :: parts) =
          t.lexeme.toList ++ (gap ++ interleave [] parts) := by
        simp [interleave]
      refine ⟨⟨t.kind, t.lexeme, ⟨offset, byteLength t.lexeme.toList⟩⟩ :: us, ?_, ?_⟩
      · have hlexeme := LaysOut.lexeme hspells hrange (endsAt_of_isTrivia hgap hne t.kind _)
          (.skip hgap hus)
        rw [htext, byteLength_append, byteLength_append, ← Nat.add_assoc, ← Nat.add_assoc]
        rwa [String.ofList_toList] at hlexeme
      · rw [List.map_cons, List.map_cons, hbare]
        rfl

/-! ### Faults and trees up to places -/

/-- What is told of a fault of reading does not depend on the place of the token it names. -/
theorem Located.told_reading (e : Located ReadingFault) :
    (e.map Fault.reading).told = Located.told ⟨.reading e.cause.bare, .none⟩ := by
  obtain ⟨cause | cause, span⟩ := e
  · rfl
  · have htext := cause.text_bare
    simp only [told, map, report, readingReport, ReadingFault.bare, Report.message, htext]

/-- Texts that are read alike up to places run alike. -/
theorem Run.told_ofSource {s s' : String}
    (h : ((Program.read s').map Program.bare).mapError (·.cause.bare) =
      ((Program.read s).map Program.bare).mapError (·.cause.bare)) :
    (Run.ofSource s').told = (Run.ofSource s).told := by
  unfold Run.ofSource
  cases hs : Program.read s <;> cases hs' : Program.read s' <;> rw [hs, hs'] at h
  · next e f =>
      have hcause : f.cause.bare = e.cause.bare := Except.error.inj h
      have htold : (f.map Fault.reading).told = (e.map Fault.reading).told := by
        rw [Located.told_reading, Located.told_reading, hcause]
      exact congrArg (fun told => (([] : List Event), Except.error told)) htold
  · cases h
  · cases h
  · next p q =>
      have hbare : q.bare = p.bare := Except.ok.inj h
      show (Run.ofProgram q).told = (Run.ofProgram p).told
      rw [Run.ofProgram_bare, hbare, ← Run.ofProgram_bare]

/-- **Blanks and comments do not change what a program means.**  Let `s` be scanned, and let `s'` be
its lexemes in order with trivia before the first and some trivia behind each.  Then `s'` is scanned
to the same kinds and lexemes, and `s'` and `s` run alike: they write the same journal, and both
leave the same symbols and the same store or both end in a fault of one category and message. -/
theorem respaced_run_told {s s' : String} {n : Nat} {front : List Char}
    {parts : List (Token × List Char)} (hs : scan s = .ok (parts.map (·.1) ++ [.eof n]))
    (hfront : IsTrivia front) (hgaps : ∀ part ∈ parts, IsTrivia part.2 ∧ part.2 ≠ [])
    (hs' : s'.toList = interleave front parts) :
    (∃ us, scan s' = .ok (us ++ [.eof s'.utf8ByteSize]) ∧
      us.map (fun t => (t.kind, t.lexeme)) = parts.map fun part => (part.1.kind, part.1.lexeme)) ∧
    (Run.ofSource s').told = (Run.ofSource s).told := by
  have hspelled := wellSpelled_before_eof hs
  have htext : s'.toList = front ++ interleave [] parts := by rw [hs']; rfl
  obtain ⟨us, hus, hbare⟩ := LaysOut.exists_respaced
    (fun part hpart => hspelled part.1 (List.mem_map_of_mem hpart)) hgaps (0 + byteLength front)
  have hscan : scan s' = .ok (us ++ [.eof s'.utf8ByteSize]) := by
    have hlaid := LaysOut.skip hfront hus
    rw [Nat.add_assoc, Nat.zero_add, ← byteLength_append, ← htext, byteLength_toList] at hlaid
    exact scan_eq_ok_iff.2 hlaid
  refine ⟨⟨us, hscan, ?_⟩, Run.told_ofSource ?_⟩
  · have hpairs := congrArg (List.map fun t : Token => (t.kind, t.lexeme)) hbare
    rwa [List.map_map, List.map_map] at hpairs
  · refine Program.ofResults_blind ?_
    rw [results_of_scan hscan, results_of_scan hs]
    have hok := congrArg (List.map fun t : Token => (.ok t : Pulled)) hbare
    simp only [List.map_append, List.map_map] at hok ⊢
    exact congrArg (· ++ [_]) hok

/-- The lexemes of `PROGRAM t;BEGIN a:=1 END.` with other trivia behind them. -/
def respacedExample : List (Token × List Char) :=
  [(⟨.programWord, "PROGRAM", ⟨0, 7⟩⟩, "{t}".toList), (⟨.identifier, "t", ⟨8, 1⟩⟩, " ".toList),
   (⟨.semicolon, ";", ⟨9, 1⟩⟩, "\n".toList), (⟨.beginWord, "BEGIN", ⟨10, 5⟩⟩, "{}".toList),
   (⟨.identifier, "a", ⟨16, 1⟩⟩, " ".toList), (⟨.assign, ":=", ⟨17, 2⟩⟩, " ".toList),
   (⟨.integerConst, "1", ⟨19, 1⟩⟩, "{:=}".toList), (⟨.endWord, "END", ⟨21, 3⟩⟩, "\t".toList),
   (⟨.dot, ".", ⟨24, 1⟩⟩, " ".toList)]

theorem respaced_run_told_example :
    scan "PROGRAM t;BEGIN a:=1 END." = .ok (respacedExample.map (·.1) ++ [.eof 25]) ∧
      (∃ us, scan " PROGRAM{t}t ;\nBEGIN{}a := 1{:=}END\t. " = .ok (us ++ [.eof 38]) ∧
        us.map (fun t => (t.kind, t.lexeme)) =
          respacedExample.map fun part => (part.1.kind, part.1.lexeme)) ∧
      (Run.ofSource " PROGRAM{t}t ;\nBEGIN{}a := 1{:=}END\t. ").told =
        (Run.ofSource "PROGRAM t;BEGIN a:=1 END.").told := by
  have hs : scan "PROGRAM t;BEGIN a:=1 END." = .ok (respacedExample.map (·.1) ++ [.eof 25]) := by
    decide +kernel
  have hfront : IsTrivia [' '] := by decide
  have hgaps : ∀ part ∈ respacedExample, IsTrivia part.2 ∧ part.2 ≠ [] := by decide
  have hs' : " PROGRAM{t}t ;\nBEGIN{}a := 1{:=}END\t. ".toList =
      interleave [' '] respacedExample := by
    decide
  exact ⟨hs, respaced_run_told hs hfront hgaps hs'⟩

end MiniPascal
