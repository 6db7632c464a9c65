import MiniPascal.Proofs.Reading.Complete
import MiniPascal.Proofs.Reading.Sound
import MiniPascal.Report

/-!
# Proofs — Reading — Exact

Reading a text is deriving its tokens.  A text is read as a program exactly when it is scanned, its
tokens before the end derive the program, and the derivation keeps the two limits; a derivation that
keeps them is the only one of its tokens, and one that does not is the fault that the nesting is too
deep (`read_exact`).
-/

namespace MiniPascal

open Reader

/-- From the first of some lexemes there is a path to the end behind them. -/
theorem Cursor.exists_path {w : List Token} (hw : ∀ t ∈ w, t.WellSpelled) (n : Nat) :
    ∀ previous : Span, ∃ (t : Token) (rest : List Pulled) (d : Cursor),
      (w ++ [Token.eof n]).map .ok = .ok t :: rest ∧ Path ⟨t, rest, previous⟩ w d ∧
        d.current.kind = .eof := by
  induction w with
  | nil => exact fun previous => ⟨.eof n, [], ⟨.eof n, [], previous⟩, rfl, .here .finish, rfl⟩
  | cons t w ih =>
      intro previous
      obtain ⟨u, rest, d, hlist, hpath, hd⟩ := ih (fun t ht => hw t (.tail _ ht)) t.span
      refine ⟨t, .ok u :: rest, d, ?_, .step (hw t (.head _)) hpath, hd⟩
      rw [List.cons_append, List.map_cons, hlist]

/-- A cursor that looks at the end has nothing behind it. -/
theorem Cursor.OnStream.at_eof {c : Cursor} (hc : c.OnStream) (hk : c.current.kind = .eof) :
    ∃ n, c.current = .eof n ∧ c.rest = [] := by
  obtain ⟨t, rest, p⟩ := c
  cases hc with
  | @finish n => exact ⟨n, rfl, rfl⟩
  | token ht _ => exact absurd hk ht.kind_ne_eof

namespace Program

variable {s : String} {w : List Token} {n depth : Nat} {p : Program}

/-- A text that is read is scanned, and its tokens before the end derive what is read. -/
theorem exists_of_read (h : read s = .ok p) :
    ∃ w n depth, scan s = .ok (w ++ [.eof n]) ∧ IsProgram w p depth ∧
      Fits nestingLimit depth p.values := by
  have hstream := (Input.ofString s).isStream_results
  unfold read ofResults at h
  split at h
  · next t rest hresults =>
      have hc : Cursor.OnStream ⟨t, rest, ⟨0, 0⟩⟩ := by
        rwa [hresults] at hstream
      split at h
      · next q d hread =>
          cases h
          obtain ⟨hk, w, hpath, depth, hderives, hfits⟩ := wholeProgram_reads hc hread
          obtain ⟨n, hend, hrest⟩ := hpath.onStream.at_eof hk
          refine ⟨w, n, depth, allOk_eq_ok_iff.2 ?_, hderives, hfits⟩
          have hahead := hpath.ahead_eq
          rw [hend, hrest, ← hresults] at hahead
          rw [hahead, List.map_append]
          rfl
      · cases h
  · cases h
  · cases h

/-- Well-spelled tokens are read as what they derive, if it keeps the limits. -/
theorem ofResults_of_isProgram (hw : ∀ t ∈ w, t.WellSpelled) (n : Nat) (h : IsProgram w p depth) :
    (Fits nestingLimit depth p.values → ofResults ((w ++ [Token.eof n]).map .ok) = .ok p) ∧
      (¬ Fits nestingLimit depth p.values →
        ∃ span, ofResults ((w ++ [Token.eof n]).map .ok) =
          .error ⟨.grammar .tooDeep, span⟩) := by
  obtain ⟨t, rest, d, hlist, hpath, hd⟩ := Cursor.exists_path hw n ⟨0, 0⟩
  obtain ⟨hfits, hdeep⟩ := wholeProgram_settles h hpath hd
  rw [hlist, ofResults]
  constructor
  · intro hf
    rw [hfits hf]
  · intro hf
    have htooDeep := hdeep hf
    cases hm : wholeProgram ⟨t, rest, ⟨0, 0⟩⟩ with
    | ok q e =>
        rw [hm] at htooDeep
        exact htooDeep.elim
    | error f e =>
        rw [hm] at htooDeep
        obtain ⟨cause, span⟩ := f
        obtain rfl : cause = .grammar .tooDeep := htooDeep
        exact ⟨span, rfl⟩

/-- The tokens of a text are read as what they derive, if it keeps the limits. -/
theorem read_of_isProgram (hs : scan s = .ok (w ++ [.eof n])) (h : IsProgram w p depth) :
    (Fits nestingLimit depth p.values → read s = .ok p) ∧
      (¬ Fits nestingLimit depth p.values → ∃ span, read s = .error ⟨.grammar .tooDeep, span⟩) := by
  rw [read, results_of_scan hs]
  exact ofResults_of_isProgram (wellSpelled_before_eof hs) n h

/-- The wording of the fault that a limit is exceeded. -/
theorem tooDeep_text : GrammarFault.tooDeep.text = "nesting too deep: more than 128 levels" := by
  decide

/-- **Reading accepts the grammar within its limits, and yields its tree.**  A text is read as `p`
exactly when it is scanned and its tokens before the end derive `p`, with at most 128 constructs
open at any point and no assigned expression higher than 128.  No other tree is then derived.  A
text whose tokens derive a program that exceeds a limit ends in the fault that says so. -/
theorem read_exact (s : String) :
    (∀ p, read s = .ok p ↔
      ∃ w n depth, scan s = .ok (w ++ [.eof n]) ∧ IsProgram w p depth ∧
        depth ≤ nestingLimit ∧ (∀ e ∈ p.values, e.height ≤ nestingLimit) ∧
        ∀ q depth', IsProgram w q depth' → q = p) ∧
    ∀ w n p depth, scan s = .ok (w ++ [.eof n]) → IsProgram w p depth →
      ¬ (depth ≤ nestingLimit ∧ ∀ e ∈ p.values, e.height ≤ nestingLimit) →
        ∃ e, read s = .error e ∧ e.readingReport.category = .grammar ∧
          e.readingReport.text = "nesting too deep: more than 128 levels" := by
  refine ⟨fun p => ⟨fun h => ?_, ?_⟩, ?_⟩
  · obtain ⟨w, n, depth, hs, hp, hdepth, hheight⟩ := exists_of_read h
    refine ⟨w, n, depth, hs, hp, hdepth, hheight, fun q depth' hq => ?_⟩
    -- Another derivation of the same tokens would be read as its own tree, or as the fault.
    by_cases hfits : Fits nestingLimit depth' q.values
    · have hread := (read_of_isProgram hs hq).1 hfits
      rw [h] at hread
      exact (Except.ok.inj hread).symm
    · obtain ⟨span, hread⟩ := (read_of_isProgram hs hq).2 hfits
      rw [h] at hread
      cases hread
  · rintro ⟨w, n, depth, hs, hp, hdepth, hheight, -⟩
    exact (read_of_isProgram hs hp).1 ⟨hdepth, hheight⟩
  · intro w n p depth hs hp hexceeds
    obtain ⟨span, hread⟩ := (read_of_isProgram hs hp).2 hexceeds
    exact ⟨_, hread, rfl, tooDeep_text⟩

end Program

end MiniPascal
