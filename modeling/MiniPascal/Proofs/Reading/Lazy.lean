import MiniPascal.Proofs.Lexing.Places
import MiniPascal.Proofs.Reading.Exact
import MiniPascal.Proofs.Reading.Recognize

/-!
# Proofs — Reading — Lazy

A program is read from results that are pulled one at a time.  `Program.readFrom` also tells which
results were left; those that were pulled decide what is read, whatever follows them
(`Program.exists_pulled`).  A fault is found at the last token that was pulled, or is itself the
last result pulled (`Stops`).  So reading and scanning a text tell the same story
(`Program.read_lazy`): the same first lexical fault, unless the grammar is at fault before it.
-/

namespace MiniPascal

open Reader

/-- Nothing stands behind the end of an input. -/
theorem IsStream.eq_nil_of_atEnd {rs : List Pulled} (h : IsStream rs) :
    ∀ before r after, rs = before ++ r :: after → r.atEnd = true → after = [] := by
  induction h with
  | @finish n =>
      rintro (_ | ⟨_, before⟩) r after hrs -
      · exact (List.cons.inj hrs).2.symm
      · cases before <;> cases (List.cons.inj hrs).2
  | @token t rs ht _ ih =>
      rintro (_ | ⟨_, before⟩) r after hrs hend
      · obtain ⟨rfl, -⟩ := List.cons.inj hrs
        exact absurd (beq_iff_eq.1 hend) ht.kind_ne_eof
      · exact ih before r after (List.cons.inj hrs).2 hend
  | fault _ ih =>
      rintro (_ | ⟨_, before⟩) r after hrs hend
      · obtain ⟨rfl, -⟩ := List.cons.inj hrs
        cases hend
      · exact ih before r after (List.cons.inj hrs).2 hend

namespace Program

/-- The program that the results of an input form, or the first fault, and the results that are left
when that is known. -/
def readFrom : List Pulled → Except (Located ReadingFault) Program × List Pulled
  | .ok t :: rest    =>
      match wholeProgram ⟨t, rest, ⟨0, 0⟩⟩ with
      | .ok p d    => (.ok p, d.rest)
      | .error e d => (.error e, d.rest)
  | .error e :: rest => (.error (e.map .lexical), rest)
  | []               => (ofResults [], [])

theorem readFrom_fst : ∀ rs, (readFrom rs).1 = ofResults rs
  | .ok t :: rest    => by
      simp only [readFrom, ofResults]
      cases wholeProgram ⟨t, rest, ⟨0, 0⟩⟩ <;> rfl
  | .error _ :: _    => rfl
  | []               => rfl

variable {rs after : List Pulled} {f : Located ReadingFault}

/-! ### What is pulled -/

/-- **Reading is decided by the results that it pulls.**  Whatever follows them is left, and does
not matter. -/
theorem exists_pulled (h : IsStream rs) :
    ∃ pulled, rs = pulled ++ (readFrom rs).2 ∧
      ∀ more, readFrom (pulled ++ more) = (ofResults rs, more) := by
  match rs, h with
  | .error e :: rest, _ => exact ⟨[.error e], rfl, fun _ => rfl⟩
  | .ok t :: rest,    h =>
      obtain ⟨pulled, hpulled, hdraws⟩ := (wholeProgram_recognizes ⟨t, rest, ⟨0, 0⟩⟩ h).draws
      have hread : ∀ more, wholeProgram ⟨t, pulled ++ more, ⟨0, 0⟩⟩ =
          leaving more (wholeProgram ⟨t, rest, ⟨0, 0⟩⟩) := hdraws
      refine ⟨.ok t :: pulled, ?_, fun more => ?_⟩
      · simp only [readFrom]
        cases hm : wholeProgram ⟨t, rest, ⟨0, 0⟩⟩ <;> rw [hm] at hpulled <;>
          exact congrArg _ hpulled
      · simp only [List.cons_append, readFrom, ofResults, hread]
        cases wholeProgram ⟨t, rest, ⟨0, 0⟩⟩ <;> rfl

/-! ### Where reading stops -/

/-- How reading the results `rs` stops with a fault and `after` left: the grammar is at fault at the
last token pulled, or the last result pulled is a lexical fault.  In either case the tokens before
begin a program. -/
inductive Stops (rs after : List Pulled) : Located ReadingFault → Prop where
  | grammar {before : List Token} {t : Token} {cause : GrammarFault}
      (hrs : rs = (before ++ [t]).map .ok ++ after) (hbegins : Begins (phrase IsProgram) before)
      (hcause : cause = .tooDeep ∨ ∃ what, cause = .expected what t) :
      Stops rs after ⟨.grammar cause, ⟨t.span.offset, max t.span.len 1⟩⟩
  | lexical {before : List Token} {fault : Located LexicalFault}
      (hrs : rs = before.map .ok ++ .error fault :: after)
      (hbegins : Begins (phrase IsProgram) before) : Stops rs after (fault.map .lexical)

/-- **A fault in reading is the last that is pulled**, or stands at it. -/
theorem stops (h : IsStream rs) (hf : ofResults rs = .error f) : Stops rs (readFrom rs).2 f := by
  match rs, h with
  | .error e :: rest, _ =>
      cases hf
      exact .lexical (List.nil_append _).symm begins_nil
  | .ok t :: rest,    h =>
      simp only [ofResults] at hf
      simp only [readFrom]
      cases hm : wholeProgram ⟨t, rest, ⟨0, 0⟩⟩ with
      | ok p d => rw [hm] at hf; cases hf
      | error g d =>
          rw [hm] at hf
          cases hf
          have hahead : ∀ {w e}, Cursor.Path ⟨t, rest, ⟨0, 0⟩⟩ w e →
              (.ok t :: rest : List Pulled) = (w ++ [e.current]).map .ok ++ e.rest := by
            intro w e hw
            rw [List.map_append, List.append_assoc]
            exact hw.ahead_eq
          cases (wholeProgram_recognizes ⟨t, rest, ⟨0, 0⟩⟩ h).halts hm with
          | here hw hbegins hcause => exact .grammar (hahead hw) hbegins hcause
          | lexical hw hrest hbegins => exact .lexical (hrest ▸ hahead hw) hbegins

/-! ### Reading and scanning -/

/-- A lexical fault in reading is what scanning fails with. -/
theorem scan_of_read_lexical {s : String} {fault : Located LexicalFault}
    (h : read s = .error (fault.map .lexical)) : scan s = .error fault := by
  have hstops := stops (Input.ofString s).isStream_results h
  generalize hf : fault.map ReadingFault.lexical = f at hstops
  cases hstops with
  | grammar => cases hf
  | @lexical before fault' hrs _ =>
      obtain rfl : fault = fault' := by
        obtain ⟨cause, span⟩ := fault
        obtain ⟨cause', span'⟩ := fault'
        cases hf
        rfl
      rw [scan, hrs, allOk_append_error]

/-- Where scanning fails, reading fails in the same way, or with the grammar at fault before. -/
theorem read_of_scan_error {s : String} {fault : Located LexicalFault}
    (h : scan s = .error fault) :
    ∃ f, read s = .error f ∧ (f = fault.map .lexical ∨
      f.readingReport.category = .grammar ∧ f.span.offset < fault.span.offset) := by
  cases hread : read s with
  | ok p =>
      obtain ⟨w, n, depth, hscan, -⟩ := exists_of_read hread
      rw [h] at hscan
      cases hscan
  | error f =>
      refine ⟨f, rfl, ?_⟩
      cases stops (Input.ofString s).isStream_results hread with
      | lexical hrs =>
          rw [scan, hrs, allOk_append_error] at h
          cases h
          exact .inl rfl
      | @grammar before t cause hrs =>
          refine .inr ⟨rfl, ?_⟩
          -- The fault is none of the tokens pulled, so it stands behind the last of them.
          have hmem := mem_of_allOk_eq_error h
          obtain ⟨hascending, -⟩ := (Input.ofString s).ascending_results
          rw [hrs] at hmem hascending
          obtain ⟨-, -, hbefore⟩ := List.pairwise_append.1 hascending
          have hafter := (List.mem_append.1 hmem).resolve_left (by simp)
          exact hbefore (.ok t) (by simp) _ hafter

/-- **Reading pulls its tokens lazily and tells what scanning tells.**  What it pulls is what so
many calls on a fresh input yield one after another, a prefix of all results; it decides what is
read whatever follows, and nothing is pulled behind the end.  What is read is scanned; a lexical
fault of reading is that of scanning; and where scanning fails, reading fails with the same fault or
with a grammatical one that stands before it. -/
theorem read_lazy (s : String) :
    (∃ pulled, pulled = (Input.ofString s).calls pulled.length ∧
      pulled <+: (Input.ofString s).results ∧
      (∀ before r after, pulled = before ++ r :: after → r.atEnd = true → after = []) ∧
      ∀ more, readFrom (pulled ++ more) = (read s, more)) ∧
    (∀ p, read s = .ok p → ∃ ts, scan s = .ok ts) ∧
    (∀ fault, read s = .error (fault.map .lexical) → scan s = .error fault) ∧
    ∀ fault, scan s = .error fault → ∃ f, read s = .error f ∧ (f = fault.map .lexical ∨
      f.readingReport.category = .grammar ∧ f.span.offset < fault.span.offset) := by
  refine ⟨?_, fun p h => ?_, fun _ h => scan_of_read_lexical h, fun _ h => read_of_scan_error h⟩
  · have hstream := (Input.ofString s).isStream_results
    obtain ⟨pulled, hpulled, hdraws⟩ := exists_pulled hstream
    have hprefix : pulled <+: (Input.ofString s).results := ⟨_, hpulled.symm⟩
    refine ⟨pulled, ?_, hprefix, fun before r after hbefore hend => ?_, hdraws⟩
    · rw [← Input.take_results _ _ hprefix.length_le]
      exact List.prefix_iff_eq_take.1 hprefix
    · rw [hbefore, List.append_assoc, List.cons_append] at hpulled
      exact (List.append_eq_nil_iff.1 (hstream.eq_nil_of_atEnd _ _ _ hpulled hend)).1
  · obtain ⟨w, n, depth, hscan, -⟩ := exists_of_read h
    exact ⟨_, hscan⟩

end Program

end MiniPascal
