import MiniPascal.Proofs.Lexing.Scan
import MiniPascal.Report

/-!
# Proofs — Report

What a report lets its reader know.  The line that a report names is found by the line ends in front
of the place that it blames, and there is one for every place at a character
(`Report.lineNumber?_of_append`).  The wording of a lexical fault tells its whole cause
(`LexicalFault.text_injective`), and the report of a fault of a run tells the fault
(`Located.runtimeReport_injective`).
-/

namespace MiniPascal

/-! ### Reports of faults -/

namespace Located

theorem span_runtimeReport (f : Located RuntimeFault) : f.runtimeReport.span = f.span := by
  obtain ⟨cause | cause, span⟩ := f <;> rfl

/-- A fault of a run is reported as one. -/
theorem atRuntime_runtimeReport (f : Located RuntimeFault) :
    f.runtimeReport.category.atRuntime = true := by
  obtain ⟨cause | cause, span⟩ := f <;> rfl

theorem atRuntime_readingReport (f : Located ReadingFault) :
    f.readingReport.category.atRuntime = false := by
  obtain ⟨cause | cause, span⟩ := f <;> rfl

end Located

/-! ### Lines -/

namespace Report

/-- The line is counted by the line ends in front of the place. -/
theorem lineFrom?_append (front back : List Char) : ∀ line,
    lineFrom? line (byteLength front) (front ++ back) = some (line + front.count '\n') := by
  induction front with
  | nil =>
      intro line
      rw [byteLength_nil, lineFrom?]
      rfl
  | cons c cs ih =>
      intro line
      obtain ⟨n, hn⟩ : ∃ n, c.utf8Size + byteLength cs = n + 1 :=
        Nat.exists_eq_succ_of_ne_zero (by have := c.utf8Size_pos; omega)
      have hle : c.utf8Size ≤ n + 1 := hn ▸ Nat.le_add_right _ _
      have hrest : n + 1 - c.utf8Size = byteLength cs := by omega
      rw [byteLength_cons, List.cons_append, hn, lineFrom?, if_pos hle, hrest, ih]
      by_cases hc : c = '\n'
      · rw [if_pos hc, hc, List.count_cons_self, Nat.add_right_comm, Nat.add_assoc]
      · rw [if_neg hc, List.count_cons_of_ne hc]

/-- The line of a character is one more than the line ends in front of it. -/
theorem lineNumber?_of_append {source : String} {front back : List Char}
    (h : source.toList = front ++ back) :
    lineNumber? source (byteLength front) = some (1 + front.count '\n') := by
  rw [lineNumber?, h, lineFrom?_append]

end Report

/-! ### Wordings -/

theorem natText_injective : Function.Injective natText := by
  intro m n h
  have hdigits : digitsOf m = digitsOf n := by
    simpa only [natText, String.toList_ofList] using congrArg String.toList h
  rw [← numeral_digitsOf m, hdigits, numeral_digitsOf]

namespace LexicalFault

theorem toList_invalidCharacter (c : Char) (p : Nat) : (invalidCharacter c p).text.toList =
    "invalid character '".toList ++ c :: ("' at position ".toList ++ (natText p).toList) := by
  unfold text
  rw [String.toList_append, String.toList_append, String.toList_append, List.append_assoc,
    List.append_assoc, Char.toString_eq_singleton, String.toList_singleton, List.singleton_append]

theorem toList_outOfRange (literal : String) : (outOfRange literal).text.toList =
    "numeric literal '".toList ++ (literal.toList ++ "' is out of range".toList) := by
  unfold text
  rw [String.toList_append, String.toList_append, List.append_assoc]

/-- The first character of a wording, by which the three kinds of faults are told apart. -/
theorem head?_text (fault : LexicalFault) :
    fault.text.toList.head? = match fault with
      | .invalidCharacter _ _ => some 'i'
      | .outOfRange _         => some 'n'
      | .unterminatedComment  => some 'u' := by
  cases fault with
  | invalidCharacter c p => rw [toList_invalidCharacter]; rfl
  | outOfRange literal => rw [toList_outOfRange]; rfl
  | unterminatedComment => rfl

/-- **The wording of a lexical fault tells all of it.** -/
theorem text_injective : Function.Injective text := by
  intro fault other h
  have hhead := congrArg (·.toList.head?) h
  have hchars := congrArg String.toList h
  simp only [head?_text] at hhead
  cases fault <;> cases other
  case invalidCharacter.invalidCharacter c p c' p' =>
      rw [toList_invalidCharacter, toList_invalidCharacter] at hchars
      obtain ⟨rfl, hposition⟩ := List.cons.inj (List.append_cancel_left hchars)
      rw [natText_injective (String.toList_inj.1 (List.append_cancel_left hposition))]
  case outOfRange.outOfRange literal literal' =>
      rw [toList_outOfRange, toList_outOfRange] at hchars
      have hliteral := List.append_cancel_right (List.append_cancel_left hchars)
      rw [String.toList_inj.1 hliteral]
  case unterminatedComment.unterminatedComment => rfl
  all_goals cases hhead

end LexicalFault

/-- Arithmetic faults are told apart by their texts. -/
theorem ArithmeticFault.text_injective : Function.Injective ArithmeticFault.text := by
  intro cause other h
  cases cause <;> cases other <;> first | rfl | exact absurd h (by decide)

/-- **The report of a fault of a run tells all of it.** -/
theorem Located.runtimeReport_injective : Function.Injective Located.runtimeReport := by
  rintro ⟨cause | name, span⟩ ⟨other | name', span'⟩ h
  · obtain ⟨-, htext, rfl⟩ := Report.mk.inj h
    rw [ArithmeticFault.text_injective htext]
  · cases h
  · cases h
  · cases h
    rfl

end MiniPascal
