import Mathlib.Data.Nat.Digits.Defs
import MiniPascal.Proofs.Lexing.Boundary
import MiniPascal.Proofs.Lexing.Progress
import MiniPascal.Proofs.Lexing.Slices
import MiniPascal.Proofs.Number.Words
import MiniPascal.Proofs.Reading.Viable
import MiniPascal.Proofs.Tree.Nodes

/-!
# Proofs — Reading — Integers

Integers in a text.  The value of a literal is asked for twice: the scanner only wants to know
whether there is one, and the reader puts it into the tree.  A run of digits, however long, is a
token exactly if it stands for a number up to `2⁶³ - 1` (`Input.next_integer`), and what stands in
the tree is that number (`Program.exists_integer`).  Main statement: the two agree, so the reader
never comes by a literal that is none (`Program.read_integers`).
-/

namespace MiniPascal

/-! ### The value of digits -/

/-- What a run of decimal digits is worth, the last of them being the units. -/
def decimalValue (digits : List Char) : Nat :=
  Nat.ofDigits 10 (digits.reverse.map fun c => c.toNat - '0'.toNat)

/-- Digits are worth the same from either end. -/
theorem numeral_eq_decimalValue (digits : List Char) : numeral digits = decimalValue digits := by
  induction digits using List.reverseRecOn with
  | nil => rfl
  | append_singleton digits c ih =>
      rw [decimalValue, List.reverse_append, List.reverse_singleton, List.singleton_append,
        List.map_cons, Nat.ofDigits_cons, numeral, Nat.ofDigitChars_append]
      rw [numeral, decimalValue] at ih
      rw [ih]
      simp [Nat.ofDigitChars, Nat.add_comm]

/-- Digits take one byte each. -/
theorem AllDigits.byteLength {digits : List Char} (h : AllDigits digits) :
    byteLength digits = digits.length := by
  induction digits with
  | nil => rfl
  | cons c cs ih =>
      have hdigit : c.val ≤ 57 := by
        have hc := h c (.head _)
        rw [Char.isDigit, Bool.and_eq_true, decide_eq_true_iff, decide_eq_true_iff] at hc
        exact hc.2
      have hsize : c.utf8Size = 1 :=
        Char.utf8Size_eq_one_iff.2 (UInt32.le_trans hdigit (by decide))
      rw [byteLength_cons, hsize, ih fun d hd => h d (.tail _ hd), List.length_cons, Nat.add_comm]

/-- An integer is in range if it is at most the greatest word. -/
theorem inRange_integerConst {digits : List Char} :
    Token.Kind.integerConst.InRange digits ↔ decimalValue digits ≤ 2 ^ 63 - 1 := by
  have hrange : (Number.ofLexeme? .integerConst digits).isSome = true ↔
      numeral digits < 0x8000000000000000 := by
    simp [Number.ofLexeme?, Number.ofDigits?]
  rw [numeral_eq_decimalValue] at hrange
  constructor
  · intro h
    have hlt := hrange.1 (h (.inl rfl))
    omega
  · intro h _
    exact hrange.2 (by omega)

/-- A literal that stands for an integer is a run of digits, and stands for what they are worth. -/
theorem Number.value_of_ofLexeme? {kind : Token.Kind} {word : List Char} {i : Int64}
    (h : Number.ofLexeme? kind word = some (.int i)) :
    kind = .integerConst ∧ i.toInt = decimalValue word := by
  unfold Number.ofLexeme? at h
  split at h
  · refine ⟨rfl, ?_⟩
    unfold Number.ofDigits? at h
    split at h
    · next hlt =>
        have hword : IsWord (numeral word) := ⟨by omega, by omega⟩
        obtain rfl := Number.int.inj (Option.some.inj h)
        rw [← Int64.ofInt_eq_ofNat, toInt_ofInt hword, numeral_eq_decimalValue]
    · cases h
  · simp only [Number.ofPointed?] at h
    split at h <;> cases h
  · cases h

/-! ### The wording of invalid literals -/

/-- Texts that begin with different letters are different. -/
theorem append_ne_append {front front' : String} (hfront : front ≠ "") (hfront' : front' ≠ "")
    (hhead : front.toList.head? ≠ front'.toList.head?) (back back' : String) :
    front ++ back ≠ front' ++ back' := by
  intro h
  have hheads := congrArg (fun t : String => t.toList.head?) h
  simp only [String.toList_append] at hheads
  rw [List.head?_append_of_ne_nil _ (mt String.toList_eq_nil_iff.1 hfront),
    List.head?_append_of_ne_nil _ (mt String.toList_eq_nil_iff.1 hfront')] at hheads
  exact hhead hheads

theorem GrammarFault.text_tooDeep :
    tooDeep.text = "nesting too deep: more than " ++ natText nestingLimit ++ " levels" := rfl

/-- No other fault has the wording of an invalid literal: each begins with another letter. -/
theorem GrammarFault.eq_of_text {cause : GrammarFault} {literal : String}
    (h : cause.text = "invalid numeric literal '" ++ literal ++ "'") :
    ∃ literal', cause = .invalidLiteral literal' := by
  rw [String.append_assoc] at h
  cases cause with
  | expected what found =>
      rw [text_expected, String.append_assoc, String.append_assoc, String.append_assoc] at h
      exact absurd h (append_ne_append (by decide) (by decide) (by decide) _ _)
  | tooDeep =>
      rw [text_tooDeep, String.append_assoc] at h
      exact absurd h (append_ne_append (by decide) (by decide) (by decide) _ _)
  | invalidLiteral literal' => exact ⟨literal', rfl⟩

/-! ### Integers in a text -/

namespace Input

/-- The next thing of an input is a run of digits.  Behind the trivia in front of it stand `digits`,
at least one of them, and then `rest`, which neither goes on with a digit nor has the point that
would make it a real. -/
structure StartsOn (i : Input) (digits rest : List Char) : Prop where
  ahead    : ∃ gap, IsTrivia gap ∧ i.chars = gap ++ (digits ++ rest)
  nonempty : digits ≠ []
  digits   : AllDigits digits
  maximal  : ∀ c ∈ rest.head?, c.isDigit = false ∧ c ≠ '.'

/-- Wherever calls have come to, it is a place in the text. -/
theorem IsOn.afterCalls {s : String} (n : Nat) :
    ∀ {i : Input}, i.IsOn s → (i.afterCalls n).IsOn s := by
  induction n with
  | zero => exact fun h => h
  | succ n ih => exact fun h => ih h.next.2

/-- **A run of digits is taken whole**, as a token if it is worth at most `2⁶³ - 1` and as a fault
otherwise. -/
theorem next_integer {s : String} {i : Input} {digits rest : List Char} (hi : i.IsOn s)
    (h : i.StartsOn digits rest) :
    ∃ front, s.toList = front ++ (digits ++ rest) ∧ i.next.2.chars = rest ∧
      i.next.1 =
        if decimalValue digits ≤ 2 ^ 63 - 1 then
          .ok ⟨.integerConst, .ofList digits, ⟨byteLength front, digits.length⟩⟩
        else .error ⟨.outOfRange (.ofList digits), ⟨byteLength front, digits.length⟩⟩ := by
  obtain ⟨gap, hgap, hahead⟩ := h.ahead
  obtain ⟨front, hs, hoffset, -⟩ := hi
  obtain ⟨offset, index, chars⟩ := i
  obtain rfl : chars = gap ++ (digits ++ rest) := hahead
  obtain rfl : offset = byteLength front := hoffset
  have hspells : Token.Kind.integerConst.Spells digits := ⟨h.nonempty, h.digits⟩
  have hends : Token.Kind.integerConst.EndsAt rest := by
    intro c hc
    obtain ⟨hdigit, hpoint⟩ := h.maximal c hc
    rw [Token.Kind.goesOn, hdigit, Bool.false_or, beq_eq_false_iff_ne]
    exact hpoint
  refine ⟨front ++ gap, by rw [hs, List.append_assoc], ?_⟩
  rw [next_skip _ _ hgap, next_lexeme _ _ hspells hends, byteLength_append]
  refine ⟨rfl, ?_⟩
  split
  · next hvalue => rw [token_of_inRange _ (inRange_integerConst.2 hvalue), h.digits.byteLength]
  · next hvalue =>
      rw [token_of_not_inRange _ (mt inRange_integerConst.1 hvalue), h.digits.byteLength]

end Input

namespace Program

variable {s : String}

/-- **An integer in a tree is what the digits at its place are worth.** -/
theorem exists_integer {p : Program} (h : read s = .ok p) {i : Int64} {span : Span}
    (hnode : (Node.program p).Has (.expression (.num (.int i) span))) :
    ∃ digits ts, span.slice s = .ofList digits ∧ digits ≠ [] ∧ AllDigits digits ∧
      i.toInt = decimalValue digits ∧ scan s = .ok ts ∧
      ⟨.integerConst, .ofList digits, span⟩ ∈ ts := by
  obtain ⟨w, n, depth, hscan, hderives, -⟩ := exists_of_read h
  obtain ⟨v, d, hv, -, hderived⟩ := hnode.derivedFrom (w := w) (d := depth) hderives
  obtain ⟨openers, u, closers, d', rfl, -, -, -, hbared⟩ := isExpression_bares hderived
  generalize he : Expression.num (.int i) span = e at hbared
  cases hbared with
  | operation => cases he
  | signed => cases he
  | named => cases he
  | @literal t ht =>
      have hmem : t ∈ w := hv.subset (by simp)
      obtain ⟨hspells, hrange⟩ := wellSpelled_before_eof hscan t hmem
      obtain ⟨number, hlexeme⟩ := Option.isSome_iff_exists.1 (hrange ht)
      obtain ⟨hnumber, rfl⟩ := Expression.num.inj he
      rw [Token.number, hlexeme, Option.getD_some] at hnumber
      obtain ⟨hkind, hvalue⟩ := Number.value_of_ofLexeme? (hnumber ▸ hlexeme)
      rw [hkind] at hspells
      have htoken : t = ⟨.integerConst, .ofList t.lexeme.toList, t.span⟩ := by
        rw [String.ofList_toList, ← hkind]
      refine ⟨t.lexeme.toList, _, ?_, hspells.1, hspells.2, hvalue, hscan, ?_⟩
      · rw [slice_of_scan hscan hmem, String.ofList_toList]
      · rw [← htoken]
        exact List.mem_append_left _ hmem

/-- **No literal is found to be none.**  The scanner has seen to it. -/
theorem not_invalidLiteral {fault : Located ReadingFault} (h : read s = .error fault)
    (literal : String) : fault.cause ≠ .grammar (.invalidLiteral literal) := by
  rintro hcause
  cases stops (Input.ofString s).isStream_results h with
  | lexical => cases hcause
  | grammar _ _ hkind =>
      cases hcause
      rcases hkind with hkind | ⟨what, hkind⟩ <;> cases hkind

/-- **Scanner and reader agree on integers.**  Wherever the calls on a text come to a run of digits,
however long, they take it whole: as a token if it is worth at most `2⁶³ - 1`, and as a fault of the
run if it is worth more.  An integer in a tree is worth what the digits at its span are, which are a
token of the text.  So no reading fails because a literal is none. -/
theorem read_integers (s : String) :
    (∀ n digits rest, ((Input.ofString s).afterCalls n).StartsOn digits rest →
      ∃ front, s.toList = front ++ (digits ++ rest) ∧
        ((Input.ofString s).afterCalls n).next.2.chars = rest ∧
        (decimalValue digits ≤ 2 ^ 63 - 1 →
          ((Input.ofString s).afterCalls n).next.1 =
            .ok ⟨.integerConst, .ofList digits, ⟨byteLength front, digits.length⟩⟩) ∧
        (2 ^ 63 - 1 < decimalValue digits →
          ∃ fault, ((Input.ofString s).afterCalls n).next.1 = .error fault ∧
            fault.span = ⟨byteLength front, digits.length⟩ ∧
            fault.cause.text = "numeric literal '" ++ .ofList digits ++ "' is out of range")) ∧
    (∀ p, read s = .ok p → ∀ i span, (Node.program p).Has (.expression (.num (.int i) span)) →
      ∃ digits ts, span.slice s = .ofList digits ∧ digits ≠ [] ∧ AllDigits digits ∧
        i.toInt = decimalValue digits ∧ scan s = .ok ts ∧
        ⟨.integerConst, .ofList digits, span⟩ ∈ ts) ∧
    ∀ fault, read s = .error fault → ∀ literal,
      fault.cause ≠ .grammar (.invalidLiteral literal) ∧
      (fault.readingReport.category = .grammar →
        fault.readingReport.text ≠ "invalid numeric literal '" ++ literal ++ "'") := by
  refine ⟨fun n digits rest h => ?_, fun p h i span hnode => exists_integer h hnode, ?_⟩
  · obtain ⟨front, hs, hrest, hnext⟩ :=
      Input.next_integer ((Input.isOn_ofString s).afterCalls n) h
    refine ⟨front, hs, hrest, fun hvalue => ?_, fun hvalue => ?_⟩
    · rw [hnext, if_pos hvalue]
    · rw [hnext, if_neg (Nat.not_le.2 hvalue)]
      exact ⟨_, rfl, rfl, rfl⟩
  · intro fault h literal
    refine ⟨not_invalidLiteral h literal, fun hcategory htext => ?_⟩
    obtain ⟨cause, span⟩ := fault
    cases cause with
    | lexical cause => cases hcategory
    | grammar cause =>
        obtain ⟨literal', rfl⟩ := GrammarFault.eq_of_text htext
        exact not_invalidLiteral h literal' rfl

/-- The greatest word behind a zero, and the number after it. -/
def limitSource : String := "09223372036854775807 9223372036854775808"

/-- The first call comes to the greatest word. -/
theorem startsOn_limit : (Input.ofString limitSource).StartsOn "09223372036854775807".toList
    " 9223372036854775808".toList where
  ahead    := ⟨[], .nil, by decide +kernel⟩
  nonempty := by decide
  digits   := List.all_eq_true.1 (by decide)
  maximal  := by
    rintro c ⟨⟩
    decide

/-- The second call comes to the number after it. -/
theorem startsOn_aboveLimit : ((Input.ofString limitSource).afterCalls 1).StartsOn
    "9223372036854775808".toList [] where
  ahead    := ⟨[' '], .blank (by decide) .nil, by decide +kernel⟩
  nonempty := by decide
  digits   := List.all_eq_true.1 (by decide)
  maximal  := nofun

/-- A program with the greatest word in it. -/
def greatestSource : String := "PROGRAM T; BEGIN x := 09223372036854775807 END."

/-- Its tree. -/
def greatestProgram : Program :=
  ⟨"T", ⟨[], ⟨[.assign "x" ⟨17, 1⟩ (.num (.int 9223372036854775807) ⟨22, 20⟩) ⟨17, 25⟩],
    ⟨11, 35⟩⟩⟩, ⟨0, 47⟩⟩

theorem read_greatestSource : read greatestSource = .ok greatestProgram := by
  have hscan : scan greatestSource = .ok
      [⟨.programWord, "PROGRAM", ⟨0, 7⟩⟩, ⟨.identifier, "T", ⟨8, 1⟩⟩, ⟨.semicolon, ";", ⟨9, 1⟩⟩,
        ⟨.beginWord, "BEGIN", ⟨11, 5⟩⟩, ⟨.identifier, "x", ⟨17, 1⟩⟩, ⟨.assign, ":=", ⟨19, 2⟩⟩,
        ⟨.integerConst, "09223372036854775807", ⟨22, 20⟩⟩, ⟨.endWord, "END", ⟨43, 3⟩⟩,
        ⟨.dot, ".", ⟨46, 1⟩⟩, .eof 47] := by decide +kernel
  rw [read, results_of_scan hscan]
  rfl

/-- The limit is met to the unit, and a zero in front does not count. -/
theorem read_integers_example :
    (Input.ofString limitSource).next.1 =
        .ok ⟨.integerConst, "09223372036854775807", ⟨0, 20⟩⟩ ∧
      (∃ fault, ((Input.ofString limitSource).afterCalls 1).next.1 = .error fault ∧
        fault.span = ⟨21, 19⟩ ∧
        fault.cause.text = "numeric literal '9223372036854775808' is out of range") ∧
    read greatestSource = .ok greatestProgram ∧
      ∃ digits, (⟨22, 20⟩ : Span).slice greatestSource = .ofList digits ∧ digits ≠ [] ∧
        AllDigits digits ∧ Int64.toInt 9223372036854775807 = decimalValue digits := by
  obtain ⟨hcalls, -, -⟩ := read_integers limitSource
  refine ⟨?_, ?_, read_greatestSource, ?_⟩
  · obtain ⟨front, hs, -, hlimit, -⟩ := hcalls 0 _ _ startsOn_limit
    have hfront : front = [] := List.append_cancel_right (hs.symm.trans rfl)
    rw [hfront] at hlimit
    exact hlimit (by decide)
  · obtain ⟨front, hs, -, -, habove⟩ := hcalls 1 _ _ startsOn_aboveLimit
    have hfront : front = "09223372036854775807 ".toList :=
      List.append_cancel_right (hs.symm.trans rfl)
    rw [hfront] at habove
    exact habove (by decide)
  · have hbody : (Node.program greatestProgram).Has (.compound greatestProgram.block.body) :=
      .child .root (.head _)
    have hnode := (hbody.child (.head _)).child (.head _)
    obtain ⟨digits, ts, hslice, hne, hdigits, hvalue, -⟩ :=
      (read_integers greatestSource).2.1 _ read_greatestSource _ _ hnode
    exact ⟨digits, hslice, hne, hdigits, hvalue⟩

end Program

end MiniPascal
