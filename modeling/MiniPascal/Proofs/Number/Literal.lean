import MiniPascal.Proofs.Printing.Words
import MiniPascal.Proofs.Run.Finite

/-!
# Proofs — Number — Literal

The text of a number as it stands in a program tells the number.  It is a minus sign, if the number
is negative, in front of digits, with a point among them exactly if the number is real
(`Number.exists_signed`); the sign and the digits tell the number, since a shortest decimal reads
back (`Number.literal_injective`).  The two zeros of the reals differ in their signs.
-/

namespace MiniPascal

/-- A word with a minus sign in front, or without. -/
def signed (negative : Bool) (word : List Char) : List Char :=
  if negative then '-' :: word else word

/-- A word that begins with a digit. -/
def BeginsWithDigit (word : List Char) : Prop := ∃ c cs, word = c :: cs ∧ c.isDigit = true

/-- A sign does not begin with a digit, so it is told from the word behind it. -/
theorem signed_injective {s t : Bool} {w v : List Char} (hw : BeginsWithDigit w)
    (hv : BeginsWithDigit v) (h : signed s w = signed t v) : s = t ∧ w = v := by
  obtain ⟨c, cs, rfl, hc⟩ := hw
  obtain ⟨d, ds, rfl, hd⟩ := hv
  cases s <;> cases t
  · exact ⟨rfl, h⟩
  · obtain ⟨rfl, -⟩ := List.cons.inj h
    cases hc
  · obtain ⟨rfl, -⟩ := List.cons.inj h
    cases hd
  · exact ⟨rfl, (List.cons.inj h).2⟩

/-! ### Integers -/

/-- An integer is written by its sign and the digits of its size. -/
theorem toList_intText (i : Int) :
    (intText i).toList = signed (decide (i < 0)) (digitsOf i.natAbs) := by
  unfold intText
  split
  · next hi =>
      rw [decide_eq_true hi, String.toList_append, natText, String.toList_ofList,
        String.toList_ofList]
      rfl
  · next hi =>
      rw [decide_eq_false hi, natText, String.toList_ofList]
      rfl

/-- Digits begin with a digit, whatever follows. -/
theorem beginsWithDigit_of_digits {ds : List Char} (hne : ds ≠ []) (hds : AllDigits ds)
    (more : List Char) : BeginsWithDigit (ds ++ more) := by
  obtain ⟨c, cs, rfl⟩ := List.exists_cons_of_ne_nil hne
  exact ⟨c, cs ++ more, rfl, hds c (.head _)⟩

theorem beginsWithDigit_digitsOf (n : Nat) : BeginsWithDigit (digitsOf n) := by
  have h := beginsWithDigit_of_digits (digitsOf_ne_nil n) (allDigits_digitsOf n) []
  rwa [List.append_nil] at h

theorem intText_injective : Function.Injective intText := by
  intro i j h
  have hchars := congrArg String.toList h
  rw [toList_intText, toList_intText] at hchars
  obtain ⟨hsign, hdigits⟩ :=
    signed_injective (beginsWithDigit_digitsOf _) (beginsWithDigit_digitsOf _) hchars
  have habs : i.natAbs = j.natAbs := by
    rw [← numeral_digitsOf i.natAbs, hdigits, numeral_digitsOf]
  have hneg : i < 0 ↔ j < 0 := decide_eq_decide.1 hsign
  omega

/-! ### Reals -/

/-- The text of a finite real is that of its magnitude with its sign, and the text of the magnitude
reads back. -/
theorem exists_magnitude_word (m : Fin (2047 * binade)) :
    ∃ word, Token.Kind.realConst.Spells word ∧
      Number.ofLexeme? .realConst word = some (.real (.finite false m)) ∧
      ∀ s, ((Binary64.finite s m).text .literal).toList = signed s word := by
  obtain ⟨word, htext, hspells, hvalue⟩ := exists_real_literal m
  refine ⟨word, hspells, hvalue, fun s => ?_⟩
  have hword : (Decimal.shortest .up m).positional = word :=
    (String.ofList_inj).1 htext
  rw [← hword, signed]
  exact String.toList_ofList

/-- **Finite reals with the same text are the same.** -/
theorem Binary64.literal_injective {x y : Binary64} (hx : x.isFinite = true)
    (hy : y.isFinite = true) (h : x.text .literal = y.text .literal) : x = y := by
  cases x with
  | nan => cases hx
  | infinite s => cases hx
  | finite s m =>
      cases y with
      | nan => cases hy
      | infinite t => cases hy
      | finite t n =>
          obtain ⟨w, hw, hm, hs⟩ := exists_magnitude_word m
          obtain ⟨v, hv, hn, ht⟩ := exists_magnitude_word n
          have hsigned : signed s w = signed t v := by rw [← hs, h, ht]
          obtain ⟨rfl, rfl⟩ := signed_injective (Token.Kind.digit_of_spells_number (.inr rfl) hw)
            (Token.Kind.digit_of_spells_number (.inr rfl) hv) hsigned
          rw [hm] at hn
          cases hn
          rfl

/-! ### Numbers -/

namespace Number

/-- A finite number is written as a literal of its kind, with a sign or without. -/
theorem exists_signed {n : Number} (hn : n.Finite) :
    ∃ s word, n.kind.Spells word ∧ (n.text .literal).toList = signed s word := by
  cases n with
  | int i =>
      exact ⟨_, digitsOf i.toInt.natAbs, ⟨digitsOf_ne_nil _, allDigits_digitsOf _⟩,
        toList_intText i.toInt⟩
  | real x =>
      cases x with
      | nan => cases hn
      | infinite s => cases hn
      | finite s m =>
          obtain ⟨word, hspells, -, htext⟩ := exists_magnitude_word m
          exact ⟨s, word, hspells, htext s⟩

theorem kind_isNumber (n : Number) : n.kind = .integerConst ∨ n.kind = .realConst := by
  cases n with
  | int i => exact .inl rfl
  | real x => exact .inr rfl

/-- A literal is one of an integer or one of a real. -/
theorem kind_of_spells {m n : Number} {word : List Char} (hm : m.kind.Spells word)
    (hn : n.kind.Spells word) : m.kind = n.kind := by
  have hpoint : ∀ word, Token.Kind.integerConst.Spells word →
      ¬ Token.Kind.realConst.Spells word := by
    rintro _ ⟨-, hdigits⟩ ⟨whole, fraction, rfl, -⟩
    exact absurd (hdigits '.' (List.mem_append_right _ (.head _))) (by decide)
  cases m <;> cases n
  · rfl
  · exact absurd hn (hpoint _ hm)
  · exact absurd hm (hpoint _ hn)
  · rfl

/-- **Finite numbers with the same text are the same.** -/
theorem literal_injective {m n : Number} (hm : m.Finite) (hn : n.Finite)
    (h : m.text .literal = n.text .literal) : m = n := by
  obtain ⟨s, w, hw, hs⟩ := exists_signed hm
  obtain ⟨t, v, hv, ht⟩ := exists_signed hn
  have hsigned : signed s w = signed t v := by rw [← hs, h, ht]
  obtain ⟨-, rfl⟩ := signed_injective (Token.Kind.digit_of_spells_number m.kind_isNumber hw)
    (Token.Kind.digit_of_spells_number n.kind_isNumber hv) hsigned
  have hkind := kind_of_spells hw hv
  cases m with
  | int i =>
      cases n with
      | int j => rw [Int64.toInt_inj.1 (intText_injective h)]
      | real y => cases hkind
  | real x =>
      cases n with
      | int j => cases hkind
      | real y => rw [Binary64.literal_injective hm hn h]

end Number

end MiniPascal
