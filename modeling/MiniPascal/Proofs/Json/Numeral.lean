import Mathlib.Data.List.TakeWhile
import MiniPascal.Proofs.Json.Number
import MiniPascal.Proofs.Number.Literal

/-!
# Proofs — Json — Numeral

What a JSON number stands for.  Digits with nothing behind them are an integer; with a fraction or
an exponent they are a real, the nearest to the decimal.  The text of an integer stands for that
integer (`number?_intText`), and that of a finite real, positional or scientific, for that real with
its sign (`number?_layout`).
-/

namespace MiniPascal

namespace Json

/-! ### Reading numbers -/

/-- The power of ten that an exponent stands for; none is the power zero. -/
def exponent? : List Char → Option Int
  | []               => some 0
  | 'e' :: '-' :: ds => some (-(numeral ds : Int))
  | 'e' :: '+' :: ds => some (numeral ds)
  | 'e' :: ds        => some (numeral ds)
  | _                => none

/-- A fraction without its point, and what is left behind it. -/
def splitFraction : List Char → List Char × List Char
  | '.' :: more => (more.takeWhile Char.isDigit, more.dropWhile Char.isDigit)
  | more        => ([], more)

/-- The value of a number without its sign. -/
def unsigned? (negative : Bool) (word : List Char) : Option Json :=
  let whole := word.takeWhile Char.isDigit
  let more := word.dropWhile Char.isDigit
  if more.isEmpty then some (.int (if negative then -(numeral whole : Int) else numeral whole))
  else
    let (fraction, power) := splitFraction more
    (exponent? power).map fun x =>
      .real (.ofScientific negative (numeral (whole ++ fraction)) (x - fraction.length))

/-- The value of a number. -/
def number? : List Char → Option Json
  | '-' :: word => unsigned? true word
  | word        => unsigned? false word

/-- A sign in front of digits is read first. -/
theorem number?_signed {word : List Char} (hword : BeginsWithDigit word) (negative : Bool) :
    number? (signed negative word) = unsigned? negative word := by
  cases negative with
  | true => rfl
  | false =>
      obtain ⟨c, cs, rfl, hc⟩ := hword
      rw [signed, if_neg Bool.false_ne_true, number?]
      rintro _ ⟨⟩
      cases hc

/-! ### Integers -/

theorem unsigned?_digits {whole : List Char} (hwhole : AllDigits whole) (negative : Bool) :
    unsigned? negative whole =
      some (.int (if negative then -(numeral whole : Int) else numeral whole)) := by
  have htake : whole.takeWhile Char.isDigit = whole := List.takeWhile_eq_self_iff.2 hwhole
  have hdrop : whole.dropWhile Char.isDigit = [] := List.dropWhile_eq_nil_iff.2 hwhole
  rw [unsigned?, htake, hdrop, List.isEmpty_nil, if_pos rfl]

/-- **The text of an integer stands for that integer.** -/
theorem number?_intText (i : Int) : number? (intText i).toList = some (.int i) := by
  rw [toList_intText, number?_signed (beginsWithDigit_digitsOf _),
    unsigned?_digits (allDigits_digitsOf _), numeral_digitsOf]
  congr 2
  split <;> rename_i hi <;> rw [decide_eq_true_eq] at hi <;> omega

/-! ### Reals -/

/-- Digits, a fraction and an exponent, one of the latter two at least. -/
theorem unsigned?_append (point power : List Char) {whole fraction : List Char} {x : Int}
    (hwhole : AllDigits whole) (hstop : ∀ c ∈ (point ++ power).head?, c.isDigit = false)
    (hne : point ++ power ≠ []) (hpoint : splitFraction (point ++ power) = (fraction, power))
    (hpower : exponent? power = some x) (negative : Bool) :
    unsigned? negative (whole ++ (point ++ power)) =
      some (.real
        (.ofScientific negative (numeral (whole ++ fraction)) (x - fraction.length))) := by
  have hempty : (point ++ power).isEmpty ≠ true := fun h => hne (List.isEmpty_iff.1 h)
  rw [unsigned?, takeWhile_append_of_stop hwhole hstop, dropWhile_append_of_stop hwhole hstop]
  simp only [if_neg hempty, hpoint, hpower, Option.map_some]

/-- A fraction ends where its digits end. -/
theorem splitFraction_point {fraction power : List Char} (hfraction : AllDigits fraction)
    (hstop : ∀ c ∈ power.head?, c.isDigit = false) :
    splitFraction ('.' :: fraction ++ power) = (fraction, power) := by
  rw [List.cons_append, splitFraction, takeWhile_append_of_stop hfraction hstop,
    dropWhile_append_of_stop hfraction hstop]

/-- Digits behind the letter are an exponent. -/
theorem exponent?_digits {ds : List Char} (h : BeginsWithDigit ds) :
    exponent? ('e' :: ds) = some (numeral ds : Int) := by
  obtain ⟨c, cs, rfl, hc⟩ := h
  rw [exponent?]
  · rintro _ ⟨⟩
    cases hc
  · rintro _ ⟨⟩
    cases hc

/-- The exponent of the scientific form, with a plus sign or without. -/
theorem exponent?_signed (plus : Bool) (x : Int) :
    exponent? ('e' :: ((if x < 0 then ['-'] else if plus then ['+'] else []) ++
      digitsOf x.natAbs)) = some x := by
  split
  · rw [List.singleton_append, exponent?, numeral_digitsOf]
    congr 1
    omega
  · have hpower : (x.natAbs : Int) = x := by omega
    cases plus with
    | true => rw [if_pos rfl, List.singleton_append, exponent?, numeral_digitsOf, hpower]
    | false =>
        rw [if_neg Bool.false_ne_true, List.nil_append,
          exponent?_digits (beginsWithDigit_digitsOf _), numeral_digitsOf, hpower]

/-- A scientific text is a digit, the others behind a point if there are any, and an exponent; they
are the digits of the decimal, and the exponent less those behind the point is its exponent. -/
theorem exists_scientific (plus : Bool) (d : Decimal) :
    ∃ whole point fraction power x, d.scientific plus = whole ++ (point ++ 'e' :: power) ∧
      AllDigits whole ∧ (∀ c ∈ (point ++ 'e' :: power).head?, c.isDigit = false) ∧
      splitFraction (point ++ 'e' :: power) = (fraction, 'e' :: power) ∧
      exponent? ('e' :: power) = some x ∧ whole ++ fraction = digitsOf d.coefficient ∧
      x - fraction.length = d.exponent := by
  have hdigits := allDigits_digitsOf d.coefficient
  have hne := digitsOf_ne_nil d.coefficient
  have hleading : d.leadingExponent = (digitsOf d.coefficient).length - 1 + d.exponent := rfl
  have hpower := exponent?_signed plus d.leadingExponent
  simp only [Decimal.scientific]
  generalize digitsOf d.leadingExponent.natAbs = power at hpower ⊢
  generalize digitsOf d.coefficient = ds at hdigits hleading hne ⊢
  match ds, hne with
  | [lead], _ =>
      refine ⟨[lead], [], [], _, _, rfl, hdigits, ?_, rfl, hpower, rfl, ?_⟩
      · rintro _ ⟨⟩
        rfl
      · simp at hleading ⊢
        omega
  | lead :: next :: more, _ =>
      obtain ⟨hlead, hmore⟩ := List.forall_mem_cons.1 hdigits
      refine ⟨[lead], '.' :: next :: more, next :: more, _, _, rfl,
        List.forall_mem_singleton.2 hlead, ?_, splitFraction_point hmore ?_, hpower, rfl, ?_⟩
      · rintro _ ⟨⟩
        rfl
      · rintro _ ⟨⟩
        rfl
      · simp at hleading ⊢
        omega

/-- A decimal that has the value of one that reads back is read as that number. -/
theorem ofScientific_of_reads {m : Fin (2047 * binade)} {N c e : Nat} {x : Int}
    (hreads : Decimal.readsBack m (c * 10 ^ e) = true)
    (hvalue : ∀ a n : Nat, x = a - n → N * 10 ^ a * 10 ^ Decimal.finest = c * 10 ^ e * 10 ^ n)
    (negative : Bool) : Binary64.ofScientific negative N x = .finite negative m := by
  have hnearest : ∀ a n : Nat, x = a - n →
      Binary64.ofRatio negative (N * 10 ^ a) (10 ^ n) = .finite negative m := by
    intro a n hx
    have hmagnitude := Decimal.nearestMagnitude_of_reads hreads (hvalue a n hx)
    rw [Binary64.ofRatio, Binary64.nearest]
    simp only [hmagnitude, m.isLt, dite_true]
  unfold Binary64.ofScientific
  simp only [Nat.pow_eq]
  split
  · next hx =>
      have h := hnearest x.toNat 0 (by omega)
      rwa [Nat.pow_zero] at h
  · next hx =>
      have h := hnearest 0 (-x).toNat (by omega)
      rwa [Nat.pow_zero, Nat.mul_one] at h

section Layouts

variable {tie : Tie} {m : Fin (2047 * binade)}

/-- The positional form of a shortest decimal. -/
theorem unsigned?_positional (negative : Bool) :
    unsigned? negative (Decimal.shortest tie m).positional =
      some (.real (.finite negative m)) := by
  obtain ⟨e, he, hreads⟩ := Decimal.reads_shortest tie m
  obtain ⟨whole, fraction, htext, -, hne, hwhole, hfraction, hvalue⟩ :=
    Decimal.exists_positional he
  have hread := unsigned?_append ('.' :: fraction) [] hwhole
    (by rintro _ ⟨⟩; rfl) (by simp) (splitFraction_point hfraction nofun) rfl negative
  rw [List.append_nil] at hread
  rw [htext, hread, ofScientific_of_reads hreads ?_ negative]
  intro a n hx
  obtain rfl : n = a + fraction.length := by omega
  rw [Nat.mul_right_comm, hvalue, Nat.pow_add, Nat.mul_comm (10 ^ a), Nat.mul_assoc]

/-- The scientific form of a shortest decimal. -/
theorem unsigned?_scientific (plus negative : Bool) :
    unsigned? negative ((Decimal.shortest tie m).scientific plus) =
      some (.real (.finite negative m)) := by
  obtain ⟨e, he, hreads⟩ := Decimal.reads_shortest tie m
  obtain ⟨whole, point, fraction, power, x, htext, hwhole, hstop, hpoint, hpower, hdigits, hx⟩ :=
    exists_scientific plus (Decimal.shortest tie m)
  have hread := unsigned?_append point ('e' :: power) hwhole hstop (by simp) hpoint hpower negative
  rw [htext, hread, hdigits, numeral_digitsOf, hx, ofScientific_of_reads hreads ?_ negative]
  intro a n hx
  have hsum : a + Decimal.finest = e + n := by omega
  rw [Nat.mul_assoc, Nat.mul_assoc, ← Nat.pow_add, ← Nat.pow_add, hsum]

end Layouts

theorem beginsWithDigit_of_isUnsigned {word : List Char} (h : IsUnsigned word) :
    BeginsWithDigit word := by
  obtain ⟨whole, fraction, power, rfl, hwhole, -, -⟩ := h
  exact beginsWithDigit_of_digits hwhole.1 hwhole.2.1 _

/-- **The text of a finite real stands for that real**, however it is laid out. -/
theorem number?_layout (l : Layout) {x : Binary64} (h : x.isFinite = true) :
    number? (x.text l).toList = some (.real x) := by
  cases x with
  | nan => cases h
  | infinite => cases h
  | finite s m =>
      rw [Binary64.text, String.toList_ofList]
      show number? (signed s _) = _
      split
      · rw [number?_signed (beginsWithDigit_of_isUnsigned (isUnsigned_positional ?_)),
          unsigned?_positional]
        exact shortest_coefficient
      · rw [number?_signed (beginsWithDigit_of_isUnsigned (isUnsigned_scientific _ _)),
          unsigned?_scientific]

theorem number?_realText {x : Binary64} (h : x.isFinite = true) :
    number? (realText x).toList = some (.real x) := by
  rw [realText, if_pos h, number?_layout _ h]

end Json

end MiniPascal
