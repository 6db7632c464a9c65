import MiniPascal.Decimal.Layout
import MiniPascal.Number
import MiniPascal.Proofs.Binary64.Nearest
import MiniPascal.Proofs.Lexing.Spelling

/-!
# Proofs — Decimal — Literal

The text of a number in a program is read back as that number.  A shortest decimal reads back on the
grid that it was found on (`reads_shortest`), its positional form has the digits of that grid
(`exists_positional`), and so the literal that a finite real is written as stands for that real
(`exists_real_literal`).  None of the great powers involved is ever computed.
-/

namespace MiniPascal

/-! ### Digits -/

theorem allDigits_digitsOf (n : Nat) : AllDigits (digitsOf n) :=
  fun _ hc => Nat.isDigit_of_mem_toDigits (by decide) (by decide) hc

theorem digitsOf_ne_nil (n : Nat) : digitsOf n ≠ [] := Nat.toDigits_ne_nil

theorem AllDigits.append {ds es : List Char} (hd : AllDigits ds) (he : AllDigits es) :
    AllDigits (ds ++ es) :=
  List.forall_mem_append.2 ⟨hd, he⟩

theorem allDigits_zeros (n : Nat) : AllDigits (List.replicate n '0') := by
  intro c hc
  rw [List.eq_of_mem_replicate hc]
  rfl

/-- Digits are worth more by a power of ten for each digit behind them. -/
theorem numeral_append (ds es : List Char) :
    numeral (ds ++ es) = numeral ds * 10 ^ es.length + numeral es := by
  rw [numeral, Nat.ofDigitChars_append, Nat.ofDigitChars_eq_ofDigitChars_zero, Nat.mul_comm]
  rfl

theorem numeral_zeros (n : Nat) : numeral (List.replicate n '0') = 0 := by
  rw [numeral, Nat.ofDigitChars_replicate_zero, Nat.mul_zero]

/-! ### The shortest decimal -/

namespace Decimal

/-- The places behind the point on the finest grid. -/
def finest : Nat := 1074

/-- A unit is so many steps of the finest decimals. -/
theorem units_mul_steps : Binary64.unitsPerOne * stepsPerUnit = 10 ^ finest := by decide +kernel

/-- A decimal reads back if it is nearest to the number. -/
theorem readsBack_iff {m n : Nat} :
    readsBack m n = true ↔ Binary64.nearestMagnitude n stepsPerUnit = m :=
  beq_iff_eq

theorem stepsPerUnit_pos : 0 < stepsPerUnit := by decide +kernel

/-- The finest grid holds every number. -/
theorem readsBack_steps (m : Nat) : readsBack m (steps m) = true := by
  rw [readsBack_iff, steps]
  exact Binary64.nearestMagnitude_units_mul stepsPerUnit_pos m

section Grids

variable {tie : Tie} {reads : Nat → Bool}

/-- What is found on a grid reads back. -/
theorem reads_of_onGrid {value g c : Nat} (h : onGrid tie reads value g = some c) :
    reads (c * g) = true := by
  unfold onGrid at h
  dsimp only at h
  split at h
  · next hlow _ => cases h; exact hlow
  · next _ hhigh => cases h; exact hhigh
  · cases h
  · next hlow hhigh =>
      split at h
      · cases h; exact hlow
      · split at h
        · cases h; exact hhigh
        · cases h
          cases tie with
          | up => exact hhigh
          | even =>
              rcases Nat.mod_two_eq_zero_or_one (value / g) with heven | hodd
              · rw [Tie.pick, heven]; exact hlow
              · rw [Tie.pick, hodd]; exact hhigh

/-- A decimal on the grid of `10^e` steps that reads back. -/
def Reads (reads : Nat → Bool) (d : Decimal) : Prop :=
  ∃ e : Nat, d.exponent = (e : Int) - finest ∧ reads (d.coefficient * 10 ^ e) = true

/-- The search ends with a decimal that reads back, if the exact one does. -/
theorem reads_search {value : Nat} (hvalue : reads value = true) (j : Nat) :
    Reads reads (search tie reads value j) := by
  induction j with
  | zero => exact ⟨0, rfl, by rwa [search, Nat.pow_zero, Nat.mul_one]⟩
  | succ j ih =>
      rw [search]
      split
      · next c hc => exact ⟨j + 1, rfl, reads_of_onGrid hc⟩
      · exact ih

end Grids

/-- **The shortest decimal of a magnitude reads back to it.** -/
theorem reads_shortest (tie : Tie) (m : Nat) : Reads (readsBack m) (shortest tie m) := by
  have hsteps := readsBack_steps m
  -- Only these two facts are used of the exact value, which is too large to be computed with.
  have hzero : m = 0 → steps m = 0 := by
    intro hm
    rw [hm, steps, Binary64.units_zero, Nat.zero_mul]
  unfold shortest
  generalize readsBack m = reads at hsteps ⊢
  generalize steps m = value at hsteps hzero ⊢
  split
  · next hm =>
      rw [hzero hm] at hsteps
      exact ⟨1074, rfl, by rwa [Nat.zero_mul]⟩
  · exact reads_search hsteps _

/-! ### The positional form -/

/-- A positional text is digits, a point and digits, and they are those of the decimal: read without
the point, they are the coefficient moved by as many places as stand behind the point. -/
theorem exists_positional {d : Decimal} {e places : Nat}
    (he : d.exponent = (e : Int) - places) :
    ∃ whole fraction, d.positional = whole ++ '.' :: fraction ∧ whole ≠ [] ∧ fraction ≠ [] ∧
      AllDigits whole ∧ AllDigits fraction ∧
      numeral (whole ++ fraction) * 10 ^ places =
        d.coefficient * 10 ^ e * 10 ^ fraction.length := by
  obtain ⟨c, exponent⟩ := d
  have hdigits := allDigits_digitsOf c
  have hnumeral := numeral_digitsOf c
  have hne := digitsOf_ne_nil c
  dsimp only at he ⊢
  simp only [positional]
  generalize digitsOf c = ds at hdigits hnumeral hne ⊢
  split
  · next hexp =>
      -- A whole number: zeros behind the digits, and one behind the point.
      obtain ⟨x, rfl⟩ := Int.eq_ofNat_of_zero_le hexp
      obtain rfl : e = x + places := by omega
      refine ⟨ds ++ List.replicate x '0', ['0'], by simp, by simp [hne], by simp,
        hdigits.append (allDigits_zeros x), allDigits_zeros 1, ?_⟩
      have hwhole : numeral (ds ++ List.replicate x '0' ++ ['0']) = c * 10 ^ x * 10 := by
        have hzero : numeral ['0'] = 0 := numeral_zeros 1
        rw [numeral_append, numeral_append, numeral_zeros, hzero, hnumeral, List.length_replicate]
        rfl
      rw [hwhole, Nat.pow_add, List.length_singleton, Nat.pow_one]
      rw [Nat.mul_right_comm, Nat.mul_assoc c]
  · next hexp =>
      have hplaces : e + (-exponent).toNat = places := by omega
      generalize (-exponent).toNat = n at hplaces ⊢
      have hscale : ∀ fraction : List Char, fraction.length = n →
          c * 10 ^ places = c * 10 ^ e * 10 ^ fraction.length := by
        intro fraction hlength
        rw [hlength, ← hplaces, Nat.pow_add, Nat.mul_assoc]
      split
      · next hn =>
          -- The point falls among the digits.
          have hlength : (ds.drop (ds.length - n)).length = n := by
            rw [List.length_drop]
            omega
          have hwhole : 0 < (ds.take (ds.length - n)).length := by
            rw [List.length_take]
            omega
          have hfraction : ds.drop (ds.length - n) ≠ [] := by
            intro h
            rw [h] at hlength
            simp at hlength
            omega
          refine ⟨_, _, rfl, List.length_pos_iff.1 hwhole, hfraction, ?_, ?_, ?_⟩
          · exact fun c hc => hdigits c (List.mem_of_mem_take hc)
          · exact fun c hc => hdigits c (List.mem_of_mem_drop hc)
          · rw [List.take_append_drop, hnumeral]
            exact hscale _ hlength
      · next hn =>
          have hlength : (List.replicate (n - ds.length) '0' ++ ds).length = n := by
            rw [List.length_append, List.length_replicate]
            omega
          refine ⟨['0'], _, rfl, by simp, by simp [hne], allDigits_zeros 1,
            (allDigits_zeros _).append hdigits, ?_⟩
          have hwhole : numeral (['0'] ++ (List.replicate (n - ds.length) '0' ++ ds)) = c := by
            have hzero : numeral ['0'] = 0 := numeral_zeros 1
            rw [numeral_append, numeral_append, numeral_zeros, hzero, hnumeral, Nat.zero_mul,
              Nat.zero_mul, Nat.zero_add, Nat.zero_add]
          rw [hwhole]
          exact hscale _ hlength

/-- What reads back on a grid is what the digits of the positional form stand for. -/
theorem nearestMagnitude_of_reads {m N e : Nat} {c n : Nat}
    (hreads : readsBack m (c * 10 ^ e) = true)
    (hvalue : N * 10 ^ finest = c * 10 ^ e * 10 ^ n) :
    Binary64.nearestMagnitude (N * Binary64.unitsPerOne) (10 ^ n) = m := by
  rw [readsBack_iff] at hreads
  rw [← hreads]
  refine Binary64.nearestMagnitude_congr (Nat.pow_pos (by decide)) stepsPerUnit_pos ?_
  rw [Nat.mul_assoc, units_mul_steps, hvalue]

end Decimal

/-! ### Literals -/

/-- Digits with a point stand for the real that is nearest to them. -/
theorem ofPointed?_of_nearest {whole fraction : List Char} {m : Fin (2047 * binade)}
    (hfraction : fraction ≠ [])
    (h : Binary64.nearestMagnitude (numeral (whole ++ fraction) * Binary64.unitsPerOne)
      (10 ^ fraction.length) = m) :
    Number.ofPointed? whole fraction = some (.real (.finite false m)) := by
  have hlength := List.length_pos_iff.2 hfraction
  have hnearest : Binary64.ofScientific false (numeral (whole ++ fraction))
      (-(fraction.length : Int)) = .finite false m := by
    rw [Binary64.ofScientific, if_neg (by omega), Int.neg_neg, Int.toNat_natCast, Binary64.ofRatio,
      Binary64.nearest]
    simp only [Nat.pow_eq, h, m.isLt, dite_true]
  rw [Number.ofPointed?, hnearest]
  rfl

/-- **The literal of a finite real is read back as that real.** -/
theorem exists_real_literal (m : Fin (2047 * binade)) :
    ∃ word, (Binary64.finite false m).text .literal = .ofList word ∧
      Token.Kind.realConst.Spells word ∧
      Number.ofLexeme? .realConst word = some (.real (.finite false m)) := by
  obtain ⟨e, he, hreads⟩ := Decimal.reads_shortest .up m
  obtain ⟨whole, fraction, htext, hwhole, hfraction, hwd, hfd, hvalue⟩ :=
    Decimal.exists_positional he
  have hnearest := Decimal.nearestMagnitude_of_reads hreads hvalue
  have hpoint : ∀ c ∈ ('.' :: fraction).head?, c.isDigit = false := by
    rintro _ ⟨⟩
    rfl
  refine ⟨whole ++ '.' :: fraction, ?_, ⟨whole, fraction, rfl, hwhole, hwd, hfd⟩, ?_⟩
  · rw [← htext]
    rfl
  · simp only [Number.ofLexeme?, takeWhile_append_of_stop hwd hpoint,
      dropWhile_append_of_stop hwd hpoint, List.tail_cons]
    exact ofPointed?_of_nearest hfraction hnearest

/-- An integer that is not negative is read back from its digits. -/
theorem exists_int_literal {i : Int64} (hi : 0 ≤ i.toInt) :
    ∃ word, (Number.int i).text .literal = .ofList word ∧ Token.Kind.integerConst.Spells word ∧
      Number.ofLexeme? .integerConst word = some (.int i) := by
  refine ⟨digitsOf i.toInt.natAbs, ?_, ⟨digitsOf_ne_nil _, allDigits_digitsOf _⟩, ?_⟩
  · simp only [Number.text, intText]
    rw [if_neg (by omega)]
    rfl
  · have hbound := i.toInt_lt
    have hlt : i.toInt.natAbs < 0x8000000000000000 := by omega
    simp only [Number.ofLexeme?, Number.ofDigits?, numeral_digitsOf]
    rw [if_pos hlt, ← Int64.ofInt_eq_ofNat, Int.natAbs_of_nonneg hi, Int64.ofInt_toInt]

end MiniPascal
