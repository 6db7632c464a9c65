import MiniPascal.Number.Arithmetic

/-!
# Proofs — Number — Words

The operations on words are those on integers, cut off where the result is no word.  For sums,
differences, products and signs this is how they are defined; for the floor quotient, which is put
together from the division and the remainder of words, it is `floorDiv?_eq_word?`.  On the way to it
nothing overflows: worked out with operations that are refused on overflow, it is refused only in
its first division (`guardedFloorDiv_eq`).
-/

namespace MiniPascal

/-- An integer that fits a word. -/
def IsWord (i : Int) : Prop := -0x8000000000000000 ≤ i ∧ i < 0x8000000000000000

instance (i : Int) : Decidable (IsWord i) := inferInstanceAs (Decidable (_ ∧ _))

theorem isWord_toInt (a : Int64) : IsWord a.toInt := ⟨a.le_toInt, a.toInt_lt⟩

/-- Within the range nothing wraps. -/
theorem toInt_ofInt {i : Int} (h : IsWord i) : (Int64.ofInt i).toInt = i :=
  Int64.toInt_ofInt_of_le h.1 h.2

theorem word?_of_isWord {i : Int} (h : IsWord i) : word? i = some (.ofInt i) := if_pos h

theorem word?_of_not_isWord {i : Int} (h : ¬ IsWord i) : word? i = none := if_neg h

theorem word?_toInt (a : Int64) : word? a.toInt = some a := by
  rw [word?_of_isWord (isWord_toInt a), Int64.ofInt_toInt]

theorem toInt_eq_zero {b : Int64} : b.toInt = 0 ↔ b = 0 := Int64.toInt_inj (y := 0)

theorem lt_zero_iff {a : Int64} : a < 0 ↔ a.toInt < 0 := Int64.lt_iff_toInt_lt (y := 0)

/-! ### Quotient and remainder -/

/-- The one pair of words whose quotient is no word. -/
abbrev Overflows (a b : Int64) : Prop := a = Int64.minValue ∧ b = -1

/-- The one quotient that overflows is beyond the range. -/
theorem Overflows.not_isWord {a b : Int64} (h : Overflows a b) :
    ¬ IsWord (a.toInt.tdiv b.toInt) := by
  obtain ⟨rfl, rfl⟩ := h
  decide

/-- The one quotient that overflows is exact, and so not rounded. -/
theorem Overflows.tdiv_eq_fdiv {a b : Int64} (h : Overflows a b) :
    a.toInt.tdiv b.toInt = a.toInt.fdiv b.toInt := by
  obtain ⟨rfl, rfl⟩ := h
  decide

/-- All other quotients of words are the words' own. -/
theorem toInt_div {a b : Int64} (h : ¬ Overflows a b) : (a / b).toInt = a.toInt.tdiv b.toInt := by
  by_cases ha : a = Int64.minValue
  · exact Int64.toInt_div_of_ne_right a b fun hb => h ⟨ha, hb⟩
  · exact Int64.toInt_div_of_ne_left a b ha

/-- A quotient with a remainder lies in the inner half of the words. -/
theorem isWord_pred_of_mod_ne_zero {a b : Int64} (hmod : a % b ≠ 0) :
    IsWord (a.toInt.tdiv b.toInt - 1) := by
  have hmod : a.toInt.tmod b.toInt ≠ 0 := by rwa [← Int64.toInt_mod, Ne, toInt_eq_zero]
  have ha := isWord_toInt a
  rcases Nat.lt_or_ge b.toInt.natAbs 2 with hsmall | hlarge
  · -- Nothing is left over by a divisor of absolute value one; there is no quotient by zero.
    obtain hb | hb | hb : b.toInt = 0 ∨ b.toInt = 1 ∨ b.toInt = -1 := by omega
    · rw [hb, Int.tdiv_zero]
      decide
    · exact absurd (by rw [hb, Int.tmod_one]) hmod
    · exact absurd (by rw [hb, Int.tmod_neg, Int.tmod_one]) hmod
  · have hhalf : a.toInt.natAbs / b.toInt.natAbs ≤ a.toInt.natAbs / 2 :=
      Nat.div_le_div_left hlarge (by decide)
    have habs : (a.toInt.tdiv b.toInt).natAbs = a.toInt.natAbs / b.toInt.natAbs :=
      Int.natAbs_tdiv a.toInt b.toInt
    obtain ⟨hlow, hhigh⟩ := ha
    constructor <;> omega

/-- The floor of a quotient is one less than the quotient cut toward zero if something is left over
and the signs differ, and the same otherwise. -/
theorem fdiv_toInt {a b : Int64} (hb : b ≠ 0) :
    a.toInt.fdiv b.toInt =
      a.toInt.tdiv b.toInt - if a % b ≠ 0 ∧ ¬(a < 0 ↔ b < 0) then 1 else 0 := by
  have hdvd : b.toInt ∣ a.toInt ↔ ¬ a % b ≠ 0 := by
    rw [Int.dvd_iff_tmod_eq_zero, ← Int64.toInt_mod, toInt_eq_zero, Classical.not_not]
  rw [Int.fdiv_eq_tdiv]
  simp only [lt_zero_iff]
  rw [Ne, ← toInt_eq_zero] at hb
  by_cases hmod : a % b ≠ 0
  · rw [if_neg fun h => hdvd.1 h hmod]
    rcases Int.lt_trichotomy b.toInt 0 with hneg | hzero | hpos
    · rw [Int.sign_eq_neg_one_of_neg hneg]
      split <;> split <;> simp_all <;> omega
    · exact absurd hzero hb
    · rw [Int.sign_eq_one_of_pos hpos]
      split <;> split <;> simp_all <;> omega
  · rw [if_pos (hdvd.2 hmod), if_neg fun h => hmod h.1]

/-- **The floor quotient of words is that of the integers**, if it is a word. -/
theorem floorDiv?_eq_word? {a b : Int64} (hb : b ≠ 0) :
    floorDiv? a b = word? (a.toInt.fdiv b.toInt) := by
  by_cases hover : Overflows a b
  · rw [floorDiv?, if_pos (.inr hover), ← hover.tdiv_eq_fdiv, word?_of_not_isWord hover.not_isWord]
  · rw [floorDiv?, if_neg (not_or.2 ⟨hb, hover⟩), fdiv_toInt hb, ← toInt_div hover]
    split
    · next hstep =>
        have hone : (1 : Int64).toInt = 1 := rfl
        have hpred := isWord_pred_of_mod_ne_zero hstep.1
        rw [← toInt_div hover] at hpred
        have hsub : (a / b - 1).toInt = (a / b).toInt - 1 := by
          rw [Int64.toInt_sub, hone, Int.bmod_eq_of_le]
          · exact hpred.1
          · exact hpred.2
        rw [← hsub, word?_toInt]
    · rw [Int.sub_zero, word?_toInt]

/-! ### Nothing overflows -/

/-- The quotient cut toward zero, refused where it is no word. -/
def quotient? (a b : Int64) : Option Int64 :=
  if b = 0 then none else word? (a.toInt.tdiv b.toInt)

/-- The remainder of that quotient, refused where the quotient is. -/
def remainder? (a b : Int64) : Option Int64 :=
  (quotient? a b).bind fun _ => word? (a.toInt.tmod b.toInt)

/-- The floor quotient from operations that are refused on overflow.  The first division is meant to
be refused at times, and the floor quotient with it; that one of the others is refused would be a
mistake, and then there is nothing at all. -/
def guardedFloorDiv (a b : Int64) : Option (Option Int64) :=
  match quotient? a b with
  | none   => some none
  | some q =>
      (remainder? a b).bind fun r =>
        if r ≠ 0 ∧ ¬(a < 0 ↔ b < 0) then (word? (q.toInt - 1)).map some else some (some q)

/-- There is no quotient by zero, and none that overflows. -/
theorem quotient?_eq_none {a b : Int64} (h : b = 0 ∨ Overflows a b) : quotient? a b = none := by
  rcases h with hb | hover
  · exact if_pos hb
  · unfold quotient?
    split
    · rfl
    · exact word?_of_not_isWord hover.not_isWord

theorem quotient?_eq_some {a b : Int64} (h : ¬ (b = 0 ∨ Overflows a b)) :
    quotient? a b = some (a / b) := by
  obtain ⟨hb, hover⟩ := not_or.1 h
  rw [quotient?, if_neg hb, ← toInt_div hover, word?_toInt]

/-- **Of the operations that make up a floor quotient none but the first division overflows.** -/
theorem guardedFloorDiv_eq (a b : Int64) : guardedFloorDiv a b = some (floorDiv? a b) := by
  by_cases h : b = 0 ∨ Overflows a b
  · rw [guardedFloorDiv, quotient?_eq_none h, floorDiv?, if_pos h]
  · obtain ⟨hb, hover⟩ := not_or.1 h
    have hmod : remainder? a b = some (a % b) := by
      rw [remainder?, quotient?_eq_some h, Option.bind_some, ← Int64.toInt_mod, word?_toInt]
    have hfloor := floorDiv?_eq_word? (a := a) hb
    rw [fdiv_toInt hb] at hfloor
    rw [guardedFloorDiv, quotient?_eq_some h, hmod]
    dsimp only [Option.bind_some]
    rw [toInt_div hover]
    split
    · next hstep =>
        rw [if_pos hstep] at hfloor
        rw [hfloor, word?_of_isWord (isWord_pred_of_mod_ne_zero hstep.1), Option.map_some]
    · next hstep =>
        rw [if_neg hstep, Int.sub_zero, ← toInt_div hover, word?_toInt] at hfloor
        rw [hfloor]

end MiniPascal
