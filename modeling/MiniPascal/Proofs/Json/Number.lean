import MiniPascal.Json
import MiniPascal.Proofs.Decimal.Literal

/-!
# Proofs — Json — Number

The numbers of JSON texts: an integer without needless zeros in front, a fraction and an exponent,
the latter two if need be.  Integers and finite reals are written as such
(`isNumber_intText`, `isNumber_layout`).
-/

namespace MiniPascal

namespace Json

/-! ### The grammar of numbers -/

/-- Digits that do not begin with a zero, or a single one. -/
def IsWhole (cs : List Char) : Prop := cs ≠ [] ∧ AllDigits cs ∧ (cs.head? = some '0' → cs = ['0'])

/-- A point and digits, or nothing. -/
def IsFraction (cs : List Char) : Prop := cs = [] ∨ ∃ ds, cs = '.' :: ds ∧ ds ≠ [] ∧ AllDigits ds

/-- A power of ten, or nothing. -/
def IsExponent (cs : List Char) : Prop :=
  cs = [] ∨ ∃ sign ds, cs = 'e' :: (sign ++ ds) ∧ (sign = [] ∨ sign = ['-'] ∨ sign = ['+']) ∧
    ds ≠ [] ∧ AllDigits ds

/-- A number without a sign. -/
def IsUnsigned (cs : List Char) : Prop :=
  ∃ whole fraction exponent, cs = whole ++ (fraction ++ exponent) ∧ IsWhole whole ∧
    IsFraction fraction ∧ IsExponent exponent

/-- A JSON number. -/
def IsNumber (cs : List Char) : Prop :=
  IsUnsigned cs ∨ ∃ unsigned, cs = '-' :: unsigned ∧ IsUnsigned unsigned

/-! ### Digits -/

/-- Only zero begins with a zero. -/
theorem head_digitsOf_ne_zero {n : Nat} (hn : n ≠ 0) : (digitsOf n).head? ≠ some '0' := by
  induction n using Nat.strongRecOn with
  | ind n ih =>
      rcases Nat.lt_or_ge n 10 with hsmall | hlarge
      · have hdigit : ∀ m < 10, m ≠ 0 → Nat.digitChar m ≠ '0' := by decide
        rw [digitsOf, Nat.toDigits_of_lt_base hsmall]
        exact fun h => hdigit n hsmall hn (Option.some.inj h)
      · have hfront := ih (n / 10) (Nat.div_lt_self (by omega) (by decide)) (by omega)
        rw [digitsOf, Nat.toDigits_of_base_le (by decide) hlarge]
        rw [digitsOf] at hfront
        cases hdigits : Nat.toDigits 10 (n / 10) with
        | nil => exact absurd hdigits Nat.toDigits_ne_nil
        | cons c more =>
            rw [hdigits] at hfront
            exact hfront

/-- The digits of a number have no zero in front. -/
theorem isWhole_digitsOf (n : Nat) : IsWhole (digitsOf n) := by
  refine ⟨digitsOf_ne_nil n, allDigits_digitsOf n, fun h => ?_⟩
  by_cases hn : n = 0
  · rw [hn]
    rfl
  · exact absurd h (head_digitsOf_ne_zero hn)

theorem isWhole_singleton {c : Char} (h : c.isDigit = true) : IsWhole [c] :=
  ⟨by simp, by simpa [AllDigits] using h, fun hc => by rw [Option.some.inj hc]⟩

/-- Digits that do not begin with a zero, and some that they begin with. -/
theorem isWhole_of_head {cs : List Char} (hne : cs ≠ []) (hdigits : AllDigits cs)
    (h : cs.head? ≠ some '0') : IsWhole cs :=
  ⟨hne, hdigits, fun h' => absurd h' h⟩

/-! ### Integers -/

theorem isUnsigned_natText (n : Nat) : IsUnsigned (natText n).toList :=
  ⟨digitsOf n, [], [], by simp [natText], isWhole_digitsOf n, .inl rfl, .inl rfl⟩

theorem isNumber_intText (i : Int) : IsNumber (intText i).toList := by
  unfold intText
  split
  · exact .inr ⟨_, String.toList_append, isUnsigned_natText _⟩
  · exact .inl (isUnsigned_natText _)

/-! ### Reals -/

/-- The positional form, unless it begins with the digits of zero moved to the left. -/
theorem isUnsigned_positional {d : Decimal} (h : d.coefficient = 0 → d.exponent = 0) :
    IsUnsigned d.positional := by
  obtain ⟨c, x⟩ := d
  have hpointed : ∀ whole fraction, IsWhole whole → fraction ≠ [] → AllDigits fraction →
      IsUnsigned (whole ++ '.' :: fraction) := fun whole fraction hw hne hf =>
    ⟨whole, '.' :: fraction, [], by simp, hw, .inr ⟨fraction, rfl, hne, hf⟩, .inl rfl⟩
  have hne := digitsOf_ne_nil c
  have hdigits := allDigits_digitsOf c
  have hhead := head_digitsOf_ne_zero (n := c)
  dsimp only [Decimal.positional] at h ⊢
  by_cases hx : 0 ≤ x
  · rw [if_pos hx]
    refine hpointed _ ['0'] ?_ (by simp) (allDigits_zeros 1)
    by_cases hc : c = 0
    · rw [h hc, hc]
      exact isWhole_digitsOf 0
    · refine isWhole_of_head (by simp [hne]) (hdigits.append (allDigits_zeros _)) ?_
      rw [List.head?_append, Option.or_of_isSome (List.isSome_head?.2 hne)]
      exact hhead hc
  · rw [if_neg hx]
    have hc : c ≠ 0 := fun hc => hx (Int.le_of_eq (h hc).symm)
    split
    · next hn =>
        obtain ⟨k, hk⟩ : ∃ k, (digitsOf c).length - (-x).toNat = k + 1 :=
          Nat.exists_eq_succ_of_ne_zero (by omega)
        refine hpointed _ _ (isWhole_of_head ?_ ?_ ?_) ?_ ?_
        · simp [hk, hne]
        · exact fun c hc => hdigits c (List.mem_of_mem_take hc)
        · rw [hk, List.head?_take, if_neg (Nat.succ_ne_zero k)]
          exact hhead hc
        · rw [Ne, List.drop_eq_nil_iff]
          omega
        · exact fun c hc => hdigits c (List.mem_of_mem_drop hc)
    · exact hpointed ['0'] _ (isWhole_singleton rfl) (by simp [hne])
        ((allDigits_zeros _).append hdigits)

/-- A decimal with an exponent is written as JSON has it. -/
theorem isUnsigned_scientific (plus : Bool) (d : Decimal) : IsUnsigned (d.scientific plus) := by
  have hdigits := allDigits_digitsOf d.coefficient
  have hne := digitsOf_ne_nil d.coefficient
  have hexponent : IsExponent ('e' :: ((if d.leadingExponent < 0 then ['-']
      else if plus then ['+'] else []) ++ digitsOf d.leadingExponent.natAbs)) := by
    refine .inr ⟨_, _, rfl, ?_, digitsOf_ne_nil _, allDigits_digitsOf _⟩
    split
    · simp
    · split <;> simp
  dsimp only [Decimal.scientific]
  generalize digitsOf d.coefficient = ds at hdigits hne ⊢
  match ds, hne with
  | [lead], _ =>
      exact ⟨[lead], [], _, rfl, isWhole_singleton (hdigits _ (.head _)), .inl rfl, hexponent⟩
  | lead :: next :: more, _ =>
      refine ⟨[lead], '.' :: next :: more, _, rfl, isWhole_singleton (hdigits _ (.head _)),
        .inr ⟨next :: more, rfl, by simp, fun c hc => hdigits c (.tail _ hc)⟩, hexponent⟩

/-- Only zero has the coefficient zero. -/
theorem shortest_coefficient {tie : Tie} {m : Nat} (h : (Decimal.shortest tie m).coefficient = 0) :
    (Decimal.shortest tie m).exponent = 0 := by
  obtain ⟨e, -, hreads⟩ := Decimal.reads_shortest tie m
  have hzero : Binary64.nearestMagnitude 0 Decimal.stepsPerUnit = 0 := by
    have hscale := Binary64.nearestMagnitude_units_mul Decimal.stepsPerUnit_pos 0
    rwa [Binary64.units_zero, Nat.zero_mul] at hscale
  rw [h, Nat.zero_mul, Decimal.readsBack_iff, hzero] at hreads
  rw [← hreads]
  rfl

/-- **A finite real is written as a JSON number**, however it is laid out. -/
theorem isNumber_layout (l : Layout) {x : Binary64} (h : x.isFinite = true) :
    IsNumber (x.text l).toList := by
  cases x with
  | nan => cases h
  | infinite => cases h
  | finite s m =>
      rw [Binary64.text, String.toList_ofList]
      have hbody : IsUnsigned
          (if l.positional (Decimal.shortest l.tie m).leadingExponent then
            (Decimal.shortest l.tie m).positional
          else (Decimal.shortest l.tie m).scientific l.plus) := by
        split
        · exact isUnsigned_positional shortest_coefficient
        · exact isUnsigned_scientific _ _
      cases s with
      | false => exact .inl hbody
      | true => exact .inr ⟨_, rfl, hbody⟩

theorem isNumber_realText {x : Binary64} (h : x.isFinite = true) :
    IsNumber (realText x).toList := by
  rw [realText, if_pos h]
  exact isNumber_layout .json h

end Json

end MiniPascal
