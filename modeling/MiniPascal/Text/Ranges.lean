/-!
# Text — Ranges

Sets of characters given as ascending ranges of code points.  `inRanges` walks the ranges in order
and stops at the first that lies beyond the code point, so a character near the front of the table
is settled at once.  It misses nothing by that, since the ranges ascend (`inRanges_iff`).
-/

namespace MiniPascal

/-- Membership of a code point in a list of closed ranges that ascend and do not touch. -/
def inRanges : List (Nat × Nat) → Nat → Bool
  | [],               _ => false
  | (lo, hi) :: rest, n => if n < lo then false else n ≤ hi || inRanges rest n

/-- Whether a table of ranges is fit for `inRanges`: each range is closed, and the next one begins
beyond it. -/
def ascending : List (Nat × Nat) → Bool
  | []                             => true
  | [(lo, hi)]                     => lo ≤ hi
  | (lo, hi) :: (lo', hi') :: rest => lo ≤ hi && hi < lo' && ascending ((lo', hi') :: rest)

/-- What lies in front of an ascending table lies in front of each of its ranges. -/
theorem le_of_ascending {lo hi : Nat} :
    ∀ {rest : List (Nat × Nat)}, ascending ((lo, hi) :: rest) = true → ∀ r ∈ rest, lo ≤ r.1
  | [],                 _, _, hr => nomatch hr
  | (lo', hi') :: rest, h, r, hr => by
      simp only [ascending, Bool.and_eq_true, decide_eq_true_eq] at h
      obtain ⟨⟨hclosed, hnext⟩, hrest⟩ := h
      have hbegins : lo ≤ lo' := by omega
      rcases List.mem_cons.1 hr with rfl | hr
      · exact hbegins
      · exact Nat.le_trans hbegins (le_of_ascending hrest r hr)

theorem ascending_tail {r : Nat × Nat} {rest : List (Nat × Nat)}
    (h : ascending (r :: rest) = true) : ascending rest = true := by
  cases rest with
  | nil => rfl
  | cons t rest => exact (Bool.and_eq_true_iff.1 h).2

/-- **A code point is found in an ascending table exactly if it lies in one of the ranges.** -/
theorem inRanges_iff {n : Nat} {table : List (Nat × Nat)} (h : ascending table = true) :
    inRanges table n = true ↔ ∃ r ∈ table, r.1 ≤ n ∧ n ≤ r.2 := by
  induction table with
  | nil => simp [inRanges]
  | cons head rest ih =>
      obtain ⟨lo, hi⟩ := head
      simp only [inRanges, List.mem_cons, exists_eq_or_imp]
      split
      · next hbefore =>
          -- The walk stops here, and the ranges behind begin later still.
          refine iff_of_false Bool.false_ne_true ?_
          rintro (⟨hlo, -⟩ | ⟨r, hr, hlo, -⟩)
          · exact Nat.not_lt.2 hlo hbefore
          · exact Nat.not_lt.2 (Nat.le_trans (le_of_ascending h r hr) hlo) hbefore
      · next hbehind =>
          rw [Bool.or_eq_true_iff, decide_eq_true_iff, ih (ascending_tail h)]
          exact or_congr_left ⟨fun hhi => ⟨Nat.not_lt.1 hbehind, hhi⟩, And.right⟩

end MiniPascal
