import MiniPascal.Input
import MiniPascal.Proofs.Lexing.Scan

/-!
# Proofs — Lexing — Places

Where the results of an input stand.  A result stands behind all that was read before it, so the
results of an input stand in ascending order (`ascending_results`).  They are what calls of `next`
one after another yield (`take_results`), and a scan fails with the first fault among them.
-/

namespace MiniPascal

/-- The byte that a token or a fault stands at. -/
def Pulled.offset : Pulled → Nat
  | .ok t    => t.span.offset
  | .error e => e.span.offset

/-- What is not empty has bytes. -/
theorem byteLength_pos {cs : List Char} (h : cs ≠ []) : 0 < byteLength cs := by
  obtain ⟨c, cs, rfl⟩ := List.exists_cons_of_ne_nil h
  rw [byteLength_cons]
  exact Nat.add_pos_left c.utf8Size_pos _

namespace Input

/-! ### One step -/

theorem offset_token (i : Input) (kind : Token.Kind) (word : List Char) :
    (i.token kind word).offset = i.offset := by
  unfold token
  split
  · split <;> rfl
  · split <;> rfl
  · rfl

theorem offset_nextLexeme (i : Input) : i.nextLexeme.1.offset = i.offset := by
  unfold nextLexeme
  split
  · rfl
  · rfl
  · split
    · exact offset_token _ _ _
    · rfl

/-- What is not the end of the text takes at least one byte. -/
theorem nextLexeme_further {i : Input} (h : i.nextLexeme.1.atEnd = false) :
    i.offset < i.nextLexeme.2.offset := by
  unfold nextLexeme at h ⊢
  split at h
  · cases h
  · next hc => exact Nat.lt_add_of_pos_right (byteLength_pos (by rw [hc]; exact nofun))
  · next c rest _ hc =>
      split at h
      · next hl => exact Nat.lt_add_of_pos_right (byteLength_pos (lexeme?_ne_nil hl))
      · exact Nat.lt_add_of_pos_right (byteLength_pos nofun)

/-- Trivia may lie before the next result. -/
theorem le_offset_next (i : Input) : i.offset ≤ i.next.1.offset := by
  rw [next, offset_nextLexeme]
  exact Nat.le_add_right _ _

/-- A call that is not at the end leads on. -/
theorem offset_next_lt {i : Input} (h : i.next.1.atEnd = false) :
    i.next.1.offset < i.next.2.offset := by
  rw [next] at h ⊢
  rw [offset_nextLexeme]
  exact nextLexeme_further h

/-! ### All steps -/

/-- **The results of an input stand in ascending order**, none of them before the input. -/
theorem ascending_results (i : Input) :
    i.results.Pairwise (fun r r' => r.offset < r'.offset) ∧
      ∀ r ∈ i.results, i.offset ≤ r.offset := by
  cases hend : i.next.1.atEnd with
  | true =>
      rw [results_of_atEnd hend]
      exact ⟨List.pairwise_singleton _ _, List.forall_mem_singleton.2 i.le_offset_next⟩
  | false =>
      have hshorter := next_shorter hend
      obtain ⟨hascending, hbehind⟩ := ascending_results i.next.2
      have hfurther := offset_next_lt hend
      rw [results_of_not_atEnd hend, List.pairwise_cons, List.forall_mem_cons]
      refine ⟨⟨fun r hr => Nat.lt_of_lt_of_le hfurther (hbehind r hr), hascending⟩,
        i.le_offset_next, fun r hr => ?_⟩
      exact Nat.le_trans i.le_offset_next
        (Nat.le_trans (Nat.le_of_lt hfurther) (hbehind r hr))
termination_by i.chars.length

/-- What calls of `next` yield one after another. -/
def calls : Nat → Input → List Pulled
  | 0,     _ => []
  | n + 1, i => i.next.1 :: calls n i.next.2

/-- The first results of an input are what as many calls yield. -/
theorem take_results (n : Nat) :
    ∀ i : Input, n ≤ i.results.length → i.results.take n = calls n i := by
  induction n with
  | zero => exact fun _ _ => rfl
  | succ n ih =>
      intro i hn
      rw [calls]
      cases hend : i.next.1.atEnd with
      | true =>
          rw [results_of_atEnd hend] at hn ⊢
          obtain rfl : n = 0 := Nat.le_zero.1 (Nat.le_of_succ_le_succ hn)
          rfl
      | false =>
          rw [results_of_not_atEnd hend] at hn ⊢
          rw [List.take_succ_cons, ih i.next.2 (Nat.le_of_succ_le_succ hn)]

end Input

/-! ### The first fault -/

/-- Values before the first error are passed over. -/
theorem allOk_append_error {ε α : Type} (as : List α) (e : ε) (rs : List (Except ε α)) :
    allOk (as.map .ok ++ .error e :: rs) = .error e := by
  induction as with
  | nil => rfl
  | cons a as ih => rw [List.map_cons, List.cons_append, allOk, ih]; rfl

/-- The error that stands for all results is one of them. -/
theorem mem_of_allOk_eq_error {ε α : Type} {rs : List (Except ε α)} {e : ε}
    (h : allOk rs = .error e) : .error e ∈ rs := by
  induction rs with
  | nil => cases h
  | cons r rs ih =>
      cases r with
      | error f => cases h; exact .head _
      | ok a =>
          cases hrs : allOk rs with
          | error f => rw [allOk, hrs] at h; cases h; exact .tail _ (ih hrs)
          | ok as => rw [allOk, hrs] at h; cases h

end MiniPascal
