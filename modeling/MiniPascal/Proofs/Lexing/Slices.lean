import Mathlib.Data.String.Basic
import MiniPascal.Proofs.Lexing.Places

/-!
# Proofs — Lexing — Slices

The text at a span, and where tokens stand.  `span.slice s` is the text that a span covers; if the
span is that of a token of `s`, it is the lexeme of the token (`slice_of_scan`).  The tokens of a
text stand in its order, none of them reaching into the next, and none but the end is empty
(`ordered_of_scan`).
-/

namespace MiniPascal

namespace Span

/-- The text at a span. -/
def slice (s : String) (span : Span) : String :=
  String.Pos.Raw.extract s ⟨span.offset⟩ ⟨span.stop⟩

/-- The first span ends where the second begins, or in front of it. -/
def Before (a b : Span) : Prop := a.stop ≤ b.offset

/-- What stands somewhere in a text is the slice of the bytes that it takes there. -/
theorem slice_of_append {s : String} {front word back : List Char}
    (hs : s.toList = front ++ (word ++ back)) :
    slice s ⟨byteLength front, byteLength word⟩ = .ofList word := by
  have hbytes : ∀ cs, byteLength cs = String.utf8Len cs := fun cs => by
    rw [← String.utf8ByteSize_ofList, ← byteLength_toList, String.toList_ofList]
  have htext : s = .ofList (front ++ word ++ back) := by
    rw [List.append_assoc, ← hs, String.ofList_toList]
  rw [slice, stop, hbytes, hbytes, htext]
  exact String.extract_of_valid front word back

end Span

/-! ### Tokens one behind another -/

namespace LaysOut

variable {offset : Nat} {cs : List Char} {t : Token} {ts before : List Token}

/-- A token that is not the last is a lexeme behind trivia. -/
theorem exists_lexeme (h : LaysOut offset cs (t :: ts)) (hts : ts ≠ []) :
    ∃ gap rest, cs = gap ++ (t.lexeme.toList ++ rest) ∧ IsTrivia gap ∧ t.WellSpelled ∧
      t.kind.EndsAt rest ∧ t.span = ⟨offset + byteLength gap, byteLength t.lexeme.toList⟩ ∧
      LaysOut t.span.stop rest ts := by
  generalize hus : t :: ts = us at h
  induction h with
  | finish =>
      cases hus
      exact absurd rfl hts
  | @skip offset trivia cs _ ht _ ih =>
      obtain ⟨gap, rest, rfl, hgap, hspelled, hends, hspan, hrest⟩ := ih hus
      refine ⟨trivia ++ gap, rest, (List.append_assoc _ _ _).symm, ht.append hgap, hspelled, hends,
        ?_, hrest⟩
      rw [hspan, byteLength_append, Nat.add_assoc]
  | @lexeme offset kind word cs _ hw hr he hrest _ =>
      cases hus
      simp only [Token.WellSpelled, String.toList_ofList]
      exact ⟨[], cs, rfl, .nil, ⟨hw, hr⟩, he, rfl, hrest⟩

/-- Behind some tokens, a text lays out the others. -/
theorem exists_behind (h : LaysOut offset cs (before ++ ts)) (hts : ts ≠ []) :
    ∃ front rest, cs = front ++ rest ∧ LaysOut (offset + byteLength front) rest ts := by
  induction before generalizing offset cs with
  | nil => exact ⟨[], cs, rfl, h⟩
  | cons t before ih =>
      obtain ⟨gap, rest, rfl, -, -, -, hspan, hrest⟩ :=
        exists_lexeme h (List.append_ne_nil_of_right_ne_nil _ hts)
      obtain ⟨front, rest, rfl, hlaid⟩ := ih hrest
      refine ⟨gap ++ (t.lexeme.toList ++ front), rest, by simp, ?_⟩
      rw [hspan] at hlaid
      simpa [Span.stop, Nat.add_assoc] using hlaid

/-- Tokens are laid out one behind another. -/
theorem ordered (h : LaysOut offset cs ts) :
    ts.Pairwise (fun t u => t.span.Before u.span) ∧ ∀ t ∈ ts, offset ≤ t.span.offset := by
  induction h with
  | finish => exact ⟨List.pairwise_singleton _ _, List.forall_mem_singleton.2 (Nat.le_refl _)⟩
  | skip _ _ ih =>
      exact ⟨ih.1, fun t ht => Nat.le_trans (Nat.le_add_right _ _) (ih.2 t ht)⟩
  | lexeme _ _ _ _ ih =>
      refine ⟨List.pairwise_cons.2 ⟨ih.2, ih.1⟩, List.forall_mem_cons.2 ⟨Nat.le_refl _, ?_⟩⟩
      exact fun t ht => Nat.le_trans (Nat.le_add_right _ _) (ih.2 t ht)

end LaysOut

/-! ### The tokens of a text -/

section Tokens

variable {s : String} {w : List Token} {n : Nat}

/-- Every token before the end stands somewhere in the text. -/
theorem exists_place_of_scan (h : scan s = .ok (w ++ [.eof n])) {t : Token} (ht : t ∈ w) :
    ∃ front back, s.toList = front ++ (t.lexeme.toList ++ back) ∧
      t.span = ⟨byteLength front, byteLength t.lexeme.toList⟩ := by
  obtain ⟨before, after, rfl⟩ := List.append_of_mem ht
  have hlaid := scan_eq_ok_iff.1 h
  rw [List.append_assoc, List.cons_append] at hlaid
  obtain ⟨front, rest, hs, hlaid⟩ := hlaid.exists_behind (List.cons_ne_nil _ _)
  obtain ⟨gap, back, rfl, -, -, -, hspan, -⟩ :=
    hlaid.exists_lexeme (List.append_ne_nil_of_right_ne_nil _ (List.cons_ne_nil _ _))
  refine ⟨front ++ gap, back, by rw [hs, List.append_assoc], ?_⟩
  rw [hspan, Nat.zero_add, byteLength_append]

/-- **The slice at a token is its lexeme.** -/
theorem slice_of_scan (h : scan s = .ok (w ++ [.eof n])) {t : Token} (ht : t ∈ w) :
    t.span.slice s = t.lexeme := by
  obtain ⟨front, back, hs, hspan⟩ := exists_place_of_scan h ht
  rw [hspan, Span.slice_of_append hs, String.ofList_toList]

/-- **Tokens stand in the order of the text**, and each takes at least one byte. -/
theorem ordered_of_scan (h : scan s = .ok (w ++ [.eof n])) :
    w.Pairwise (fun t u => t.span.Before u.span) ∧ ∀ t ∈ w, t.span.offset < t.span.stop := by
  refine ⟨(List.pairwise_append.1 (scan_eq_ok_iff.1 h).ordered.1).1, fun t ht => ?_⟩
  obtain ⟨front, back, -, hspan⟩ := exists_place_of_scan h ht
  obtain ⟨c, cs, hlexeme, -, -⟩ := head_of_spells (wellSpelled_before_eof h t ht).1
  rw [hspan, Span.stop, hlexeme]
  exact Nat.lt_add_of_pos_right (byteLength_pos (List.cons_ne_nil c cs))

/-- The first token that begins at byte `n` of a text or behind it. -/
def tokenFrom? (s : String) (n : Nat) : Option Token :=
  (scan s).toOption.bind fun ts => ts.find? (n ≤ ·.span.offset)

/-- From the end of a token on, the first token is the next one. -/
theorem tokenFrom?_of_scan {front back : List Token} {t u : Token}
    (h : scan s = .ok (front ++ t :: u :: back)) (ht : t.span.offset < t.span.stop) :
    tokenFrom? s t.span.stop = some u := by
  obtain ⟨-, hordered, hbefore⟩ := List.pairwise_append.1 (scan_eq_ok_iff.1 h).ordered.1
  have hnext : t.span.stop ≤ u.span.offset := List.rel_of_pairwise_cons hordered (.head _)
  have hfront : front.find? (t.span.stop ≤ ·.span.offset) = none := by
    refine List.find?_eq_none.2 fun v hv => ?_
    have hstop : v.span.stop ≤ t.span.offset := hbefore v hv t (.head _)
    rw [Span.stop] at hstop
    rw [decide_eq_true_iff]
    omega
  rw [tokenFrom?, h]
  show List.find? _ (front ++ t :: u :: back) = some u
  rw [List.find?_append, hfront, Option.none_or, List.find?_cons_of_neg, List.find?_cons_of_pos]
  · exact decide_eq_true hnext
  · rw [decide_eq_true_iff]
    omega

end Tokens

end MiniPascal
