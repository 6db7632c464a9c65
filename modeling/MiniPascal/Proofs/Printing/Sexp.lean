import MiniPascal.Proofs.Lexing.Spelling

/-!
# Proofs — Printing — Sexp

S-expressions, and how they are read.  An S-expression is a word, or a list of S-expressions with a
word in front; it is written with a blank before each member of a list and parentheses around it.
If no word has blanks or parentheses in it, the text tells the expression, and where it ends in a
longer text (`Sexp.text_append_inj`).
-/

namespace MiniPascal

/-- A word, or a list with a word in front. -/
inductive Sexp where
  | atom (word : String)
  | list (head : String) (members : List Sexp)

/-- Blanks and parentheses, which separate words. -/
def isSeparator (c : Char) : Bool := c == ' ' || c == '(' || c == ')'

/-- Characters that separate nothing, at least one. -/
def Unseparated (word : String) : Prop :=
  word.toList ≠ [] ∧ ∀ c ∈ word.toList, isSeparator c = false

instance (word : String) : Decidable (Unseparated word) :=
  decidable_of_iff (word.toList.isEmpty = false ∧ word.toList.all (!isSeparator ·) = true)
    (by simp [Unseparated])

/-- Every word ends where `rest` begins. -/
def EndsWord (rest : List Char) : Prop := ∀ c ∈ rest.head?, isSeparator c = true

theorem endsWord_cons {c : Char} (h : isSeparator c = true) (cs : List Char) :
    EndsWord (c :: cs) := by
  rintro _ ⟨⟩
  exact h

/-- Where a word ends is told by what comes behind it. -/
theorem Unseparated.append_inj {w v : String} {r r' : List Char} (hw : Unseparated w)
    (hv : Unseparated v) (hr : EndsWord r) (hr' : EndsWord r')
    (h : w.toList ++ r = v.toList ++ r') : w = v ∧ r = r' := by
  have hrun : ∀ {u : String}, Unseparated u → ∀ c ∈ u.toList, (!isSeparator c) = true :=
    fun hu c hc => by rw [hu.2 c hc]; rfl
  have hstop : ∀ {r}, EndsWord r → ∀ c ∈ r.head?, (!isSeparator c) = false :=
    fun hr c hc => by rw [hr c hc]; rfl
  obtain ⟨hword, hrest⟩ := append_inj_of_stop (hrun hw) (hrun hv) (hstop hr) (hstop hr') h
  exact ⟨String.toList_inj.1 hword, hrest⟩

namespace Sexp

mutual

/-- The text of an S-expression. -/
def text : Sexp → String
  | .atom word         => word
  | .list head members => "(" ++ head ++ Sexp.listText members ++ ")"

/-- S-expressions, each behind a blank. -/
def listText : List Sexp → String
  | []      => ""
  | x :: xs => " " ++ x.text ++ Sexp.listText xs

end

mutual

/-- No word is empty, or has a separator in it. -/
def WellFormed : Sexp → Prop
  | .atom word         => Unseparated word
  | .list head members => Unseparated head ∧ Sexp.ListWellFormed members

/-- The same of S-expressions. -/
def ListWellFormed : List Sexp → Prop
  | []      => True
  | x :: xs => x.WellFormed ∧ Sexp.ListWellFormed xs

end

theorem listText_append (xs ys : List Sexp) : listText (xs ++ ys) = listText xs ++ listText ys := by
  induction xs with
  | nil => rw [List.nil_append, listText, String.empty_append]
  | cons x xs ih =>
      rw [List.cons_append, listText, listText, ih, String.append_assoc, String.append_assoc,
        String.append_assoc]

/-- Members one behind another are well formed if all are. -/
theorem listWellFormed_append (xs ys : List Sexp) :
    ListWellFormed (xs ++ ys) ↔ ListWellFormed xs ∧ ListWellFormed ys := by
  induction xs with
  | nil =>
      rw [List.nil_append, ListWellFormed, true_and]
  | cons x xs ih => rw [List.cons_append, ListWellFormed, ListWellFormed, ih, and_assoc]

/-! ### The characters of a text -/

theorem toList_text_list (head : String) (members : List Sexp) (r : List Char) :
    (list head members).text.toList ++ r =
      '(' :: (head.toList ++ ((listText members).toList ++ ')' :: r)) := by
  rw [text, String.toList_append, String.toList_append, String.toList_append]
  simp

theorem toList_listText_cons (x : Sexp) (xs : List Sexp) (r : List Char) :
    (listText (x :: xs)).toList ++ r = ' ' :: (x.text.toList ++ ((listText xs).toList ++ r)) := by
  rw [listText, String.toList_append, String.toList_append]
  simp

/-- What stands behind the word at the front of a list ends that word. -/
theorem endsWord_listText (members : List Sexp) (r : List Char) :
    EndsWord ((listText members).toList ++ ')' :: r) := by
  cases members with
  | nil =>
      rw [listText]
      exact endsWord_cons rfl r
  | cons x xs =>
      rw [toList_listText_cons]
      exact endsWord_cons rfl _

theorem text_atom (word : String) : (atom word).text = word := by rw [text]

/-- A word does not begin like a list. -/
theorem atom_ne_list {word head : String} {members : List Sexp} (hword : Unseparated word)
    (r r' : List Char) : word.toList ++ r ≠ (list head members).text.toList ++ r' := by
  intro h
  obtain ⟨c, cs, hc⟩ := List.exists_cons_of_ne_nil hword.1
  rw [toList_text_list, hc] at h
  obtain ⟨rfl, -⟩ := List.cons.inj h
  have hseparator := hword.2 '(' (hc ▸ .head _)
  cases hseparator

/-! ### Reading -/

mutual

/-- **The text of an S-expression tells the expression**, and where it ends. -/
theorem text_append_inj : ∀ (x y : Sexp) {r r' : List Char}, x.WellFormed → y.WellFormed →
    EndsWord r → EndsWord r' → x.text.toList ++ r = y.text.toList ++ r' → x = y ∧ r = r'
  | .atom w, .atom v, r, r', hx, hy, hr, hr', h => by
      rw [WellFormed] at hx hy
      rw [text_atom, text_atom] at h
      obtain ⟨rfl, hrest⟩ := hx.append_inj hy hr hr' h
      exact ⟨rfl, hrest⟩
  | .atom w, .list head members, r, r', hx, _, _, _, h => by
      rw [WellFormed] at hx
      rw [text_atom] at h
      exact absurd h (atom_ne_list hx r r')
  | .list head members, .atom v, r, r', _, hy, _, _, h => by
      rw [WellFormed] at hy
      rw [text_atom] at h
      exact absurd h.symm (atom_ne_list hy r' r)
  | .list head members, .list head' members', r, r', hx, hy, _, _, h => by
      rw [WellFormed] at hx hy
      rw [toList_text_list, toList_text_list] at h
      obtain ⟨rfl, hmembers⟩ := hx.1.append_inj hy.1 (endsWord_listText members r)
        (endsWord_listText members' r') (List.cons.inj h).2
      obtain ⟨rfl, hrest⟩ := listText_append_inj members members' hx.2 hy.2 hmembers
      exact ⟨rfl, hrest⟩

/-- The members of a list are told up to the parenthesis that closes it. -/
theorem listText_append_inj : ∀ (xs ys : List Sexp) {r r' : List Char}, ListWellFormed xs →
    ListWellFormed ys → (listText xs).toList ++ ')' :: r = (listText ys).toList ++ ')' :: r' →
    xs = ys ∧ r = r'
  | [], [], r, r', _, _, h => by
      rw [listText] at h
      exact ⟨rfl, (List.cons.inj h).2⟩
  | [], y :: ys, r, r', _, _, h => by
      rw [toList_listText_cons, listText] at h
      cases h
  | x :: xs, [], r, r', _, _, h => by
      rw [toList_listText_cons, listText] at h
      cases h
  | x :: xs, y :: ys, r, r', hx, hy, h => by
      rw [ListWellFormed] at hx hy
      rw [toList_listText_cons, toList_listText_cons] at h
      obtain ⟨rfl, hmembers⟩ := text_append_inj x y hx.1 hy.1 (endsWord_listText xs r)
        (endsWord_listText ys r') (List.cons.inj h).2
      obtain ⟨rfl, hrest⟩ := listText_append_inj xs ys hx.2 hy.2 hmembers
      exact ⟨rfl, hrest⟩

end

/-- **Well-formed S-expressions are told apart by their texts.** -/
theorem text_inj {x y : Sexp} (hx : x.WellFormed) (hy : y.WellFormed) (h : x.text = y.text) :
    x = y := by
  have hchars : x.text.toList ++ [] = y.text.toList ++ [] := by rw [h]
  have hend : EndsWord [] := fun _ hc => nomatch hc
  exact (text_append_inj x y hx hy hend hend hchars).1

end Sexp

end MiniPascal
