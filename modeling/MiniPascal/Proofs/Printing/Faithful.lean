import MiniPascal.Proofs.Number.Literal
import MiniPascal.Proofs.Printing.Blind
import MiniPascal.Proofs.Printing.Sexp

/-!
# Proofs — Printing — Faithful

The S-expression of a program tells the program.  What is printed of a tree is the text of an
S-expression (`Program.sexp_eq`).  If names are spelled like names and reals are finite, no word of
it has a blank or a parenthesis in it, so the text tells the S-expression; and this tells the tree
but for its places.  An operation and a sign differ in the number of their operands, a name and a
number in their first characters, statements and declarations of two kinds in the word in front, and
the body of a procedure is the last of its members, whatever the declarations before it are.  Main
statement (`Program.sexp_faithful`): the S-expressions of two programs are the same exactly if the
programs are, up to places.
-/

namespace MiniPascal

/-! ### Trees that can be told -/

/-- An expression whose names are spelled like names, and whose reals are finite. -/
def Expression.Printable : Expression → Prop
  | .binary _ l r _ => l.Printable ∧ r.Printable
  | .unary _ e _    => e.Printable
  | .num n _        => n.Finite
  | .var name _     => Nameable name

mutual

/-- A statement of which the same is true. -/
def Statement.Printable : Statement → Prop
  | .compound ss _           => Statement.ListPrintable ss
  | .assign target _ value _ => Nameable target ∧ value.Printable
  | .noop                    => True

/-- Statements of which it is true. -/
def Statement.ListPrintable : List Statement → Prop
  | []      => True
  | s :: ss => s.Printable ∧ Statement.ListPrintable ss

end

mutual

/-- A declaration of which it is true. -/
def Declaration.Printable : Declaration → Prop
  | .var name _ _                => Nameable name
  | .procedure name decls body _ =>
      Nameable name ∧ Declaration.ListPrintable decls ∧ Statement.ListPrintable body.statements

/-- Declarations of which it is true. -/
def Declaration.ListPrintable : List Declaration → Prop
  | []      => True
  | d :: ds => d.Printable ∧ Declaration.ListPrintable ds

end

/-- A program whose names are spelled like names, and whose reals are finite. -/
def Program.Printable (p : Program) : Prop :=
  Nameable p.name ∧ Declaration.ListPrintable p.block.decls ∧
    Statement.ListPrintable p.block.body.statements

/-! ### Trees as S-expressions -/

/-- An expression as an S-expression. -/
def Expression.toSexp : Expression → Sexp
  | .binary op l r _ => .list op.text [l.toSexp, r.toSexp]
  | .unary op e _    => .list op.text [e.toSexp]
  | .num n _         => .atom (n.text .literal)
  | .var name _      => .atom name

mutual

/-- A statement as an S-expression. -/
def Statement.toSexp : Statement → Sexp
  | .compound ss _           => .list "begin" (Statement.listToSexp ss)
  | .assign target _ value _ => .list ":=" [.atom target, value.toSexp]
  | .noop                    => .atom "noop"

/-- Statements as S-expressions. -/
def Statement.listToSexp : List Statement → List Sexp
  | []      => []
  | s :: ss => s.toSexp :: Statement.listToSexp ss

end

/-- A compound as an S-expression. -/
def Compound.toSexp (c : Compound) : Sexp := .list "begin" (Statement.listToSexp c.statements)

mutual

/-- A declaration as an S-expression, in which the body of a procedure comes last. -/
def Declaration.toSexp : Declaration → Sexp
  | .var name type _             => .list "var" [.atom name, .atom type.text]
  | .procedure name decls body _ =>
      .list "procedure" (.atom name :: (Declaration.listToSexp decls ++ [body.toSexp]))

/-- Declarations as S-expressions. -/
def Declaration.listToSexp : List Declaration → List Sexp
  | []      => []
  | d :: ds => d.toSexp :: Declaration.listToSexp ds

end

/-- A program as an S-expression. -/
def Program.toSexp (p : Program) : Sexp :=
  .list "program"
    (.atom p.name :: (Declaration.listToSexp p.block.decls ++ [p.block.body.toSexp]))

/-! ### What is printed -/

namespace Sexp

/-- The text of a list, with its head and its members. -/
theorem text_list (head : String) (members : List Sexp) :
    (list head members).text = "(" ++ head ++ listText members ++ ")" := by rw [text]

theorem listText_nil : listText [] = "" := by rw [listText]

theorem listText_cons (x : Sexp) (xs : List Sexp) :
    listText (x :: xs) = " " ++ x.text ++ listText xs := by rw [listText]

/-- A list with a name in front and one member at the end. -/
theorem text_named (head name : String) (xs : List Sexp) (y : Sexp) :
    (list head (.atom name :: (xs ++ [y]))).text =
      "(" ++ head ++ " " ++ name ++ listText xs ++ " " ++ y.text ++ ")" := by
  simp only [text_list, listText_cons, listText_append, listText_nil, text_atom,
    String.append_assoc, String.append_empty]

end Sexp

/-- An expression is shown as its S-expression is; so with everything below. -/
theorem Expression.sexp_eq (e : Expression) : e.sexp = e.toSexp.text := by
  induction e with
  | binary op l r _ ihl ihr =>
      simp only [sexp, toSexp, Sexp.text_list, Sexp.listText_cons, Sexp.listText_nil, ihl, ihr,
        String.append_assoc, String.append_empty]
  | unary op e _ ih =>
      simp only [sexp, toSexp, Sexp.text_list, Sexp.listText_cons, Sexp.listText_nil, ih,
        String.append_assoc, String.append_empty]
  | num n _ => exact (Sexp.text_atom _).symm
  | var name _ => exact (Sexp.text_atom _).symm

mutual

theorem Statement.sexp_eq : ∀ s : Statement, s.sexp = s.toSexp.text
  | .compound ss _           => by
      rw [sexp, toSexp, Sexp.text_list, listSexp_eq ss]
      rfl
  | .assign target _ value _ => by
      rw [sexp, toSexp, value.sexp_eq]
      simp only [Sexp.text_list, Sexp.listText_cons, Sexp.listText_nil, Sexp.text_atom,
        String.append_assoc, String.append_empty]
      rfl
  | .noop                    => by rw [sexp, toSexp, Sexp.text_atom]

theorem Statement.listSexp_eq : ∀ ss, listSexp ss = Sexp.listText (listToSexp ss)
  | []      => by rw [listSexp, listToSexp, Sexp.listText_nil]
  | s :: ss => by rw [listSexp, listToSexp, Sexp.listText_cons, s.sexp_eq, listSexp_eq ss]

end

theorem Compound.sexp_eq (c : Compound) : c.sexp = c.toSexp.text := by
  rw [sexp, toSexp, Sexp.text_list, Statement.listSexp_eq]
  rfl

mutual

theorem Declaration.sexp_eq : ∀ d : Declaration, d.sexp = d.toSexp.text
  | .var name type _             => by
      rw [sexp, toSexp]
      simp only [Sexp.text_list, Sexp.listText_cons, Sexp.listText_nil, Sexp.text_atom,
        String.append_assoc, String.append_empty]
      rfl
  | .procedure name decls body _ => by
      rw [sexp, toSexp, Sexp.text_named, listSexp_eq decls, body.sexp_eq]
      rfl

theorem Declaration.listSexp_eq : ∀ ds, listSexp ds = Sexp.listText (listToSexp ds)
  | []      => by rw [listSexp, listToSexp, Sexp.listText_nil]
  | d :: ds => by rw [listSexp, listToSexp, Sexp.listText_cons, d.sexp_eq, listSexp_eq ds]

end

/-- **What is printed of a program is the text of an S-expression**, and a line end. -/
theorem Program.sexp_eq (p : Program) : p.sexp = p.toSexp.text ++ "\n" := by
  rw [sexp, toSexp, Sexp.text_named, Declaration.listSexp_eq, Compound.sexp_eq]
  simp only [String.append_assoc]
  rfl

/-! ### Words without separators -/

/-- What a name is made of separates nothing. -/
theorem isSeparator_of_isAlphanumeric {c : Char} (h : isAlphanumeric c = true) :
    isSeparator c = false := by
  refine Bool.eq_false_iff.2 fun hc => ?_
  simp only [isSeparator, Bool.or_eq_true, beq_iff_eq] at hc
  rcases hc with (rfl | rfl) | rfl <;> exact absurd h (by decide)

theorem isSeparator_of_isDigit {c : Char} (h : c.isDigit = true) : isSeparator c = false := by
  refine Bool.eq_false_iff.2 fun hc => ?_
  simp only [isSeparator, Bool.or_eq_true, beq_iff_eq] at hc
  rcases hc with (rfl | rfl) | rfl <;> cases h

/-- A name is one atom. -/
theorem Nameable.unseparated {name : String} (h : Nameable name) : Unseparated name := by
  obtain ⟨⟨c, cs, hname, hc, hcs⟩, -⟩ := h
  have hc' : isAlphanumeric c = true := Bool.or_eq_true_iff.2 (.inl hc)
  rw [Unseparated, hname]
  refine ⟨List.cons_ne_nil _ _, List.forall_mem_cons.2 ⟨isSeparator_of_isAlphanumeric hc', ?_⟩⟩
  exact fun d hd => isSeparator_of_isAlphanumeric (hcs d hd)

/-- A literal has no separators in it, with a sign or without. -/
theorem signed_unseparated {kind : Token.Kind} {word : List Char} (s : Bool)
    (hkind : kind = .integerConst ∨ kind = .realConst) (h : kind.Spells word) :
    signed s word ≠ [] ∧ ∀ c ∈ signed s word, isSeparator c = false := by
  have hdigits : ∀ {ds}, AllDigits ds → ∀ c ∈ ds, isSeparator c = false :=
    fun hds c hc => isSeparator_of_isDigit (hds c hc)
  have hword : word ≠ [] ∧ ∀ c ∈ word, isSeparator c = false := by
    rcases hkind with rfl | rfl
    · exact ⟨h.1, hdigits h.2⟩
    · obtain ⟨whole, fraction, rfl, -, hwhole, hfraction⟩ := h
      exact ⟨by simp, List.forall_mem_append.2
        ⟨hdigits hwhole, List.forall_mem_cons.2 ⟨rfl, hdigits hfraction⟩⟩⟩
  cases s with
  | true => exact ⟨List.cons_ne_nil _ _, List.forall_mem_cons.2 ⟨rfl, hword.2⟩⟩
  | false => exact hword

/-- A finite number is one atom. -/
theorem Number.unseparated_text {n : Number} (hn : n.Finite) : Unseparated (n.text .literal) := by
  obtain ⟨s, word, hword, htext⟩ := exists_signed hn
  rw [Unseparated, htext]
  exact signed_unseparated s n.kind_isNumber hword

/-- What is printable has a well-formed S-expression; so with everything below. -/
theorem Expression.wellFormed_toSexp {e : Expression} (h : e.Printable) :
    e.toSexp.WellFormed := by
  induction e with
  | binary op l r _ ihl ihr =>
      rw [toSexp, Sexp.WellFormed, Sexp.ListWellFormed, Sexp.ListWellFormed, Sexp.ListWellFormed]
      exact ⟨by cases op <;> decide, ihl h.1, ihr h.2, trivial⟩
  | unary op e _ ih =>
      rw [toSexp, Sexp.WellFormed, Sexp.ListWellFormed, Sexp.ListWellFormed]
      exact ⟨by cases op <;> decide, ih h, trivial⟩
  | num n _ =>
      rw [toSexp, Sexp.WellFormed]
      exact Number.unseparated_text h
  | var name _ =>
      rw [toSexp, Sexp.WellFormed]
      exact Nameable.unseparated h

mutual

theorem Statement.wellFormed_toSexp : ∀ {s : Statement}, s.Printable → s.toSexp.WellFormed
  | .compound ss _, h           => by
      rw [Printable] at h
      rw [toSexp, Sexp.WellFormed]
      exact ⟨by decide, wellFormed_listToSexp h⟩
  | .assign target _ value _, h => by
      rw [Printable] at h
      rw [toSexp, Sexp.WellFormed, Sexp.ListWellFormed, Sexp.WellFormed, Sexp.ListWellFormed,
        Sexp.ListWellFormed]
      exact ⟨by decide, h.1.unseparated, value.wellFormed_toSexp h.2, trivial⟩
  | .noop, _                    => by
      rw [toSexp, Sexp.WellFormed]
      decide

theorem Statement.wellFormed_listToSexp : ∀ {ss : List Statement}, ListPrintable ss →
    Sexp.ListWellFormed (listToSexp ss)
  | [], _      => by rw [listToSexp, Sexp.ListWellFormed]; trivial
  | s :: ss, h => by
      rw [ListPrintable] at h
      rw [listToSexp, Sexp.ListWellFormed]
      exact ⟨wellFormed_toSexp h.1, wellFormed_listToSexp h.2⟩

end

theorem Compound.wellFormed_toSexp {c : Compound} (h : Statement.ListPrintable c.statements) :
    c.toSexp.WellFormed := by
  rw [toSexp, Sexp.WellFormed]
  exact ⟨by decide, Statement.wellFormed_listToSexp h⟩

/-- A list with a name in front and one member at the end. -/
theorem Sexp.wellFormed_named {head name : String} {xs : List Sexp} {y : Sexp}
    (hhead : Unseparated head) (hname : Nameable name) (hxs : ListWellFormed xs)
    (hy : y.WellFormed) : (list head (.atom name :: (xs ++ [y]))).WellFormed := by
  rw [WellFormed, ListWellFormed, WellFormed, listWellFormed_append, ListWellFormed, ListWellFormed]
  exact ⟨hhead, hname.unseparated, hxs, hy, trivial⟩

mutual

theorem Declaration.wellFormed_toSexp : ∀ {d : Declaration}, d.Printable → d.toSexp.WellFormed
  | .var name type _, h             => by
      rw [Printable] at h
      rw [toSexp, Sexp.WellFormed, Sexp.ListWellFormed, Sexp.WellFormed, Sexp.ListWellFormed,
        Sexp.WellFormed, Sexp.ListWellFormed]
      exact ⟨by decide, h.unseparated, by cases type <;> decide, trivial⟩
  | .procedure name decls body _, h => by
      rw [Printable] at h
      rw [toSexp]
      exact Sexp.wellFormed_named (by decide) h.1 (wellFormed_listToSexp h.2.1)
        (body.wellFormed_toSexp h.2.2)

theorem Declaration.wellFormed_listToSexp : ∀ {ds : List Declaration}, ListPrintable ds →
    Sexp.ListWellFormed (listToSexp ds)
  | [], _      => by rw [listToSexp, Sexp.ListWellFormed]; trivial
  | d :: ds, h => by
      rw [ListPrintable] at h
      rw [listToSexp, Sexp.ListWellFormed]
      exact ⟨wellFormed_toSexp h.1, wellFormed_listToSexp h.2⟩

end

theorem Program.wellFormed_toSexp {p : Program} (h : p.Printable) : p.toSexp.WellFormed :=
  Sexp.wellFormed_named (by decide) h.1 (Declaration.wellFormed_listToSexp h.2.1)
    (Compound.wellFormed_toSexp h.2.2)

/-! ### The S-expression tells the tree -/

theorem Operator.text_injective : Function.Injective Operator.text := by
  rintro (_ | _ | _ | _ | _) (_ | _ | _ | _ | _) h <;> first | rfl | exact absurd h (by decide)

theorem Sign.text_injective : Function.Injective Sign.text := by
  rintro (_ | _) (_ | _) h <;> first | rfl | exact absurd h (by decide)

theorem TypeName.text_injective : Function.Injective TypeName.text := by
  rintro (_ | _) (_ | _) h <;> first | rfl | exact absurd h (by decide)

/-- A name is not a number: it begins with a letter, and a number with a digit or a sign. -/
theorem Nameable.ne_literal {name : String} (hname : Nameable name) {n : Number}
    (hn : n.Finite) : name ≠ n.text .literal := by
  rintro rfl
  obtain ⟨⟨c, cs, hc, halpha, -⟩, -⟩ := hname
  obtain ⟨s, word, hword, htext⟩ := n.exists_signed hn
  obtain ⟨d, ds, rfl, hdigit⟩ := Token.Kind.digit_of_spells_number n.kind_isNumber hword
  rw [hc] at htext
  cases s with
  | true =>
      obtain ⟨rfl, -⟩ := List.cons.inj htext
      exact absurd halpha (by decide)
  | false =>
      obtain ⟨rfl, -⟩ := List.cons.inj htext
      rw [not_isDigit_of_isAlphabetic halpha] at hdigit
      cases hdigit

/-- Nodes of two kinds are S-expressions of two shapes: operators have two operands, signs have one,
and names are not numbers. -/
theorem Expression.bare_of_toSexp {e f : Expression} (he : e.Printable) (hf : f.Printable)
    (h : e.toSexp = f.toSexp) : e.bare = f.bare := by
  induction e generalizing f with
  | binary op l r _ ihl ihr =>
      cases f with
      | binary op' l' r' _ =>
          obtain ⟨hop, hmembers⟩ := Sexp.list.inj h
          obtain ⟨hl, hr⟩ := List.cons.inj hmembers
          rw [bare, bare, Operator.text_injective hop, ihl he.1 hf.1 hl,
            ihr he.2 hf.2 (List.cons.inj hr).1]
      | unary _ _ _ => cases (List.cons.inj (Sexp.list.inj h).2).2
      | num _ _ => cases h
      | var _ _ => cases h
  | unary op e _ ih =>
      cases f with
      | binary _ _ _ _ => cases (List.cons.inj (Sexp.list.inj h).2).2
      | unary op' e' _ =>
          obtain ⟨hop, hmembers⟩ := Sexp.list.inj h
          rw [bare, bare, Sign.text_injective hop, ih (f := e') he hf (List.cons.inj hmembers).1]
      | num _ _ => cases h
      | var _ _ => cases h
  | num m _ =>
      cases f with
      | binary _ _ _ _ => cases h
      | unary _ _ _ => cases h
      | num n _ => rw [bare, bare, Number.literal_injective he hf (Sexp.atom.inj h)]
      | var name _ => exact absurd (Sexp.atom.inj h).symm (Nameable.ne_literal hf he)
  | var name _ =>
      cases f with
      | binary _ _ _ _ => cases h
      | unary _ _ _ => cases h
      | num n _ => exact absurd (Sexp.atom.inj h) (Nameable.ne_literal he hf)
      | var name' _ => rw [bare, bare, Sexp.atom.inj h]

mutual

/-- Statements of two kinds differ in front. -/
theorem Statement.bare_of_toSexp : ∀ (s t : Statement), s.Printable → t.Printable →
    s.toSexp = t.toSexp → s.bare = t.bare
  | .compound ss _, .compound ts _, hs, ht, h                       => by
      rw [Printable] at hs ht
      rw [toSexp, toSexp] at h
      rw [bare, bare, listBare_of_listToSexp ss ts hs ht (Sexp.list.inj h).2]
  | .assign target _ value _, .assign target' _ value' _, hs, ht, h => by
      rw [Printable] at hs ht
      rw [toSexp, toSexp] at h
      obtain ⟨htarget, hvalue⟩ := List.cons.inj (Sexp.list.inj h).2
      rw [bare, bare, Sexp.atom.inj htarget,
        Expression.bare_of_toSexp hs.2 ht.2 (List.cons.inj hvalue).1]
  | .noop, .noop, _, _, _                                           => rfl
  | .compound _ _, .assign _ _ _ _, _, _, h                         => by
      rw [toSexp, toSexp] at h
      exact absurd (Sexp.list.inj h).1 (by decide)
  | .assign _ _ _ _, .compound _ _, _, _, h                         => by
      rw [toSexp, toSexp] at h
      exact absurd (Sexp.list.inj h).1 (by decide)
  | .compound _ _, .noop, _, _, h                                   => by
      rw [toSexp, toSexp] at h
      cases h
  | .assign _ _ _ _, .noop, _, _, h                                 => by
      rw [toSexp, toSexp] at h
      cases h
  | .noop, .compound _ _, _, _, h                                   => by
      rw [toSexp, toSexp] at h
      cases h
  | .noop, .assign _ _ _ _, _, _, h                                 => by
      rw [toSexp, toSexp] at h
      cases h

/-- Rows of statements with equal S-expressions differ in spans alone. -/
theorem Statement.listBare_of_listToSexp : ∀ (ss ts : List Statement), ListPrintable ss →
    ListPrintable ts → listToSexp ss = listToSexp ts → listBare ss = listBare ts
  | [], [], _, _, _             => rfl
  | [], t :: ts, _, _, h        => by
      rw [listToSexp, listToSexp] at h
      cases h
  | s :: ss, [], _, _, h        => by
      rw [listToSexp, listToSexp] at h
      cases h
  | s :: ss, t :: ts, hs, ht, h => by
      rw [ListPrintable] at hs ht
      rw [listToSexp, listToSexp] at h
      obtain ⟨hhead, htail⟩ := List.cons.inj h
      rw [listBare, listBare, bare_of_toSexp s t hs.1 ht.1 hhead,
        listBare_of_listToSexp ss ts hs.2 ht.2 htail]

end

theorem Compound.bare_of_toSexp {c d : Compound} (hc : Statement.ListPrintable c.statements)
    (hd : Statement.ListPrintable d.statements) (h : c.toSexp = d.toSexp) : c.bare = d.bare := by
  rw [bare, bare, Statement.listBare_of_listToSexp _ _ hc hd (Sexp.list.inj h).2]

/-- The last member of a list with a name in front is told from those between. -/
theorem Sexp.named_inj {head head' name name' : String} {xs xs' : List Sexp} {y y' : Sexp}
    (h : list head (.atom name :: (xs ++ [y])) = list head' (.atom name' :: (xs' ++ [y']))) :
    name = name' ∧ xs = xs' ∧ y = y' := by
  obtain ⟨hname, hmembers⟩ := List.cons.inj (list.inj h).2
  obtain ⟨hxs, hy⟩ := List.append_inj' hmembers rfl
  exact ⟨atom.inj hname, hxs, (List.cons.inj hy).1⟩

mutual

/-- Declarations of two kinds differ in front. -/
theorem Declaration.bare_of_toSexp : ∀ (d e : Declaration), d.Printable → e.Printable →
    d.toSexp = e.toSexp → d.bare = e.bare
  | .var name type _, .var name' type' _, _, _, h                               => by
      rw [toSexp, toSexp] at h
      obtain ⟨hname, htype⟩ := List.cons.inj (Sexp.list.inj h).2
      rw [bare, bare, Sexp.atom.inj hname,
        TypeName.text_injective (Sexp.atom.inj (List.cons.inj htype).1)]
  | .procedure name decls body _, .procedure name' decls' body' _, hd, he, h    => by
      rw [Printable] at hd he
      rw [toSexp, toSexp] at h
      obtain ⟨rfl, hdecls, hbody⟩ := Sexp.named_inj h
      rw [bare, bare, listBare_of_listToSexp decls decls' hd.2.1 he.2.1 hdecls,
        Compound.bare_of_toSexp hd.2.2 he.2.2 hbody]
  | .var _ _ _, .procedure _ _ _ _, _, _, h                                     => by
      rw [toSexp, toSexp] at h
      exact absurd (Sexp.list.inj h).1 (by decide)
  | .procedure _ _ _ _, .var _ _ _, _, _, h                                     => by
      rw [toSexp, toSexp] at h
      exact absurd (Sexp.list.inj h).1 (by decide)

theorem Declaration.listBare_of_listToSexp : ∀ (ds es : List Declaration), ListPrintable ds →
    ListPrintable es → listToSexp ds = listToSexp es → listBare ds = listBare es
  | [], [], _, _, _             => rfl
  | [], e :: es, _, _, h        => by
      rw [listToSexp, listToSexp] at h
      cases h
  | d :: ds, [], _, _, h        => by
      rw [listToSexp, listToSexp] at h
      cases h
  | d :: ds, e :: es, hd, he, h => by
      rw [ListPrintable] at hd he
      rw [listToSexp, listToSexp] at h
      obtain ⟨hhead, htail⟩ := List.cons.inj h
      rw [listBare, listBare, bare_of_toSexp d e hd.1 he.1 hhead,
        listBare_of_listToSexp ds es hd.2 he.2 htail]

end

/-- Programs with equal S-expressions differ in spans alone. -/
theorem Program.bare_of_toSexp {p q : Program} (hp : p.Printable) (hq : q.Printable)
    (h : p.toSexp = q.toSexp) : p.bare = q.bare := by
  obtain ⟨hname, hdecls, hbody⟩ := Sexp.named_inj h
  rw [bare, bare, Block.bare, Block.bare, hname,
    Declaration.listBare_of_listToSexp _ _ hp.2.1 hq.2.1 hdecls,
    Compound.bare_of_toSexp hp.2.2 hq.2.2 hbody]

/-- **Two programs have the same S-expression exactly if they are the same up to places**, if names
are spelled like names and reals are finite. -/
theorem Program.sexp_faithful {p q : Program} (hp : p.Printable) (hq : q.Printable) :
    p.sexp = q.sexp ↔ p.bare = q.bare := by
  constructor
  · intro h
    rw [p.sexp_eq, q.sexp_eq, String.append_left_inj] at h
    exact bare_of_toSexp hp hq (Sexp.text_inj (wellFormed_toSexp hp) (wellFormed_toSexp hq) h)
  · intro h
    rw [← p.sexp_bare, h, q.sexp_bare]

/-- A program named `begin` that does nothing, and then assigns to a variable of that name. -/
def beginProgram (value : Expression) : Program :=
  ⟨"begin", ⟨[], ⟨[.noop, .assign "begin" .none value .none], .none⟩⟩, .none⟩

/-- A program with one assignment is printable if the value is. -/
theorem beginProgram_printable {value : Expression} (h : value.Printable) :
    (beginProgram value).Printable := by
  have hname : Nameable "begin" :=
    ⟨⟨'b', ['e', 'g', 'i', 'n'], rfl, by decide, List.all_eq_true.1 (by decide)⟩, rfl⟩
  refine ⟨hname, ?_, ?_⟩
  · rw [beginProgram, Declaration.ListPrintable]
    trivial
  · rw [beginProgram, Statement.ListPrintable, Statement.ListPrintable, Statement.ListPrintable,
      Statement.Printable, Statement.Printable]
    exact ⟨trivial, ⟨hname, h⟩, trivial⟩

/-- A negative literal is told from a sign in front of a literal. -/
theorem Program.sexp_faithful_example :
    (beginProgram (.num (.int (-1)) .none)).Printable ∧
      (beginProgram (.unary .minus (.num (.int 1) .none) .none)).Printable ∧
      (beginProgram (.num (.int (-1)) .none)).sexp ≠
        (beginProgram (.unary .minus (.num (.int 1) .none) .none)).sexp := by
  have hint : ∀ i, (Expression.num (.int i) .none).Printable := fun _ => trivial
  have hsign : ∀ i, (Expression.unary .minus (.num (.int i) .none) .none).Printable := hint
  have hp := beginProgram_printable (hint (-1))
  have hq := beginProgram_printable (hsign 1)
  refine ⟨hp, hq, fun h => ?_⟩
  have hbare := (Program.sexp_faithful hp hq).1 h
  cases hbare

end MiniPascal
