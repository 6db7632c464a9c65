import Mathlib.Algebra.Group.Int.Defs
import MiniPascal.Proofs.Names.Uses
import MiniPascal.Proofs.Tree.Nodes

/-!
# Proofs — Tree — WellFormed

What the walks over a tree may rely on, node by node, if the tree was read from a text: names are
identifiers and no reserved words, literals are in range and without a sign, no compound is without
statements, and no variable is declared behind a procedure.  A node is derived from tokens of the
text (`Node.Has.derivedFrom`), so it is enough that tokens with a spelling derive nothing else
(`Node.DerivedFrom.wellFormed`).  Main statement (`Program.read_wellFormed`): every node of a tree
that is read is of this kind, and so no type of a declaration is unknown.
-/

namespace MiniPascal

/-- The scanner takes the whole text for one name, which is no reserved word. -/
structure IsIdentifier (name : String) : Prop where
  wordlike   : Wordlike name.toList
  unreserved : ∀ word ∈ reservedWords, word.1 ≠ name
  scanned    : scan name =
    .ok [⟨.identifier, name, ⟨0, name.utf8ByteSize⟩⟩, .eof name.utf8ByteSize]

/-- A name is an identifier and no reserved word. -/
theorem Nameable.isIdentifier {name : String} (h : Nameable name) : IsIdentifier name := by
  refine ⟨h.1, ?_, ?_⟩
  · rintro word hword rfl
    have hfound : ∀ word ∈ reservedWords, Token.Kind.ofWord? word.1 ≠ none := by decide
    have hnone := h.2
    rw [String.ofList_toList] at hnone
    exact hfound word hword hnone
  · have hrange : Token.Kind.identifier.InRange name.toList := nofun
    have hends : Token.Kind.identifier.EndsAt [] := nofun
    have hlaid := @LaysOut.lexeme 0 _ _ _ _ h hrange hends .finish
    rw [List.append_nil, String.ofList_toList, byteLength_toList, Nat.zero_add] at hlaid
    exact scan_eq_ok_iff.2 hlaid

/-- A number as a literal can be: an integer from zero to the greatest word, or a finite real that
is neither less than zero nor zero with a sign. -/
def Number.IsLiteral : Number → Prop
  | .int i  => 0 ≤ i.toInt ∧ i.toInt ≤ 2 ^ 63 - 1
  | .real x => x.isFinite = true ∧ x.lt (.zero false) = false ∧ x ≠ .zero true

/-- A number that can be written is a literal. -/
theorem Number.Writable.isLiteral {n : Number} (h : n.Writable) : n.IsLiteral := by
  cases n with
  | int i =>
      have hlt := i.toInt_lt
      exact ⟨h, by omega⟩
  | real x =>
      obtain ⟨hfinite, hsign⟩ := h
      refine ⟨hfinite, ?_, ?_⟩
      · cases x with
        | nan => cases hfinite
        | infinite s => cases hfinite
        | finite s m =>
            obtain rfl : s = false := hsign
            have hunits : ¬ (Binary64.units m : Int) < Binary64.units 0 :=
              Int.not_lt.2 (Int.natCast_nonneg _)
            exact decide_eq_false hunits
      · rintro rfl
        cases hsign

/-! ### Nodes -/

/-- What a node owes to having been read. -/
def Node.WellFormed : Node → Prop
  | .program p                               => IsIdentifier p.name ∧ VariablesFirst p.block.decls
  | .declaration (.var name _ _)             => IsIdentifier name
  | .declaration (.procedure name decls _ _) => IsIdentifier name ∧ VariablesFirst decls
  | .compound c                              => c.statements ≠ []
  | .assignment target _ _ _                 => IsIdentifier target
  | .expression (.var name _)                => IsIdentifier name
  | .expression (.num n _)                   => n.IsLiteral
  | .expression (.unary _ _ _)               => True
  | .expression (.binary _ _ _ _)            => True

/-- Well-spelled tokens derive well-formed nodes only. -/
theorem Node.DerivedFrom.wellFormed {node : Node} {w : List Token} {d : Nat}
    (h : node.DerivedFrom w d) (hw : ∀ t ∈ w, t.WellSpelled) : node.WellFormed := by
  cases node with
  | program p =>
      obtain ⟨hname, hfirst, -⟩ := IsProgram.writable h hw
      exact ⟨hname.isIdentifier, hfirst⟩
  | declaration decl =>
      cases decl with
      | var name type span =>
          obtain ⟨hn, -, -, -⟩ := h
          exact ((hw _ (.head _)).nameable hn).isIdentifier
      | procedure name decls body span =>
          obtain ⟨-, hwritable⟩ := IsProcedure.writable h hw
          rw [Declaration.Writable] at hwritable
          obtain ⟨hname, hfirst, -⟩ := hwritable
          exact ⟨hname.isIdentifier, hfirst⟩
  | compound c =>
      have hwritable : c.toStatement.Writable := IsCompound.writable h hw
      rw [Compound.toStatement, Statement.Writable] at hwritable
      exact hwritable.1
  | assignment target targetSpan value span =>
      have hwritable := IsAssignment.writable h hw
      rw [Statement.Writable] at hwritable
      exact hwritable.1.isIdentifier
  | expression e =>
      have hwritable := isExpression_writable h hw
      cases e with
      | binary op l r span => exact trivial
      | unary op e span => exact trivial
      | num n span => exact Number.Writable.isLiteral hwritable
      | var name span => exact Nameable.isIdentifier hwritable

namespace Program

/-- **Every tree that is read is well formed.**  At every level its names are identifiers and no
reserved words, its literals are in range and without a sign, its compounds have statements, and its
blocks declare their variables before their procedures.  So the check of names refuses no
declaration: where it fails, a name in the body stands for nothing. -/
theorem read_wellFormed {s : String} {p : Program} (h : read s = .ok p) :
    (∀ node, (Node.program p).Has node → node.WellFormed) ∧
      ∀ fault scope, p.check = .error fault scope →
        ∃ o ∈ p.occurrences, fault = ⟨.undeclared o.name, o.span⟩ := by
  constructor
  · intro node hnode
    obtain ⟨w, n, depth, hscan, hderives, -⟩ := exists_of_read h
    obtain ⟨v, d, hv, -, hderived⟩ := hnode.derivedFrom (w := w) (d := depth) hderives
    exact hderived.wellFormed fun t ht => wellSpelled_before_eof hscan t (hv.subset ht)
  · intro fault scope hcheck
    rcases check_of_read h with ⟨-, hok⟩ | ⟨front, o, back, hoccurrences, -, -, herror⟩
    · rw [hok] at hcheck
      cases hcheck
    · rw [herror] at hcheck
      cases hcheck
      exact ⟨o, by simp [hoccurrences], rfl⟩

/-- A text with names, a literal and blocks of both kinds, and an undeclared name in its body. -/
def undeclaredSource : String :=
  "PROGRAM T; VAR x : REAL; PROCEDURE P; BEGIN END; BEGIN x := 007 - y END."

/-- Its tree. -/
def undeclaredProgram : Program :=
  ⟨"T", ⟨[.var "x" .real ⟨15, 8⟩, .procedure "P" [] ⟨[.noop], ⟨38, 9⟩⟩ ⟨25, 22⟩],
    ⟨[.assign "x" ⟨55, 1⟩
      (.binary .difference (.num (.int 7) ⟨60, 3⟩) (.var "y" ⟨66, 1⟩) ⟨60, 7⟩) ⟨55, 12⟩],
      ⟨49, 22⟩⟩⟩, ⟨0, 72⟩⟩

theorem scan_undeclaredSource : scan undeclaredSource = .ok
    [⟨.programWord, "PROGRAM", ⟨0, 7⟩⟩, ⟨.identifier, "T", ⟨8, 1⟩⟩, ⟨.semicolon, ";", ⟨9, 1⟩⟩,
      ⟨.varWord, "VAR", ⟨11, 3⟩⟩, ⟨.identifier, "x", ⟨15, 1⟩⟩, ⟨.colon, ":", ⟨17, 1⟩⟩,
      ⟨.realWord, "REAL", ⟨19, 4⟩⟩, ⟨.semicolon, ";", ⟨23, 1⟩⟩,
      ⟨.procedureWord, "PROCEDURE", ⟨25, 9⟩⟩, ⟨.identifier, "P", ⟨35, 1⟩⟩,
      ⟨.semicolon, ";", ⟨36, 1⟩⟩, ⟨.beginWord, "BEGIN", ⟨38, 5⟩⟩, ⟨.endWord, "END", ⟨44, 3⟩⟩,
      ⟨.semicolon, ";", ⟨47, 1⟩⟩, ⟨.beginWord, "BEGIN", ⟨49, 5⟩⟩, ⟨.identifier, "x", ⟨55, 1⟩⟩,
      ⟨.assign, ":=", ⟨57, 2⟩⟩, ⟨.integerConst, "007", ⟨60, 3⟩⟩, ⟨.minus, "-", ⟨64, 1⟩⟩,
      ⟨.identifier, "y", ⟨66, 1⟩⟩, ⟨.endWord, "END", ⟨68, 3⟩⟩, ⟨.dot, ".", ⟨71, 1⟩⟩,
      .eof 72] := by decide +kernel

theorem read_undeclaredSource : read undeclaredSource = .ok undeclaredProgram := by
  rw [read, results_of_scan scan_undeclaredSource]
  rfl

theorem read_wellFormed_example :
    read undeclaredSource = .ok undeclaredProgram ∧
      (∀ node, (Node.program undeclaredProgram).Has node → node.WellFormed) ∧
      ∃ scope, undeclaredProgram.check = .error ⟨.undeclared "y", ⟨66, 1⟩⟩ scope :=
  ⟨read_undeclaredSource, (read_wellFormed read_undeclaredSource).1, _, rfl⟩

end Program

end MiniPascal
