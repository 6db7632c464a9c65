import MiniPascal.Proofs.Tree.Json
import MiniPascal.Proofs.Tree.Values

/-!
# Proofs — Printing — Json

The JSON text of a program keeps the whole program.  If its reals are finite, the text is a JSON
text of the program's value, and the program is read from it: all its nodes, names, spans and
numbers, and the order of its lists.  Main statement: `Program.json_faithful`.
-/

namespace MiniPascal

/-! ### Finite reals -/

/-- All reals in an expression are finite. -/
def Expression.Finite : Expression → Prop
  | .binary _ l r _ => l.Finite ∧ r.Finite
  | .unary _ e _    => e.Finite
  | .num n _        => n.Finite
  | .var _ _        => True

/-- All reals in a program are finite. -/
def Program.Finite (p : Program) : Prop := ∀ e ∈ p.values, e.Finite

open Json (AllFinite ElementsFinite)

@[simp]
theorem Span.allFinite_toJson (s : Span) : s.toJson.AllFinite := by simp [toJson, Json.nat]

/-- The JSON value of a finite number is finite. -/
theorem Number.allFinite_toJson {n : Number} (h : n.Finite) : n.toJson.AllFinite := by
  cases n with
  | int i => simp [toJson]
  | real x =>
      rw [Finite] at h
      simp [toJson, h]

@[simp]
theorem TypeName.allFinite_toJson (t : TypeName) : t.toJson.AllFinite := by
  cases t <;> simp [toJson]

@[simp]
theorem Operator.allFinite_toJson (op : Operator) : op.toJson.AllFinite := by
  cases op <;> simp [toJson]

@[simp]
theorem Sign.allFinite_toJson (op : Sign) : op.toJson.AllFinite := by
  cases op <;> simp [toJson]

/-- The JSON value of a tree is finite if all literals are; so with everything below. -/
theorem Expression.allFinite_toJson {e : Expression} (h : e.Finite) : e.toJson.AllFinite := by
  induction e with
  | binary op l r span ihl ihr => simp [toJson, ihl h.1, ihr h.2]
  | unary op e span ih => simp [toJson, ih h]
  | num n span => simp [toJson, n.allFinite_toJson h]
  | var name span => simp [toJson]

mutual

theorem Statement.allFinite_toJson :
    ∀ s : Statement, (∀ e ∈ s.values, e.Finite) → s.toJson.AllFinite
  | .compound ss _, h      => by
      rw [values] at h
      simp [toJson, Statement.allFinite_listToJson ss h]
  | .assign _ _ value _, h => by
      rw [values, List.forall_mem_singleton] at h
      simp [toJson, value.allFinite_toJson h]
  | .noop, _               => by simp [toJson]

theorem Statement.allFinite_listToJson :
    ∀ ss, (∀ e ∈ listValues ss, e.Finite) → ElementsFinite (listToJson ss)
  | [], _      => by simp [listToJson]
  | s :: ss, h => by
      rw [listValues, List.forall_mem_append] at h
      simp [listToJson, s.allFinite_toJson h.1, allFinite_listToJson ss h.2]

end

theorem Compound.allFinite_toJson {c : Compound} (h : ∀ e ∈ c.values, e.Finite) :
    c.toJson.AllFinite := by
  simp [toJson, Statement.allFinite_listToJson _ h]

mutual

/-- The reals in a declaration are those in the body of a procedure. -/
theorem Declaration.allFinite_toJson :
    ∀ d : Declaration, (∀ e ∈ d.values, e.Finite) → d.toJson.AllFinite
  | .var _ _ _, _                => by simp [toJson]
  | .procedure _ decls body _, h => by
      rw [values, List.forall_mem_append] at h
      simp [toJson, Declaration.allFinite_listToJson decls h.1, body.allFinite_toJson h.2]

theorem Declaration.allFinite_listToJson :
    ∀ ds, (∀ e ∈ listValues ds, e.Finite) → ElementsFinite (listToJson ds)
  | [], _      => by simp [listToJson]
  | d :: ds, h => by
      rw [listValues, List.forall_mem_append] at h
      simp [listToJson, d.allFinite_toJson h.1, allFinite_listToJson ds h.2]

end

theorem Program.allFinite_toJson {p : Program} (h : p.Finite) : p.toJson.AllFinite := by
  obtain ⟨hdecls, hbody⟩ := List.forall_mem_append.1 h
  simp [toJson, Block.toJson, Declaration.allFinite_listToJson _ hdecls,
    p.block.body.allFinite_toJson hbody]

/-! ### Main statement -/

/-- The program that a JSON text is the text of. -/
def Program.ofJsonText? (text : String) : Option Program :=
  (Json.read? text).bind Program.ofJson?

/-- **A program is read back from its JSON text**, with its spans, in whatever style with blanks
alone between the pieces. -/
theorem Program.ofJsonText?_render {style : Json.Style} (hstyle : style.IsBlank) {p : Program}
    (h : p.Finite) (depth : Nat) : ofJsonText? (p.toJson.render style depth) = some p := by
  rw [ofJsonText?, Json.read?_render hstyle (allFinite_toJson h), Option.bind_some,
    ofJson?_toJson]

/-- **The JSON text of a program loses nothing.**  If all reals in it are finite, its text is
well-formed, the program is read from it, and no other such program has the same text. -/
theorem Program.json_faithful {p : Program} (h : p.Finite) :
    Json.IsText p.toJson p.toJson.indented ∧ ofJsonText? p.toJson.indented = some p ∧
      ∀ q : Program, q.Finite → q.toJson.indented = p.toJson.indented → q = p := by
  have hread := ofJsonText?_render Json.Style.isBlank_indented h 0
  refine ⟨Json.isText_render Json.Style.isBlank_indented (allFinite_toJson h) 0, hread,
    fun q hq htext => ?_⟩
  have hother := ofJsonText?_render Json.Style.isBlank_indented hq 0
  rw [Json.indented, Json.indented] at htext
  rw [htext, hread] at hother
  exact (Option.some.inj hother).symm

/-- A program with a name that has to be escaped, an empty compound, and a zero of either sign. -/
def escapedProgram (negative : Bool) : Program :=
  ⟨"\"\\\n\x01é", ⟨[.procedure "p" [.var "x" .real ⟨0, 1⟩] ⟨[], ⟨2, 3⟩⟩ ⟨4, 5⟩],
    ⟨[.noop, .assign "x" ⟨6, 7⟩ (.num (.real (.zero negative)) ⟨8, 9⟩) ⟨10, 11⟩], ⟨12, 13⟩⟩⟩,
    ⟨14, 15⟩⟩

theorem escapedProgram_finite (negative : Bool) : (escapedProgram negative).Finite := by
  intro e he
  simp [escapedProgram, Program.values, Block.values, Compound.values, Declaration.listValues,
    Declaration.values, Statement.listValues, Statement.values] at he
  rw [he]
  rfl

/-- It is read from its text, which differs from that with the other zero. -/
theorem Program.json_faithful_example :
    (escapedProgram true).Finite ∧ (escapedProgram false).Finite ∧
      ofJsonText? (escapedProgram true).toJson.indented = some (escapedProgram true) ∧
      (escapedProgram false).toJson.indented ≠ (escapedProgram true).toJson.indented := by
  have hp := escapedProgram_finite true
  have hq := escapedProgram_finite false
  obtain ⟨-, hread, hsame⟩ := Program.json_faithful hp
  refine ⟨hp, hq, hread, fun h => ?_⟩
  have heq := hsame (escapedProgram false) hq h
  cases heq

end MiniPascal
