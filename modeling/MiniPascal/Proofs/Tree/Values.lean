import MiniPascal.Fault
import MiniPascal.Proofs.Tree.Bare

/-!
# Proofs — Tree — Values

The expressions that a tree assigns, wherever in it, and the two limits on a tree: `Fits levels d
es` says that constructs are open at most `levels` deep at the deepest point `d`, and that none of
the expressions `es` is higher than the nesting limit.
-/

namespace MiniPascal

mutual

/-- The expressions that a statement assigns. -/
def Statement.values : Statement → List Expression
  | .compound ss _      => Statement.listValues ss
  | .assign _ _ value _ => [value]
  | .noop               => []

/-- The expressions that statements assign. -/
def Statement.listValues : List Statement → List Expression
  | []      => []
  | s :: ss => s.values ++ Statement.listValues ss

end

/-- The expressions that a compound assigns. -/
def Compound.values (c : Compound) : List Expression := Statement.listValues c.statements

mutual

/-- The expressions that the body of a procedure and the procedures in it assign. -/
def Declaration.values : Declaration → List Expression
  | .var _ _ _                => []
  | .procedure _ decls body _ => Declaration.listValues decls ++ body.values

/-- The expressions that declarations assign. -/
def Declaration.listValues : List Declaration → List Expression
  | []      => []
  | d :: ds => d.values ++ Declaration.listValues ds

end

/-- The expressions that a block assigns. -/
def Block.values (b : Block) : List Expression := Declaration.listValues b.decls ++ b.body.values

/-- The expressions that a program assigns, its procedures included. -/
def Program.values (p : Program) : List Expression := p.block.values

theorem Compound.values_toStatement (c : Compound) : c.toStatement.values = c.values := by
  rw [toStatement, Statement.values]
  rfl

theorem Statement.listValues_eq_flatMap (ss : List Statement) :
    listValues ss = ss.flatMap values := by
  induction ss with
  | nil => rw [listValues]; rfl
  | cons s ss ih => rw [listValues, ih, List.flatMap_cons]

theorem Declaration.listValues_eq_flatMap (ds : List Declaration) :
    listValues ds = ds.flatMap values := by
  induction ds with
  | nil => rw [listValues]; rfl
  | cons d ds ih => rw [listValues, ih, List.flatMap_cons]

/-! ### Bare trees -/

mutual

/-- The values in a bare statement are the bare values; so with everything below. -/
theorem Statement.values_bare : ∀ s : Statement, s.bare.values = s.values.map Expression.bare
  | .compound ss _  => by rw [bare, values, values, listValues_listBare ss]
  | .assign _ _ _ _ => by rw [bare, values, values]; rfl
  | .noop           => by rw [bare, values]; rfl

theorem Statement.listValues_listBare : ∀ ss,
    listValues (listBare ss) = (listValues ss).map Expression.bare
  | []      => by rw [listBare, listValues]; rfl
  | s :: ss => by
      rw [listBare, listValues, listValues, s.values_bare, listValues_listBare ss, List.map_append]

end

theorem Compound.values_bare (c : Compound) : c.bare.values = c.values.map Expression.bare := by
  rw [values, values, bare, Statement.listValues_listBare]

mutual

theorem Declaration.values_bare : ∀ d : Declaration, d.bare.values = d.values.map Expression.bare
  | .var _ _ _                => by rw [bare, values, values]; rfl
  | .procedure _ decls body _ => by
      rw [bare, values, values, listValues_listBare decls, body.values_bare, List.map_append]

theorem Declaration.listValues_listBare : ∀ ds,
    listValues (listBare ds) = (listValues ds).map Expression.bare
  | []      => by rw [listBare, listValues]; rfl
  | d :: ds => by
      rw [listBare, listValues, listValues, d.values_bare, listValues_listBare ds, List.map_append]

end

/-- A bare program assigns the bare expressions. -/
theorem Program.values_bare (p : Program) : p.bare.values = p.values.map Expression.bare := by
  rw [values, values, bare, Block.bare, Block.values, Block.values,
    Declaration.listValues_listBare, Compound.values_bare, List.map_append]

/-- No expression is lower than a leaf. -/
theorem Expression.height_pos (e : Expression) : 0 < e.height := by
  cases e <;> simp [height]

/-! ### Limits -/

/-- At most `levels` constructs are open at once, and no expression exceeds the nesting limit. -/
def Fits (levels depth : Nat) (values : List Expression) : Prop :=
  depth ≤ levels ∧ ∀ e ∈ values, e.height ≤ nestingLimit

namespace Fits

variable {levels d d' : Nat} {es es' : List Expression}

theorem append_iff :
    Fits levels (max d d') (es ++ es') ↔ Fits levels d es ∧ Fits levels d' es' := by
  simp only [Fits, Nat.max_le, List.forall_mem_append]
  exact and_and_and_comm

/-- A construct takes one of the levels. -/
theorem succ_iff : Fits (levels + 1) (d + 1) es ↔ Fits levels d es := by
  simp only [Fits, Nat.add_le_add_iff_right]

/-- Where no level is left, nothing that opens one fits. -/
theorem not_zero_succ : ¬ Fits 0 (d + 1) es := fun h => absurd h.1 (Nat.not_succ_le_zero d)

/-- Without expressions only the nesting counts. -/
theorem nil_iff : Fits levels d [] ↔ d ≤ levels := by
  simp [Fits]

/-- An expression fits if its nesting and its height are within their limits. -/
theorem singleton_iff {e : Expression} :
    Fits levels d [e] ↔ d ≤ levels ∧ e.height ≤ nestingLimit := by
  simp [Fits]

/-- A leaf opens nothing and is one node high. -/
theorem leaf {e : Expression} (h : e.height = 1) : Fits levels 0 [e] :=
  singleton_iff.2 ⟨Nat.zero_le levels, by rw [h]; decide⟩

end Fits

end MiniPascal
