import MiniPascal.Proofs.Json.Reading
import MiniPascal.Proofs.Number.Words
import MiniPascal.Proofs.Tree.Values
import MiniPascal.Tree.Json

/-!
# Proofs — Tree — Json

Trees read from JSON values.  A node is an object with the name of its kind in front, and a number
one with its kind as the name of its only field; whatever else a value is, no tree is read from it.
Each tree is read from the value that it is written as (`Program.ofJson?_toJson`).
-/

namespace MiniPascal

/-! ### Reading -/

def Span.ofJson? : Json → Option Span
  | .obj [("offset", .int (.ofNat offset)), ("len", .int (.ofNat len))] => some ⟨offset, len⟩
  | _                                                                   => none

def Number.ofJson? : Json → Option Number
  | .obj [("Integer", .int i)] => (word? i).map .int
  | .obj [("Real", .real x)]   => some (.real x)
  | _                          => none

def TypeName.ofJson? : Json → Option TypeName
  | .str "Integer" => some .integer
  | .str "Real"    => some .real
  | _              => none

def Operator.ofJson? : Json → Option Operator
  | .str "Add"           => some .sum
  | .str "Subtract"      => some .difference
  | .str "Multiply"      => some .product
  | .str "IntegerDivide" => some .wholeQuotient
  | .str "Divide"        => some .quotient
  | _                    => none

def Sign.ofJson? : Json → Option Sign
  | .str "Plus"   => some .plus
  | .str "Negate" => some .minus
  | _             => none

def Expression.ofJson? : Json → Option Expression
  | .obj [("type", .str "Binary"), ("left", l), ("operator", op), ("right", r),
      ("span", span)] => do
      return .binary (← Operator.ofJson? op) (← ofJson? l) (← ofJson? r) (← Span.ofJson? span)
  | .obj [("type", .str "Unary"), ("operator", op), ("operand", e), ("span", span)] => do
      return .unary (← Sign.ofJson? op) (← ofJson? e) (← Span.ofJson? span)
  | .obj [("type", .str "Num"), ("value", n), ("span", span)] => do
      return .num (← Number.ofJson? n) (← Span.ofJson? span)
  | .obj [("type", .str "Var"), ("name", .str name), ("span", span)] => do
      return .var name (← Span.ofJson? span)
  | _ => none

mutual

def Statement.ofJson? : Json → Option Statement
  | .obj [("type", .str "Compound"), ("statements", .arr ss), ("span", span)] => do
      return .compound (← Statement.listOfJson? ss) (← Span.ofJson? span)
  | .obj [("type", .str "Assign"), ("target", .str target), ("target_span", targetSpan),
      ("value", value), ("span", span)] => do
      return .assign target (← Span.ofJson? targetSpan) (← Expression.ofJson? value)
        (← Span.ofJson? span)
  | .obj [("type", .str "NoOp")] => some .noop
  | _ => none

def Statement.listOfJson? : List Json → Option (List Statement)
  | []      => some []
  | j :: js => do return (← Statement.ofJson? j) :: (← Statement.listOfJson? js)

end

def Compound.ofJson? : Json → Option Compound
  | .obj [("statements", .arr ss), ("span", span)] => do
      return ⟨← Statement.listOfJson? ss, ← Span.ofJson? span⟩
  | _ => none

mutual

def Declaration.ofJson? : Json → Option Declaration
  | .obj [("type", .str "Var"), ("name", .str name), ("type_spec", type), ("span", span)] => do
      return .var name (← TypeName.ofJson? type) (← Span.ofJson? span)
  | .obj [("type", .str "Procedure"), ("name", .str name),
      ("block", .obj [("declarations", .arr decls), ("body", body)]), ("span", span)] => do
      return .procedure name (← Declaration.listOfJson? decls) (← Compound.ofJson? body)
        (← Span.ofJson? span)
  | _ => none

def Declaration.listOfJson? : List Json → Option (List Declaration)
  | []      => some []
  | j :: js => do return (← Declaration.ofJson? j) :: (← Declaration.listOfJson? js)

end

def Block.ofJson? : Json → Option Block
  | .obj [("declarations", .arr decls), ("body", body)] => do
      return ⟨← Declaration.listOfJson? decls, ← Compound.ofJson? body⟩
  | _ => none

def Program.ofJson? : Json → Option Program
  | .obj [("name", .str name), ("block", block), ("span", span)] => do
      return ⟨name, ← Block.ofJson? block, ← Span.ofJson? span⟩
  | _ => none

/-! ### Reading what was written -/

theorem Span.ofJson?_toJson (s : Span) : ofJson? s.toJson = some s := rfl

/-- A number is read back, its kind included. -/
theorem Number.ofJson?_toJson (n : Number) : ofJson? n.toJson = some n := by
  cases n with
  | int i => rw [toJson, ofJson?, word?_toInt, Option.map_some]
  | real x => rfl

theorem TypeName.ofJson?_toJson (t : TypeName) : ofJson? t.toJson = some t := by cases t <;> rfl

theorem Operator.ofJson?_toJson (op : Operator) : ofJson? op.toJson = some op := by
  cases op <;> rfl

theorem Sign.ofJson?_toJson (op : Sign) : ofJson? op.toJson = some op := by cases op <;> rfl

/-- An expression is read back from its JSON value; so with everything below. -/
theorem Expression.ofJson?_toJson (e : Expression) : ofJson? e.toJson = some e := by
  induction e with
  | binary op l r span ihl ihr =>
      rw [toJson, ofJson?, op.ofJson?_toJson, ihl, ihr]
      rfl
  | unary op e span ih =>
      rw [toJson, ofJson?, op.ofJson?_toJson, ih]
      rfl
  | num n span =>
      rw [toJson, ofJson?, n.ofJson?_toJson]
      rfl
  | var name span => rfl

mutual

theorem Statement.ofJson?_toJson : ∀ s : Statement, ofJson? s.toJson = some s
  | .compound ss span => by
      rw [toJson, ofJson?, Statement.listOfJson?_listToJson ss]
      rfl
  | .assign target targetSpan value span => by
      rw [toJson, ofJson?, value.ofJson?_toJson]
      rfl
  | .noop => by rw [toJson]; rfl

theorem Statement.listOfJson?_listToJson : ∀ ss, listOfJson? (listToJson ss) = some ss
  | []      => by rw [listToJson, listOfJson?]
  | s :: ss => by
      rw [listToJson, listOfJson?, s.ofJson?_toJson, listOfJson?_listToJson ss]
      rfl

end

theorem Compound.ofJson?_toJson (c : Compound) : ofJson? c.toJson = some c := by
  rw [toJson, ofJson?, Statement.listOfJson?_listToJson]
  rfl

mutual

theorem Declaration.ofJson?_toJson : ∀ d : Declaration, ofJson? d.toJson = some d
  | .var name type span => by
      rw [toJson, ofJson?, type.ofJson?_toJson]
      rfl
  | .procedure name decls body span => by
      rw [toJson, ofJson?, Declaration.listOfJson?_listToJson decls, body.ofJson?_toJson]
      rfl

theorem Declaration.listOfJson?_listToJson : ∀ ds, listOfJson? (listToJson ds) = some ds
  | []      => by rw [listToJson, listOfJson?]
  | d :: ds => by
      rw [listToJson, listOfJson?, d.ofJson?_toJson, listOfJson?_listToJson ds]
      rfl

end

theorem Block.ofJson?_toJson (b : Block) : ofJson? b.toJson = some b := by
  rw [toJson, ofJson?, Declaration.listOfJson?_listToJson, b.body.ofJson?_toJson]
  rfl

/-- **A program is read from the value that it is written as.** -/
theorem Program.ofJson?_toJson (p : Program) : ofJson? p.toJson = some p := by
  rw [toJson, ofJson?, p.block.ofJson?_toJson]
  rfl

end MiniPascal
