import MiniPascal.Json
import MiniPascal.Tree

/-!
# Tree — Json

The tree of a program as a JSON value that keeps all of it: the kind of every node, its parts in
the order of the text, numbers with their kind, and spans.
-/

namespace MiniPascal

/-- A span as an object. -/
def Span.toJson (s : Span) : Json := .obj [("offset", .nat s.offset), ("len", .nat s.len)]

/-- A number under the name of its kind. -/
def Number.toJson : Number → Json
  | .int i  => .obj [("Integer", .int i.toInt)]
  | .real x => .obj [("Real", .real x)]

/-- The name of a type. -/
def TypeName.toJson : TypeName → Json
  | .integer => .str "Integer"
  | .real    => .str "Real"

/-- The name of an operator. -/
def Operator.toJson : Operator → Json
  | .sum           => .str "Add"
  | .difference    => .str "Subtract"
  | .product       => .str "Multiply"
  | .wholeQuotient => .str "IntegerDivide"
  | .quotient      => .str "Divide"

/-- The name of a sign. -/
def Sign.toJson : Sign → Json
  | .plus  => .str "Plus"
  | .minus => .str "Negate"

/-- An expression as an object. -/
def Expression.toJson : Expression → Json
  | .binary op l r span =>
      .obj [("type", .str "Binary"), ("left", l.toJson), ("operator", op.toJson),
        ("right", r.toJson), ("span", span.toJson)]
  | .unary op e span    =>
      .obj [("type", .str "Unary"), ("operator", op.toJson), ("operand", e.toJson),
        ("span", span.toJson)]
  | .num n span         =>
      .obj [("type", .str "Num"), ("value", n.toJson), ("span", span.toJson)]
  | .var name span      =>
      .obj [("type", .str "Var"), ("name", .str name), ("span", span.toJson)]

mutual

/-- A statement as an object. -/
def Statement.toJson : Statement → Json
  | .compound ss span                   =>
      .obj [("type", .str "Compound"), ("statements", .arr (Statement.listToJson ss)),
        ("span", span.toJson)]
  | .assign target targetSpan value span =>
      .obj [("type", .str "Assign"), ("target", .str target), ("target_span", targetSpan.toJson),
        ("value", value.toJson), ("span", span.toJson)]
  | .noop                               => .obj [("type", .str "NoOp")]

/-- Statements in order. -/
def Statement.listToJson : List Statement → List Json
  | []      => []
  | s :: ss => s.toJson :: Statement.listToJson ss

end

/-- A compound statement as an object. -/
def Compound.toJson (c : Compound) : Json :=
  .obj [("statements", .arr (Statement.listToJson c.statements)), ("span", c.span.toJson)]

mutual

/-- A declaration as an object. -/
def Declaration.toJson : Declaration → Json
  | .var name type span             =>
      .obj [("type", .str "Var"), ("name", .str name), ("type_spec", type.toJson),
        ("span", span.toJson)]
  | .procedure name decls body span =>
      .obj [("type", .str "Procedure"), ("name", .str name),
        ("block",
          .obj [("declarations", .arr (Declaration.listToJson decls)), ("body", body.toJson)]),
        ("span", span.toJson)]

/-- Declarations in order. -/
def Declaration.listToJson : List Declaration → List Json
  | []      => []
  | d :: ds => d.toJson :: Declaration.listToJson ds

end

/-- A block as an object. -/
def Block.toJson (b : Block) : Json :=
  .obj [("declarations", .arr (Declaration.listToJson b.decls)), ("body", b.body.toJson)]

/-- A program as an object. -/
def Program.toJson (p : Program) : Json :=
  .obj [("name", .str p.name), ("block", p.block.toJson), ("span", p.span.toJson)]

end MiniPascal
