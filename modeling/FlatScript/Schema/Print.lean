import FlatScript.Json
import FlatScript.Syntax.Program

/-!
# Writing trees

Trees are written with all of their fields, in the order of their classes, and with null for what
is absent.  Reading a written tree gives the tree back.
-/

namespace FlatScript

/-- The word of an alternative as data. -/
def Spelled.toJson {α : Type} [Spelled α] (a : α) : Json := .str (Spelled.spell a)

/-- The symbol of an operator. -/
def Operator.toJson {α : Type} [Spelled α] : Operator α → Json
  | .known op => Spelled.toJson op
  | .foreign symbol => .str symbol

/-- The fields of an object with its kind name first. -/
def Json.node (kind : String) (fields : List (String × Json)) : Json :=
  .obj (("kind", .str kind) :: fields)

/-- An object under another kind name. -/
def Json.withKind (kind : String) : Json → Json
  | .obj (("kind", _) :: fields) => .node kind fields
  | j => j

/-- A span as data. -/
def Span.toJson (s : Span) : Json :=
  .obj [("line", .int s.line), ("end_line", .ofOption .int s.endLine), ("start", .int s.start),
    ("stop", .int s.stop)]

/-! ### Expressions -/

/-- The kind name of an operation; that of a foreign operator is not known. -/
def Operator.exprKind : Operator ArithOp → String
  | .known op => if op.isAdditive then "additive" else "multiplicative"
  | .foreign _ => "additive"

mutual

/-- An expression as data. -/
def Expr.toJson : Expr → Json
  | .number numeral => .node "number" [("value", .str numeral)]
  | .variable name => .node "variable_ref" [("name", .str name)]
  | .binary op left right =>
    .node op.exprKind [("op", op.toJson), ("left", left.toJson), ("right", right.toJson)]
  | .paren inner => .node "paren" [("inner", inner.toJson)]
  | .call name args => .node "call" [("name", .str name), ("args", .arr (Expr.listToJson args))]
  | .relabelled kind e => e.toJson.withKind kind

/-- The expressions of a list as data. -/
def Expr.listToJson : List Expr → List Json
  | [] => []
  | e :: es => e.toJson :: Expr.listToJson es

end

/-- A right-hand side as data. -/
def RValue.toJson : RValue → Json
  | .arith e => e.toJson
  | .text s => .node "text" [("value", .str s)]
  | .relabelledText kind s => .node kind [("value", .str s)]

/-! ### Conditions -/

mutual

/-- A condition as data. -/
def Condition.toJson : Condition → Json
  | .comparison op left right =>
    .node "comparison" [("op", op.toJson), ("left", left.toJson), ("right", right.toJson)]
  | .truth e => .node "arith_term" [("expr", e.toJson)]
  | .not c => .node "not" [("operand", c.toJson)]
  | .paren c => .node "paren_condition" [("inner", c.toJson)]
  | .bool b => .node "bool" [("value", .bool b)]
  | .null => .node "null" []
  | .chain head links =>
    .node "chain" [("head", head.toJson), ("links", .arr (Link.listToJson links))]
  | .relabelled kind c => c.toJson.withKind kind

/-- The links of a chain as data. -/
def Link.listToJson : List Link → List Json
  | [] => []
  | .mk op term :: links =>
    .obj [("op", op.toJson), ("term", term.toJson)] :: Link.listToJson links

end

/-- A link of a chain as data. -/
def Link.toJson : Link → Json
  | .mk op term => .obj [("op", op.toJson), ("term", term.toJson)]

/-! ### Statements -/

/-- A declared name as data. -/
def Declarator.toJson (d : Declarator) : Json :=
  .obj [("name", .str d.name), ("initializer", .ofOption RValue.toJson d.initializer),
    ("span", d.span.toJson)]

/-- A declaration as data. -/
def Declaration.toJson (d : Declaration) : Json :=
  .node "declaration" [("type_tag", Spelled.toJson d.type),
    ("declarators", .arr (d.declarators.map Declarator.toJson)), ("span", d.span.toJson)]

/-- An assignment as data. -/
def Assignment.toJson (a : Assignment) : Json :=
  .node "assignment" [("target", .str a.target), ("op", a.action.op.toJson),
    ("value", .ofOption RValue.toJson a.action.value?), ("span", a.span.toJson)]

mutual

/-- A statement as data. -/
def Stmt.toJson : Stmt → Json
  | .declare d => d.toJson
  | .assign a => a.toJson
  | .expression e span => .node "expression" [("expr", e.toJson), ("span", span.toJson)]
  | .branch condition body alternative span =>
    .node "if" [("condition", condition.toJson), ("body", .arr (Stmt.listToJson body)),
      ("else_body", Stmt.alternativeToJson alternative), ("span", span.toJson)]
  | .forLoop init condition update body span =>
    .node "for" [("init", .ofOption Declaration.toJson init),
      ("condition", .ofOption Condition.toJson condition),
      ("update", .ofOption Assignment.toJson update), ("body", .arr (Stmt.listToJson body)),
      ("span", span.toJson)]
  | .whileLoop condition body span =>
    .node "while" [("condition", .ofOption Condition.toJson condition),
      ("body", .arr (Stmt.listToJson body)), ("span", span.toJson)]
  | .ret v span => .node "return" [("value", .ofOption RValue.toJson v), ("span", span.toJson)]
  | .call name args span =>
    .node "call_stmt" [("call", (Expr.call name args).toJson), ("span", span.toJson)]
  | .relabelled kind s => s.toJson.withKind kind

/-- The statements of a block as data. -/
def Stmt.listToJson : List Stmt → List Json
  | [] => []
  | s :: rest => s.toJson :: Stmt.listToJson rest

/-- The alternative of a branch as data. -/
def Stmt.alternativeToJson : Option (List Stmt) → Json
  | none => .null
  | some body => .arr (Stmt.listToJson body)

end

/-! ### Programs -/

/-- A parameter as data. -/
def Parameter.toJson (p : Parameter) : Json :=
  .obj [("type_tag", Spelled.toJson p.type), ("name", .str p.name)]

/-- A function as data. -/
def Function.toJson (f : Function) : Json :=
  .node "function" [("name", .str f.name), ("return_type", Spelled.toJson f.returnType),
    ("parameters", .arr (f.parameters.map Parameter.toJson)),
    ("body", .arr (Stmt.listToJson f.body)), ("span", f.span.toJson)]

/-- A global declaration as data. -/
def Global.toJson : Global → Json
  | .declaration d => d.toJson
  | .relabelledDeclaration kind d => d.toJson.withKind kind
  | .function f => f.toJson

/-- The entry block as data. -/
def Entry.toJson (e : Entry) : Json :=
  .obj [("name", .str e.name), ("return_type", Spelled.toJson e.returnType),
    ("body", .arr (Stmt.listToJson e.body)), ("span", e.span.toJson)]

/-- A program as data. -/
def Program.toJson (p : Program) : Json :=
  .obj [("globals", .arr (p.globals.map Global.toJson)), ("entry", p.entry.toJson)]

end FlatScript
