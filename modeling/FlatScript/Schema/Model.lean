import FlatScript.Schema.Node
import FlatScript.Schema.Tree

/-!
# Models of data

A `Model` says what data should be: a node of one class, or one of several classes chosen by the
kind name.  `Model.read` reads data as a model; the nesting allowed is the depth of the data, so
nothing is refused for being nested too deeply.
-/

namespace FlatScript

/-- A class of nodes, or a set of alternatives. -/
inductive Model where
  | sourceSpan
  | numberLiteral
  | textLiteral
  | variableRef
  | additiveExpr
  | multiplicativeExpr
  | parenExpr
  | callExpr
  | comparison
  | arithmeticTerm
  | notTerm
  | parenCondition
  | boolLiteral
  | nullLiteral
  | chainLink
  | logicalChain
  | declarator
  | declaration
  | assignment
  | expressionStatement
  | ifStatement
  | forStatement
  | whileStatement
  | returnStatement
  | callStatement
  | parameter
  | functionDeclaration
  | entryFunction
  | program
  /-- An arithmetic expression of any kind. -/
  | expression
  /-- An arithmetic expression or a piece of text. -/
  | valueExpression
  /-- A condition of any kind. -/
  | condition
  /-- A statement of any kind. -/
  | statement
  /-- A declaration of variables or of a function. -/
  | globalDeclaration
  deriving DecidableEq

namespace Model

/-- The models with their names. -/
def names : List (String × Model) :=
  [("SourceSpan", .sourceSpan), ("NumberLiteral", .numberLiteral), ("TextLiteral", .textLiteral),
    ("VariableRef", .variableRef), ("AdditiveExpr", .additiveExpr),
    ("MultiplicativeExpr", .multiplicativeExpr), ("ParenExpr", .parenExpr),
    ("CallExpr", .callExpr), ("Comparison", .comparison), ("ArithmeticTerm", .arithmeticTerm),
    ("NotTerm", .notTerm), ("ParenCondition", .parenCondition), ("BoolLiteral", .boolLiteral),
    ("NullLiteral", .nullLiteral), ("ChainLink", .chainLink), ("LogicalChain", .logicalChain),
    ("Declarator", .declarator), ("Declaration", .declaration), ("Assignment", .assignment),
    ("ExpressionStatement", .expressionStatement), ("IfStatement", .ifStatement),
    ("ForStatement", .forStatement), ("WhileStatement", .whileStatement),
    ("ReturnStatement", .returnStatement), ("CallStatement", .callStatement),
    ("Parameter", .parameter), ("FunctionDeclaration", .functionDeclaration),
    ("EntryFunction", .entryFunction), ("Program", .program), ("Expression", .expression),
    ("ValueExpression", .valueExpression), ("Condition", .condition), ("Statement", .statement),
    ("GlobalDeclaration", .globalDeclaration)]

/-- The model of a name. -/
def ofName? (name : String) : Option Model := names.lookup name

open Schema in
/-- Read data as a model, with a bound on the nesting below the node itself. -/
def readWithin (depth : Nat) (m : Model) (j : Json) : Checked Node :=
  let expr := Schema.expression depth
  let val := Schema.value depth
  let cond := Schema.condition depth
  let stmt := Schema.statement depth
  match m with
  | .sourceSpan => Node.span <$> span j
  | .numberLiteral => (Node.value ∘ .arith) <$> number j
  | .textLiteral => Node.value <$> Schema.textLiteral j
  | .variableRef => (Node.value ∘ .arith) <$> Schema.variableRef j
  | .additiveExpr => (Node.value ∘ .arith) <$> additive expr j
  | .multiplicativeExpr => (Node.value ∘ .arith) <$> multiplicative expr j
  | .parenExpr => (Node.value ∘ .arith) <$> paren expr j
  | .callExpr => (Node.value ∘ .arith) <$> call expr j
  | .comparison => Node.condition <$> Schema.comparison expr j
  | .arithmeticTerm => Node.condition <$> Schema.arithmeticTerm expr j
  | .notTerm => Node.condition <$> Schema.notTerm cond j
  | .parenCondition => Node.condition <$> Schema.parenCondition cond j
  | .boolLiteral => Node.condition <$> Schema.boolLiteral j
  | .nullLiteral => Node.condition <$> Schema.nullLiteral j
  | .chainLink => Node.link <$> Schema.chainLink cond j
  | .logicalChain => Node.condition <$> Schema.logicalChain cond j
  | .declarator => Node.declarator <$> Schema.declarator val j
  | .declaration => (Node.stmt ∘ .declare) <$> Schema.declaration val j
  | .assignment => (Node.stmt ∘ .assign) <$> Schema.assignment val j
  | .expressionStatement => Node.stmt <$> Schema.expressionStatement expr j
  | .ifStatement => Node.stmt <$> Schema.ifStatement cond stmt j
  | .forStatement => Node.stmt <$> Schema.forStatement val cond stmt j
  | .whileStatement => Node.stmt <$> Schema.whileStatement cond stmt j
  | .returnStatement => Node.stmt <$> Schema.returnStatement val j
  | .callStatement => Node.stmt <$> Schema.callStatement expr j
  | .parameter => Node.parameter <$> Schema.parameter j
  | .functionDeclaration => (Node.global ∘ .function) <$> Schema.function stmt j
  | .entryFunction => Node.entry <$> Schema.entry stmt j
  | .program => Node.program <$> Schema.program val stmt j
  | .expression => (Node.value ∘ .arith) <$> expr j
  | .valueExpression => Node.value <$> val j
  | .condition => Node.condition <$> cond j
  | .statement => Node.stmt <$> stmt j
  | .globalDeclaration => Node.global <$> Schema.global val stmt j

/-- Read data as a model. -/
def read (m : Model) (j : Json) : Checked Node := m.readWithin j.depth j

end Model

/-! ### Trees from data -/

namespace Schema

/-- Read data as a program. -/
def readProgram (j : Json) : Checked Program :=
  program (value j.depth) (statement j.depth) j

/-- Read data as a statement. -/
def readStatement (j : Json) : Checked Stmt := statement j.depth j

/-- Read data as a right-hand side. -/
def readValue (j : Json) : Checked RValue := value j.depth j

/-- Read data as a condition. -/
def readCondition (j : Json) : Checked Condition := condition j.depth j

end Schema

/-! ### Derived facts -/

/-- Whether reading the written program gives the same program again. -/
def Program.roundTrips (p : Program) : Bool :=
  match Schema.readProgram p.toJson with
  | .ok q => q.toJson.same p.toJson
  | .bad _ => false

/-- What a node knows beyond its fields. -/
def Node.facts : Node → List (String × Json)
  | .span s => [("last_line", .int s.lastLine)]
  | .stmt (.assign a) => [("takes_value", .bool a.action.takesValue)]
  | .stmt (.branch c body other place) =>
    [("has_else", .bool (Stmt.branch c body other place).hasElse)]
  | .program p =>
    [("functions", .arr (p.functions.map fun f => .str f.name)),
      ("round_trip", .bool p.roundTrips)]
  | _ => []

end FlatScript
