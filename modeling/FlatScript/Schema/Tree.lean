import FlatScript.Schema.Decode
import FlatScript.Syntax.Program

/-!
# Reading trees

One reader per class of nodes, and one per set of alternatives.  The classes that contain
expressions, conditions or statements take the readers of those as arguments, and the recursive
readers tie the knot with a bound on the nesting (`expression`, `condition`, `statement`), which
every caller takes from the depth of the data.
-/

namespace FlatScript.Schema

/-! ### Places -/

/-- A span from its four numbers, if it does not end before it starts. -/
def spanOf (line : Int) (endLine : Option Int) (start stop : Int) : Checked Span :=
  if h : ∀ e ∈ endLine, line ≤ e then
    if h' : start ≤ stop then .ok ⟨line, endLine, start, stop, h, h'⟩
    else
      .problem (.inconsistent
        ("stop (" ++ toString stop ++ ") must be >= start (" ++ toString start ++ ")"))
  else
    .problem (.inconsistent
      ("end_line (" ++ toString (endLine.getD line) ++ ") must be >= line (" ++
        toString line ++ ")"))

/-- The four numbers of a span. -/
def spanFields : Reader (Int × Option Int × Int × Int) :=
  object "SourceSpan" fun f =>
    (fun line endLine start stop => (line, endLine, start, stop))
      <$> optional f "line" 0 whole
      <*> optional f "end_line" none (nullable whole)
      <*> optional f "start" (-1) whole
      <*> optional f "stop" (-1) whole

/-- A span; whether its numbers are in order is asked when all of them are fine. -/
def span : Reader Span := fun j =>
  (spanFields j).andThen fun (line, endLine, start, stop) => spanOf line endLine start stop

/-- The span of a node. -/
def spanField (f : Fields) : Checked Span := optional f "span" .unknown span

/-! ### Expressions -/

section
variable (sub : Reader Expr)

/-- A number. -/
def number : Reader Expr :=
  node "NumberLiteral" "number" fun f => Expr.number <$> required f "value" text

/-- A variable. -/
def variableRef : Reader Expr :=
  node "VariableRef" "variable_ref" fun f => Expr.variable <$> required f "name" text

/-- An operation with one of the given operators. -/
def operation (className kind : String) (ops : List ArithOp) : Reader Expr :=
  node className kind fun f =>
    (fun op left right => Expr.binary (.known op) left right)
      <$> required f "op" (among ops) <*> required f "left" sub <*> required f "right" sub

/-- A sum or difference. -/
def additive : Reader Expr := operation sub "AdditiveExpr" "additive" ArithOp.additive

/-- A product, quotient or remainder. -/
def multiplicative : Reader Expr :=
  operation sub "MultiplicativeExpr" "multiplicative" ArithOp.multiplicative

/-- An expression in parentheses. -/
def paren : Reader Expr := node "ParenExpr" "paren" fun f => Expr.paren <$> required f "inner" sub

/-- The name and the arguments of a call. -/
def callParts : Reader (String × List Expr) :=
  node "CallExpr" "call" fun f =>
    Prod.mk <$> required f "name" text <*> optional f "args" [] (list sub)

/-- A call. -/
def call : Reader Expr := fun j => (fun (name, args) => Expr.call name args) <$> callParts sub j

/-- The kinds of arithmetic expressions. -/
def exprOptions : List (String × Reader Expr) :=
  [("number", number), ("variable_ref", variableRef), ("additive", additive sub),
    ("multiplicative", multiplicative sub), ("paren", paren sub), ("call", call sub)]

/-- A piece of text. -/
def textLiteral : Reader RValue :=
  node "TextLiteral" "text" fun f => RValue.text <$> required f "value" text

/-- The kinds of right-hand sides. -/
def valueOptions : List (String × Reader RValue) :=
  (exprOptions sub).map (fun (kind, read) => (kind, fun j => RValue.arith <$> read j)) ++
    [("text", textLiteral)]

end

/-- An arithmetic expression of bounded nesting. -/
def expression : Nat → Reader Expr
  | 0, _ => .bad []
  | depth + 1, j => union (exprOptions (expression depth)) j

/-- A right-hand side of bounded nesting. -/
def value : Nat → Reader RValue
  | 0, _ => .bad []
  | depth + 1, j => union (valueOptions (expression depth)) j

/-! ### Conditions -/

section
variable (expr : Reader Expr) (sub : Reader Condition)

/-- A comparison. -/
def comparison : Reader Condition :=
  node "Comparison" "comparison" fun f =>
    (fun op left right => Condition.comparison (.known op) left right)
      <$> required f "op" word <*> required f "left" expr <*> required f "right" expr

/-- A number as a condition. -/
def arithmeticTerm : Reader Condition :=
  node "ArithmeticTerm" "arith_term" fun f => Condition.truth <$> required f "expr" expr

/-- The opposite of a condition. -/
def notTerm : Reader Condition :=
  node "NotTerm" "not" fun f => Condition.not <$> required f "operand" sub

/-- A condition in parentheses. -/
def parenCondition : Reader Condition :=
  node "ParenCondition" "paren_condition" fun f => Condition.paren <$> required f "inner" sub

/-- A constant. -/
def boolLiteral : Reader Condition :=
  node "BoolLiteral" "bool" fun f => Condition.bool <$> required f "value" truth

/-- The null literal. -/
def nullLiteral : Reader Condition := node "NullLiteral" "null" fun _ => .ok .null

/-- One step of a logical chain. -/
def chainLink : Reader Link :=
  object "ChainLink" fun f =>
    (fun op term => Link.mk (.known op) term) <$> required f "op" word <*> required f "term" sub

/-- A logical chain. -/
def logicalChain : Reader Condition :=
  node "LogicalChain" "chain" fun f =>
    Condition.chain <$> required f "head" sub <*> optional f "links" [] (list (chainLink sub))

/-- The kinds of conditions. -/
def conditionOptions : List (String × Reader Condition) :=
  [("comparison", comparison expr), ("arith_term", arithmeticTerm expr), ("not", notTerm sub),
    ("paren_condition", parenCondition sub), ("bool", boolLiteral), ("null", nullLiteral),
    ("chain", logicalChain sub)]

end

/-- A condition of bounded nesting. -/
def condition : Nat → Reader Condition
  | 0, _ => .bad []
  | depth + 1, j => union (conditionOptions (expression depth) (condition depth)) j

/-! ### Statements -/

/-- An action from an operator and an operand, if they fit together. -/
def actionOf (op : AssignOp) (operand : Option RValue) : Checked Action :=
  match Action.of? op operand with
  | some a => .ok a
  | none =>
    .problem (.inconsistent (Problem.quote (Spelled.spell op) ++
      if op.takesValue then " assignment requires a value" else " assignment takes no value"))

/-- A declaration from its parts, if there is a declarator. -/
def declarationOf (type : TypeTag) (declarators : List Declarator) (span : Span) :
    Checked Declaration :=
  if h : declarators ≠ [] then .ok ⟨type, declarators, span, h⟩
  else .problem (.inconsistent "declaration requires at least one declarator")

section
variable (expr : Reader Expr) (val : Reader RValue) (cond : Reader Condition) (sub : Reader Stmt)

/-- A declared name. -/
def declarator : Reader Declarator :=
  object "Declarator" fun f =>
    Declarator.mk <$> required f "name" text
      <*> optional f "initializer" none (nullable val) <*> spanField f

/-- The parts of a declaration. -/
def declarationFields : Reader (TypeTag × List Declarator × Span) :=
  node "Declaration" "declaration" fun f =>
    (fun type declarators span => (type, declarators, span))
      <$> required f "type_tag" word <*> required f "declarators" (list (declarator val))
      <*> spanField f

/-- A declaration; whether it has a declarator is asked when all its parts are fine. -/
def declaration : Reader Declaration := fun j =>
  (declarationFields val j).andThen
    fun (type, declarators, span) => declarationOf type declarators span

/-- The parts of an assignment. -/
def assignmentFields : Reader (String × AssignOp × Option RValue × Span) :=
  node "Assignment" "assignment" fun f =>
    (fun target op operand span => (target, op, operand, span))
      <$> required f "target" text <*> optional f "op" .set word
      <*> optional f "value" none (nullable val) <*> spanField f

/-- An assignment; whether its parts fit together is asked when all of them are fine. -/
def assignment : Reader Assignment := fun j =>
  (assignmentFields val j).andThen fun (target, op, operand, span) =>
    (fun action => ⟨target, action, span⟩) <$> actionOf op operand

/-- An expression as a statement. -/
def expressionStatement : Reader Stmt :=
  node "ExpressionStatement" "expression" fun f =>
    Stmt.expression <$> required f "expr" expr <*> spanField f

/-- A branch. -/
def ifStatement : Reader Stmt :=
  node "IfStatement" "if" fun f =>
    Stmt.branch <$> required f "condition" cond <*> optional f "body" [] (list sub)
      <*> optional f "else_body" none (nullable (list sub)) <*> spanField f

/-- A loop with a header. -/
def forStatement : Reader Stmt :=
  node "ForStatement" "for" fun f =>
    Stmt.forLoop <$> optional f "init" none (nullable (declaration val))
      <*> optional f "condition" none (nullable cond)
      <*> optional f "update" none (nullable (assignment val))
      <*> optional f "body" [] (list sub) <*> spanField f

/-- A loop with a condition. -/
def whileStatement : Reader Stmt :=
  node "WhileStatement" "while" fun f =>
    Stmt.whileLoop <$> optional f "condition" none (nullable cond)
      <*> optional f "body" [] (list sub) <*> spanField f

/-- A return. -/
def returnStatement : Reader Stmt :=
  node "ReturnStatement" "return" fun f =>
    Stmt.ret <$> optional f "value" none (nullable val) <*> spanField f

/-- A call as a statement. -/
def callStatement : Reader Stmt :=
  node "CallStatement" "call_stmt" fun f =>
    (fun (name, args) span => Stmt.call name args span)
      <$> required f "call" (callParts expr) <*> spanField f

/-- The kinds of statements. -/
def stmtOptions : List (String × Reader Stmt) :=
  [("declaration", fun j => Stmt.declare <$> declaration val j),
    ("assignment", fun j => Stmt.assign <$> assignment val j),
    ("expression", expressionStatement expr), ("if", ifStatement cond sub),
    ("for", forStatement val cond sub), ("while", whileStatement cond sub),
    ("return", returnStatement val), ("call_stmt", callStatement expr)]

end

/-- A statement of bounded nesting. -/
def statement : Nat → Reader Stmt
  | 0, _ => .bad []
  | depth + 1, j =>
    union (stmtOptions (expression depth) (value depth) (condition depth) (statement depth)) j

/-! ### Programs -/

/-- A parameter. -/
def parameter : Reader Parameter :=
  object "Parameter" fun f => Parameter.mk <$> required f "type_tag" word <*> required f "name" text

section
variable (val : Reader RValue) (sub : Reader Stmt)

/-- A function. -/
def function : Reader Function :=
  node "FunctionDeclaration" "function" fun f =>
    Function.mk <$> required f "name" text <*> required f "return_type" word
      <*> optional f "parameters" [] (list parameter) <*> optional f "body" [] (list sub)
      <*> spanField f

/-- The entry block. -/
def entry : Reader Entry :=
  object "EntryFunction" fun f =>
    Entry.mk <$> optional f "name" "main" text <*> optional f "return_type" .int word
      <*> optional f "body" [] (list sub) <*> spanField f

/-- The kinds of global declarations. -/
def globalOptions : List (String × Reader Global) :=
  [("declaration", fun j => Global.declaration <$> declaration val j),
    ("function", fun j => Global.function <$> function sub j)]

/-- A global declaration. -/
def global : Reader Global := union (globalOptions val sub)

/-- A program. -/
def program : Reader Program :=
  object "Program" fun f =>
    Program.mk <$> optional f "globals" [] (list (global val sub))
      <*> optional f "entry" {} (entry sub)

end

end FlatScript.Schema
