import FlatScript.Schema.Print

/-!
# Nodes of any class

A `Node` is a piece of a tree of any class.  Its class is known by a name, which does not depend on
the kind name that it may have been given.
-/

namespace FlatScript

/-- The class of an expression. -/
def Expr.className : Expr → String
  | .number _ => "NumberLiteral"
  | .variable _ => "VariableRef"
  | .binary op _ _ => if op.exprKind = "additive" then "AdditiveExpr" else "MultiplicativeExpr"
  | .paren _ => "ParenExpr"
  | .call _ _ => "CallExpr"
  | .relabelled _ e => e.className

/-- The class of a right-hand side. -/
def RValue.className : RValue → String
  | .arith e => e.className
  | .text _ => "TextLiteral"
  | .relabelledText _ _ => "TextLiteral"

/-- The class of a condition. -/
def Condition.className : Condition → String
  | .comparison _ _ _ => "Comparison"
  | .truth _ => "ArithmeticTerm"
  | .not _ => "NotTerm"
  | .paren _ => "ParenCondition"
  | .bool _ => "BoolLiteral"
  | .null => "NullLiteral"
  | .chain _ _ => "LogicalChain"
  | .relabelled _ c => c.className

/-- The class of a statement. -/
def Stmt.className : Stmt → String
  | .declare _ => "Declaration"
  | .assign _ => "Assignment"
  | .expression _ _ => "ExpressionStatement"
  | .branch _ _ _ _ => "IfStatement"
  | .forLoop _ _ _ _ _ => "ForStatement"
  | .whileLoop _ _ _ => "WhileStatement"
  | .ret _ _ => "ReturnStatement"
  | .call _ _ _ => "CallStatement"
  | .relabelled _ s => s.className

/-- The class of a global declaration. -/
def Global.className : Global → String
  | .declaration _ => "Declaration"
  | .relabelledDeclaration _ _ => "Declaration"
  | .function _ => "FunctionDeclaration"

/-- A piece of a tree. -/
inductive Node where
  | span (s : Span)
  | value (v : RValue)
  | condition (c : Condition)
  | link (l : Link)
  | declarator (d : Declarator)
  | stmt (s : Stmt)
  | parameter (p : Parameter)
  | global (g : Global)
  | entry (e : Entry)
  | program (p : Program)

namespace Node

/-- The class of a node. -/
def className : Node → String
  | .span _ => "SourceSpan"
  | .value v => v.className
  | .condition c => c.className
  | .link _ => "ChainLink"
  | .declarator _ => "Declarator"
  | .stmt s => s.className
  | .parameter _ => "Parameter"
  | .global g => g.className
  | .entry _ => "EntryFunction"
  | .program _ => "Program"

/-- A node as data. -/
def toJson : Node → Json
  | .span s => s.toJson
  | .value v => v.toJson
  | .condition c => c.toJson
  | .link l => l.toJson
  | .declarator d => d.toJson
  | .stmt s => s.toJson
  | .parameter p => p.toJson
  | .global g => g.toJson
  | .entry e => e.toJson
  | .program p => p.toJson

end Node

end FlatScript
