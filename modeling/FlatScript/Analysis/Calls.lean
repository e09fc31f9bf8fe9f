import FlatScript.Fault
import FlatScript.Syntax.Stmt

/-!
# Direct calls

Whether a body calls a function by name.  The search goes into initializers, right-hand sides,
expressions and returned values, through both operands of an operation and through parentheses,
and into the bodies of branches and loops.  The arguments of calls, the conditions and the headers
of loops are not searched.  The search stops at the first call it finds.
-/

namespace FlatScript

/-- Whether an expression calls the function outside the arguments of calls. -/
def Expr.calls (name : String) : Expr → Bool
  | .binary _ left right => left.calls name || right.calls name
  | .paren inner => inner.calls name
  | .call n _ => n == name
  | .number _ => false
  | .variable _ => false
  | .relabelled _ e => e.calls name

/-- Whether a right-hand side calls the function. -/
def RValue.calls (name : String) : RValue → Bool
  | .arith e => e.calls name
  | .text _ => false
  | .relabelledText _ _ => false

/-- Whether an initializer of a declaration calls the function. -/
def Declaration.calls (name : String) (d : Declaration) : Bool :=
  d.declarators.any fun d => d.initializer.any (RValue.calls name)

mutual

/-- Whether a statement calls the function. -/
def Stmt.calls (name : String) : Stmt → Except Fault Bool
  | .declare d => .ok (d.calls name)
  | .assign a => .ok (a.action.value?.any (RValue.calls name))
  | .expression e _ => .ok (e.calls name)
  | .branch _ body alternative _ => do
    if ← Stmt.anyCalls name body then return true
    Stmt.alternativeCalls name alternative
  | .forLoop _ _ _ body _ => Stmt.anyCalls name body
  | .whileLoop _ body _ => Stmt.anyCalls name body
  | .ret v _ => .ok (v.any (RValue.calls name))
  | .call n _ _ => .ok (n == name)
  | .relabelled kind _ => .error (.unsupported .statementKind kind)

/-- Whether one of the statements calls the function. -/
def Stmt.anyCalls (name : String) : List Stmt → Except Fault Bool
  | [] => .ok false
  | s :: rest => do
    if ← s.calls name then return true
    Stmt.anyCalls name rest

/-- Whether the alternative of a branch calls the function. -/
def Stmt.alternativeCalls (name : String) : Option (List Stmt) → Except Fault Bool
  | none => .ok false
  | some body => Stmt.anyCalls name body

end

end FlatScript
