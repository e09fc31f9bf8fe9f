import FlatScript.Eval.Expr
import FlatScript.Syntax.Condition

/-!
# Testing conditions

`Condition.test` decides a condition in a store.  Every term of a logical chain is tested, from
left to right and whatever the terms before it gave, and the results are combined in that order.
Two numbers are equal when they differ by less than the tolerance; the other comparisons are
exact.
-/

namespace FlatScript

/-- The result of a comparison of the language. -/
def CompareOp.test (tolerance : Double) (op : CompareOp) (x y : Double) : Bool :=
  match op with
  | .lt => x.lt y
  | .le => x.le y
  | .gt => y.lt x
  | .ge => y.le x
  | .eq => x.approxEq y tolerance
  | .ne => !x.approxEq y tolerance

/-- The result of a comparison; a foreign one is reported. -/
def Operator.testCompare (tolerance : Double) :
    Operator CompareOp → Double → Double → Except Fault Bool
  | .known op, x, y => .ok (op.test tolerance x y)
  | .foreign symbol, _, _ => .error (.unsupported .comparisonOp symbol)

/-- The result so far of a chain joined with its next term; a foreign operator is reported. -/
def Operator.join : Operator LogicalOp → Bool → Bool → Except Fault Bool
  | .known .and, a, b => .ok (a && b)
  | .known .or, a, b => .ok (a || b)
  | .foreign symbol, _, _ => .error (.unsupported .logicalOp symbol)

mutual

/-- The truth value of a condition. -/
def Condition.test (tolerance : Double) (σ : Store) : Condition → Except Fault Bool
  | .comparison op left right => do
    let x ← left.eval σ
    let y ← right.eval σ
    op.testCompare tolerance x y
  | .truth e => do return !(← e.eval σ).isZero
  | .not operand => do return !(← operand.test tolerance σ)
  | .paren inner => inner.test tolerance σ
  | .bool b => .ok b
  | .null => .ok false
  | .chain head links => do
    let first ← head.test tolerance σ
    Link.testAll tolerance σ first links
  | .relabelled kind _ => .error (.unsupported .conditionKind kind)

/-- The truth value of a chain from the result so far and the remaining links. -/
def Link.testAll (tolerance : Double) (σ : Store) (soFar : Bool) : List Link → Except Fault Bool
  | [] => .ok soFar
  | .mk op term :: links => do
    let next ← term.test tolerance σ
    let joined ← op.join soFar next
    Link.testAll tolerance σ joined links

end

end FlatScript
