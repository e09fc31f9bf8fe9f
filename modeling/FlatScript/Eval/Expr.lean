import FlatScript.Builtin
import FlatScript.Store
import FlatScript.Syntax.Expr

/-!
# Evaluation of expressions

`Expr.eval` is the number of an arithmetic expression in a store.  Operands are evaluated from left
to right before their operator is looked at; a call is checked, first its name and then the number
of its arguments, before its argument is evaluated.  `RValue.eval` is the value of a right-hand
side.
-/

namespace FlatScript

/-- The result of an operator of the language. -/
def ArithOp.apply (op : ArithOp) (x y : Double) : Except Fault Double :=
  match op with
  | .add => .ok (x.add y)
  | .sub => .ok (x.sub y)
  | .mul => .ok (x.mul y)
  | .div => if y.isZero then .error .divisionByZero else .ok (x.div y)
  | .rem => .ok (x.rem y)

/-- The result of an arithmetic operator; a foreign one is reported. -/
def Operator.applyArith : Operator ArithOp → Double → Double → Except Fault Double
  | .known op, x, y => op.apply x y
  | .foreign symbol, _, _ => .error (.unsupported .arithmeticOp symbol)

/-- The number of an expression. -/
def Expr.eval (σ : Store) : Expr → Except Fault Double
  | .number numeral => readNumeral numeral
  | .variable name => do (← σ.get name).asNumber
  | .binary op left right => do
    let x ← left.eval σ
    let y ← right.eval σ
    op.applyArith x y
  | .paren inner => inner.eval σ
  | .call name args =>
    match (Spelled.parse? name : Option Builtin) with
    | none => .error (.unknownFunction name)
    | some f =>
      match args with
      | [arg] => do return f.apply (← arg.eval σ)
      | _ => .error (.wrongArity name Builtin.arity args.length)
  | .relabelled kind _ => .error (.unsupported .expressionKind kind)

/-- The value of a right-hand side: text stays text. -/
def RValue.eval (σ : Store) : RValue → Except Fault Value
  | .arith e => do return .number (← e.eval σ)
  | .text s => .ok (.text s)
  | .relabelledText _ s => .ok (.text s)

/-- The number of a right-hand side used as an operand. -/
def RValue.evalNumber (σ : Store) : RValue → Except Fault Double
  | .arith e => e.eval σ
  | .text s => (Value.text s).asNumber
  | .relabelledText kind _ => .error (.unsupported .expressionKind kind)

end FlatScript
