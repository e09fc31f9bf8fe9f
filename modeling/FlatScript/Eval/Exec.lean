import FlatScript.Eval.Condition
import FlatScript.Eval.Machine
import FlatScript.Syntax.Program

/-!
# Execution of statements

`Stmt.exec` runs a statement on a machine.  The value of a statement is the value that it computed
last: that of the last statement of a block, of the last declarator of a declaration, and of the
body of the last iteration of a loop, without the update.  A return yields its value like any other
statement and does not end anything.

The fuel bounds the iterations of each loop, and the result does not depend on it once the loops
come to an end.
-/

namespace FlatScript

/-! ### Declarations and assignments -/

/-- The value that a declarator gives its name. -/
def Declarator.eval (σ : Store) (type : TypeTag) (d : Declarator) : Except Fault Value :=
  match d.initializer with
  | some v => v.eval σ
  | none => .ok type.defaultValue

/-- Declare the names from left to right; the result is the value of the last one. -/
def Declarator.execAll (type : TypeTag) :
    List Declarator → Option Value → Machine → Outcome (Option Value)
  | [], last, m => .done last m
  | d :: ds, _, m =>
    match d.eval m.store type with
    | .error f => .failed f m
    | .ok v => Declarator.execAll type ds (some v) (m.declare d.name v type)

/-- Execute a declaration. -/
def Declaration.exec (d : Declaration) (m : Machine) : Outcome (Option Value) :=
  Declarator.execAll d.type d.declarators none m

/-- The value of a target after a step from the number that it holds. -/
def Store.stepped (σ : Store) (target : String) (step : Double → Double) : Except Fault Value := do
  return .number (step (← (← σ.get target).asNumber))

/-- The number of the operand of an operator. -/
def operandNumber (σ : Store) (symbol : String) : Option RValue → Except Fault Double
  | some v => v.evalNumber σ
  | none => .error (.unsupported .absentOperand symbol)

/-- The value that an action gives its target.  An action other than a plain assignment reads the
target first and then evaluates its operand; only after that is a foreign operator reported.  An
increment or a decrement does not look at an operand that it has, and a plain assignment that has
none does not get as far as its target. -/
def Action.eval (σ : Store) (target : String) : Action → Except Fault Value
  | .set v => v.eval σ
  | .increment => σ.stepped target (·.add Double.one)
  | .decrement => σ.stepped target (·.sub Double.one)
  | .update op operand => do
    let x ← (← σ.get target).asNumber
    let y ← operand.evalNumber σ
    return .number (← op.apply x y)
  | .foreign symbol operand =>
    match (Operator.ofSymbol symbol : Operator AssignOp) with
    | .known .set => .error (.unsupported .absentOperand symbol)
    | .known .increment => σ.stepped target (·.add Double.one)
    | .known .decrement => σ.stepped target (·.sub Double.one)
    | _ => do
      -- an operator of the language gets no further than the operand, which it lacks
      let _ ← (← σ.get target).asNumber
      let _ ← operandNumber σ symbol operand
      .error (.unsupported .assignmentOp symbol)

/-- Execute an assignment. -/
def Assignment.exec (a : Assignment) (m : Machine) : Outcome (Option Value) :=
  match a.action.eval m.store a.target with
  | .error f => .failed f m
  | .ok v => .done (some v) (m.assign a.target v)

/-! ### Loops -/

/-- The truth value of an optional condition; an absent one is true. -/
def testOptional (tolerance : Double) (σ : Store) : Option Condition → Except Fault Bool
  | none => .ok true
  | some c => c.test tolerance σ

/-- Execute an optional declaration for its effect. -/
def execInit : Option Declaration → Machine → Outcome (Option Value)
  | none, m => .done none m
  | some d, m => d.exec m

/-- Execute an optional assignment for its effect. -/
def execUpdate : Option Assignment → Machine → Outcome (Option Value)
  | none, m => .done none m
  | some a, m => a.exec m

/-- Repeat a body and an update while a condition holds.  The result is the value of the last body,
and the number of iterations is recorded on exit. -/
def iterate (kind : LoopKind) (test : Store → Except Fault Bool)
    (body update : Machine → Outcome (Option Value)) :
    Nat → Nat → Option Value → Machine → Outcome (Option Value)
  | 0, _, _, _ => .outOfFuel
  | fuel + 1, count, last, m =>
    match test m.store with
    | .error f => .failed f m
    | .ok false => .done last (m.record (.loopExited kind count))
    | .ok true =>
      match body m with
      | .failed f m => .failed f m
      | .outOfFuel => .outOfFuel
      | .done v m =>
        match update m with
        | .failed f m => .failed f m
        | .outOfFuel => .outOfFuel
        | .done _ m => iterate kind test body update fuel (count + 1) v m

/-! ### Statements -/

mutual

/-- Execute a statement. -/
def Stmt.exec (tolerance : Double) (fuel : Nat) : Stmt → Machine → Outcome (Option Value)
  | .declare d, m => d.exec m
  | .assign a, m => a.exec m
  | .expression e _, m => .ofExcept m do return some (.number (← e.eval m.store))
  | .branch condition body alternative _, m =>
    match condition.test tolerance m.store with
    | .error f => .failed f m
    | .ok true => Stmt.execAll tolerance fuel body none m
    | .ok false => Stmt.execAlternative tolerance fuel alternative m
  | .forLoop init condition update body _, m =>
    (execInit init m).andThen fun _ m =>
      iterate .forLoop (fun σ => testOptional tolerance σ condition)
        (fun m => Stmt.execAll tolerance fuel body none m) (execUpdate update) fuel 0 none m
  | .whileLoop condition body _, m =>
    iterate .whileLoop (fun σ => testOptional tolerance σ condition)
      (fun m => Stmt.execAll tolerance fuel body none m) (execUpdate none) fuel 0 none m
  | .ret none _, m => .done none m
  | .ret (some v) _, m => .ofExcept m do return some (← v.eval m.store)
  | .call name args _, m =>
    .ofExcept m do return some (.number (← (Expr.call name args).eval m.store))
  | .relabelled kind _, m => .failed (.unsupported .statementKind kind) m

/-- Execute statements in order; the result is the value of the last one. -/
def Stmt.execAll (tolerance : Double) (fuel : Nat) :
    List Stmt → Option Value → Machine → Outcome (Option Value)
  | [], last, m => .done last m
  | s :: rest, _, m =>
    match s.exec tolerance fuel m with
    | .failed f m => .failed f m
    | .outOfFuel => .outOfFuel
    | .done v m => Stmt.execAll tolerance fuel rest v m

/-- Execute the alternative of a branch; an absent one does nothing. -/
def Stmt.execAlternative (tolerance : Double) (fuel : Nat) :
    Option (List Stmt) → Machine → Outcome (Option Value)
  | none, m => .done none m
  | some body, m => Stmt.execAll tolerance fuel body none m

end

/-! ### Programs -/

/-- Run a program on a fresh store: the global variables in the global scope, then the entry block
in the main scope. -/
def Program.run (tolerance : Double) (fuel : Nat) (p : Program) : Outcome (Option Value) :=
  let m := Machine.fresh.record (.started p.globals.length p.entry.body.length)
  (Stmt.execAll tolerance fuel (p.globals.filterMap Global.stmt?) none m).andThen fun last m =>
    (Stmt.execAll tolerance fuel p.entry.body last { m with scope := .main }).andThen fun last m =>
      .done last (m.record (.finished m.store.size))

end FlatScript
