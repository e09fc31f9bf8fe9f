import FlatScript.Eval.Exec
import FlatScript.Schema.Model

/-!
# Sessions

A session keeps one machine over a sequence of requests.  A program starts on a fresh store;
statements, expressions and conditions go on with the store that is there.  A request whose data
cannot be read changes nothing.
-/

namespace FlatScript

/-- A machine that answers requests. -/
structure Session where
  tolerance : Tolerance
  machine : Machine := .fresh

/-- What a session can be asked. -/
inductive Request where
  /-- Run a program on a fresh store. -/
  | run (program : Json)
  /-- Execute a statement. -/
  | exec (statement : Json)
  /-- Evaluate a right-hand side. -/
  | eval (expression : Json)
  /-- Test a condition. -/
  | test (condition : Json)
  /-- Show the variables. -/
  | listVariables

/-- What a session answers. -/
inductive Answer where
  /-- The data of the request cannot be read. -/
  | rejected (issues : List Issue)
  /-- The result of a run or a statement, and the variables after it. -/
  | finished (value : Option Value) (store : Store)
  /-- A run or a statement has failed, and the variables at that point. -/
  | failed (fault : Fault) (store : Store)
  /-- A loop has used up its iterations. -/
  | outOfFuel
  /-- The value of a right-hand side. -/
  | evaluated (result : Except Fault Value)
  /-- The truth value of a condition. -/
  | tested (result : Except Fault Bool)
  /-- The variables. -/
  | shown (store : Store)

namespace Session

/-- The answer to a step that changes the machine, and the session after it. -/
def conclude (s : Session) : Outcome (Option Value) → Answer × Session
  | .done v m => (.finished v m.store, { s with machine := m })
  | .failed f m => (.failed f m.store, { s with machine := m })
  | .outOfFuel => (.outOfFuel, s)

/-- Answer a request. -/
def answer (fuel : Nat) (s : Session) : Request → Answer × Session
  | .run j =>
    match Schema.readProgram j with
    | .bad issues => (.rejected issues, s)
    | .ok p => s.conclude (p.run s.tolerance.value fuel)
  | .exec j =>
    match Schema.readStatement j with
    | .bad issues => (.rejected issues, s)
    | .ok stmt => s.conclude (stmt.exec s.tolerance.value fuel s.machine)
  | .eval j =>
    match Schema.readValue j with
    | .bad issues => (.rejected issues, s)
    | .ok v => (.evaluated (v.eval s.machine.store), s)
  | .test j =>
    match Schema.readCondition j with
    | .bad issues => (.rejected issues, s)
    | .ok c => (.tested (c.test s.tolerance.value s.machine.store), s)
  | .listVariables => (.shown s.machine.store, s)

/-- Answer requests in order. -/
def answerAll (fuel : Nat) (s : Session) : List Request → List Answer
  | [] => []
  | r :: rs =>
    let (a, s) := s.answer fuel r
    a :: s.answerAll fuel rs

end Session

end FlatScript
