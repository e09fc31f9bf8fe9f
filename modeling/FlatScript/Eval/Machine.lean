import FlatScript.Store

/-!
# The state of a run

A `Machine` is the store, the scope that new variables get, and the log of the run.  A step of a
run ends in one of three ways (`Outcome`): it is done, it has failed with the machine as it was at
that point, or the bound on the iterations of a loop was too small to tell.
-/

namespace FlatScript

/-- The two kinds of loops. -/
inductive LoopKind where
  | forLoop
  | whileLoop
  deriving DecidableEq

/-- The word that starts a loop. -/
def LoopKind.word : LoopKind → String
  | .forLoop => "for"
  | .whileLoop => "while"

/-- Something that a run writes to its log. -/
inductive Event where
  /-- A program was started. -/
  | started (globals statements : Nat)
  /-- A loop was left because its condition was false. -/
  | loopExited (kind : LoopKind) (iterations : Nat)
  /-- A program came to its end. -/
  | finished (size : Nat)
  deriving DecidableEq

/-- The wording of an event. -/
def Event.message : Event → String
  | .started globals statements =>
    "Evaluating program: " ++ toString globals ++ " global declaration(s), " ++
      toString statements ++ " entry statement(s)"
  | .loopExited kind iterations =>
    kind.word ++ " loop exited after " ++ toString iterations ++ " iteration(s)"
  | .finished size => "Evaluation finished with " ++ toString size ++ " variable(s)"

/-- The state of a run. -/
structure Machine where
  store : Store := .empty
  /-- The scope of the variables that the next statements create. -/
  scope : Scope := .globals
  log : Array Event := #[]
  deriving DecidableEq

namespace Machine

/-- The state before anything has run. -/
def fresh : Machine := {}

/-- Add an event to the log. -/
def record (m : Machine) (e : Event) : Machine := { m with log := m.log.push e }

/-- Declare a variable in the current scope. -/
def declare (m : Machine) (name : String) (value : Value) (type : TypeTag) : Machine :=
  { m with store := m.store.declare name value type m.scope }

/-- Assign to a variable; a new one gets the current scope. -/
def assign (m : Machine) (name : String) (value : Value) : Machine :=
  { m with store := m.store.assign name value m.scope }

end Machine

/-- How a step of a run ends. -/
inductive Outcome (α : Type) where
  /-- The step has a result. -/
  | done (result : α) (machine : Machine)
  /-- The step has failed; the machine is as it was at that point. -/
  | failed (fault : Fault) (machine : Machine)
  /-- A loop has used up its iterations. -/
  | outOfFuel
  deriving DecidableEq

namespace Outcome

variable {α β : Type}

/-- The outcome of a computation that does not change the machine. -/
def ofExcept (m : Machine) : Except Fault α → Outcome α
  | .ok a => .done a m
  | .error f => .failed f m

/-- Go on from a step that is done. -/
@[inline] def andThen (o : Outcome α) (next : α → Machine → Outcome β) : Outcome β :=
  match o with
  | .done a m => next a m
  | .failed f m => .failed f m
  | .outOfFuel => .outOfFuel

end Outcome

end FlatScript
