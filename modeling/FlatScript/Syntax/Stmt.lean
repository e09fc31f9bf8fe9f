import FlatScript.Syntax.Condition
import FlatScript.Syntax.Source

/-!
# Statements

Statements carry the place they were read from.  A declaration has at least one declarator, and
the action of an assignment has an operand exactly when its operator takes one, by construction.
An action under a foreign operator, or under one that does not fit, keeps whatever operand it has.
-/

namespace FlatScript

/-- A declared name with an optional initial value, and the place of the name. -/
structure Declarator where
  name : String
  initializer : Option RValue := none
  span : Span := .unknown

/-- A declaration of one or more variables of one type. -/
structure Declaration where
  type : TypeTag
  declarators : List Declarator
  span : Span := .unknown
  nonempty : declarators ≠ []

/-- What an assignment does to its target. -/
inductive Action where
  /-- Store a value. -/
  | set (value : RValue)
  /-- Add one. -/
  | increment
  /-- Subtract one. -/
  | decrement
  /-- Combine the current value with an operand. -/
  | update (op : ArithOp) (operand : RValue)
  /-- Something under an operator that the language does not know, or that does not fit the operand:
  an increment or a decrement with one, or any other operator without one. -/
  | foreign (symbol : String) (operand : Option RValue)

/-- An assignment to a variable. -/
structure Assignment where
  target : String
  action : Action
  span : Span := .unknown

/-- A statement. -/
inductive Stmt where
  /-- A declaration. -/
  | declare (declaration : Declaration)
  /-- An assignment. -/
  | assign (assignment : Assignment)
  /-- An expression evaluated for its value. -/
  | expression (expr : Expr) (span : Span)
  /-- A branch; an absent alternative differs from an empty one in reports only. -/
  | branch (condition : Condition) (body : List Stmt) (alternative : Option (List Stmt))
      (span : Span)
  /-- A loop with a header of three optional parts. -/
  | forLoop (init : Option Declaration) (condition : Option Condition)
      (update : Option Assignment) (body : List Stmt) (span : Span)
  /-- A loop with an optional condition. -/
  | whileLoop (condition : Option Condition) (body : List Stmt) (span : Span)
  /-- A return, which yields its value and does not transfer control. -/
  | ret (value : Option RValue) (span : Span)
  /-- A function called for its effect. -/
  | call (name : String) (args : List Expr) (span : Span)
  /-- A statement under a kind name that the language does not know. -/
  | relabelled (kind : String) (stmt : Stmt)

/-- The assignment operators, as they are written. -/
inductive AssignOp where
  | set
  | increment
  | decrement
  | update (op : ArithOp)
  deriving DecidableEq

instance : Spelled AssignOp where
  all := [.set, .increment, .decrement, .update .add, .update .sub, .update .mul, .update .div,
    .update .rem]
  spell
    | .set => "="
    | .increment => "++"
    | .decrement => "--"
    | .update .add => "+="
    | .update .sub => "-="
    | .update .mul => "*="
    | .update .div => "/="
    | .update .rem => "%="
  mem_all a := by rcases a with _ | _ | _ | (_ | _ | _ | _ | _) <;> decide
  spell_injective a b := by
    rcases a with _ | _ | _ | (_ | _ | _ | _ | _) <;>
      rcases b with _ | _ | _ | (_ | _ | _ | _ | _) <;> decide

/-- Whether the operator is followed by an operand. -/
def AssignOp.takesValue : AssignOp → Bool
  | .increment => false
  | .decrement => false
  | _ => true

namespace Action

/-- The operator of an action. -/
def op : Action → Operator AssignOp
  | .set _ => .known .set
  | .increment => .known .increment
  | .decrement => .known .decrement
  | .update op _ => .known (.update op)
  | .foreign symbol _ => .foreign symbol

/-- The operand of an action. -/
def value? : Action → Option RValue
  | .set v => some v
  | .increment => none
  | .decrement => none
  | .update _ v => some v
  | .foreign _ v => v

/-- The action of an operator and an operand, if they fit together. -/
def of? : AssignOp → Option RValue → Option Action
  | .set, some v => some (.set v)
  | .increment, none => some .increment
  | .decrement, none => some .decrement
  | .update op, some v => some (.update op v)
  | _, _ => none

theorem of?_value? {a : Action} {op : AssignOp} (h : a.op = .known op) :
    of? op a.value? = some a := by
  cases a <;> cases h <;> rfl

/-- Whether the operator of an action is followed by an operand; a foreign one is. -/
def takesValue (a : Action) : Bool :=
  match a.op with
  | .known op => op.takesValue
  | .foreign _ => true

/-- The action with another operator and the same operand.  An operator that does not fit the
operand is kept beside it like a foreign one. -/
def withOp (symbol : String) (a : Action) : Action :=
  match Operator.ofSymbol symbol with
  | .known op => (of? op a.value?).getD (.foreign symbol a.value?)
  | .foreign symbol => .foreign symbol a.value?

end Action

namespace Stmt

/-- A statement under a foreign kind name, in place of any other foreign kind name. -/
def relabel (kind : String) : Stmt → Stmt
  | .relabelled _ s => .relabelled kind s
  | s => .relabelled kind s

/-- The place of a statement. -/
def span : Stmt → Span
  | .declare d => d.span
  | .assign a => a.span
  | .expression _ span => span
  | .branch _ _ _ span => span
  | .forLoop _ _ _ _ span => span
  | .whileLoop _ _ span => span
  | .ret _ span => span
  | .call _ _ span => span
  | .relabelled _ s => s.span

/-- Whether the statement is a branch with an alternative, be it empty. -/
def hasElse : Stmt → Bool
  | .branch _ _ alternative _ => alternative.isSome
  | .relabelled _ s => s.hasElse
  | _ => false

end Stmt

end FlatScript
