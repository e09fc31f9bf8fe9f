import FlatScript.Spelled
import FlatScript.Text.Quoted

/-!
# Faults

`Fault` lists the causes that end a run, an analysis or a conversion; `Fault.message` is the only
place with their wording.  `Category` is the hierarchy that a host sees: every error of the
language is general, the errors of a running program are evaluation errors, and a division by zero
is an arithmetic error as well.  A `Report` is an error that a host raises itself: a fault, or a
message of its own under one of the categories.
-/

namespace FlatScript

/-- A place where the language looks up a kind name or an operator symbol.  The kind of the operand
of an assignment is looked up even if there is no operand. -/
inductive Lookup where
  | statementKind
  | expressionKind
  | conditionKind
  | arithmeticOp
  | comparisonOp
  | logicalOp
  | assignmentOp
  | absentOperand
  deriving DecidableEq

/-- The words for what is looked up. -/
def Lookup.description : Lookup → String
  | .statementKind => "statement kind"
  | .expressionKind => "expression kind"
  | .conditionKind => "condition kind"
  | .arithmeticOp => "arithmetic op"
  | .comparisonOp => "comparison op"
  | .logicalOp => "logical op"
  | .assignmentOp => "assignment op"
  | .absentOperand => "absent operand"

/-- The cause of a failure. -/
inductive Fault where
  /-- A variable was read that the store does not have. -/
  | undefinedVariable (name : String)
  /-- A call names no built-in function. -/
  | unknownFunction (name : String)
  /-- A call has the wrong number of arguments. -/
  | wrongArity (name : String) (expected got : Int)
  /-- The divisor was zero. -/
  | divisionByZero
  /-- A foreign kind name or operator symbol was reached. -/
  | unsupported (lookup : Lookup) (symbol : String)
  /-- A node that is no expression has no source text. -/
  | unrenderable (className : String)
  /-- A text that should be a numeral is none. -/
  | badNumeral (text : String)
  /-- A word that should name a member of a closed set names none. -/
  | badMember (set word : String)
  /-- A tolerance is not positive. -/
  | badTolerance (shown : String)
  deriving DecidableEq

/-- The wording of a fault.  A foreign assignment operator is shown and nothing else, and one
without an operand is not shown. -/
def Fault.message : Fault → String
  | .undefinedVariable name => "Undefined variable: " ++ name
  | .unknownFunction name => "Unknown function: " ++ name
  | .wrongArity name expected got =>
    name ++ "() takes exactly " ++ toString expected ++ " argument(s), got " ++ toString got
  | .divisionByZero => "Division by zero"
  | .unsupported .assignmentOp symbol => Text.quoted symbol
  | .unsupported .absentOperand _ => "'NoneType' object has no attribute 'kind'"
  | .unsupported lookup symbol => "Unsupported " ++ lookup.description ++ ": " ++ symbol
  | .unrenderable className => "Cannot render expression kind: " ++ className
  | .badNumeral text => "could not convert string to float: " ++ Text.quoted text
  | .badMember set word => Text.quoted word ++ " is not a valid " ++ set
  | .badTolerance shown => "epsilon must be positive, got " ++ shown

/-- The member of a closed set that a word names. -/
def Spelled.named {α : Type} [Spelled α] (set word : String) : Except Fault α :=
  match Spelled.parse? word with
  | some a => .ok a
  | none => .error (.badMember set word)

/-- The categories of errors. -/
inductive Category where
  | general
  | evaluation
  | arithmetic
  | invariant
  deriving DecidableEq

/-- The categories that an error of a category belongs to, the most general one first. -/
def Category.lineage : Category → List Category
  | .general => [.general]
  | .evaluation => [.general, .evaluation]
  | .arithmetic => [.general, .evaluation, .arithmetic]
  | .invariant => [.general, .invariant]

/-- The category of a fault; the rejection of a single value belongs to none, and so does an
assignment operator that is not in the table of operators or has no operand. -/
def Fault.category? : Fault → Option Category
  | .undefinedVariable _ => some .evaluation
  | .unknownFunction _ => some .evaluation
  | .wrongArity _ _ _ => some .evaluation
  | .divisionByZero => some .arithmetic
  | .unsupported .assignmentOp _ => none
  | .unsupported .absentOperand _ => none
  | .unsupported _ _ => some .invariant
  | .unrenderable _ => some .invariant
  | .badNumeral _ => none
  | .badMember _ _ => none
  | .badTolerance _ => none

/-- An error raised by a host. -/
inductive Report where
  /-- A fault of the language. -/
  | fault (fault : Fault)
  /-- An error of a category with the host's own message. -/
  | custom (category : Category) (message : String)

namespace Report

/-- The wording of a report. -/
def message : Report → String
  | .fault f => f.message
  | .custom _ message => message

/-- The categories that a report belongs to. -/
def lineage : Report → List Category
  | .fault f => (f.category?.map Category.lineage).getD []
  | .custom c _ => c.lineage

end Report

end FlatScript
