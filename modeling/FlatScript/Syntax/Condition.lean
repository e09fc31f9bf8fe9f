import FlatScript.Syntax.Expr

/-!
# Conditions

A condition is what an `if` or a loop tests.  A logical chain `head op term op term …` is kept as
it was written; it is combined from left to right, with no precedence among its operators.
-/

namespace FlatScript

/-- The comparison operators. -/
inductive CompareOp where
  | lt
  | le
  | gt
  | ge
  | eq
  | ne
  deriving DecidableEq

instance : Spelled CompareOp where
  all := [.lt, .le, .gt, .ge, .eq, .ne]
  spell
    | .lt => "<"
    | .le => "<="
    | .gt => ">"
    | .ge => ">="
    | .eq => "=="
    | .ne => "!="
  mem_all a := by cases a <;> decide
  spell_injective a b := by cases a <;> cases b <;> decide

/-- The operators that join the terms of a logical chain. -/
inductive LogicalOp where
  | and
  | or
  deriving DecidableEq

instance : Spelled LogicalOp where
  all := [.and, .or]
  spell
    | .and => "&&"
    | .or => "||"
  mem_all a := by cases a <;> decide
  spell_injective a b := by cases a <;> cases b <;> decide

mutual

/-- A condition. -/
inductive Condition where
  /-- A comparison of two numbers. -/
  | comparison (op : Operator CompareOp) (left right : Expr)
  /-- A number as a condition: true unless it is zero. -/
  | truth (expr : Expr)
  /-- The opposite of a condition. -/
  | not (operand : Condition)
  /-- A condition in parentheses. -/
  | paren (inner : Condition)
  /-- A constant. -/
  | bool (value : Bool)
  /-- The null literal, which is false. -/
  | null
  /-- A logical chain. -/
  | chain (head : Condition) (links : List Link)
  /-- A condition under a kind name that the language does not know. -/
  | relabelled (kind : String) (node : Condition)

/-- One `op term` step of a logical chain. -/
inductive Link where
  | mk (op : Operator LogicalOp) (term : Condition)

end

/-- A condition under a foreign kind name, in place of any other foreign kind name. -/
def Condition.relabel (kind : String) : Condition → Condition
  | .relabelled _ c => .relabelled kind c
  | c => .relabelled kind c

end FlatScript
