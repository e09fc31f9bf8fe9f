import FlatScript.Spelled

/-!
# Expressions

`Expr` is an arithmetic expression; all of its values are numbers.  `RValue` is what may stand on
the right of a declaration or a plain assignment: an arithmetic expression or a piece of text.

A tree can come from a host that knows more kinds of nodes and operators than this language does.
Such a node keeps its children: a foreign operator is an `Operator.foreign`, and a node under a
foreign kind name is wrapped in `relabelled`.
-/

namespace FlatScript

/-- An operator of this language, or a symbol that it does not know. -/
inductive Operator (α : Type) where
  | known (op : α)
  | foreign (symbol : String)
  deriving DecidableEq

/-- The operator that a symbol stands for. -/
def Operator.ofSymbol {α : Type} [Spelled α] (symbol : String) : Operator α :=
  match Spelled.parse? symbol with
  | some op => .known op
  | none => .foreign symbol

/-- The arithmetic operators. -/
inductive ArithOp where
  | add
  | sub
  | mul
  | div
  | rem
  deriving DecidableEq

instance : Spelled ArithOp where
  all := [.add, .sub, .mul, .div, .rem]
  spell
    | .add => "+"
    | .sub => "-"
    | .mul => "*"
    | .div => "/"
    | .rem => "%"
  mem_all a := by cases a <;> decide
  spell_injective a b := by cases a <;> cases b <;> decide

namespace ArithOp

/-- The operators of the lower precedence. -/
def additive : List ArithOp := [.add, .sub]

/-- The operators of the higher precedence. -/
def multiplicative : List ArithOp := [.mul, .div, .rem]

/-- Whether the operator has the lower precedence. -/
def isAdditive (op : ArithOp) : Bool := additive.contains op

end ArithOp

/-- An arithmetic expression. -/
inductive Expr where
  /-- A number, kept as it was written. -/
  | number (numeral : String)
  /-- The value of a variable. -/
  | variable (name : String)
  /-- An operation on two operands. -/
  | binary (op : Operator ArithOp) (left right : Expr)
  /-- An expression in parentheses. -/
  | paren (inner : Expr)
  /-- A call of a named function. -/
  | call (name : String) (args : List Expr)
  /-- An expression under a kind name that the language does not know. -/
  | relabelled (kind : String) (node : Expr)

/-- The right-hand side of a declaration or a plain assignment, or the operand of a return. -/
inductive RValue where
  /-- An arithmetic expression. -/
  | arith (expr : Expr)
  /-- A piece of text, without quotes and with escapes resolved. -/
  | text (value : String)
  /-- A piece of text under a kind name that the language does not know. -/
  | relabelledText (kind value : String)

/-- An expression under a foreign kind name, in place of any other foreign kind name. -/
def Expr.relabel (kind : String) : Expr → Expr
  | .relabelled _ e => .relabelled kind e
  | e => .relabelled kind e

/-- A right-hand side under a foreign kind name. -/
def RValue.relabel (kind : String) : RValue → RValue
  | .arith e => .arith (e.relabel kind)
  | .text s => .relabelledText kind s
  | .relabelledText _ s => .relabelledText kind s

end FlatScript
