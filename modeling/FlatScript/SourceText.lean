import FlatScript.Fault
import FlatScript.Schema.Node

/-!
# Source text of expressions

The text of an expression is its tokens one after another, with no spaces.  Parentheses stand only
where the tree has them.
-/

namespace FlatScript

/-- A backslash put in front of every occurrence of a character. -/
def backslashed (special : Char) (s : List Char) : List Char :=
  s.flatMap fun c => if c = special then ['\\', c] else [c]

/-- The characters of a piece of text between its quotes.  The backslashes come first: those of the
second pass are not to be doubled. -/
def escaped (s : List Char) : List Char := backslashed '"' (backslashed '\\' s)

/-- The two passes are one. -/
theorem escaped_eq_flatMap (s : List Char) :
    escaped s = s.flatMap fun c => if c = '\\' ∨ c = '"' then ['\\', c] else [c] := by
  rw [escaped, backslashed, backslashed, List.flatMap_assoc]
  refine congrArg (s.flatMap ·) (funext fun c => ?_)
  by_cases hslash : c = '\\'
  · simp [hslash]
  · by_cases hquote : c = '"' <;> simp [hslash, hquote]

/-- Text in double quotes, with backslashes and double quotes escaped. -/
def quoteText (s : String) : String := "\"" ++ String.ofList (escaped s.toList) ++ "\""

/-- The symbol of an operator. -/
def Operator.symbol {α : Type} [Spelled α] : Operator α → String
  | .known op => Spelled.spell op
  | .foreign symbol => symbol

mutual

/-- The text of an expression; a foreign kind name does not show. -/
def Expr.sourceText : Expr → String
  | .number numeral => numeral
  | .variable name => name
  | .binary op left right => left.sourceText ++ op.symbol ++ right.sourceText
  | .paren inner => "(" ++ inner.sourceText ++ ")"
  | .call name args => name ++ "(" ++ Expr.argsText args ++ ")"
  | .relabelled _ e => e.sourceText

/-- The arguments of a call with commas between them. -/
def Expr.argsText : List Expr → String
  | [] => ""
  | [e] => e.sourceText
  | e :: es => e.sourceText ++ "," ++ Expr.argsText es

end

/-- The text of a right-hand side. -/
def RValue.sourceText : RValue → String
  | .arith e => e.sourceText
  | .text s => quoteText s
  | .relabelledText _ s => quoteText s

/-- The text of a node; only right-hand sides have one. -/
def Node.sourceText : Node → Except Fault String
  | .value v => .ok v.sourceText
  | n => .error (.unrenderable n.className)

end FlatScript
