import FlatScript.Double.Elementary
import FlatScript.Spelled

/-!
# Built-in functions

The functions that an expression can call.  All of them take one number, and none of them fails:
outside its domain a function is not a number or infinite.
-/

namespace FlatScript

/-- The built-in functions. -/
inductive Builtin where
  | sqrt
  | log
  | sin
  | cos
  deriving DecidableEq

instance : Spelled Builtin where
  all := [.sqrt, .log, .sin, .cos]
  spell
    | .sqrt => "sqrt"
    | .log => "log"
    | .sin => "sin"
    | .cos => "cos"
  mem_all a := by cases a <;> decide
  spell_injective a b := by cases a <;> cases b <;> decide

namespace Builtin

/-- The number of arguments of every built-in function. -/
def arity : Nat := 1

/-- The value of a function at a number. -/
def apply : Builtin → Double → Double
  | .sqrt => Double.sqrt
  | .log => Double.log
  | .sin => Double.sin
  | .cos => Double.cos

end Builtin

end FlatScript
