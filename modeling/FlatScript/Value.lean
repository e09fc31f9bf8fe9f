import FlatScript.Decimal.Numeral
import FlatScript.Decimal.Shortest
import FlatScript.Double.Arithmetic
import FlatScript.Fault
import FlatScript.Syntax.Source

/-!
# Values

A value is a number or a piece of text.  Arithmetic sees every value as a number: `Value.asNumber`
reads numeric text and takes any other text as zero.
-/

namespace FlatScript

/-- A value of a running program. -/
inductive Value where
  | number (x : Double)
  | text (s : String)
  deriving DecidableEq

/-- The number that a numeral stands for. -/
def readNumeral (text : String) : Except Fault Double :=
  match Double.read? text with
  | some x => .ok x
  | none => .error (.badNumeral text)

namespace Value

/-- Whether the value is a number. -/
def isNumber : Value → Bool
  | .number _ => true
  | .text _ => false

/-- The value as a number: numeric text is read, and any other text is zero. -/
def asNumber : Value → Except Fault Double
  | .number x => .ok x
  | .text s => if isNumericText s then readNumeral s else .ok Double.zero

/-- The text of the value. -/
def display : Value → String
  | .number x => x.display
  | .text s => s

end Value

/-- The type that a word names. -/
def TypeTag.named (word : String) : Except Fault TypeTag := Spelled.named "TypeTag" word

/-- The value of a variable declared without an initializer, the same for every type. -/
def TypeTag.defaultValue (_ : TypeTag) : Value := .number Double.zero

/-- A positive tolerance for approximate equality. -/
structure Tolerance where
  value : Double
  positive : Double.zero.lt value = true

namespace Tolerance

/-- A tolerance from a number, shown in the given way if it is refused. -/
def ofDouble (x : Double) (shown : String) : Except Fault Tolerance :=
  if h : Double.zero.lt x = true then .ok ⟨x, h⟩ else .error (.badTolerance shown)

/-- The tolerance that is used when none is given: the double nearest to `10 ^ (-9)`. -/
def standard : Tolerance := ⟨Double.ofDecimal ⟨false, 1, -9⟩, by decide +kernel⟩

end Tolerance

end FlatScript
