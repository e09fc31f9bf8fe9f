import FlatScript.Spelled

/-!
# Types and places

`TypeTag` is the declared type of a variable, a parameter or a function's result.  `Span` is the
place of a construct in the text it was read from; the construction of a span guarantees that it
does not end before it starts.
-/

namespace FlatScript

/-- A declared type.  A tag is only recorded: it does not restrict the values of a variable. -/
inductive TypeTag where
  | int
  | double
  | float
  | string
  deriving DecidableEq

instance : Spelled TypeTag where
  all := [.int, .double, .float, .string]
  spell
    | .int => "int"
    | .double => "double"
    | .float => "float"
    | .string => "string"
  mem_all a := by cases a <;> decide
  spell_injective a b := by cases a <;> cases b <;> decide

/-- A place in the source text: lines, and offsets of the first and the last character. -/
structure Span where
  /-- The line of the first character. -/
  line : Int := 0
  /-- The line of the last character, if it is recorded. -/
  endLine : Option Int := none
  /-- The offset of the first character. -/
  start : Int := -1
  /-- The offset of the last character. -/
  stop : Int := -1
  line_le_endLine : ∀ e ∈ endLine, line ≤ e := by decide
  start_le_stop : start ≤ stop := by decide
  deriving DecidableEq

namespace Span

/-- The place of a construct that was not read from any text. -/
def unknown : Span := {}

instance : Inhabited Span := ⟨unknown⟩

/-- The line of the last character: the first line unless another one is recorded. -/
def lastLine (s : Span) : Int := s.endLine.getD s.line

end Span

end FlatScript
