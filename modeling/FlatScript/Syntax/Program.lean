import FlatScript.Syntax.Stmt

/-!
# Programs

A program is a list of global declarations, variables and functions, followed by the entry block.
Functions are analyzed but never run: only the global variables and the entry block execute.
-/

namespace FlatScript

/-- A parameter of a function. -/
structure Parameter where
  type : TypeTag
  name : String

/-- A function of the program. -/
structure Function where
  name : String
  returnType : TypeTag
  parameters : List Parameter := []
  body : List Stmt := []
  span : Span := .unknown

/-- A declaration at the top level. -/
inductive Global where
  /-- A declaration of variables. -/
  | declaration (declaration : Declaration)
  /-- A declaration of variables under a kind name that the language does not know. -/
  | relabelledDeclaration (kind : String) (declaration : Declaration)
  /-- A declaration of a function. -/
  | function (function : Function)

/-- The block that a run executes after the globals. -/
structure Entry where
  name : String := "main"
  returnType : TypeTag := .int
  body : List Stmt := []
  span : Span := .unknown

/-- A whole program. -/
structure Program where
  globals : List Global := []
  entry : Entry := {}

namespace Global

/-- The function declared by a global, if it is one. -/
def function? : Global → Option Function
  | .function f => some f
  | _ => none

/-- The statement that a global executes: a function has none. -/
def stmt? : Global → Option Stmt
  | .declaration d => some (.declare d)
  | .relabelledDeclaration kind d => some (.relabelled kind (.declare d))
  | .function _ => none

/-- A global under a foreign kind name; that of a function is never consulted. -/
def relabel (kind : String) : Global → Global
  | .declaration d => .relabelledDeclaration kind d
  | .relabelledDeclaration _ d => .relabelledDeclaration kind d
  | .function f => .function f

end Global

namespace Program

/-- The functions of the program in declaration order. -/
def functions (p : Program) : List Function := p.globals.filterMap Global.function?

end Program

end FlatScript
