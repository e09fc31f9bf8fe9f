import FlatScript.Schema.Print
import FlatScript.Schema.Tree

/-!
# Reports on functions

What an analysis says about a function: its parameters, the variables declared in its body and the
control structures of its body.  Each record has a one-line description and can be read from data
and written to it.
-/

namespace FlatScript

/-- The kinds of control structures; a branch with an alternative is a kind of its own. -/
inductive ControlKind where
  | branch
  | branchElse
  | forLoop
  | whileLoop
  deriving DecidableEq

instance : Spelled ControlKind where
  all := [.branch, .branchElse, .forLoop, .whileLoop]
  spell
    | .branch => "if"
    | .branchElse => "if-else"
    | .forLoop => "for"
    | .whileLoop => "while"
  mem_all a := by cases a <;> decide
  spell_injective a b := by cases a <;> cases b <;> decide

/-- A variable declared in the body of a function. -/
structure Local where
  type : TypeTag
  name : String
  /-- The text of the initializer, empty if there is none. -/
  initializerText : String := ""
  line : Int
  deriving DecidableEq

/-- A control structure in the body of a function. -/
structure Control where
  kind : ControlKind
  line : Int
  deriving DecidableEq

/-- The report on one function. -/
structure FunctionReport where
  name : String
  returnType : TypeTag
  isEntry : Bool := false
  /-- Whether the body calls the function itself directly. -/
  isRecursive : Bool := false
  startLine : Int
  endLine : Int
  parameters : List Parameter := []
  locals : List Local := []
  controls : List Control := []

/-! ### Descriptions -/

/-- A parameter on one line. -/
def Parameter.describe (p : Parameter) : String := Spelled.spell p.type ++ " " ++ p.name

/-- A variable on one line, with its initializer if it has a text. -/
def Local.describe (l : Local) : String :=
  let declared := Spelled.spell l.type ++ " " ++ l.name
  if l.initializerText = "" then declared else declared ++ " = " ++ l.initializerText

/-- A control structure on one line. -/
def Control.describe (c : Control) : String :=
  "<" ++ Spelled.spell c.kind ++ ", " ++ toString c.line ++ ">"

/-! ### Reading and writing -/

namespace Schema

/-- A parameter in a report. -/
def parameterInfo : Reader Parameter :=
  object "ParameterInfo" fun f =>
    Parameter.mk <$> required f "type_tag" word <*> required f "name" text

/-- A variable in a report. -/
def localInfo : Reader Local :=
  object "LocalVariableInfo" fun f =>
    Local.mk <$> required f "type_tag" word <*> required f "name" text
      <*> optional f "initializer_text" "" text <*> required f "line" whole

/-- A control structure in a report. -/
def controlInfo : Reader Control :=
  object "ControlStructureInfo" fun f =>
    Control.mk <$> required f "kind" word <*> required f "line" whole

/-- A report. -/
def functionInfo : Reader FunctionReport :=
  object "FunctionInfo" fun f =>
    FunctionReport.mk <$> required f "name" text <*> required f "return_type" word
      <*> optional f "is_entry" false truth <*> optional f "is_recursive" false truth
      <*> required f "start_line" whole <*> required f "end_line" whole
      <*> optional f "parameters" [] (tuple parameterInfo)
      <*> optional f "locals" [] (tuple localInfo)
      <*> optional f "control_structures" [] (tuple controlInfo)

end Schema

/-- A parameter in a report as data. -/
def Parameter.infoToJson (p : Parameter) : Json :=
  .obj [("type_tag", Spelled.toJson p.type), ("name", .str p.name), ("str", .str p.describe)]

/-- A variable in a report as data. -/
def Local.toJson (l : Local) : Json :=
  .obj [("type_tag", Spelled.toJson l.type), ("name", .str l.name),
    ("initializer_text", .str l.initializerText), ("line", .int l.line), ("str", .str l.describe)]

/-- A control structure in a report as data. -/
def Control.toJson (c : Control) : Json :=
  .obj [("kind", Spelled.toJson c.kind), ("line", .int c.line), ("str", .str c.describe)]

/-- A report as data. -/
def FunctionReport.toJson (r : FunctionReport) : Json :=
  .obj [("name", .str r.name), ("return_type", Spelled.toJson r.returnType),
    ("is_entry", .bool r.isEntry), ("is_recursive", .bool r.isRecursive),
    ("start_line", .int r.startLine), ("end_line", .int r.endLine),
    ("parameters", .arr (r.parameters.map Parameter.infoToJson)),
    ("locals", .arr (r.locals.map Local.toJson)),
    ("control_structures", .arr (r.controls.map Control.toJson))]

/-- Read a record of the named class and write it back with its description. -/
def describeRecord (className : String) (j : Json) : Option (Checked Json) :=
  match className with
  | "ParameterInfo" => some (Parameter.infoToJson <$> Schema.parameterInfo j)
  | "LocalVariableInfo" => some (Local.toJson <$> Schema.localInfo j)
  | "ControlStructureInfo" => some (Control.toJson <$> Schema.controlInfo j)
  | "FunctionInfo" => some (FunctionReport.toJson <$> Schema.functionInfo j)
  | _ => none

end FlatScript
