import FlatScript.Analysis.Report
import FlatScript.SourceText

/-!
# The contents of a body

`Stmt.scan` collects the declared variables and the control structures of a statement, at any depth
and in the order of the text: the header of a loop before its body, and a branch before its
alternative.
-/

namespace FlatScript

/-- What a body contains. -/
structure Contents where
  locals : List Local := []
  controls : List Control := []

namespace Contents

/-- The contents of one part followed by those of another. -/
def append (a b : Contents) : Contents := ⟨a.locals ++ b.locals, a.controls ++ b.controls⟩

instance : Append Contents := ⟨append⟩

/-- A single control structure. -/
def control (kind : ControlKind) (span : Span) : Contents := ⟨[], [⟨kind, span.line⟩]⟩

end Contents

/-- The variable of a declarator. -/
def Declarator.info (type : TypeTag) (d : Declarator) : Local :=
  ⟨type, d.name, (d.initializer.map RValue.sourceText).getD "", d.span.line⟩

/-- The variables of a declaration. -/
def Declaration.contents (d : Declaration) : Contents :=
  ⟨d.declarators.map (Declarator.info d.type), []⟩

/-- The variables of an optional declaration. -/
def initContents : Option Declaration → Contents
  | none => {}
  | some d => d.contents

mutual

/-- The contents of a statement. -/
def Stmt.scan : Stmt → Except Fault Contents
  | .declare d => .ok d.contents
  | .branch _ body alternative span => do
    let inner ← Stmt.scanAll body
    let other ← Stmt.scanAlternative alternative
    let kind := if alternative.isSome then ControlKind.branchElse else .branch
    return .control kind span ++ inner ++ other
  | .forLoop init _ _ body span => do
    let inner ← Stmt.scanAll body
    return .control .forLoop span ++ initContents init ++ inner
  | .whileLoop _ body span => do
    let inner ← Stmt.scanAll body
    return .control .whileLoop span ++ inner
  | .assign _ => .ok {}
  | .expression _ _ => .ok {}
  | .ret _ _ => .ok {}
  | .call _ _ _ => .ok {}
  | .relabelled kind _ => .error (.unsupported .statementKind kind)

/-- The contents of a body. -/
def Stmt.scanAll : List Stmt → Except Fault Contents
  | [] => .ok {}
  | s :: rest => do
    let first ← s.scan
    let others ← Stmt.scanAll rest
    return first ++ others

/-- The contents of the alternative of a branch. -/
def Stmt.scanAlternative : Option (List Stmt) → Except Fault Contents
  | none => .ok {}
  | some body => Stmt.scanAll body

end

end FlatScript
