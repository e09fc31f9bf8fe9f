import FlatScript.Analysis.Calls
import FlatScript.Analysis.Scan
import FlatScript.Syntax.Program

/-!
# Analysis of a program

`Program.analyze` reports on every function in declaration order and on the entry block last.  All
bodies are scanned before the first report is made, so an analysis that fails in the scan has an
empty log.
-/

namespace FlatScript

/-- Something that an analysis writes to its log. -/
inductive AnalysisEvent where
  /-- A function calls itself. -/
  | selfCall (name : String)
  /-- A report was made. -/
  | recorded (name : String) (parameters locals controls : Nat)
  deriving DecidableEq

/-- The wording of an event. -/
def AnalysisEvent.message : AnalysisEvent → String
  | .selfCall name => "Function '" ++ name ++ "' calls itself directly"
  | .recorded name parameters locals controls =>
    "Recorded function '" ++ name ++ "': " ++ toString parameters ++ " parameter(s), " ++
      toString locals ++ " local(s), " ++ toString controls ++ " control structure(s)"

/-- What an analysis looks at: a function or the entry block. -/
structure Subject where
  name : String
  returnType : TypeTag
  isEntry : Bool
  span : Span
  parameters : List Parameter
  body : List Stmt

/-- A function as a subject. -/
def Function.subject (f : Function) : Subject :=
  ⟨f.name, f.returnType, false, f.span, f.parameters, f.body⟩

/-- The entry block as a subject without parameters. -/
def Entry.subject (e : Entry) : Subject := ⟨e.name, e.returnType, true, e.span, [], e.body⟩

/-- The subjects of a program, the entry block last. -/
def Program.subjects (p : Program) : List Subject :=
  p.functions.map Function.subject ++ [p.entry.subject]

/-- The report on a subject. -/
def Subject.report (s : Subject) (contents : Contents) (isRecursive : Bool) : FunctionReport where
  name := s.name
  returnType := s.returnType
  isEntry := s.isEntry
  isRecursive := isRecursive
  startLine := s.span.line
  endLine := s.span.lastLine
  parameters := s.parameters
  locals := contents.locals
  controls := contents.controls

/-- The events of a report. -/
def FunctionReport.events (r : FunctionReport) : List AnalysisEvent :=
  (if r.isRecursive then [.selfCall r.name] else []) ++
    [.recorded r.name r.parameters.length r.locals.length r.controls.length]

/-- The result of an analysis and its log. -/
structure Analysis where
  result : Except Fault (List FunctionReport)
  log : List AnalysisEvent

/-- Scan the bodies of all subjects. -/
def scanSubjects : List Subject → Except Fault (List (Subject × Contents))
  | [] => .ok []
  | s :: rest => do
    let contents ← Stmt.scanAll s.body
    let others ← scanSubjects rest
    return (s, contents) :: others

/-- Make the reports on scanned subjects. -/
def reportAll : List (Subject × Contents) → Analysis
  | [] => ⟨.ok [], []⟩
  | (s, contents) :: rest =>
    match Stmt.anyCalls s.name s.body with
    | .error f => ⟨.error f, []⟩
    | .ok recursive =>
      let report := s.report contents recursive
      let others := reportAll rest
      ⟨others.result.map (report :: ·), report.events ++ others.log⟩

/-- Analyze a program. -/
def Program.analyze (p : Program) : Analysis :=
  match scanSubjects p.subjects with
  | .error f => ⟨.error f, []⟩
  | .ok scanned => reportAll scanned

end FlatScript
