import FlatScript.Schema.Model
import FlatScript.Value

/-!
# Trees from flat sequences

A front end may know the parts of a construct only as sequences in the order of the text: the
statements of both branches of an `if` in one list, or the names and the initializers of a
declaration in two.  The parts are put together by their places alone.

The parts are native, as all parts that are read from data are.  What is put together here does not
look at their kind names again, so nothing is said about a host that does and is given a part under
a foreign one: such a host refuses the part.
-/

namespace FlatScript

namespace Flat

/-! ### Branches -/

/-- The statements that start before the end of the first brace, and the others; without a brace
all of them come first. -/
def splitBranches (statements : List Stmt) : List Span → List Stmt × List Stmt
  | [] => (statements, [])
  | brace :: _ => statements.partition (·.span.start < brace.stop)

/-- A branch from the statements of both of its bodies; the condition and the statements are
native. -/
def branch (condition : Condition) (statements : List Stmt) (braces : List Span)
    (hasElse : Bool) (span : Span) : Stmt :=
  if hasElse then
    let (body, alternative) := splitBranches statements braces
    .branch condition body (some alternative) span
  else
    .branch condition statements none span

/-! ### Declarations -/

/-- The first initializer that starts after `lower` and, unless the window is open, before
`upper`. -/
def firstBetween (lower : Int) (upper : Option Int) (initializers : List (Int × RValue)) :
    Option RValue :=
  (initializers.find? fun (start, _) =>
    decide (lower < start) && upper.all fun u => decide (start < u)).map Prod.snd

/-- The initializer of each name: the first one between the name and the next name. -/
def pairInitializers (initializers : List (Int × RValue)) : List Span → List (Option RValue)
  | [] => []
  | name :: rest =>
    firstBetween name.stop (rest.head?.map Span.start) initializers ::
      pairInitializers initializers rest

/-- The declarators of the names with their initializers. -/
def declarators (names : List (String × Span)) (initializers : List (Int × RValue)) :
    List Declarator :=
  (names.zip (pairInitializers initializers (names.map Prod.snd))).map
    fun ((name, span), value) => ⟨name, value, span⟩

/-- A declaration from the names and the initializers, which are native; there must be a name. -/
def declaration (type : TypeTag) (names : List (String × Span))
    (initializers : List (Int × RValue)) (span : Span) : Checked Declaration :=
  Schema.declarationOf type (declarators names initializers) span

/-! ### Parts as data -/

/-- Why parts were refused: a part cannot be read, or a word names nothing. -/
inductive Refusal where
  | issues (issues : List Issue)
  | fault (fault : Fault)

/-- The result of putting parts together. -/
abbrev Built (α : Type) := Except Refusal α

/-- Read one part. -/
def part {α : Type} (c : Checked α) : Built α :=
  match c with
  | .ok a => .ok a
  | .bad issues => .error (.issues issues)

/-- A span that may be absent. -/
def spanPart : Option Json → Built Span
  | none => .ok .unknown
  | some j => do return (← part (Schema.nullable Schema.span j)).getD .unknown

/-- Split statements that are given as data, each of them a part of its own. -/
def splitParts (statements braces : List Json) : Built (List Stmt × List Stmt) := do
  let statements ← statements.mapM fun j => part (Schema.readStatement j)
  let braces ← braces.mapM fun j => part (Schema.span j)
  return splitBranches statements braces

/-- Build a branch from parts that are given as data. -/
def branchParts (condition : Json) (statements braces : List Json) (hasElse : Bool)
    (span : Option Json) : Built Stmt := do
  let condition ← part (Schema.readCondition condition)
  let statements ← statements.mapM fun j => part (Schema.readStatement j)
  let braces ← braces.mapM fun j => part (Schema.span j)
  let span ← spanPart span
  return branch condition statements braces hasElse span

/-- Pair initializers with names that are given as data. -/
def pairParts (names : List Json) (initializers : List (Int × Json)) :
    Built (List (Option RValue)) := do
  let names ← names.mapM fun j => part (Schema.span j)
  let initializers ← initializers.mapM fun (start, j) => do
    return (start, ← part (Schema.readValue j))
  return pairInitializers initializers names

/-- Build a declaration from parts that are given as data; the type is looked at after the names
and the initializers. -/
def declarationParts (type : String) (names : List (String × Json))
    (initializers : List (Int × Json)) (span : Option Json) : Built Declaration := do
  let names ← names.mapM fun (name, j) => do return (name, ← part (Schema.span j))
  let initializers ← initializers.mapM fun (start, j) => do
    return (start, ← part (Schema.readValue j))
  let type ← (TypeTag.named type).mapError Refusal.fault
  let span ← spanPart span
  part (declaration type names initializers span)

end Flat

end FlatScript
