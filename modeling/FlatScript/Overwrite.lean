import FlatScript.Schema.Issue
import FlatScript.Schema.Node

/-!
# Overwriting kind names and operators

An `Overwrite` replaces the kind name of one node of a tree by a word that the language does not
know, or its operator by any symbol; the node keeps its class and its children.  The node is found
by a path of field names and positions from the root, and a path that leads nowhere changes
nothing.

The kind names of the parts of a loop's header, of the call in a call statement and of a function
are never consulted, so to overwrite one of those changes nothing either.
-/

namespace FlatScript

/-- The part of a node that is overwritten. -/
inductive Part where
  | kind
  | op
  deriving DecidableEq

/-- A change of one node. -/
structure Overwrite where
  path : List Step
  part : Part
  word : String

namespace Overwrite

variable (part : Part) (word : String)

/-! ### Expressions -/

/-- Change the node itself, whatever kind name it is under. -/
def insideExpr (f : Expr → Expr) : Expr → Expr
  | .relabelled kind e => .relabelled kind (f e)
  | e => f e

/-- Overwrite an expression. -/
def expr : List Step → Expr → Expr
  | [], e =>
    match part with
    | .kind => e.relabel word
    | .op => insideExpr (fun
      | .binary _ left right => .binary (.ofSymbol word) left right
      | e => e) e
  | .key "left" :: path, e => insideExpr (fun
      | .binary op left right => .binary op (expr path left) right
      | e => e) e
  | .key "right" :: path, e => insideExpr (fun
      | .binary op left right => .binary op left (expr path right)
      | e => e) e
  | .key "inner" :: path, e => insideExpr (fun
      | .paren inner => .paren (expr path inner)
      | e => e) e
  | .key "args" :: .index i :: path, e => insideExpr (fun
      | .call name args => .call name (args.modify i (expr path))
      | e => e) e
  | _ :: _, e => e

/-- Overwrite in the arguments of a call. -/
def args : List Step → List Expr → List Expr
  | .key "args" :: .index i :: path, es => es.modify i (expr part word path)
  | _, es => es

/-- Overwrite a right-hand side. -/
def value (path : List Step) : RValue → RValue
  | .arith e => .arith (expr part word path e)
  | v =>
    match path, part with
    | [], .kind => v.relabel word
    | _, _ => v

/-! ### Conditions -/

/-- Change the node itself, whatever kind name it is under. -/
def insideCondition (f : Condition → Condition) : Condition → Condition
  | .relabelled kind c => .relabelled kind (f c)
  | c => f c

/-- Overwrite the operator of a link. -/
def linkOp : Link → Link
  | .mk op term =>
    match part with
    | .kind => .mk op term
    | .op => .mk (.ofSymbol word) term

/-- Overwrite a condition. -/
def condition : List Step → Condition → Condition
  | [], c =>
    match part with
    | .kind => c.relabel word
    | .op => insideCondition (fun
      | .comparison _ left right => .comparison (.ofSymbol word) left right
      | c => c) c
  | .key "left" :: path, c => insideCondition (fun
      | .comparison op left right => .comparison op (expr part word path left) right
      | c => c) c
  | .key "right" :: path, c => insideCondition (fun
      | .comparison op left right => .comparison op left (expr part word path right)
      | c => c) c
  | .key "expr" :: path, c => insideCondition (fun
      | .truth e => .truth (expr part word path e)
      | c => c) c
  | .key "operand" :: path, c => insideCondition (fun
      | .not operand => .not (condition path operand)
      | c => c) c
  | .key "inner" :: path, c => insideCondition (fun
      | .paren inner => .paren (condition path inner)
      | c => c) c
  | .key "head" :: path, c => insideCondition (fun
      | .chain head links => .chain (condition path head) links
      | c => c) c
  | .key "links" :: .index i :: [], c => insideCondition (fun
      | .chain head links => .chain head (links.modify i (linkOp part word))
      | c => c) c
  | .key "links" :: .index i :: .key "term" :: path, c => insideCondition (fun
      | .chain head links =>
        .chain head (links.modify i fun | .mk op term => .mk op (condition path term))
      | c => c) c
  | _ :: _, c => c

/-! ### Statements -/

/-- Overwrite in a declarator. -/
def declarator : List Step → Declarator → Declarator
  | .key "initializer" :: path, d =>
    { d with initializer := d.initializer.map (value part word path) }
  | _, d => d

/-- Overwrite in a declaration. -/
def declaration : List Step → Declaration → Declaration
  | .key "declarators" :: .index i :: path, d =>
    { d with
      declarators := d.declarators.modify i (declarator part word path)
      nonempty := by
        intro h
        exact d.nonempty (List.length_eq_zero_iff.1 (by simpa using congrArg List.length h)) }
  | _, d => d

/-- Overwrite an assignment. -/
def assignment : List Step → Assignment → Assignment
  | [], a =>
    match part with
    | .kind => a
    | .op => { a with action := a.action.withOp word }
  | .key "value" :: path, a =>
    let action := match a.action with
      | .set v => .set (value part word path v)
      | .update op v => .update op (value part word path v)
      | .foreign symbol operand => .foreign symbol (operand.map (value part word path))
      | other => other
    { a with action := action }
  | _, a => a

/-- Change the node itself, whatever kind name it is under. -/
def insideStmt (f : Stmt → Stmt) : Stmt → Stmt
  | .relabelled kind s => .relabelled kind (f s)
  | s => f s

/-- Overwrite a statement. -/
def stmt : List Step → Stmt → Stmt
  | [], s =>
    match part with
    | .kind => s.relabel word
    | .op => insideStmt (fun
      | .assign a => .assign (assignment part word [] a)
      | s => s) s
  | .key "body" :: .index i :: path, s => insideStmt (fun
      | .branch c body alternative span => .branch c (body.modify i (stmt path)) alternative span
      | .forLoop init c update body span => .forLoop init c update (body.modify i (stmt path)) span
      | .whileLoop c body span => .whileLoop c (body.modify i (stmt path)) span
      | s => s) s
  | .key "else_body" :: .index i :: path, s => insideStmt (fun
      | .branch c body alternative span =>
        .branch c body (alternative.map (·.modify i (stmt path))) span
      | s => s) s
  | .key "condition" :: path, s => insideStmt (fun
      | .branch c body alternative span =>
        .branch (condition part word path c) body alternative span
      | .forLoop init c update body span =>
        .forLoop init (c.map (condition part word path)) update body span
      | .whileLoop c body span => .whileLoop (c.map (condition part word path)) body span
      | s => s) s
  | .key "init" :: path, s => insideStmt (fun
      | .forLoop init c update body span =>
        .forLoop (init.map (declaration part word path)) c update body span
      | s => s) s
  | .key "update" :: path, s => insideStmt (fun
      | .forLoop init c update body span =>
        .forLoop init c (update.map (assignment part word path)) body span
      | s => s) s
  | .key "expr" :: path, s => insideStmt (fun
      | .expression e span => .expression (expr part word path e) span
      | s => s) s
  | .key "call" :: path, s => insideStmt (fun
      | .call name es span => .call name (args part word path es) span
      | s => s) s
  | .key "value" :: path, s => insideStmt (fun
      | .assign a => .assign (assignment part word (.key "value" :: path) a)
      | .ret v span => .ret (v.map (value part word path)) span
      | s => s) s
  | .key "declarators" :: path, s => insideStmt (fun
      | .declare d => .declare (declaration part word (.key "declarators" :: path) d)
      | s => s) s
  | _ :: _, s => s

/-! ### Programs -/

/-- Overwrite a global declaration. -/
def global : List Step → Global → Global
  | [], g =>
    match part with
    | .kind => g.relabel word
    | .op => g
  | .key "body" :: .index i :: path, .function f =>
    .function { f with body := f.body.modify i (stmt part word path) }
  | path, .declaration d => .declaration (declaration part word path d)
  | path, .relabelledDeclaration kind d =>
    .relabelledDeclaration kind (declaration part word path d)
  | _, g => g

/-- Overwrite in a program. -/
def program : List Step → Program → Program
  | .key "globals" :: .index i :: path, p =>
    { p with globals := p.globals.modify i (global part word path) }
  | .key "entry" :: .key "body" :: .index i :: path, p =>
    { p with entry := { p.entry with body := p.entry.body.modify i (stmt part word path) } }
  | _, p => p

end Overwrite

/-- A program after changes in order. -/
def Program.overwrite (changes : List Overwrite) (p : Program) : Program :=
  changes.foldl (fun p o => Overwrite.program o.part o.word o.path p) p

/-- A statement after changes in order. -/
def Stmt.overwrite (changes : List Overwrite) (s : Stmt) : Stmt :=
  changes.foldl (fun s o => Overwrite.stmt o.part o.word o.path s) s

/-- A node after changes in order; only the nodes of statements, conditions and right-hand sides
have kind names. -/
def Node.overwrite (changes : List Overwrite) (n : Node) : Node :=
  changes.foldl (fun n o =>
    match n with
    | .value v => .value (Overwrite.value o.part o.word o.path v)
    | .condition c => .condition (Overwrite.condition o.part o.word o.path c)
    | .stmt s => .stmt (Overwrite.stmt o.part o.word o.path s)
    | n => n) n

end FlatScript
