import FlatScript.Proofs.History
import FlatScript.Proofs.Parts

/-!
# Trees of this language only

A tree can hold operators and kind names that the language does not know.  One without them, at any
depth, is *native*.

* `Piece.isNative`, `Stmt.isNative`, `Program.isNative` : no foreign operator and no foreign kind
  name occurs.

A tree is native if its parts are, and not if one of them is foreign; the lemmas below say so for
each kind of tree.
-/

namespace FlatScript

/-! ### Native trees -/

/-- Whether the operator is one of the language. -/
def Operator.isKnown {α : Type} : Operator α → Bool
  | .known _ => true
  | .foreign _ => false

/-- Whether the root of an expression is of this language. -/
def Expr.isOwn : Expr → Bool
  | .binary op _ _ => op.isKnown
  | .relabelled _ _ => false
  | _ => true

/-- Whether the expression is native. -/
def Expr.isNative (e : Expr) : Bool := e.nodes.all Expr.isOwn

/-- Whether the kind name of a right-hand side is of this language. -/
def RValue.isOwn : RValue → Bool
  | .relabelledText _ _ => false
  | _ => true

mutual

/-- Whether a condition is of this language, its expressions apart. -/
def Condition.isOwn : Condition → Bool
  | .comparison op _ _ => op.isKnown
  | .truth _ => true
  | .not operand => operand.isOwn
  | .paren inner => inner.isOwn
  | .bool _ => true
  | .null => true
  | .chain head links => head.isOwn && Link.ownAll links
  | .relabelled _ _ => false

/-- Whether the links of a chain are of this language, their expressions apart. -/
def Link.ownAll : List Link → Bool
  | [] => true
  | .mk op term :: links => op.isKnown && term.isOwn && Link.ownAll links

end

/-- Whether the operators and kind names of a piece are of this language, its expressions and
right-hand sides apart. -/
def Piece.isOwn : Piece → Bool
  | .condition c => c.isOwn
  | .assignment a => a.action.op.isKnown
  | _ => true

/-- Whether the right-hand side is native. -/
def RValue.isNative (v : RValue) : Bool := v.isOwn && v.exprs.all Expr.isNative

/-- Whether the condition is native. -/
def Condition.isNative (c : Condition) : Bool := c.isOwn && c.exprs.all Expr.isNative

/-- Whether the piece is native. -/
def Piece.isNative (p : Piece) : Bool :=
  p.isOwn && p.values.all RValue.isOwn && p.exprs.all Expr.isNative

mutual

/-- Whether the kind names of a statement and of those in it are of this language. -/
def Stmt.isOwn : Stmt → Bool
  | .branch _ body alternative _ => Stmt.ownAll body && Stmt.ownAlternative alternative
  | .forLoop _ _ _ body _ => Stmt.ownAll body
  | .whileLoop _ body _ => Stmt.ownAll body
  | .relabelled _ _ => false
  | _ => true

/-- Whether the kind names of the statements of a body are of this language. -/
def Stmt.ownAll : List Stmt → Bool
  | [] => true
  | s :: rest => s.isOwn && Stmt.ownAll rest

/-- Whether the kind names of the alternative of a branch are of this language. -/
def Stmt.ownAlternative : Option (List Stmt) → Bool
  | none => true
  | some body => Stmt.ownAll body

end

/-- Whether the statement is native. -/
def Stmt.isNative (s : Stmt) : Bool := s.isOwn && s.pieces.all Piece.isNative

/-- Whether the program is native, the bodies of its functions included. -/
def Program.isNative (p : Program) : Bool :=
  (p.stmts .globals).all Stmt.isNative && p.functions.all (fun f => f.body.all Stmt.isNative) &&
    (p.stmts .main).all Stmt.isNative

/-! ### Native trees from native parts -/

namespace Expr

@[simp] theorem isNative_number (numeral : String) : (number numeral).isNative = true := rfl

@[simp] theorem isNative_variable (name : String) : (Expr.variable name).isNative = true := rfl

@[simp] theorem isNative_binary (op : Operator ArithOp) (left right : Expr) :
    (binary op left right).isNative = (op.isKnown && (left.isNative && right.isNative)) := by
  simp [isNative, nodes, isOwn]

@[simp] theorem isNative_paren (inner : Expr) : (paren inner).isNative = inner.isNative := by
  simp [isNative, nodes, isOwn]

@[simp] theorem isNative_call (name : String) (args : List Expr) :
    (call name args).isNative = args.all isNative := by
  rw [isNative, nodes, List.all_cons, nodesAll_eq_flatMap, List.all_flatMap]
  rfl

end Expr

@[simp] theorem RValue.isNative_arith (e : Expr) : (arith e).isNative = e.isNative := by
  simp [isNative, isOwn, exprs]

@[simp] theorem RValue.isNative_text (s : String) : (text s).isNative = true := rfl

namespace Condition

@[simp] theorem isNative_comparison (op : Operator CompareOp) (left right : Expr) :
    (comparison op left right).isNative = (op.isKnown && (left.isNative && right.isNative)) := by
  simp [isNative, isOwn, exprs]

@[simp] theorem isNative_truth (e : Expr) : (truth e).isNative = e.isNative := by
  simp [isNative, isOwn, exprs]

@[simp] theorem isNative_not (operand : Condition) : (not operand).isNative = operand.isNative := by
  simp [isNative, isOwn, exprs]

@[simp] theorem isNative_paren (inner : Condition) : (paren inner).isNative = inner.isNative := by
  simp [isNative, isOwn, exprs]

@[simp] theorem isNative_bool (b : Bool) : (bool b).isNative = true := rfl

@[simp] theorem isNative_null : null.isNative = true := rfl

/-- A chain is native if its head and its links are. -/
theorem isNative_chain {head : Condition} {links : List Link} (hhead : head.isNative = true)
    (hlinks : ∀ op term, Link.mk op term ∈ links → op.isKnown = true ∧ term.isNative = true) :
    (chain head links).isNative = true := by
  have hall : Link.ownAll links = true ∧ (Link.exprsAll links).all Expr.isNative = true := by
    induction links with
    | nil => simp [Link.ownAll, Link.exprsAll]
    | cons l links ih =>
      obtain ⟨op, term⟩ := l
      obtain ⟨hop, hterm⟩ := hlinks op term List.mem_cons_self
      obtain ⟨hown, hexprs⟩ := ih fun op' term' h => hlinks op' term' (List.mem_cons_of_mem _ h)
      simp only [isNative, Bool.and_eq_true] at hterm
      simp only [Link.ownAll, Link.exprsAll, List.all_append, hop, hterm, hown, hexprs,
        Bool.and_self, and_self]
  simp only [isNative, isOwn, exprs, List.all_append, Bool.and_eq_true] at hhead ⊢
  exact ⟨⟨hhead.1, hall.1⟩, hhead.2, hall.2⟩

end Condition

namespace Piece

@[simp] theorem isNative_condition (c : Condition) : (condition c).isNative = c.isNative := by
  simp [isNative, isOwn, values, exprs, Condition.isNative]

@[simp] theorem isNative_expr (e : Expr) : (expr e).isNative = e.isNative := by
  simp [isNative, isOwn, values, exprs]

@[simp] theorem isNative_value (v : RValue) : (value v).isNative = v.isNative := by
  simp [isNative, isOwn, values, exprs, RValue.isNative]

/-- A piece is native if its operator and its right-hand sides are. -/
theorem isNative_of_values {p : Piece} (hp : p.isOwn = true)
    (hexprs : p.exprs = p.values.flatMap RValue.exprs) (h : ∀ v ∈ p.values, v.isNative = true) :
    p.isNative = true := by
  simp only [RValue.isNative, Bool.and_eq_true] at h
  simp only [isNative, hp, hexprs, List.all_flatMap, Bool.true_and, Bool.and_eq_true,
    List.all_eq_true]
  exact ⟨fun v hv => (h v hv).1, fun v hv => List.all_eq_true.1 (h v hv).2⟩

end Piece

namespace Stmt

theorem isNative_iff {s : Stmt} :
    s.isNative = true ↔ s.isOwn = true ∧ ∀ p ∈ s.pieces, p.isNative = true := by
  simp [isNative]

/-- The statements of a body are native if each of them is. -/
theorem native_body {body : List Stmt} (h : ∀ s ∈ body, s.isNative = true) :
    ownAll body = true ∧ ∀ p ∈ piecesAll body, p.isNative = true := by
  induction body with
  | nil => simp [ownAll, piecesAll]
  | cons s body ih =>
    obtain ⟨hs, hbody⟩ := List.forall_mem_cons.1 h
    obtain ⟨hown, hpieces⟩ := isNative_iff.1 hs
    obtain ⟨hown', hpieces'⟩ := ih hbody
    simp only [ownAll, piecesAll, hown, hown', Bool.and_self, List.forall_mem_append]
    exact ⟨trivial, hpieces, hpieces'⟩

theorem native_alternative {alternative : Option (List Stmt)}
    (h : ∀ body ∈ alternative, ∀ s ∈ body, s.isNative = true) :
    ownAlternative alternative = true ∧
      ∀ p ∈ piecesAlternative alternative, p.isNative = true := by
  cases alternative with
  | none => simp [ownAlternative, piecesAlternative]
  | some body => exact native_body (h body rfl)

theorem isNative_branch {c : Condition} {body : List Stmt} {alternative : Option (List Stmt)}
    (hc : c.isNative = true) (hbody : ∀ s ∈ body, s.isNative = true)
    (halternative : ∀ b ∈ alternative, ∀ s ∈ b, s.isNative = true) (span : Span) :
    (branch c body alternative span).isNative = true := by
  obtain ⟨hown, hpieces⟩ := native_body hbody
  obtain ⟨hown', hpieces'⟩ := native_alternative halternative
  rw [isNative_iff, isOwn, pieces, hown, hown', List.forall_mem_cons, List.forall_mem_append]
  exact ⟨rfl, by simpa using hc, hpieces, hpieces'⟩

theorem isNative_forLoop {init : Option Declaration} {c : Option Condition}
    {update : Option Assignment} {body : List Stmt}
    (hinit : ∀ d ∈ init, (Piece.declaration d).isNative = true)
    (hc : ∀ c' ∈ c, c'.isNative = true)
    (hupdate : ∀ a ∈ update, (Piece.assignment a).isNative = true)
    (hbody : ∀ s ∈ body, s.isNative = true) (span : Span) :
    (forLoop init c update body span).isNative = true := by
  obtain ⟨hown, hpieces⟩ := native_body hbody
  simp only [isNative_iff, isOwn, pieces, List.forall_mem_append, List.forall_mem_map,
    Option.mem_toList, Piece.isNative_condition]
  exact ⟨hown, ⟨⟨hinit, hc⟩, hupdate⟩, hpieces⟩

theorem isNative_whileLoop {c : Option Condition} {body : List Stmt}
    (hc : ∀ c' ∈ c, c'.isNative = true) (hbody : ∀ s ∈ body, s.isNative = true) (span : Span) :
    (whileLoop c body span).isNative = true := by
  obtain ⟨hown, hpieces⟩ := native_body hbody
  simp only [isNative_iff, isOwn, pieces, List.forall_mem_append, List.forall_mem_map,
    Option.mem_toList, Piece.isNative_condition]
  exact ⟨hown, hc, hpieces⟩

end Stmt

/-- What a run of a native program executes is native. -/
theorem Program.native_run {p : Program} (hp : p.isNative = true) :
    (Stmt.ownAll (p.stmts .globals) && Stmt.ownAll (p.stmts .main)) = true ∧
      ∀ pc ∈ p.pieces, pc.isNative = true := by
  simp only [isNative, Bool.and_eq_true, List.all_eq_true] at hp
  obtain ⟨⟨hglobals, -⟩, hmain⟩ := hp
  obtain ⟨hown, hpieces⟩ := Stmt.native_body hglobals
  obtain ⟨hown', hpieces'⟩ := Stmt.native_body hmain
  exact ⟨by rw [hown, hown', Bool.and_self], List.forall_mem_append.2 ⟨hpieces, hpieces'⟩⟩

/-! ### Trees with a foreign part -/

theorem Link.ownAll_eq_false_of_mem {op : Operator LogicalOp} {term : Condition}
    {links : List Link} (hl : Link.mk op term ∈ links)
    (h : op.isKnown = false ∨ term.isOwn = false) : ownAll links = false := by
  induction links with
  | nil => cases hl
  | cons l links ih =>
    obtain ⟨op', term'⟩ := l
    rcases List.mem_cons.1 hl with hl | hl
    · cases hl
      rcases h with h | h <;> simp [ownAll, h]
    · simp [ownAll, ih hl]

theorem Piece.isNative_eq_false_of_nodes {p : Piece} {e : Expr} (he : e ∈ p.nodes)
    (hown : e.isOwn = false) : p.isNative = false := by
  obtain ⟨e', he', he⟩ := List.mem_flatMap.1 he
  have hforeign : e'.isNative = false := List.all_eq_false.2 ⟨e, he, by simp [hown]⟩
  have hall : p.exprs.all Expr.isNative = false := List.all_eq_false.2 ⟨e', he', by simp [hforeign]⟩
  simp [isNative, hall]

theorem Stmt.ownAll_eq_false_of_mem {s : Stmt} {ss : List Stmt} (hs : s ∈ ss)
    (h : s.isOwn = false) : ownAll ss = false := by
  induction ss with
  | nil => cases hs
  | cons t ss ih =>
    rcases List.mem_cons.1 hs with rfl | hs
    · simp [ownAll, h]
    · simp [ownAll, ih hs]

end FlatScript
