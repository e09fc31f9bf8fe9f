import FlatScript.Syntax.Stmt

/-!
# The pieces of a statement

A *piece* of a statement is a part that is executed or evaluated as one: a declaration, an
assignment, a condition, an expression or a returned value.  `Stmt.pieces` lists the pieces at any
depth, those of branches not taken and of headers of loops included, so a syntactic notion such as
"the names that a statement reads" is given once for each kind of piece.

* `Stmt.induct` : induction over statements, with the hypothesis for every statement of a body;
* `Stmt.All Q` : every piece of the statement satisfies `Q`, as a predicate with one rule for each
  kind of statement (`Stmt.all_of_forall_mem`);
* `Stmt.reads`, `Stmt.writes`, `Stmt.declares` : the names that a statement reads, writes and
  declares.

Expressions and conditions are nested in lists as well; `Expr.induct` and `Condition.induct` are
the same principle for them.
-/

namespace FlatScript

/-! ### Induction over nested trees -/

/-- Induction over expressions, with the hypothesis for every argument of a call. -/
@[elab_as_elim]
theorem Expr.induct {P : Expr → Prop}
    (number : ∀ numeral, P (.number numeral))
    (ref : ∀ name, P (.variable name))
    (binary : ∀ op left right, P left → P right → P (.binary op left right))
    (paren : ∀ inner, P inner → P (.paren inner))
    (call : ∀ name args, (∀ e ∈ args, P e) → P (.call name args))
    (relabelled : ∀ kind node, P node → P (.relabelled kind node)) (e : Expr) : P e := by
  refine Expr.rec (motive_1 := P) (motive_2 := fun es => ∀ e ∈ es, P e)
    number ref binary paren call relabelled ?_ ?_ e
  · intro e he
    cases he
  · intro head tail hhead htail
    exact List.forall_mem_cons.2 ⟨hhead, htail⟩

/-- The term of a link. -/
def Link.term : Link → Condition
  | .mk _ term => term

/-- Induction over conditions, with the hypothesis for every term of a chain. -/
@[elab_as_elim]
theorem Condition.induct {P : Condition → Prop}
    (comparison : ∀ op left right, P (.comparison op left right))
    (truth : ∀ expr, P (.truth expr))
    (not : ∀ operand, P operand → P (.not operand))
    (paren : ∀ inner, P inner → P (.paren inner))
    (bool : ∀ value, P (.bool value))
    (null : P .null)
    (chain : ∀ head links, P head → (∀ l ∈ links, P l.term) → P (.chain head links))
    (relabelled : ∀ kind node, P node → P (.relabelled kind node)) (c : Condition) : P c := by
  refine Condition.rec (motive_1 := P) (motive_2 := fun l => P l.term)
    (motive_3 := fun ls => ∀ l ∈ ls, P l.term)
    comparison truth not paren bool null chain relabelled ?_ ?_ ?_ c
  · intro op term hterm
    exact hterm
  · intro l hl
    cases hl
  · intro head tail hhead htail
    exact List.forall_mem_cons.2 ⟨hhead, htail⟩

/-- Induction over statements, with the hypothesis for every statement of a body. -/
@[elab_as_elim]
theorem Stmt.induct {P : Stmt → Prop}
    (declare : ∀ d, P (.declare d))
    (assign : ∀ a, P (.assign a))
    (expression : ∀ e span, P (.expression e span))
    (branch : ∀ c body alternative span, (∀ s ∈ body, P s) →
      (∀ b ∈ alternative, ∀ s ∈ b, P s) → P (.branch c body alternative span))
    (forLoop : ∀ init c update body span, (∀ s ∈ body, P s) →
      P (.forLoop init c update body span))
    (whileLoop : ∀ c body span, (∀ s ∈ body, P s) → P (.whileLoop c body span))
    (ret : ∀ v span, P (.ret v span))
    (call : ∀ name args span, P (.call name args span))
    (relabelled : ∀ kind s, P s → P (.relabelled kind s)) (s : Stmt) : P s := by
  refine Stmt.rec (motive_1 := P) (motive_2 := fun ss => ∀ s ∈ ss, P s)
    (motive_3 := fun alternative => ∀ b ∈ alternative, ∀ s ∈ b, P s)
    declare assign expression branch forLoop whileLoop ret call relabelled ?_ ?_ ?_ ?_ s
  · intro s hs
    cases hs
  · intro head tail hhead htail
    exact List.forall_mem_cons.2 ⟨hhead, htail⟩
  · intro b hb
    cases hb
  · rintro body hbody b ⟨⟩
    exact hbody

/-! ### Pieces -/

/-- A part of a statement that is executed or evaluated as one. -/
inductive Piece where
  | declaration (declaration : Declaration)
  | assignment (assignment : Assignment)
  | condition (condition : Condition)
  | expr (expr : Expr)
  | value (value : RValue)

mutual

/-- The pieces of a statement at any depth. -/
def Stmt.pieces : Stmt → List Piece
  | .declare d => [.declaration d]
  | .assign a => [.assignment a]
  | .expression e _ => [.expr e]
  | .branch c body alternative _ =>
    .condition c :: (Stmt.piecesAll body ++ Stmt.piecesAlternative alternative)
  | .forLoop init c update body _ =>
    init.toList.map .declaration ++ c.toList.map .condition ++ update.toList.map .assignment ++
      Stmt.piecesAll body
  | .whileLoop c body _ => c.toList.map .condition ++ Stmt.piecesAll body
  | .ret v _ => v.toList.map .value
  | .call name args _ => [.expr (.call name args)]
  | .relabelled _ s => s.pieces

/-- The pieces of the statements of a body. -/
def Stmt.piecesAll : List Stmt → List Piece
  | [] => []
  | s :: rest => s.pieces ++ Stmt.piecesAll rest

/-- The pieces of the alternative of a branch. -/
def Stmt.piecesAlternative : Option (List Stmt) → List Piece
  | none => []
  | some body => Stmt.piecesAll body

end

/-- Every piece of the statement satisfies `Q`. -/
inductive Stmt.All (Q : Piece → Prop) : Stmt → Prop
  | declare {d : Declaration} : Q (.declaration d) → Stmt.All Q (.declare d)
  | assign {a : Assignment} : Q (.assignment a) → Stmt.All Q (.assign a)
  | expression {e : Expr} {span : Span} : Q (.expr e) → Stmt.All Q (.expression e span)
  | branch {c : Condition} {body : List Stmt} {alternative : Option (List Stmt)} {span : Span} :
      Q (.condition c) → (∀ s ∈ body, Stmt.All Q s) →
      (∀ b ∈ alternative, ∀ s ∈ b, Stmt.All Q s) → Stmt.All Q (.branch c body alternative span)
  | forLoop {init : Option Declaration} {c : Option Condition} {update : Option Assignment}
      {body : List Stmt} {span : Span} :
      (∀ d ∈ init, Q (.declaration d)) → (∀ c' ∈ c, Q (.condition c')) →
      (∀ a ∈ update, Q (.assignment a)) → (∀ s ∈ body, Stmt.All Q s) →
      Stmt.All Q (.forLoop init c update body span)
  | whileLoop {c : Option Condition} {body : List Stmt} {span : Span} :
      (∀ c' ∈ c, Q (.condition c')) → (∀ s ∈ body, Stmt.All Q s) →
      Stmt.All Q (.whileLoop c body span)
  | ret {v : Option RValue} {span : Span} : (∀ v' ∈ v, Q (.value v')) → Stmt.All Q (.ret v span)
  | call {name : String} {args : List Expr} {span : Span} :
      Q (.expr (.call name args)) → Stmt.All Q (.call name args span)
  | relabelled {kind : String} {s : Stmt} : Stmt.All Q s → Stmt.All Q (.relabelled kind s)

namespace Stmt

theorem mem_piecesAll {p : Piece} {s : Stmt} {ss : List Stmt} (hs : s ∈ ss) (hp : p ∈ s.pieces) :
    p ∈ piecesAll ss := by
  induction ss with
  | nil => cases hs
  | cons t ss ih =>
    rw [piecesAll, List.mem_append]
    rcases List.mem_cons.1 hs with rfl | hs
    · exact .inl hp
    · exact .inr (ih hs)

theorem exists_mem_of_mem_piecesAll {pc : Piece} {ss : List Stmt}
    (h : pc ∈ Stmt.piecesAll ss) : ∃ s ∈ ss, pc ∈ s.pieces := by
  induction ss with
  | nil => simp [piecesAll] at h
  | cons s ss ih =>
    rw [piecesAll, List.mem_append] at h
    rcases h with h | h
    · exact ⟨s, by simp, h⟩
    · obtain ⟨t, ht, hpc⟩ := ih h
      exact ⟨t, List.mem_cons_of_mem s ht, hpc⟩

theorem all_of_forall_mem {Q : Piece → Prop} (s : Stmt) (h : ∀ p ∈ s.pieces, Q p) : s.All Q := by
  induction s using Stmt.induct with
  | declare d => exact .declare (h _ (by simp [pieces]))
  | assign a => exact .assign (h _ (by simp [pieces]))
  | expression e span => exact .expression (h _ (by simp [pieces]))
  | branch c body alternative span ihBody ihAlternative =>
    rw [pieces, List.forall_mem_cons, List.forall_mem_append] at h
    obtain ⟨hc, hbody, halternative⟩ := h
    refine .branch hc (fun s hs => ihBody s hs fun p hp => hbody p (mem_piecesAll hs hp)) ?_
    rintro b ⟨⟩ s hs
    exact ihAlternative b rfl s hs fun p hp => halternative p (mem_piecesAll hs hp)
  | forLoop init c update body span ih =>
    simp only [pieces, List.forall_mem_append, List.forall_mem_map, Option.mem_toList] at h
    obtain ⟨⟨⟨hinit, hc⟩, hupdate⟩, hbody⟩ := h
    exact .forLoop hinit hc hupdate fun s hs => ih s hs fun p hp => hbody p (mem_piecesAll hs hp)
  | whileLoop c body span ih =>
    simp only [pieces, List.forall_mem_append, List.forall_mem_map, Option.mem_toList] at h
    obtain ⟨hc, hbody⟩ := h
    exact .whileLoop hc fun s hs => ih s hs fun p hp => hbody p (mem_piecesAll hs hp)
  | ret v span =>
    simp only [pieces, List.forall_mem_map, Option.mem_toList] at h
    exact .ret h
  | call name args span => exact .call (h _ (by simp [pieces]))
  | relabelled kind s ih => exact .relabelled (ih (by simpa only [pieces] using h))

theorem All.mono {Q Q' : Piece → Prop} {s : Stmt} (h : s.All Q) (hQ : ∀ p, Q p → Q' p) :
    s.All Q' := by
  induction h with
  | declare hd => exact .declare (hQ _ hd)
  | assign ha => exact .assign (hQ _ ha)
  | expression he => exact .expression (hQ _ he)
  | branch hc _ _ ihBody ihAlternative => exact .branch (hQ _ hc) ihBody ihAlternative
  | forLoop hinit hc hupdate _ ih =>
    exact .forLoop (fun d hd => hQ _ (hinit d hd)) (fun c hc' => hQ _ (hc c hc'))
      (fun a ha => hQ _ (hupdate a ha)) ih
  | whileLoop hc _ ih => exact .whileLoop (fun c hc' => hQ _ (hc c hc')) ih
  | ret hv => exact .ret fun v hv' => hQ _ (hv v hv')
  | call he => exact .call (hQ _ he)
  | relabelled _ ih => exact .relabelled ih

end Stmt

/-! ### Names that are read -/

mutual

/-- The variables that an expression refers to, those in the arguments of calls included. -/
def Expr.reads : Expr → List String
  | .number _ => []
  | .variable name => [name]
  | .binary _ left right => left.reads ++ right.reads
  | .paren inner => inner.reads
  | .call _ args => Expr.readsAll args
  | .relabelled _ e => e.reads

/-- The variables that expressions refer to. -/
def Expr.readsAll : List Expr → List String
  | [] => []
  | e :: es => e.reads ++ Expr.readsAll es

end

/-- The variables that a right-hand side refers to. -/
def RValue.reads : RValue → List String
  | .arith e => e.reads
  | .text _ => []
  | .relabelledText _ _ => []

mutual

/-- The variables that a condition refers to. -/
def Condition.reads : Condition → List String
  | .comparison _ left right => left.reads ++ right.reads
  | .truth e => e.reads
  | .not operand => operand.reads
  | .paren inner => inner.reads
  | .bool _ => []
  | .null => []
  | .chain head links => head.reads ++ Link.readsAll links
  | .relabelled _ c => c.reads

/-- The variables that the links of a chain refer to. -/
def Link.readsAll : List Link → List String
  | [] => []
  | .mk _ term :: links => term.reads ++ Link.readsAll links

end

/-- The variables that an initializer refers to. -/
def Declarator.reads (d : Declarator) : List String := d.initializer.toList.flatMap RValue.reads

/-- The variables that an action on a target reads: all actions but plain assignment read the
target itself. -/
def Action.reads (target : String) : Action → List String
  | .set v => v.reads
  | .increment => [target]
  | .decrement => [target]
  | .update _ operand => target :: operand.reads
  | .foreign _ operand => target :: operand.toList.flatMap RValue.reads

/-- The variables that a piece reads. -/
def Piece.reads : Piece → List String
  | .declaration d => d.declarators.flatMap Declarator.reads
  | .assignment a => a.action.reads a.target
  | .condition c => c.reads
  | .expr e => e.reads
  | .value v => v.reads

/-- The variables that a statement reads at any depth. -/
def Stmt.reads (s : Stmt) : List String := s.pieces.flatMap Piece.reads

/-! ### Names that are written -/

/-- The names that a declaration declares. -/
def Declaration.names (d : Declaration) : List String := d.declarators.map Declarator.name

/-- The names that a piece declares or assigns to. -/
def Piece.writes : Piece → List String
  | .declaration d => d.names
  | .assignment a => [a.target]
  | _ => []

/-- The names that a piece declares. -/
def Piece.declares : Piece → List String
  | .declaration d => d.names
  | _ => []

/-- The names that a statement declares or assigns to at any depth. -/
def Stmt.writes (s : Stmt) : List String := s.pieces.flatMap Piece.writes

/-- The names that a statement declares at any depth. -/
def Stmt.declares (s : Stmt) : List String := s.pieces.flatMap Piece.declares

end FlatScript
