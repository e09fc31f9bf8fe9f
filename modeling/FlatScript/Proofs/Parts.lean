import FlatScript.Proofs.Pieces

/-!
# What occurs in a piece

The right-hand sides, expressions and texts that occur in a piece of a statement.  A syntactic
condition such as "there is a quotient" or "there is no foreign operator" is about these.

* `Expr.nodes`, `Piece.nodes` : the expressions that occur in an expression or a piece, at any
  depth;
* `Piece.values`, `Piece.exprs`, `Piece.texts` : the right-hand sides of a piece, the expressions
  that it evaluates and its texts;
* `Piece.mem_reads_of_mem_nodes` : a piece reads every variable that occurs in it.
-/

namespace FlatScript

/-! ### Right-hand sides, expressions and texts -/

mutual

/-- The expressions that occur in an expression, itself included. -/
def Expr.nodes : Expr → List Expr
  | .number numeral => [.number numeral]
  | .variable name => [.variable name]
  | .binary op left right => .binary op left right :: (left.nodes ++ right.nodes)
  | .paren inner => .paren inner :: inner.nodes
  | .call name args => .call name args :: Expr.nodesAll args
  | .relabelled kind e => .relabelled kind e :: e.nodes

/-- The expressions that occur in a list of expressions. -/
def Expr.nodesAll : List Expr → List Expr
  | [] => []
  | e :: es => e.nodes ++ Expr.nodesAll es

end

mutual

/-- The expressions that a condition compares or tests. -/
def Condition.exprs : Condition → List Expr
  | .comparison _ left right => [left, right]
  | .truth e => [e]
  | .not operand => operand.exprs
  | .paren inner => inner.exprs
  | .bool _ => []
  | .null => []
  | .chain head links => head.exprs ++ Link.exprsAll links
  | .relabelled _ c => c.exprs

/-- The expressions that the links of a chain compare or test. -/
def Link.exprsAll : List Link → List Expr
  | [] => []
  | .mk _ term :: links => term.exprs ++ Link.exprsAll links

end

/-- The expression of a right-hand side. -/
def RValue.exprs : RValue → List Expr
  | .arith e => [e]
  | _ => []

/-- The text of a right-hand side. -/
def RValue.texts : RValue → List String
  | .arith _ => []
  | .text s => [s]
  | .relabelledText _ s => [s]

namespace Piece

/-- The right-hand sides of a piece. -/
def values : Piece → List RValue
  | .declaration d => d.declarators.filterMap Declarator.initializer
  | .assignment a => a.action.value?.toList
  | .condition _ => []
  | .expr _ => []
  | .value v => [v]

/-- The expressions that a piece evaluates. -/
def exprs : Piece → List Expr
  | .condition c => c.exprs
  | .expr e => [e]
  | p => p.values.flatMap RValue.exprs

/-- The expressions that occur in a piece. -/
def nodes (p : Piece) : List Expr := p.exprs.flatMap Expr.nodes

/-- The texts that occur in a piece. -/
def texts (p : Piece) : List String := p.values.flatMap RValue.texts

end Piece

/-! ### Parts of parts, and the names that they read -/

namespace Expr

theorem nodesAll_eq_flatMap (es : List Expr) : nodesAll es = es.flatMap nodes := by
  induction es with
  | nil => rfl
  | cons e es ih => simp [nodesAll, ih]

theorem self_mem_nodes (e : Expr) : e ∈ e.nodes := by
  cases e <;> simp [nodes]

theorem mem_nodes_trans {e e' e'' : Expr} (h : e'' ∈ e'.nodes) (h' : e' ∈ e.nodes) :
    e'' ∈ e.nodes := by
  induction e using Expr.induct with
  | number numeral => simp_all [nodes]
  | ref name => simp_all [nodes]
  | binary op left right ihLeft ihRight =>
    simp only [nodes, List.mem_cons, List.mem_append] at h' ⊢
    rcases h' with rfl | h' | h'
    · simpa [nodes] using h
    · exact .inr (.inl (ihLeft h'))
    · exact .inr (.inr (ihRight h'))
  | paren inner ih =>
    simp only [nodes, List.mem_cons] at h' ⊢
    rcases h' with rfl | h'
    · simpa [nodes] using h
    · exact .inr (ih h')
  | call name args ih =>
    simp only [nodes, List.mem_cons, nodesAll_eq_flatMap, List.mem_flatMap] at h' ⊢
    rcases h' with rfl | ⟨a, ha, h'⟩
    · simpa [nodes, nodesAll_eq_flatMap] using h
    · exact .inr ⟨a, ha, ih a ha h'⟩
  | relabelled kind node ih =>
    simp only [nodes, List.mem_cons] at h' ⊢
    rcases h' with rfl | h'
    · simpa [nodes] using h
    · exact .inr (ih h')

theorem readsAll_eq_flatMap (es : List Expr) : readsAll es = es.flatMap reads := by
  induction es with
  | nil => rfl
  | cons e es ih => simp [readsAll, ih]

theorem mem_reads_of_mem_nodes {x : String} {e : Expr} (h : .variable x ∈ e.nodes) :
    x ∈ e.reads := by
  induction e using Expr.induct with
  | number numeral => simp [nodes] at h
  | ref name => simpa [nodes, reads] using h
  | binary op left right ihLeft ihRight =>
    simp only [nodes, List.mem_cons, List.mem_append, reduceCtorEq, false_or] at h
    simp only [reads, List.mem_append]
    exact h.imp ihLeft ihRight
  | paren inner ih => exact ih (by simpa [nodes] using h)
  | call name args ih =>
    simp only [nodes, List.mem_cons, reduceCtorEq, false_or, nodesAll_eq_flatMap,
      List.mem_flatMap] at h
    simp only [reads, readsAll_eq_flatMap, List.mem_flatMap]
    obtain ⟨a, ha, h⟩ := h
    exact ⟨a, ha, ih a ha h⟩
  | relabelled kind node ih => exact ih (by simpa [nodes] using h)

end Expr

theorem Link.readsAll_eq_flatMap (links : List Link) :
    readsAll links = links.flatMap fun l => l.term.reads := by
  induction links with
  | nil => rfl
  | cons l links ih =>
    obtain ⟨op, term⟩ := l
    simp [readsAll, Link.term, ih]

theorem Link.exprsAll_eq_flatMap (links : List Link) :
    exprsAll links = links.flatMap fun l => l.term.exprs := by
  induction links with
  | nil => rfl
  | cons l links ih =>
    obtain ⟨op, term⟩ := l
    simp [exprsAll, Link.term, ih]

theorem Condition.reads_of_mem_exprs {c : Condition} {e : Expr} (he : e ∈ c.exprs) :
    ∀ x ∈ e.reads, x ∈ c.reads := by
  intro x hx
  induction c using Condition.induct with
  | comparison op left right =>
    simp only [exprs, List.mem_cons, List.not_mem_nil, or_false] at he
    simp only [reads, List.mem_append]
    rcases he with rfl | rfl
    · exact .inl hx
    · exact .inr hx
  | truth e' =>
    obtain rfl : e = e' := by simpa [exprs] using he
    exact hx
  | not operand ih => exact ih he
  | paren inner ih => exact ih he
  | bool b => cases he
  | null => cases he
  | chain head links ihHead ihLinks =>
    simp only [exprs, Link.exprsAll_eq_flatMap, List.mem_append, List.mem_flatMap] at he
    simp only [reads, Link.readsAll_eq_flatMap, List.mem_append, List.mem_flatMap]
    rcases he with he | ⟨l, hl, he⟩
    · exact .inl (ihHead he)
    · exact .inr ⟨l, hl, ihLinks l hl he⟩
  | relabelled kind node ih => exact ih he

theorem RValue.reads_of_mem_exprs {v : RValue} {e : Expr} (he : e ∈ v.exprs) :
    ∀ x ∈ e.reads, x ∈ v.reads := by
  cases v with
  | arith e' =>
    obtain rfl : e = e' := by simpa [exprs] using he
    exact fun x hx => hx
  | text t => cases he
  | relabelledText kind t => cases he

theorem Action.mem_reads_of_mem_value? {a : Action} {v : RValue} (hv : v ∈ a.value?)
    (target : String) : ∀ x ∈ v.reads, x ∈ a.reads target := by
  intro x hx
  cases a with
  | set w =>
    obtain rfl : w = v := Option.some.inj hv
    exact hx
  | increment => cases hv
  | decrement => cases hv
  | update op w =>
    obtain rfl : w = v := Option.some.inj hv
    exact List.mem_cons_of_mem _ hx
  | foreign symbol w =>
    obtain rfl : w = some v := hv
    exact List.mem_cons_of_mem _ (by simpa using hx)

namespace Piece

theorem reads_of_mem_values {p : Piece} {v : RValue} (hv : v ∈ p.values) :
    ∀ x ∈ v.reads, x ∈ p.reads := by
  intro x hx
  cases p with
  | declaration d =>
    obtain ⟨e, he, hv⟩ := List.mem_filterMap.1 hv
    refine List.mem_flatMap.2 ⟨e, he, ?_⟩
    exact List.mem_flatMap.2 ⟨v, Option.mem_toList.2 hv, hx⟩
  | assignment a => exact Action.mem_reads_of_mem_value? (Option.mem_toList.1 hv) a.target x hx
  | condition c => cases hv
  | expr e => cases hv
  | value w =>
    obtain rfl : v = w := by simpa [values] using hv
    exact hx

theorem mem_exprs_of_mem_values {p : Piece} {v : RValue} {e : Expr} (hv : v ∈ p.values)
    (he : e ∈ v.exprs) : e ∈ p.exprs := by
  cases p with
  | condition c => cases hv
  | expr e => cases hv
  | _ => exact List.mem_flatMap.2 ⟨v, hv, he⟩

theorem reads_of_mem_exprs {p : Piece} {e : Expr} (he : e ∈ p.exprs) :
    ∀ x ∈ e.reads, x ∈ p.reads := by
  intro x hx
  cases p with
  | condition c => exact Condition.reads_of_mem_exprs he x hx
  | expr e' =>
    obtain rfl : e = e' := by simpa [exprs] using he
    exact hx
  | _ =>
    obtain ⟨v, hv, he⟩ := List.mem_flatMap.1 he
    exact reads_of_mem_values hv x (RValue.reads_of_mem_exprs he x hx)

theorem mem_nodes_of_mem_exprs {p : Piece} {e : Expr} (he : e ∈ p.exprs) : e ∈ p.nodes :=
  List.mem_flatMap.2 ⟨e, he, e.self_mem_nodes⟩

theorem mem_reads_of_mem_nodes {p : Piece} {x : String} (h : .variable x ∈ p.nodes) :
    x ∈ p.reads := by
  obtain ⟨e, he, h⟩ := List.mem_flatMap.1 h
  exact reads_of_mem_exprs he x (Expr.mem_reads_of_mem_nodes h)

end Piece

end FlatScript
