import FlatScript.Proofs.Failure
import FlatScript.Proofs.Native

/-!
# The cause of a fault

A fault does not come out of nothing: something in the pieces of a statement accounts for it.

* `Piece.Raises` : a piece raises a fault in a store;
* `Stmt.Fails.raisedBy` : **a statement that fails has a piece that raises the fault in the store
  that is left behind**, unless it is itself of a foreign kind;
* `Accounts` : what in a list of pieces accounts for a fault, with one rule for each kind of fault;
* `Piece.Raises.accounts` : **a fault that a piece raises is accounted for**.
-/

namespace FlatScript

open Outcome

/-! ### The piece that raises a fault -/

/-- The piece, executed or evaluated in the store, raises the fault; a declaration does so at any
of its declarators. -/
def Piece.Raises (tolerance : Double) (σ : Store) (f : Fault) : Piece → Prop
  | .declaration d => ∃ e ∈ d.declarators, e.eval σ d.type = .error f
  | .assignment a => a.action.eval σ a.target = .error f
  | .condition c => c.test tolerance σ = .error f
  | .expr e => e.eval σ = .error f
  | .value v => v.eval σ = .error f

/-- One of the pieces raises the fault in the store, or a statement of a foreign kind does. -/
def RaisedBy (tolerance : Double) (σ : Store) (f : Fault) (ps : List Piece) (own : Bool) : Prop :=
  (∃ p ∈ ps, p.Raises tolerance σ f) ∨
    own = false ∧ ∃ kind, f = .unsupported .statementKind kind

section RaisedBy
variable {tolerance : Double} {σ : Store} {f : Fault} {ps qs : List Piece} {own own' : Bool}

theorem raisedBy_of_mem {p : Piece} (hp : p ∈ ps) (h : p.Raises tolerance σ f) :
    RaisedBy tolerance σ f ps own := .inl ⟨p, hp, h⟩

theorem RaisedBy.mono (h : RaisedBy tolerance σ f ps own) (hps : ∀ p ∈ ps, p ∈ qs)
    (hown : own = false → own' = false) : RaisedBy tolerance σ f qs own' := by
  rcases h with ⟨p, hp, hraises⟩ | ⟨hfalse, hkind⟩
  · exact .inl ⟨p, hps p hp, hraises⟩
  · exact .inr ⟨hown hfalse, hkind⟩

end RaisedBy

theorem Declaration.Fails.raises {tolerance : Double} {d : Declaration} {m m' : Machine}
    {f : Fault} (h : d.Fails m f m') : (Piece.declaration d).Raises tolerance m'.store f := by
  obtain ⟨i, e, v, hi, -, he⟩ := h
  exact ⟨e, List.mem_of_getElem? hi, he⟩

mutual

/-- **A fault comes from a piece of the statement that fails.** -/
theorem Stmt.Fails.raisedBy {tolerance : Double} {s : Stmt} {m m' : Machine} {f : Fault} :
    s.Fails tolerance m f m' → RaisedBy tolerance m'.store f s.pieces s.isOwn
  | .declare h => raisedBy_of_mem (by simp [Stmt.pieces]) h.raises
  | .assign h => raisedBy_of_mem (p := .assignment _) (by simp [Stmt.pieces]) h
  | .expression h => raisedBy_of_mem (p := .expr _) (by simp [Stmt.pieces]) h
  | .ret h => raisedBy_of_mem (p := .value _) (by simp [Stmt.pieces]) h
  | .call h => raisedBy_of_mem (p := .expr _) (by simp [Stmt.pieces]) h
  | .condition h => raisedBy_of_mem (p := .condition _) (by simp [Stmt.pieces]) h
  | .body _ h => by
    refine h.raisedBy.mono (fun p hp => ?_) fun hown => ?_
    · simp [Stmt.pieces, hp]
    · simp [Stmt.isOwn, hown]
  | .alternative _ h => by
    refine h.raisedBy.mono (fun p hp => ?_) fun hown => ?_
    · simp [Stmt.pieces, Stmt.piecesAlternative, hp]
    · simp [Stmt.isOwn, Stmt.ownAlternative, hown]
  | .init h => raisedBy_of_mem (by simp [Stmt.pieces]) h.raises
  | .forLoop _ h => by
    refine h.raisedBy.mono (fun p hp => ?_) fun hown => ?_
    · simp only [Stmt.pieces, List.append_assoc]
      exact List.mem_append_right _ (by simpa using hp)
    · simpa [Stmt.isOwn] using hown
  | .whileLoop h => by
    refine h.raisedBy.mono (fun p hp => ?_) fun hown => ?_
    · simpa [Stmt.pieces] using hp
    · simpa [Stmt.isOwn] using hown
  | .relabelled => .inr ⟨by simp [Stmt.isOwn], _, rfl⟩

theorem Stmt.BlockFails.raisedBy {tolerance : Double} {ss : List Stmt} {m m' : Machine}
    {f : Fault} : Stmt.BlockFails tolerance ss m f m' →
      RaisedBy tolerance m'.store f (Stmt.piecesAll ss) (Stmt.ownAll ss)
  | .stmt hi _ hs =>
    hs.raisedBy.mono (fun _ => Stmt.mem_piecesAll (List.mem_of_getElem? hi))
      (Stmt.ownAll_eq_false_of_mem (List.mem_of_getElem? hi))

theorem Stmt.LoopFails.raisedBy {tolerance : Double} {c : Option Condition}
    {update : Option Assignment} {body : List Stmt} {m₀ m' : Machine} {f : Fault} :
    Stmt.LoopFails tolerance c update body m₀ f m' →
      RaisedBy tolerance m'.store f (c.toList.map .condition ++ update.toList.map .assignment ++
        Stmt.piecesAll body) (Stmt.ownAll body)
  | .condition _ h => by
    cases c with
    | none => simp [testOptional] at h
    | some c => exact raisedBy_of_mem (p := .condition c) (by simp) h
  | .body _ _ h => h.raisedBy.mono (fun p hp => by simp [hp]) id
  | .update _ _ _ h => raisedBy_of_mem (p := .assignment _) (by simp) h

end

theorem Stmt.raisedBy_of_execAll {tolerance : Double} {fuel : Nat} {ss : List Stmt}
    {last : Option Value} {m m' : Machine} {f : Fault}
    (h : Stmt.execAll tolerance fuel ss last m = .failed f m') :
    RaisedBy tolerance m'.store f (Stmt.piecesAll ss) (Stmt.ownAll ss) := by
  obtain ⟨i, s, v, m₁, hi, -, hs⟩ := execAll_eq_failed_iff.1 h
  have hmem := List.mem_of_getElem? hi
  exact (fails_of_exec hs).raisedBy.mono (fun _ => mem_piecesAll hmem)
    (ownAll_eq_false_of_mem hmem)

/-- A run fails with a fault that comes from the global declarations or the entry block. -/
theorem Program.raisedBy_of_run {tolerance : Double} {fuel : Nat} {p : Program} {f : Fault}
    {m : Machine} (h : p.run tolerance fuel = .failed f m) :
    RaisedBy tolerance m.store f p.pieces
      (Stmt.ownAll (p.stmts .globals) && Stmt.ownAll (p.stmts .main)) := by
  rw [run_eq] at h
  rcases andThen_eq_failed_iff.1 h with h | ⟨u, m₀, -, h⟩
  · refine (Stmt.raisedBy_of_execAll h).mono (fun _ => List.mem_append_left _) fun hown => ?_
    rw [hown, Bool.false_and]
  · rcases andThen_eq_failed_iff.1 h with h | ⟨v, m₁, -, h⟩
    · refine (Stmt.raisedBy_of_execAll h).mono (fun _ => List.mem_append_right _) fun hown => ?_
      rw [hown, Bool.and_false]
    · cases h

/-! ### What accounts for a fault -/

/-- The names of the built-in functions. -/
def Builtin.names : List String := ["sqrt", "log", "sin", "cos"]

theorem Builtin.parse?_eq_none_iff {name : String} :
    (Spelled.parse? name : Option Builtin) = none ↔ name ∉ names := by
  have hnames : names = (Spelled.all : List Builtin).map Spelled.spell := rfl
  simp [Spelled.parse?, Spelled.among?, hnames]

theorem Builtin.mem_names_of_parse? {name : String} {g : Builtin}
    (h : Spelled.parse? name = some g) : name ∈ names := by
  refine Decidable.of_not_not fun hname => ?_
  simp [parse?_eq_none_iff.2 hname] at h

/-- Something in the pieces accounts for the fault in the store.  The texts that a variable or an
operand can hold are those with the property `T`. -/
inductive Accounts (ps : List Piece) (T : String → Prop) (σ : Store) : Fault → Prop
  /-- One of the pieces reads a name that the store does not have. -/
  | absent {name : String} : name ∈ ps.flatMap Piece.reads → σ.find? name = none →
      Accounts ps T σ (.undefinedVariable name)
  /-- A call names no built-in function. -/
  | unknown {name : String} {args : List Expr} : .call name args ∈ ps.flatMap Piece.nodes →
      name ∉ Builtin.names → Accounts ps T σ (.unknownFunction name)
  /-- A call of a built-in function has not one argument. -/
  | arity {name : String} {args : List Expr} : .call name args ∈ ps.flatMap Piece.nodes →
      name ∈ Builtin.names → args.length ≠ 1 →
      Accounts ps T σ (.wrongArity name 1 args.length)
  /-- There is a quotient. -/
  | quotient {left right : Expr} : .binary (.known .div) left right ∈ ps.flatMap Piece.nodes →
      Accounts ps T σ .divisionByZero
  /-- There is an assignment that divides its target. -/
  | division {a : Assignment} {operand : RValue} : .assignment a ∈ ps →
      a.action = .update .div operand → Accounts ps T σ .divisionByZero
  /-- A number is written as a text that is no numeral. -/
  | numeral {t : String} : .number t ∈ ps.flatMap Piece.nodes → Double.read? t = none →
      Accounts ps T σ (.badNumeral t)
  /-- A text passes for numeric but is no numeral. -/
  | text {t : String} : T t → isNumericText t = true → Double.read? t = none →
      Accounts ps T σ (.badNumeral t)
  /-- One of the pieces is not of this language. -/
  | foreign {p : Piece} {lookup : Lookup} {symbol : String} : p ∈ ps → p.isNative = false →
      Accounts ps T σ (.unsupported lookup symbol)

/-- The texts in the store have the property. -/
def Store.TextsIn (T : String → Prop) (σ : Store) : Prop :=
  ∀ x v t, σ.find? x = some v → v.value = .text t → T t

/-! ### Steps of an evaluation -/

theorem bind_eq_error_iff {α β : Type} {x : Except Fault α} {k : α → Except Fault β} {f : Fault} :
    x >>= k = .error f ↔ x = .error f ∨ ∃ a, x = .ok a ∧ k a = .error f := by
  cases x <;> simp [bind, Except.bind]

theorem bind_eq_ok_iff {α β : Type} {x : Except Fault α} {k : α → Except Fault β} {b : β} :
    x >>= k = .ok b ↔ ∃ a, x = .ok a ∧ k a = .ok b := by
  cases x <;> simp [bind, Except.bind]

theorem readNumeral_eq_error {t : String} {f : Fault} (h : readNumeral t = .error f) :
    Double.read? t = none ∧ f = .badNumeral t := by
  unfold readNumeral at h
  split at h
  · cases h
  · rename_i hread
    cases h
    exact ⟨hread, rfl⟩

theorem Value.asNumber_eq_error {v : Value} {f : Fault} (h : v.asNumber = .error f) :
    ∃ t, v = .text t ∧ isNumericText t = true ∧ Double.read? t = none ∧ f = .badNumeral t := by
  cases v with
  | number x => cases h
  | text t =>
    simp only [asNumber] at h
    split at h
    · rename_i hnumeric
      exact ⟨t, rfl, hnumeric, readNumeral_eq_error h⟩
    · cases h

theorem ArithOp.apply_eq_error {op : ArithOp} {x y : Double} {f : Fault}
    (h : op.apply x y = .error f) : op = .div ∧ f = .divisionByZero := by
  cases op with
  | div =>
    simp only [apply] at h
    split at h
    · cases h
      exact ⟨rfl, rfl⟩
    · cases h
  | _ => cases h

section Accounts
variable {ps : List Piece} {T : String → Prop} {σ : Store} {f : Fault}

theorem accounts_of_get {x : String} (hx : x ∈ ps.flatMap Piece.reads)
    (h : σ.get x = .error f) : Accounts ps T σ f := by
  unfold Store.get at h
  split at h
  · cases h
  · rename_i hfind
    cases h
    exact .absent hx hfind

theorem accounts_of_asNumber {t : String} (ht : T t)
    (h : (Value.text t).asNumber = .error f) : Accounts ps T σ f := by
  obtain ⟨_, ⟨⟩, hnumeric, hread, rfl⟩ := Value.asNumber_eq_error h
  exact .text ht hnumeric hread

/-- A variable that gives no number is absent or holds a text. -/
theorem accounts_of_variable {x : String} (hx : x ∈ ps.flatMap Piece.reads) (hσ : σ.TextsIn T)
    (h : (σ.get x >>= Value.asNumber) = .error f) : Accounts ps T σ f := by
  rcases bind_eq_error_iff.1 h with hget | ⟨v, hget, hnumber⟩
  · exact accounts_of_get hx hget
  · obtain ⟨t, rfl, -⟩ := Value.asNumber_eq_error hnumber
    unfold Store.get at hget
    split at hget
    · rename_i v hfind
      exact accounts_of_asNumber (hσ x v t hfind (Except.ok.inj hget)) hnumber
    · cases hget

theorem accounts_of_stepped {x : String} {step : Double → Double}
    (hx : x ∈ ps.flatMap Piece.reads) (hσ : σ.TextsIn T) (h : σ.stepped x step = .error f) :
    Accounts ps T σ f := by
  rw [Store.stepped, ← bind_assoc] at h
  rcases bind_eq_error_iff.1 h with h | ⟨y, -, h⟩
  · exact accounts_of_variable hx hσ h
  · cases h

end Accounts

/-! ### Evaluations that fail are accounted for -/

section Evaluation
variable {ps : List Piece} {T : String → Prop} {σ : Store} {f : Fault}

theorem accounts_of_foreign {e : Expr} (he : e ∈ ps.flatMap Piece.nodes) (hown : e.isOwn = false)
    (lookup : Lookup) (symbol : String) : Accounts ps T σ (.unsupported lookup symbol) := by
  obtain ⟨p, hp, he⟩ := List.mem_flatMap.1 he
  exact .foreign hp (Piece.isNative_eq_false_of_nodes he hown)

theorem Expr.accounts {e : Expr} (he : e ∈ ps.flatMap Piece.nodes) (hσ : σ.TextsIn T)
    (h : e.eval σ = .error f) : Accounts ps T σ f := by
  -- a part of an expression of the pieces is one of theirs as well
  have hsub : ∀ {e e' : Expr}, e' ∈ e.nodes → e ∈ ps.flatMap Piece.nodes →
      e' ∈ ps.flatMap Piece.nodes := by
    intro e e' he' he
    simp only [Piece.nodes, List.mem_flatMap] at he ⊢
    obtain ⟨p, hp, e'', he'', he⟩ := he
    exact ⟨p, hp, e'', he'', mem_nodes_trans he' he⟩
  induction e using Expr.induct with
  | number numeral =>
    obtain ⟨hread, rfl⟩ := readNumeral_eq_error h
    exact .numeral he hread
  | ref name =>
    have hx : name ∈ ps.flatMap Piece.reads := by
      obtain ⟨p, hp, he⟩ := List.mem_flatMap.1 he
      exact List.mem_flatMap.2 ⟨p, hp, Piece.mem_reads_of_mem_nodes he⟩
    exact accounts_of_variable hx hσ h
  | binary op left right ihLeft ihRight =>
    rcases bind_eq_error_iff.1 h with h | ⟨x, -, h⟩
    · exact ihLeft (hsub (by simp [nodes, self_mem_nodes]) he) h
    · rcases bind_eq_error_iff.1 h with h | ⟨y, -, h⟩
      · exact ihRight (hsub (by simp [nodes, self_mem_nodes]) he) h
      · cases op with
        | known op =>
          obtain ⟨rfl, rfl⟩ := ArithOp.apply_eq_error h
          exact .quotient he
        | foreign symbol =>
          cases h
          exact accounts_of_foreign he rfl _ _
  | paren inner ih => exact ih (hsub (by simp [nodes, self_mem_nodes]) he) h
  | call name args ih =>
    -- the name is looked up first, then the arguments are counted, and a lone one is evaluated
    simp only [eval] at h
    split at h
    · rename_i hparse
      cases h
      exact .unknown he (Builtin.parse?_eq_none_iff.1 hparse)
    · rename_i g hparse
      have hname := Builtin.mem_names_of_parse? hparse
      split at h
      · rename_i arg
        rcases bind_eq_error_iff.1 h with h | ⟨x, -, h⟩
        · refine ih arg List.mem_cons_self (hsub ?_ he) h
          simp [nodes, nodesAll, self_mem_nodes]
        · cases h
      · rename_i hargs
        cases h
        refine .arity he hname fun hone => ?_
        obtain ⟨arg, rfl⟩ := List.length_eq_one_iff.1 hone
        exact hargs arg rfl
  | relabelled kind node ih =>
    cases h
    exact accounts_of_foreign he rfl _ _

theorem Link.testAll_eq_error {tolerance : Double} {soFar : Bool} {links : List Link}
    (h : Link.testAll tolerance σ soFar links = .error f) :
    ∃ op term, Link.mk op term ∈ links ∧ (term.test tolerance σ = .error f ∨
      ∃ symbol, op = .foreign symbol ∧ f = .unsupported .logicalOp symbol) := by
  induction links generalizing soFar with
  | nil => cases h
  | cons l links ih =>
    obtain ⟨op, term⟩ := l
    rcases bind_eq_error_iff.1 h with h | ⟨next, -, h⟩
    · exact ⟨op, term, List.mem_cons_self, .inl h⟩
    · rcases bind_eq_error_iff.1 h with h | ⟨joined, -, h⟩
      · refine ⟨op, term, List.mem_cons_self, .inr ?_⟩
        cases op with
        | known op => cases op <;> cases h
        | foreign symbol =>
          cases h
          exact ⟨symbol, rfl, rfl⟩
      · obtain ⟨op', term', hl, h⟩ := ih h
        exact ⟨op', term', List.mem_cons_of_mem _ hl, h⟩

theorem Condition.accounts {c : Condition} (tolerance : Double)
    (he : ∀ e ∈ c.exprs, e ∈ ps.flatMap Piece.nodes)
    (hown : c.isOwn = false → ∃ p ∈ ps, p.isNative = false) (hσ : σ.TextsIn T)
    (h : c.test tolerance σ = .error f) : Accounts ps T σ f := by
  induction c using Condition.induct generalizing f with
  | comparison op left right =>
    simp only [exprs, List.forall_mem_cons] at he
    obtain ⟨hleft, hright, -⟩ := he
    rcases bind_eq_error_iff.1 h with h | ⟨x, -, h⟩
    · exact Expr.accounts hleft hσ h
    · rcases bind_eq_error_iff.1 h with h | ⟨y, -, h⟩
      · exact Expr.accounts hright hσ h
      · cases op with
        | known op => cases h
        | foreign symbol =>
          cases h
          obtain ⟨p, hp, hforeign⟩ := hown rfl
          exact .foreign hp hforeign
  | truth e =>
    rcases bind_eq_error_iff.1 h with h | ⟨x, -, h⟩
    · exact Expr.accounts (he e (by simp [exprs])) hσ h
    · cases h
  | not operand ih =>
    rcases bind_eq_error_iff.1 h with h | ⟨x, -, h⟩
    · exact ih he hown h
    · cases h
  | paren inner ih => exact ih he hown h
  | bool b => cases h
  | null => cases h
  | chain head links ihHead ihLinks =>
    simp only [exprs, Link.exprsAll_eq_flatMap, List.forall_mem_append] at he
    obtain ⟨hhead, hlinks⟩ := he
    rcases bind_eq_error_iff.1 h with h | ⟨first, -, h⟩
    · exact ihHead hhead (fun hfalse => hown (by simp [isOwn, hfalse])) h
    · obtain ⟨op, term, hl, h⟩ := Link.testAll_eq_error h
      rcases h with h | ⟨symbol, rfl, rfl⟩
      · have hterm : ∀ e ∈ term.exprs, e ∈ ps.flatMap Piece.nodes :=
          fun e he => hlinks e (List.mem_flatMap.2 ⟨_, hl, he⟩)
        refine ihLinks _ hl hterm (fun hfalse => ?_) h
        exact hown (by simp [isOwn, Link.ownAll_eq_false_of_mem hl (.inr hfalse)])
      · obtain ⟨p, hp, hforeign⟩ := hown (by
          simp [isOwn, Link.ownAll_eq_false_of_mem hl (.inl rfl)])
        exact .foreign hp hforeign
  | relabelled kind node ih =>
    cases h
    obtain ⟨p, hp, hforeign⟩ := hown rfl
    exact .foreign hp hforeign

variable {p : Piece}

theorem RValue.accounts {v : RValue} (hp : p ∈ ps) (hv : v ∈ p.values) (hσ : σ.TextsIn T)
    (h : v.eval σ = .error f) : Accounts ps T σ f := by
  cases v with
  | arith e =>
    rcases bind_eq_error_iff.1 h with h | ⟨x, -, h⟩
    · have he : e ∈ p.exprs := Piece.mem_exprs_of_mem_values hv (by simp [exprs])
      exact Expr.accounts (List.mem_flatMap.2 ⟨p, hp, Piece.mem_nodes_of_mem_exprs he⟩) hσ h
    · cases h
  | text t => cases h
  | relabelledText kind t => cases h

theorem RValue.accounts_operand {v : RValue} (hp : p ∈ ps) (hv : v ∈ p.values)
    (hT : ∀ t ∈ ps.flatMap Piece.texts, T t) (hσ : σ.TextsIn T)
    (h : v.evalNumber σ = .error f) : Accounts ps T σ f := by
  cases v with
  | arith e =>
    have he : e ∈ p.exprs := Piece.mem_exprs_of_mem_values hv (by simp [exprs])
    exact Expr.accounts (List.mem_flatMap.2 ⟨p, hp, Piece.mem_nodes_of_mem_exprs he⟩) hσ h
  | text t =>
    have ht : t ∈ p.texts := List.mem_flatMap.2 ⟨_, hv, by simp [texts]⟩
    exact accounts_of_asNumber (hT t (List.mem_flatMap.2 ⟨p, hp, ht⟩)) h
  | relabelledText kind t =>
    cases h
    refine .foreign hp ?_
    have hall : p.values.all RValue.isOwn = false :=
      List.all_eq_false.2 ⟨_, hv, by simp [RValue.isOwn]⟩
    simp [Piece.isNative, hall]

theorem Assignment.accounts {a : Assignment} (ha : .assignment a ∈ ps)
    (hT : ∀ t ∈ ps.flatMap Piece.texts, T t) (hσ : σ.TextsIn T)
    (h : a.action.eval σ a.target = .error f) : Accounts ps T σ f := by
  have hreads : ∀ x ∈ a.action.reads a.target, x ∈ ps.flatMap Piece.reads :=
    fun x hx => List.mem_flatMap.2 ⟨_, ha, hx⟩
  have hvalues : ∀ v ∈ a.action.value?, v ∈ (Piece.assignment a).values :=
    fun v hv => Option.mem_toList.2 hv
  cases haction : a.action with
  | set v =>
    rw [haction] at h hvalues
    exact RValue.accounts ha (hvalues v rfl) hσ h
  | increment =>
    rw [haction] at h hreads
    exact accounts_of_stepped (hreads _ (by simp [Action.reads])) hσ h
  | decrement =>
    rw [haction] at h hreads
    exact accounts_of_stepped (hreads _ (by simp [Action.reads])) hσ h
  | update op operand =>
    -- the target is read before the operand is evaluated, and the operator is applied last
    rw [haction] at h hreads hvalues
    simp only [Action.eval] at h
    rw [← bind_assoc] at h
    rcases bind_eq_error_iff.1 h with h | ⟨x, -, h⟩
    · exact accounts_of_variable (hreads _ (by simp [Action.reads])) hσ h
    · rcases bind_eq_error_iff.1 h with h | ⟨y, -, h⟩
      · exact RValue.accounts_operand ha (hvalues operand rfl) hT hσ h
      · rcases bind_eq_error_iff.1 h with h | ⟨z, -, h⟩
        · obtain ⟨rfl, rfl⟩ := ArithOp.apply_eq_error h
          exact .division ha haction
        · cases h
  | foreign symbol operand =>
    have hforeign : (Piece.assignment a).isNative = false := by
      simp [Piece.isNative, Piece.isOwn, haction, Action.op, Operator.isKnown]
    rw [haction] at h hreads hvalues
    have htarget : a.target ∈ ps.flatMap Piece.reads := hreads _ (by simp [Action.reads])
    simp only [Action.eval] at h
    split at h
    · cases h
      exact .foreign ha hforeign
    · exact accounts_of_stepped htarget hσ h
    · exact accounts_of_stepped htarget hσ h
    · -- the operator is reported only after the target and the operand have been evaluated
      rw [← bind_assoc] at h
      rcases bind_eq_error_iff.1 h with h | ⟨x, -, h⟩
      · exact accounts_of_variable htarget hσ h
      · rcases bind_eq_error_iff.1 h with h | ⟨y, -, h⟩
        · cases operand with
          | none =>
            cases h
            exact .foreign ha hforeign
          | some v => exact RValue.accounts_operand ha (hvalues v rfl) hT hσ h
        · cases h
          exact .foreign ha hforeign

/-- **A fault that one of the pieces raises is accounted for by the pieces.** -/
theorem Piece.Raises.accounts {tolerance : Double} (h : p.Raises tolerance σ f) (hp : p ∈ ps)
    (hT : ∀ t ∈ ps.flatMap Piece.texts, T t) (hσ : σ.TextsIn T) : Accounts ps T σ f := by
  cases p with
  | declaration d =>
    obtain ⟨e, he, h⟩ := h
    unfold Declarator.eval at h
    split at h
    · rename_i v hv
      exact RValue.accounts hp (List.mem_filterMap.2 ⟨e, he, hv⟩) hσ h
    · cases h
  | assignment a => exact Assignment.accounts hp hT hσ h
  | condition c =>
    refine Condition.accounts tolerance (fun e he => ?_) (fun hown => ⟨_, hp, ?_⟩) hσ h
    · exact List.mem_flatMap.2 ⟨_, hp, Piece.mem_nodes_of_mem_exprs he⟩
    · simp [Condition.isNative, hown]
  | expr e =>
    have he : e ∈ (Piece.expr e).nodes := Piece.mem_nodes_of_mem_exprs (by simp [Piece.exprs])
    exact Expr.accounts (List.mem_flatMap.2 ⟨_, hp, he⟩) hσ h
  | value v => exact RValue.accounts hp (by simp [Piece.values]) hσ h

end Evaluation

end FlatScript
