import FlatScript.Proofs.Noninterference
import Mathlib.Data.List.Forall2

/-!
# What a run does not look at

A run looks neither at places in the source text nor at parentheses nor at functions, it takes an
absent alternative for an empty one, and it only records the type of a declaration.  A *variant* of
a program is one that differs from it in such things.

Expressions and conditions are compared by their *bare* forms, without parentheses.  Statements are
variants of one another (`Stmt.Variant K`) if they have the same shape and equal bare parts,
whatever their places.  The relation `K x t t'` says which types two declarations of the name `x`
may have at the same position: with `fun _ t t' => t = t'` no type is changed.

* `Expr.eval_bare`, `Condition.test_bare` : parentheses do not matter to evaluation;
* `Store.Variant K` : stores with the same names in the same order, the same values and the same
  scopes, and declared types related by `K`;
* `Stmt.Variant.exec` : variants take stores that are variants to such stores;
* `Program.run_agree_of_variant` : **the runs of two variants end together**, with the same value or
  fault, with variables that differ in their declared types only, and with the same log but for the
  number of global declarations.
-/

namespace FlatScript

open Outcome

/-! ### Bare forms -/

mutual

/-- The expression without its parentheses, at any depth. -/
def Expr.bare : Expr → Expr
  | .number numeral => .number numeral
  | .variable name => .variable name
  | .binary op left right => .binary op left.bare right.bare
  | .paren inner => inner.bare
  | .call name args => .call name (Expr.bareAll args)
  | .relabelled kind e => .relabelled kind e.bare

/-- The expressions without their parentheses. -/
def Expr.bareAll : List Expr → List Expr
  | [] => []
  | e :: es => e.bare :: Expr.bareAll es

end

/-- The right-hand side without its parentheses. -/
def RValue.bare : RValue → RValue
  | .arith e => .arith e.bare
  | .text s => .text s
  | .relabelledText kind s => .relabelledText kind s

mutual

/-- The condition without its parentheses and those of its expressions, at any depth. -/
def Condition.bare : Condition → Condition
  | .comparison op left right => .comparison op left.bare right.bare
  | .truth e => .truth e.bare
  | .not operand => .not operand.bare
  | .paren inner => inner.bare
  | .bool b => .bool b
  | .null => .null
  | .chain head links => .chain head.bare (Link.bareAll links)
  | .relabelled kind c => .relabelled kind c.bare

/-- The links without their parentheses. -/
def Link.bareAll : List Link → List Link
  | [] => []
  | .mk op term :: links => .mk op term.bare :: Link.bareAll links

end

/-- The action without the parentheses of its operand. -/
def Action.bare : Action → Action
  | .set v => .set v.bare
  | .increment => .increment
  | .decrement => .decrement
  | .update op operand => .update op operand.bare
  | .foreign symbol operand => .foreign symbol (operand.map RValue.bare)

section Bare

variable (tolerance : Double) (σ : Store)

theorem Expr.bareAll_eq_map (es : List Expr) : Expr.bareAll es = es.map Expr.bare := by
  induction es with
  | nil => rfl
  | cons e es ih => rw [bareAll, ih, List.map_cons]

theorem Expr.eval_bare (e : Expr) : e.bare.eval σ = e.eval σ := by
  induction e using Expr.induct with
  | number numeral => rfl
  | ref name => rfl
  | binary op left right ihLeft ihRight => simp only [Expr.bare, Expr.eval, ihLeft, ihRight]
  | paren inner ih =>
    simp only [Expr.bare, Expr.eval]
    exact ih
  | call name args ih =>
    simp only [Expr.bare, Expr.eval, Expr.bareAll_eq_map]
    -- only a single argument is evaluated
    rcases args with _ | ⟨arg, _ | ⟨arg', rest⟩⟩
    · rfl
    · simp only [List.map_cons, List.map_nil, ih arg (by simp)]
    · simp only [List.map_cons, List.length_cons, List.length_map]
  | relabelled kind e ih => rfl

theorem RValue.eval_bare (v : RValue) : v.bare.eval σ = v.eval σ := by
  cases v with
  | arith e => simp only [RValue.bare, RValue.eval, Expr.eval_bare]
  | text s => rfl
  | relabelledText kind s => rfl

theorem RValue.evalNumber_bare (v : RValue) : v.bare.evalNumber σ = v.evalNumber σ := by
  cases v with
  | arith e => exact e.eval_bare σ
  | text s => rfl
  | relabelledText kind s => rfl

theorem Action.eval_bare (target : String) (a : Action) :
    a.bare.eval σ target = a.eval σ target := by
  cases a with
  | set v => exact v.eval_bare σ
  | increment => rfl
  | decrement => rfl
  | update op operand => simp only [Action.bare, Action.eval, RValue.evalNumber_bare]
  | foreign symbol operand =>
    have hoperand : operandNumber σ symbol (operand.map RValue.bare) =
        operandNumber σ symbol operand := by
      cases operand with
      | none => rfl
      | some v => exact v.evalNumber_bare σ
    simp only [Action.bare, Action.eval, hoperand]

theorem Link.testAll_bareAll {links : List Link}
    (h : ∀ l ∈ links, l.term.bare.test tolerance σ = l.term.test tolerance σ) (soFar : Bool) :
    Link.testAll tolerance σ soFar (Link.bareAll links) =
      Link.testAll tolerance σ soFar links := by
  induction links generalizing soFar with
  | nil => rfl
  | cons l links ih =>
    obtain ⟨op, term⟩ := l
    obtain ⟨hterm, hlinks⟩ := List.forall_mem_cons.1 h
    have hterm' : term.bare.test tolerance σ = term.test tolerance σ := hterm
    simp only [Link.bareAll, Link.testAll, hterm', ih hlinks]

theorem Condition.test_bare (c : Condition) : c.bare.test tolerance σ = c.test tolerance σ := by
  induction c using Condition.induct with
  | comparison op left right => simp only [Condition.bare, Condition.test, Expr.eval_bare]
  | truth e => simp only [Condition.bare, Condition.test, Expr.eval_bare]
  | not operand ih => simp only [Condition.bare, Condition.test, ih]
  | paren inner ih =>
    simp only [Condition.bare, Condition.test]
    exact ih
  | bool b => rfl
  | null => rfl
  | chain head links ihHead ihLinks =>
    simp only [Condition.bare, Condition.test, ihHead, Link.testAll_bareAll tolerance σ ihLinks]
  | relabelled kind c ih => rfl

end Bare

/-! ### Variants -/

/-- Declarators of the same name, with the same initial value up to parentheses. -/
structure Declarator.Variant (d d' : Declarator) : Prop where
  name : d.name = d'.name
  initializer : d.initializer.map RValue.bare = d'.initializer.map RValue.bare

/-- Declarations of the same names, with types related for each name. -/
structure Declaration.Variant (K : String → TypeTag → TypeTag → Prop) (d d' : Declaration) :
    Prop where
  declarators : List.Forall₂ Declarator.Variant d.declarators d'.declarators
  type : ∀ x ∈ d.names, K x d.type d'.type

/-- Assignments to the same target, with the same action up to parentheses. -/
structure Assignment.Variant (a a' : Assignment) : Prop where
  target : a.target = a'.target
  action : a.action.bare = a'.action.bare

mutual

/-- The statements have the same shape, the same expressions and conditions up to parentheses, and
declarations of related types.  Their places may differ, and an absent alternative counts as an
empty one. -/
inductive Stmt.Variant (K : String → TypeTag → TypeTag → Prop) : Stmt → Stmt → Prop
  | declare {d d' : Declaration} : d.Variant K d' → Stmt.Variant K (.declare d) (.declare d')
  | assign {a a' : Assignment} : a.Variant a' → Stmt.Variant K (.assign a) (.assign a')
  | expression {e e' : Expr} {span span' : Span} :
      e.bare = e'.bare → Stmt.Variant K (.expression e span) (.expression e' span')
  | branch {c c' : Condition} {body body' : List Stmt}
      {alternative alternative' : Option (List Stmt)} {span span' : Span} :
      c.bare = c'.bare → Stmt.BlockVariant K body body' →
      Stmt.BlockVariant K (alternative.getD []) (alternative'.getD []) →
      Stmt.Variant K (.branch c body alternative span) (.branch c' body' alternative' span')
  | forLoop {init init' : Option Declaration} {c c' : Option Condition}
      {update update' : Option Assignment} {body body' : List Stmt} {span span' : Span} :
      Option.Rel (Declaration.Variant K) init init' →
      c.map Condition.bare = c'.map Condition.bare →
      Option.Rel Assignment.Variant update update' → Stmt.BlockVariant K body body' →
      Stmt.Variant K (.forLoop init c update body span) (.forLoop init' c' update' body' span')
  | whileLoop {c c' : Option Condition} {body body' : List Stmt} {span span' : Span} :
      c.map Condition.bare = c'.map Condition.bare → Stmt.BlockVariant K body body' →
      Stmt.Variant K (.whileLoop c body span) (.whileLoop c' body' span')
  | ret {v v' : Option RValue} {span span' : Span} :
      v.map RValue.bare = v'.map RValue.bare → Stmt.Variant K (.ret v span) (.ret v' span')
  | call {name : String} {args args' : List Expr} {span span' : Span} :
      Expr.bareAll args = Expr.bareAll args' →
      Stmt.Variant K (.call name args span) (.call name args' span')
  | relabelled {kind : String} {s s' : Stmt} :
      Stmt.Variant K s s' → Stmt.Variant K (.relabelled kind s) (.relabelled kind s')

/-- The blocks are variants of one another, statement by statement. -/
inductive Stmt.BlockVariant (K : String → TypeTag → TypeTag → Prop) :
    List Stmt → List Stmt → Prop
  | nil : Stmt.BlockVariant K [] []
  | cons {s s' : Stmt} {ss ss' : List Stmt} :
      Stmt.Variant K s s' → Stmt.BlockVariant K ss ss' → Stmt.BlockVariant K (s :: ss) (s' :: ss')

end

/-- The programs declare variants of the same global variables and have variants of the same entry
block.  Their functions, and where these stand among the globals, may differ. -/
structure Program.Variant (K : String → TypeTag → TypeTag → Prop) (p q : Program) : Prop where
  globals : Stmt.BlockVariant K (p.stmts .globals) (q.stmts .globals)
  entry : Stmt.BlockVariant K p.entry.body q.entry.body

/-! ### Machines of variants -/

/-- Variables that differ in their declared types only, which are absent from both or related. -/
structure Variable.Variant (T : TypeTag → TypeTag → Prop) (v v' : Variable) : Prop where
  value : v.value = v'.value
  declaredType : Option.Rel T v.declaredType v'.declaredType
  scope : v.scope = v'.scope

/-- The stores have the same names in the same order, with variables that differ in their declared
types only. -/
def Store.Variant (K : String → TypeTag → TypeTag → Prop) (σ σ' : Store) : Prop :=
  List.Forall₂ (fun e e' => e.1 = e'.1 ∧ Variable.Variant (K e.1) e.2 e'.2) σ.entries σ'.entries

/-- The stores are variants, and the logs are the same after the events of `log` and `log'`. -/
structure Machine.Variant (K : String → TypeTag → TypeTag → Prop) (log log' : Array Event)
    (m m' : Machine) : Prop where
  store : m.store.Variant K m'.store
  scope : m.scope = m'.scope
  log : ∃ events, m.log = log ++ events ∧ m'.log = log' ++ events

section Variant

variable {K : String → TypeTag → TypeTag → Prop} {σ σ' : Store} {log log' : Array Event}
  {m m' : Machine} {tolerance : Double} {fuel : Nat}

theorem Store.Variant.find? (h : σ.Variant K σ') (x : String) :
    Option.Rel (Variable.Variant (K x)) (σ.find? x) (σ'.find? x) := by
  obtain ⟨entries⟩ := σ
  obtain ⟨entries'⟩ := σ'
  simp only [Store.Variant, Store.find?] at h ⊢
  induction h with
  | nil => exact .none
  | @cons e e' _ _ he _ ih =>
    obtain ⟨n, v⟩ := e
    obtain ⟨n', v'⟩ := e'
    obtain ⟨rfl, hv⟩ : n = n' ∧ Variable.Variant (K n) v v' := he
    rw [lookup_cons, lookup_cons]
    by_cases hx : x = n
    · subst hx
      rw [if_pos rfl, if_pos rfl]
      exact .some hv
    · rw [if_neg hx, if_neg hx]
      exact ih

theorem Store.Variant.insert (h : σ.Variant K σ') {x : String} {v v' : Variable}
    (hv : v.Variant (K x) v') : (σ.insert x v).Variant K (σ'.insert x v') := by
  obtain ⟨entries⟩ := σ
  obtain ⟨entries'⟩ := σ'
  simp only [Store.Variant, Store.insert] at h ⊢
  induction h with
  | nil => exact .cons ⟨rfl, hv⟩ .nil
  | @cons e e' _ _ he hes ih =>
    obtain ⟨n, w⟩ := e
    obtain ⟨n', w'⟩ := e'
    obtain ⟨rfl, hw⟩ : n = n' ∧ Variable.Variant (K n) w w' := he
    rw [insertEntry, insertEntry]
    by_cases hn : n = x
    · subst hn
      rw [if_pos rfl, if_pos rfl]
      exact .cons ⟨rfl, hv⟩ hes
    · rw [if_neg hn, if_neg hn]
      exact .cons ⟨rfl, hw⟩ ih

theorem Store.Variant.size_eq (h : σ.Variant K σ') : σ.size = σ'.size := List.Forall₂.length_eq h

/-- Declared types are not read. -/
theorem Store.Variant.sameReading (h : σ.Variant K σ') (x : String) : SameReading σ σ' x := by
  have hx := h.find? x
  unfold SameReading
  generalize σ.find? x = v at hx ⊢
  generalize σ'.find? x = v' at hx ⊢
  cases hx with
  | none => rfl
  | some hv => rw [Option.map_some, Option.map_some, hv.value]

theorem Machine.Variant.record (h : m.Variant K log log' m') (e : Event) :
    (m.record e).Variant K log log' (m'.record e) where
  store := h.store
  scope := h.scope
  log := by
    obtain ⟨events, hlog, hlog'⟩ := h.log
    refine ⟨events.push e, ?_, ?_⟩
    · rw [Machine.record, hlog, Array.push_append]
    · rw [Machine.record, hlog', Array.push_append]

theorem Machine.Variant.declare (h : m.Variant K log log' m') {x : String} (v : Value)
    {type type' : TypeTag} (htype : K x type type') :
    (m.declare x v type).Variant K log log' (m'.declare x v type') where
  store := h.store.insert ⟨rfl, .some htype, h.scope⟩
  scope := h.scope
  log := h.log

theorem Machine.Variant.assign (h : m.Variant K log log' m') (x : String) (v : Value) :
    (m.assign x v).Variant K log log' (m'.assign x v) where
  store := by
    have hx := h.store.find? x
    simp only [Machine.assign, Store.assign]
    generalize m.store.find? x = w at hx ⊢
    generalize m'.store.find? x = w' at hx ⊢
    cases hx with
    | none => exact h.store.insert ⟨rfl, .none, h.scope⟩
    | some hw => exact h.store.insert ⟨rfl, hw.declaredType, hw.scope⟩
  scope := h.scope
  log := h.log

/-! ### Evaluation of variants -/

section Eval

variable (hσ : ∀ x, SameReading σ σ' x)
include hσ

theorem Expr.eval_eq_of_bare_eq {e e' : Expr} (h : e.bare = e'.bare) : e.eval σ = e'.eval σ' :=
  calc e.eval σ = e.bare.eval σ := (e.eval_bare σ).symm
    _ = e'.bare.eval σ := by rw [h]
    _ = e'.eval σ := e'.eval_bare σ
    _ = e'.eval σ' := Expr.eval_congr fun x _ => hσ x

theorem RValue.eval_eq_of_bare_eq {v v' : RValue} (h : v.bare = v'.bare) :
    v.eval σ = v'.eval σ' :=
  calc v.eval σ = v.bare.eval σ := (v.eval_bare σ).symm
    _ = v'.bare.eval σ := by rw [h]
    _ = v'.eval σ := v'.eval_bare σ
    _ = v'.eval σ' := RValue.eval_congr fun x _ => hσ x

theorem Condition.test_eq_of_bare_eq (tolerance : Double) {c c' : Condition}
    (h : c.bare = c'.bare) :
    c.test tolerance σ = c'.test tolerance σ' :=
  calc c.test tolerance σ = c.bare.test tolerance σ := (c.test_bare tolerance σ).symm
    _ = c'.bare.test tolerance σ := by rw [h]
    _ = c'.test tolerance σ := c'.test_bare tolerance σ
    _ = c'.test tolerance σ' := Condition.test_congr (fun x _ => hσ x) fun _ => rfl

theorem testOptional_eq_of_bare_eq (tolerance : Double) {c c' : Option Condition}
    (h : c.map Condition.bare = c'.map Condition.bare) :
    testOptional tolerance σ c = testOptional tolerance σ' c' := by
  rcases c with _ | c <;> rcases c' with _ | c'
  · rfl
  · cases h
  · cases h
  · exact Condition.test_eq_of_bare_eq hσ tolerance (Option.some.inj h)

/-- A declarator without an initial value gives its name the same value whatever the type. -/
theorem Declarator.Variant.eval_eq {d d' : Declarator} (h : d.Variant d') (type type' : TypeTag) :
    d.eval σ type = d'.eval σ' type' := by
  have hvalue := h.initializer
  unfold Declarator.eval
  generalize d.initializer = v at hvalue ⊢
  generalize d'.initializer = v' at hvalue ⊢
  rcases v with _ | v <;> rcases v' with _ | v'
  · rfl
  · cases hvalue
  · cases hvalue
  · exact RValue.eval_eq_of_bare_eq hσ (Option.some.inj hvalue)

theorem Assignment.Variant.eval_eq {a a' : Assignment} (h : a.Variant a') :
    a.action.eval σ a.target = a'.action.eval σ' a'.target := by
  rw [h.target]
  calc a.action.eval σ a'.target = a.action.bare.eval σ a'.target := (a.action.eval_bare σ _).symm
    _ = a'.action.bare.eval σ a'.target := by rw [h.action]
    _ = a'.action.eval σ a'.target := a'.action.eval_bare σ _
    _ = a'.action.eval σ' a'.target := Action.eval_congr fun x _ => hσ x

end Eval

/-! ### Execution of variants -/

theorem Declarator.execAll_variant {ds ds' : List Declarator} {type type' : TypeTag}
    (hds : List.Forall₂ Declarator.Variant ds ds')
    (htype : ∀ x ∈ ds.map Declarator.name, K x type type') (last : Option Value)
    (hm : m.Variant K log log' m') :
    (Declarator.execAll type ds last m).Corr Eq (Machine.Variant K log log')
      (Declarator.execAll type' ds' last m') := by
  induction hds generalizing last m m' with
  | nil => exact .done rfl hm
  | @cons d d' ds ds' hd _ ih =>
    rw [List.map_cons, List.forall_mem_cons] at htype
    rw [execAll_cons, execAll_cons]
    have hv := hd.eval_eq hm.store.sameReading type type'
    refine (Corr.ofExcept hv hm).andThen (fun _ _ h => h) ?_
    rintro v _ m₁ m₁' rfl h₁
    rw [← hd.name]
    exact ih htype.2 (some v) (h₁.declare v htype.1)

theorem Declaration.Variant.exec {d d' : Declaration} (h : d.Variant K d')
    (hm : m.Variant K log log' m') :
    (d.exec m).Corr Eq (Machine.Variant K log log') (d'.exec m') :=
  Declarator.execAll_variant h.declarators h.type none hm

theorem Assignment.Variant.exec {a a' : Assignment} (h : a.Variant a')
    (hm : m.Variant K log log' m') :
    (a.exec m).Corr Eq (Machine.Variant K log log') (a'.exec m') := by
  have hv := h.eval_eq hm.store.sameReading
  rw [Assignment.exec, Assignment.exec, ← hv, ← h.target]
  cases a.action.eval m.store a.target with
  | error f => exact .failed hm
  | ok v => exact .done rfl (hm.assign a.target v)

theorem execInit_variant {init init' : Option Declaration}
    (h : Option.Rel (Declaration.Variant K) init init') (hm : m.Variant K log log' m') :
    (execInit init m).Corr Eq (Machine.Variant K log log') (execInit init' m') := by
  cases h with
  | none => exact .done rfl hm
  | some hd => exact hd.exec hm

theorem execUpdate_variant {update update' : Option Assignment}
    (h : Option.Rel Assignment.Variant update update') (hm : m.Variant K log log' m') :
    (execUpdate update m).Corr Eq (Machine.Variant K log log') (execUpdate update' m') := by
  cases h with
  | none => exact .done rfl hm
  | some ha => exact ha.exec hm

/-- Loops of variants go through the same number of rounds. -/
theorem iterate_variant {kind : LoopKind} {c c' : Option Condition}
    {body body' : Machine → Outcome (Option Value)} {update update' : Option Assignment}
    (hc : c.map Condition.bare = c'.map Condition.bare)
    (hbody : ∀ m m', m.Variant K log log' m' →
      (body m).Corr Eq (Machine.Variant K log log') (body' m'))
    (hupdate : Option.Rel Assignment.Variant update update') (hm : m.Variant K log log' m') :
    (iterate kind (fun σ => testOptional tolerance σ c) body (execUpdate update) fuel 0 none
        m).Corr Eq (Machine.Variant K log log')
      (iterate kind (fun σ => testOptional tolerance σ c') body' (execUpdate update') fuel 0 none
        m') := by
  refine iterate_corr (fun _ _ h => h) (fun m m' h => ?_) (fun m m' h => ?_)
    (fun count m m' h => h.record _) fuel 0 rfl hm
  · exact testOptional_eq_of_bare_eq h.store.sameReading tolerance hc
  · exact loopRound_corr hbody (fun _ _ h => execUpdate_variant hupdate h) h

theorem Stmt.execAlternative_eq (tolerance : Double) (fuel : Nat)
    (alternative : Option (List Stmt)) (m : Machine) :
    Stmt.execAlternative tolerance fuel alternative m =
      Stmt.execAll tolerance fuel (alternative.getD []) none m := by
  cases alternative <;> simp only [Stmt.execAlternative, Stmt.execAll, Option.getD]

mutual

/-- Variants of a statement, executed on machines that are variants, have the same value or fault
and leave such machines behind. -/
theorem Stmt.Variant.exec {s s' : Stmt} (h : s.Variant K s') (m m' : Machine)
    (hm : m.Variant K log log' m') :
    (s.exec tolerance fuel m).Corr Eq (Machine.Variant K log log') (s'.exec tolerance fuel m') := by
  match h with
  | .declare h =>
    simp only [Stmt.exec]
    exact h.exec hm
  | .assign h =>
    simp only [Stmt.exec]
    exact h.exec hm
  | .expression h =>
    simp only [Stmt.exec]
    refine .ofExcept ?_ hm
    rw [Expr.eval_eq_of_bare_eq hm.store.sameReading h]
  | @Stmt.Variant.branch _ c _ _ _ _ _ _ _ hc hbody halternative =>
    have ht := Condition.test_eq_of_bare_eq hm.store.sameReading tolerance hc
    simp only [Stmt.exec, ← ht, Stmt.execAlternative_eq]
    cases c.test tolerance m.store with
    | error f => exact .failed hm
    | ok holds =>
      cases holds with
      | true => exact hbody.execAll none m m' hm
      | false => exact halternative.execAll none m m' hm
  | .forLoop hinit hc hupdate hbody =>
    -- the bound on the iterations is the same for both, so the induction is on the statements only
    simp only [Stmt.exec]
    refine (execInit_variant hinit hm).andThen (fun _ _ h => h) ?_
    intro _ _ m₁ m₁' _ h₁
    exact iterate_variant hc (hbody.execAll none) hupdate h₁
  | .whileLoop hc hbody =>
    simp only [Stmt.exec]
    exact iterate_variant hc (hbody.execAll none) .none hm
  | @Stmt.Variant.ret _ v v' _ _ h =>
    rcases v with _ | v <;> rcases v' with _ | v'
    · simp only [Stmt.exec]
      exact .done rfl hm
    · cases h
    · cases h
    · simp only [Stmt.exec]
      refine .ofExcept ?_ hm
      rw [RValue.eval_eq_of_bare_eq hm.store.sameReading (Option.some.inj h)]
  | @Stmt.Variant.call _ name args args' _ _ h =>
    have hcall : (Expr.call name args).bare = (Expr.call name args').bare := by
      rw [Expr.bare, Expr.bare, h]
    simp only [Stmt.exec]
    refine .ofExcept ?_ hm
    rw [Expr.eval_eq_of_bare_eq hm.store.sameReading hcall]
  | .relabelled _ =>
    simp only [Stmt.exec]
    exact .failed hm

theorem Stmt.BlockVariant.execAll {ss ss' : List Stmt} (h : Stmt.BlockVariant K ss ss')
    (last : Option Value) (m m' : Machine) (hm : m.Variant K log log' m') :
    (Stmt.execAll tolerance fuel ss last m).Corr Eq (Machine.Variant K log log')
      (Stmt.execAll tolerance fuel ss' last m') := by
  match h with
  | .nil =>
    simp only [Stmt.execAll]
    exact .done rfl hm
  | .cons hs hss =>
    rw [execAll_cons, execAll_cons]
    refine (hs.exec m m' hm).andThen (fun _ _ h => h) ?_
    rintro v _ m₁ m₁' rfl h₁
    exact hss.execAll v m₁ m₁' h₁

end

/-! ### Runs of variants -/

theorem Stmt.BlockVariant.length_eq {ss ss' : List Stmt} (h : Stmt.BlockVariant K ss ss') :
    ss.length = ss'.length := by
  match h with
  | .nil => rfl
  | .cons _ hss => rw [List.length_cons, List.length_cons, hss.length_eq]

/-- **A run does not look at the presentation of a program.**  Of two variants neither run ends, or
both end with the same value or the same fault.  The variables are the same, in the same order, but
for declared types that the programs themselves change, and so are the logs, but for the number of
globals in the first event. -/
theorem Program.run_agree_of_variant (K : String → TypeTag → TypeTag → Prop) (tolerance : Double)
    (p q : Program) (h : p.Variant K q) :
    Agree Eq
      (Machine.Variant K #[.started p.globals.length p.entry.body.length]
        #[.started q.globals.length p.entry.body.length])
      (fun fuel => p.run tolerance fuel) (fun fuel => q.run tolerance fuel) := by
  refine Agree.of_forall (p.run_steady tolerance) (q.run_steady tolerance) fun fuel => ?_
  have hstart : p.start.Variant K #[.started p.globals.length p.entry.body.length]
      #[.started q.globals.length p.entry.body.length] q.start := by
    refine ⟨.nil, rfl, #[], rfl, ?_⟩
    rw [Program.start, ← h.entry.length_eq]
    rfl
  rw [run_eq, run_eq]
  refine (h.globals.execAll none _ _ hstart).andThen (fun _ _ h => h) ?_
  rintro last _ m m' rfl hm
  have hmain : Machine.Variant K _ _ { m with scope := .main } { m' with scope := .main } :=
    ⟨hm.store, rfl, hm.log⟩
  refine (h.entry.execAll last _ _ hmain).andThen (fun _ _ h => h) ?_
  rintro last _ m m' rfl hm
  rw [hm.store.size_eq]
  exact .done rfl (hm.record _)

end Variant

/-- Two texts of one program that counts to three: they differ in a function, in the type of the
global, in places, in parentheses and in an empty alternative. -/
theorem Program.run_agree_of_variant_of_loop :
    let K : String → TypeTag → TypeTag → Prop := fun _ type type' => type = .int ∧ type' = .double
    let p : Program := {
      globals := [
        .function ⟨"f", .int, [], [], .unknown⟩,
        .declaration ⟨.int, [⟨"x", some (.arith (.number "1")), .unknown⟩], .unknown, by simp⟩]
      entry := { body := [
        .whileLoop (some (.comparison (.known .lt) (.paren (.variable "x")) (.number "3")))
          [.branch (.truth (.variable "x"))
            [.assign ⟨"x", .update .add (.arith (.number "1")), .unknown⟩] none .unknown] .unknown,
        .ret (some (.arith (.variable "x"))) .unknown] } }
    let q : Program := {
      globals := [
        .declaration ⟨.double, [⟨"x", some (.arith (.paren (.number "1"))), { line := 1 }⟩],
          { line := 1 }, by simp⟩]
      entry := { body := [
        .whileLoop
          (some (.paren (.comparison (.known .lt) (.variable "x") (.paren (.number "3")))))
          [.branch (.paren (.truth (.variable "x")))
            [.assign ⟨"x", .update .add (.arith (.number "1")), { line := 3 }⟩] (some [])
            { line := 3 }] { line := 2 },
        .ret (some (.arith (.paren (.paren (.variable "x"))))) { line := 4 }] } }
    p.Variant K q ∧ p.run Double.one 3 ≠ .outOfFuel ∧
    Agree Eq (Machine.Variant K #[.started 2 2] #[.started 1 2])
      (fun fuel => p.run Double.one fuel) (fun fuel => q.run Double.one fuel) := by
  intro K p q
  have hglobals : Stmt.BlockVariant K (p.stmts .globals) (q.stmts .globals) :=
    .cons (.declare ⟨.cons ⟨rfl, rfl⟩ .nil, fun _ _ => ⟨rfl, rfl⟩⟩) .nil
  have hentry : Stmt.BlockVariant K p.entry.body q.entry.body := by
    refine .cons (.whileLoop rfl (.cons (.branch rfl ?_ .nil) .nil)) (.cons (.ret rfl) .nil)
    exact .cons (.assign ⟨rfl, rfl⟩) .nil
  have h : p.Variant K q := ⟨hglobals, hentry⟩
  exact ⟨h, by decide +kernel, run_agree_of_variant K Double.one p q h⟩

end FlatScript
