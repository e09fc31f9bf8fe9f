import FlatScript.Proofs.Cause
import FlatScript.Proofs.Isolation
import Mathlib.Data.List.Perm.Basic

/-!
# Strict evaluation

An evaluation visits every part of an expression or a condition, whatever the parts before it gave:
no term of a logical chain is skipped.  So whether it succeeds is a matter of checks, one or two at
each node, and the fault that it reports is that of the first check that fails.

* `Check`, `Check.fault?` : what can be wrong at a node, and the fault of a check that fails;
* `Expr.ownChecks` : the checks at one node;
* `Expr.checks`, `Condition.checks` : all checks in the order in which they are made.  The operands
  come before their operator and the head of a chain before its links, but the name of a call and
  the number of its arguments come before the arguments;
* `Expr.fault_eval`, `Condition.fault_test` : **the fault of an evaluation is the first one among
  the checks**;
* `Condition.strict_evaluation` : the same in terms of nodes, and that nothing is changed.
-/

namespace FlatScript

/-! ### Checks -/

/-- Something that an evaluation depends on at one node. -/
inductive Check where
  /-- The text is a numeral. -/
  | numeral (text : String)
  /-- The variable is there, and its value can be taken as a number. -/
  | variable (name : String)
  /-- The name is that of a built-in function. -/
  | function (name : String)
  /-- The number of arguments is that of a built-in function. -/
  | arity (name : String) (got : Nat)
  /-- The expression has a value other than zero. -/
  | divisor (right : Expr)
  /-- The symbol or kind name is of this language, which a foreign one is not. -/
  | foreign (lookup : Lookup) (symbol : String)

/-- The fault of a check in a store; none if the check holds. -/
def Check.fault? (σ : Store) : Check → Option Fault
  | .numeral text =>
    match Double.read? text with
    | some _ => none
    | none => some (.badNumeral text)
  | .variable name =>
    match σ.find? name with
    | none => some (.undefinedVariable name)
    | some v =>
      match v.value.asNumber with
      | .ok _ => none
      | .error f => some f
  | .function name => if name ∈ Builtin.names then none else some (.unknownFunction name)
  | .arity name got => if got = 1 then none else some (.wrongArity name 1 got)
  | .divisor right =>
    match right.eval σ with
    | .ok y => if y.isZero then some .divisionByZero else none
    | .error f => some f
  | .foreign lookup symbol => some (.unsupported lookup symbol)

/-- The fault of the first check that fails. -/
def firstFault (σ : Store) (checks : List Check) : Option Fault :=
  checks.findSome? (Check.fault? σ)

/-- The checks at the root of an expression. -/
def Expr.ownChecks : Expr → List Check
  | .number text => [.numeral text]
  | .variable name => [.variable name]
  | .binary (.known .div) _ right => [.divisor right]
  | .binary (.known _) _ _ => []
  | .binary (.foreign symbol) _ _ => [.foreign .arithmeticOp symbol]
  | .paren _ => []
  | .call name args => [.function name, .arity name args.length]
  | .relabelled kind _ => [.foreign .expressionKind kind]

mutual

/-- The checks of an expression in the order in which they are made. -/
def Expr.checks : Expr → List Check
  | .number text => (Expr.number text).ownChecks
  | .variable name => (Expr.variable name).ownChecks
  | .binary op left right => left.checks ++ (right.checks ++ (Expr.binary op left right).ownChecks)
  | .paren inner => inner.checks ++ (Expr.paren inner).ownChecks
  | .call name args => (Expr.call name args).ownChecks ++ Expr.checksAll args
  | .relabelled kind e => (Expr.relabelled kind e).ownChecks ++ e.checks

/-- The checks of expressions from left to right. -/
def Expr.checksAll : List Expr → List Check
  | [] => []
  | e :: es => e.checks ++ Expr.checksAll es

end

/-- An operator of this language needs no check. -/
def Operator.checks {α : Type} (lookup : Lookup) : Operator α → List Check
  | .known _ => []
  | .foreign symbol => [.foreign lookup symbol]

mutual

/-- The checks of a condition in the order in which they are made. -/
def Condition.checks : Condition → List Check
  | .comparison op left right => left.checks ++ (right.checks ++ op.checks .comparisonOp)
  | .truth e => e.checks
  | .not operand => operand.checks
  | .paren inner => inner.checks
  | .bool _ => []
  | .null => []
  | .chain head links => head.checks ++ Link.checksAll links
  | .relabelled kind c => .foreign .conditionKind kind :: c.checks

/-- The checks of the links of a chain from left to right, each term before its operator. -/
def Link.checksAll : List Link → List Check
  | [] => []
  | .mk op term :: links => term.checks ++ (op.checks .logicalOp ++ Link.checksAll links)

end

/-! ### The fault of an evaluation -/

section Fault

variable {α β : Type} {σ : Store}

/-- The fault of a computation that fails. -/
def faultOf : Except Fault α → Option Fault
  | .ok _ => none
  | .error f => some f

theorem faultOf_eq_some_iff {x : Except Fault α} {f : Fault} :
    faultOf x = some f ↔ x = .error f := by
  cases x <;> simp [faultOf]

theorem faultOf_eq_none_iff {x : Except Fault α} : faultOf x = none ↔ ∃ a, x = .ok a := by
  cases x <;> simp [faultOf]

theorem firstFault_append (cs ds : List Check) :
    firstFault σ (cs ++ ds) = (firstFault σ cs).or (firstFault σ ds) :=
  List.findSome?_append

theorem firstFault_eq_none_iff {cs : List Check} :
    firstFault σ cs = none ↔ ∀ k ∈ cs, k.fault? σ = none :=
  List.findSome?_eq_none_iff

/-- The checks of a computation that goes on after another one come after those of the first. -/
theorem faultOf_bind {x : Except Fault α} {next : α → Except Fault β} {cs ds : List Check}
    (hx : faultOf x = firstFault σ cs)
    (hnext : ∀ a, x = .ok a → faultOf (next a) = firstFault σ ds) :
    faultOf (x >>= next) = firstFault σ (cs ++ ds) := by
  rw [firstFault_append, ← hx]
  cases x with
  | error f => rfl
  | ok a => exact hnext a rfl

theorem faultOf_map {x : Except Fault α} {g : α → β} {cs : List Check}
    (hx : faultOf x = firstFault σ cs) :
    faultOf (x >>= fun a => pure (g a)) = firstFault σ cs := by
  rw [← hx]
  cases x <;> rfl

theorem Check.fault_variable (σ : Store) (name : String) :
    faultOf (σ.get name >>= Value.asNumber) = Check.fault? σ (.variable name) := by
  simp only [Store.get, fault?]
  cases σ.find? name with
  | none => rfl
  | some v =>
    show faultOf v.value.asNumber = match v.value.asNumber with
      | .ok _ => none
      | .error f => some f
    cases v.value.asNumber <;> rfl

/-- An operator fails only as a quotient by zero, or if it is foreign. -/
theorem Operator.fault_applyArith (op : Operator ArithOp) (left : Expr) {right : Expr}
    {y : Double} (hy : right.eval σ = .ok y) (x : Double) :
    faultOf (op.applyArith x y) = firstFault σ (Expr.binary op left right).ownChecks := by
  cases op with
  | foreign symbol => rfl
  | known op =>
    cases op with
    | div =>
      simp only [Operator.applyArith, ArithOp.apply, Expr.ownChecks, firstFault,
        List.findSome?_singleton, Check.fault?, hy]
      split <;> rfl
    | _ => rfl

/-- **The fault of an expression is the first one among its checks.** -/
theorem Expr.fault_eval (σ : Store) (e : Expr) : faultOf (e.eval σ) = firstFault σ e.checks := by
  induction e using Expr.induct with
  | number text =>
    simp only [eval, readNumeral, checks, ownChecks, firstFault, List.findSome?_singleton,
      Check.fault?]
    cases Double.read? text <;> rfl
  | ref name =>
    simp only [eval, checks, ownChecks, firstFault, List.findSome?_singleton]
    exact Check.fault_variable σ name
  | binary op left right ihLeft ihRight =>
    simp only [eval, checks]
    refine faultOf_bind ihLeft fun x _ => faultOf_bind ihRight fun y hy => ?_
    exact op.fault_applyArith left hy x
  | paren inner ih => simpa only [eval, checks, ownChecks, List.append_nil] using ih
  | call name args ih =>
    simp only [eval, checks, ownChecks, firstFault_append]
    split
    · -- the name is looked up before anything else
      rename_i hparse
      have hname := Builtin.parse?_eq_none_iff.1 hparse
      simp [faultOf, firstFault, Check.fault?, hname]
    · rename_i g hparse
      have hname := Builtin.mem_names_of_parse? hparse
      split
      · rename_i arg
        have hown : firstFault σ [.function name, .arity name [arg].length] = none := by
          simp [firstFault, Check.fault?, hname]
        rw [hown, Option.none_or, checksAll, checksAll, List.append_nil]
        exact faultOf_map (ih arg List.mem_cons_self)
      · rename_i hargs
        have hlength : args.length ≠ 1 := by
          intro hone
          obtain ⟨arg, rfl⟩ := List.length_eq_one_iff.1 hone
          exact hargs arg rfl
        simp [faultOf, firstFault, Check.fault?, hname, hlength, Builtin.arity]
  | relabelled kind node ih => rfl

theorem Operator.fault_join (op : Operator LogicalOp) (a b : Bool) :
    faultOf (op.join a b) = firstFault σ (op.checks .logicalOp) := by
  cases op with
  | foreign symbol => rfl
  | known op => cases op <;> rfl

theorem Link.fault_testAll {tolerance : Double} {links : List Link}
    (h : ∀ l ∈ links, faultOf (l.term.test tolerance σ) = firstFault σ l.term.checks)
    (soFar : Bool) :
    faultOf (Link.testAll tolerance σ soFar links) = firstFault σ (Link.checksAll links) := by
  induction links generalizing soFar with
  | nil => rfl
  | cons l links ih =>
    obtain ⟨op, term⟩ := l
    obtain ⟨hterm, hlinks⟩ := List.forall_mem_cons.1 h
    simp only [Link.testAll, Link.checksAll]
    refine faultOf_bind hterm fun next _ => ?_
    exact faultOf_bind (op.fault_join soFar next) fun joined _ => ih hlinks joined

/-- **The fault of a condition is the first one among its checks.** -/
theorem Condition.fault_test (tolerance : Double) (σ : Store) (c : Condition) :
    faultOf (c.test tolerance σ) = firstFault σ c.checks := by
  induction c using Condition.induct with
  | comparison op left right =>
    simp only [test, checks]
    refine faultOf_bind (left.fault_eval σ) fun x _ => ?_
    refine faultOf_bind (right.fault_eval σ) fun y _ => ?_
    cases op <;> rfl
  | truth e => exact faultOf_map (e.fault_eval σ)
  | not operand ih => exact faultOf_map ih
  | paren inner ih => exact ih
  | bool b => rfl
  | null => rfl
  | chain head links ihHead ihLinks =>
    simp only [test, checks]
    exact faultOf_bind ihHead fun first _ => Link.fault_testAll ihLinks first
  | relabelled kind node ih => rfl

end Fault

/-! ### The checks and the nodes -/

theorem Expr.checksAll_eq_flatMap (es : List Expr) : checksAll es = es.flatMap checks := by
  induction es with
  | nil => rfl
  | cons e es ih => rw [checksAll, ih, List.flatMap_cons]

/-- The checks of an expression are those at its nodes, each made once. -/
theorem Expr.checks_perm (e : Expr) : e.checks.Perm (e.nodes.flatMap ownChecks) := by
  induction e using Expr.induct with
  | number text => simp [checks, nodes]
  | ref name => simp [checks, nodes]
  | binary op left right ihLeft ihRight =>
    rw [checks, nodes, List.flatMap_cons, List.flatMap_append, ← List.append_assoc]
    exact ((ihLeft.append ihRight).append_right _).trans List.perm_append_comm
  | paren inner ih => simpa [checks, nodes, ownChecks] using ih
  | call name args ih =>
    rw [checks, nodes, List.flatMap_cons, checksAll_eq_flatMap, nodesAll_eq_flatMap,
      List.flatMap_assoc]
    exact (List.Perm.flatMap_left args ih).append_left _
  | relabelled kind node ih =>
    rw [checks, nodes, List.flatMap_cons]
    exact ih.append_left _

theorem Expr.forall_checks_iff {P : Check → Prop} {e : Expr} :
    (∀ k ∈ e.checks, P k) ↔ ∀ n ∈ e.nodes, ∀ k ∈ n.ownChecks, P k := by
  simp only [e.checks_perm.mem_iff, List.mem_flatMap]
  exact ⟨fun h n hn k hk => h k ⟨n, hn, hk⟩, fun h k ⟨n, hn, hk⟩ => h n hn k hk⟩

section Condition

variable {P : Check → Prop} (hP : ∀ lookup symbol, ¬ P (.foreign lookup symbol))
include hP

theorem Operator.forall_checks_iff {α : Type} {op : Operator α} {lookup : Lookup} :
    (∀ k ∈ op.checks lookup, P k) ↔ op.isKnown = true := by
  cases op with
  | known op => simp [checks, isKnown]
  | foreign symbol => simp [checks, isKnown, hP]

theorem Link.forall_checks_iff {links : List Link}
    (h : ∀ l ∈ links, (∀ k ∈ l.term.checks, P k) ↔
      l.term.isOwn = true ∧ ∀ e ∈ l.term.exprs, ∀ k ∈ e.checks, P k) :
    (∀ k ∈ Link.checksAll links, P k) ↔
      Link.ownAll links = true ∧ ∀ e ∈ Link.exprsAll links, ∀ k ∈ e.checks, P k := by
  induction links with
  | nil => simp [checksAll, ownAll, exprsAll]
  | cons l links ih =>
    obtain ⟨op, term⟩ := l
    obtain ⟨hterm, hlinks⟩ := List.forall_mem_cons.1 h
    simp only [Link.term] at hterm
    simp only [checksAll, ownAll, exprsAll, List.forall_mem_append, Bool.and_eq_true, hterm,
      Operator.forall_checks_iff hP, ih hlinks]
    grind

/-- The checks of a condition hold exactly if it is of this language and the checks of its
expressions hold. -/
theorem Condition.forall_checks_iff {c : Condition} :
    (∀ k ∈ c.checks, P k) ↔ c.isOwn = true ∧ ∀ e ∈ c.exprs, ∀ k ∈ e.checks, P k := by
  induction c using Condition.induct with
  | comparison op left right =>
    simp only [checks, isOwn, exprs, List.forall_mem_append, Operator.forall_checks_iff hP,
      List.forall_mem_cons]
    grind
  | truth e => simp [checks, isOwn, exprs]
  | not operand ih => exact ih
  | paren inner ih => exact ih
  | bool b => simp [checks, isOwn, exprs]
  | null => simp [checks, isOwn, exprs]
  | chain head links ihHead ihLinks =>
    simp only [checks, isOwn, exprs, List.forall_mem_append, Bool.and_eq_true, ihHead,
      Link.forall_checks_iff hP ihLinks]
    grind
  | relabelled kind node ih => simp [checks, isOwn, hP]

end Condition

/-- **Evaluation is strict, and its faults come in a fixed order.**  An expression has a value
exactly if the checks at all of its nodes hold.  A condition has a truth value exactly if it is of
this language and the checks at all nodes of its expressions hold, whatever the terms of its chains
give.  Otherwise the fault is that of the first check that fails.  A session that evaluates or
tests something is as it was before. -/
theorem Condition.strict_evaluation (tolerance : Double) (σ : Store) :
    (∀ e : Expr, e.checks.Perm (e.nodes.flatMap Expr.ownChecks) ∧
      ((∃ x, e.eval σ = .ok x) ↔ ∀ n ∈ e.nodes, ∀ k ∈ n.ownChecks, k.fault? σ = none) ∧
      ∀ f, e.eval σ = .error f ↔ firstFault σ e.checks = some f) ∧
    (∀ c : Condition,
      ((∃ b, c.test tolerance σ = .ok b) ↔
        c.isOwn = true ∧ ∀ e ∈ c.exprs, ∀ n ∈ e.nodes, ∀ k ∈ n.ownChecks, k.fault? σ = none) ∧
      ∀ f, c.test tolerance σ = .error f ↔ firstFault σ c.checks = some f) ∧
    ∀ (s : Session) fuel j, (s.answer fuel (.eval j)).2 = s ∧ (s.answer fuel (.test j)).2 = s := by
  refine ⟨fun e => ⟨e.checks_perm, ?_, fun f => ?_⟩, fun c => ⟨?_, fun f => ?_⟩,
    fun s fuel j => ⟨?_, ?_⟩⟩
  · rw [← faultOf_eq_none_iff, e.fault_eval, firstFault_eq_none_iff, Expr.forall_checks_iff]
  · rw [← faultOf_eq_some_iff, e.fault_eval]
  · have hforeign : ∀ lookup symbol, ¬ Check.fault? σ (.foreign lookup symbol) = none := by
      simp [Check.fault?]
    rw [← faultOf_eq_none_iff, c.fault_test, firstFault_eq_none_iff, forall_checks_iff hforeign]
    simp only [Expr.forall_checks_iff]
  · rw [← faultOf_eq_some_iff, c.fault_test]
  · exact (Session.answer_of_isIdle rfl fuel s).2
  · exact (Session.answer_of_isIdle rfl fuel s).2

/-- In `true || 1 / 0` the quotient is evaluated.  In `sqrt(y, 1 / 0) + 1 / 0` the number of
arguments is what fails first, although `y` is not there. -/
theorem Condition.strict_evaluation_of_quotient :
    let quotient : Expr := .binary (.known .div) (.number "1") (.number "0")
    let e : Expr := .binary (.known .add) (.call "sqrt" [.variable "y", quotient]) quotient
    let c : Condition := .chain (.bool true) [.mk (.known .or) (.truth quotient)]
    firstFault .empty e.checks = some (.wrongArity "sqrt" 1 2) ∧
      e.eval .empty = .error (.wrongArity "sqrt" 1 2) ∧
      firstFault .empty c.checks = some .divisionByZero ∧
      c.test Double.one .empty = .error .divisionByZero ∧
      (∀ n ∈ [Expr.number "1"], ∀ k ∈ n.ownChecks, k.fault? .empty = none) ∧
      ∃ x, (Expr.number "1").eval .empty = .ok x := by
  intro quotient e c
  obtain ⟨hexpr, hcondition, -⟩ := strict_evaluation Double.one .empty
  have hfirst : firstFault .empty e.checks = some (.wrongArity "sqrt" 1 2) := by decide +kernel
  have hfirst' : firstFault .empty c.checks = some .divisionByZero := by decide +kernel
  have hone : ∀ n ∈ [Expr.number "1"], ∀ k ∈ n.ownChecks, k.fault? .empty = none := by
    rw [List.forall_mem_singleton, Expr.ownChecks, List.forall_mem_singleton]
    decide +kernel
  exact ⟨hfirst, ((hexpr e).2.2 _).2 hfirst, hfirst', ((hcondition c).2 _).2 hfirst', hone,
    (hexpr (.number "1")).2.1.2 hone⟩

end FlatScript
