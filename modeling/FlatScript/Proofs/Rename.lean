import FlatScript.Proofs.Ending
import Mathlib.Logic.Equiv.Basic

/-!
# Renaming variables

The names of variables carry no meaning.  `Program.rename r` replaces the name of every variable, at
each place where it is read, declared or assigned to, by its image under `r`; the names of functions
stay, also where a variable has the same name.  Faults, stores, machines and outcomes are renamed in
the same way: a store keeps its order, and of the faults only an undefined variable has a name to
replace.

If `r` is injective, renaming commutes with everything that a run does.

* `Store.find?_rename`, `Store.insert_rename` : looking a name up and writing to it;
* `Expr.eval_rename`, `Condition.test_rename`, `Action.eval_rename` : evaluation;
* `Stmt.exec_rename`, `Program.run_rename` : execution, under every bound on the iterations;
* `Program.endsWith_rename_iff` : **the renamed program ends exactly if the program does**, with the
  renamed outcome.
-/

namespace FlatScript

open Outcome

/-! ### Renamed programs -/

section Syntax

variable (r : String → String)

mutual

/-- The expression with its variables renamed. -/
def Expr.rename : Expr → Expr
  | .number numeral => .number numeral
  | .variable name => .variable (r name)
  | .binary op left right => .binary op (Expr.rename left) (Expr.rename right)
  | .paren inner => .paren (Expr.rename inner)
  | .call name args => .call name (Expr.renameAll args)
  | .relabelled kind e => .relabelled kind (Expr.rename e)

/-- The expressions with their variables renamed. -/
def Expr.renameAll : List Expr → List Expr
  | [] => []
  | e :: es => Expr.rename e :: Expr.renameAll es

end

/-- The right-hand side with its variables renamed. -/
def RValue.rename : RValue → RValue
  | .arith e => .arith (e.rename r)
  | .text s => .text s
  | .relabelledText kind s => .relabelledText kind s

mutual

/-- The condition with its variables renamed. -/
def Condition.rename : Condition → Condition
  | .comparison op left right => .comparison op (left.rename r) (right.rename r)
  | .truth e => .truth (e.rename r)
  | .not operand => .not (Condition.rename operand)
  | .paren inner => .paren (Condition.rename inner)
  | .bool b => .bool b
  | .null => .null
  | .chain head links => .chain (Condition.rename head) (Link.renameAll links)
  | .relabelled kind c => .relabelled kind (Condition.rename c)

/-- The links with their variables renamed. -/
def Link.renameAll : List Link → List Link
  | [] => []
  | .mk op term :: links => .mk op (Condition.rename term) :: Link.renameAll links

end

/-- The declarator with its name and its variables renamed. -/
def Declarator.rename (d : Declarator) : Declarator :=
  { d with name := r d.name, initializer := d.initializer.map (RValue.rename r) }

/-- The declaration with its names and its variables renamed. -/
def Declaration.rename (d : Declaration) : Declaration :=
  { d with
    declarators := d.declarators.map (Declarator.rename r)
    nonempty := by simpa using d.nonempty }

/-- The action with its variables renamed. -/
def Action.rename : Action → Action
  | .set v => .set (v.rename r)
  | .increment => .increment
  | .decrement => .decrement
  | .update op operand => .update op (operand.rename r)
  | .foreign symbol operand => .foreign symbol (operand.map (RValue.rename r))

/-- The assignment with its target and its variables renamed. -/
def Assignment.rename (a : Assignment) : Assignment :=
  { a with target := r a.target, action := a.action.rename r }

mutual

/-- The statement with its variables renamed at any depth. -/
def Stmt.rename : Stmt → Stmt
  | .declare d => .declare (d.rename r)
  | .assign a => .assign (a.rename r)
  | .expression e span => .expression (e.rename r) span
  | .branch c body alternative span =>
    .branch (c.rename r) (Stmt.renameAll body) (Stmt.renameAlternative alternative) span
  | .forLoop init c update body span =>
    .forLoop (init.map (Declaration.rename r)) (c.map (Condition.rename r))
      (update.map (Assignment.rename r)) (Stmt.renameAll body) span
  | .whileLoop c body span => .whileLoop (c.map (Condition.rename r)) (Stmt.renameAll body) span
  | .ret v span => .ret (v.map (RValue.rename r)) span
  | .call name args span => .call name (Expr.renameAll r args) span
  | .relabelled kind s => .relabelled kind (Stmt.rename s)

/-- The statements of a body with their variables renamed. -/
def Stmt.renameAll : List Stmt → List Stmt
  | [] => []
  | s :: rest => Stmt.rename s :: Stmt.renameAll rest

/-- The alternative of a branch with its variables renamed. -/
def Stmt.renameAlternative : Option (List Stmt) → Option (List Stmt)
  | none => none
  | some body => some (Stmt.renameAll body)

end

/-- The function with the variables of its body renamed. -/
def Function.rename (f : Function) : Function := { f with body := Stmt.renameAll r f.body }

/-- The global with its variables renamed. -/
def Global.rename : Global → Global
  | .declaration d => .declaration (d.rename r)
  | .relabelledDeclaration kind d => .relabelledDeclaration kind (d.rename r)
  | .function f => .function (f.rename r)

/-- The entry block with its variables renamed. -/
def Entry.rename (e : Entry) : Entry := { e with body := Stmt.renameAll r e.body }

/-- The program with its variables renamed. -/
def Program.rename (p : Program) : Program := ⟨p.globals.map (Global.rename r), p.entry.rename r⟩

/-! ### Renamed outcomes -/

/-- The fault with the name of an undefined variable replaced. -/
def Fault.rename : Fault → Fault
  | .undefinedVariable name => .undefinedVariable (r name)
  | f => f

/-- The store with every name replaced, in the same order. -/
def Store.rename (σ : Store) : Store := ⟨σ.entries.map (Prod.map r id)⟩

/-- The machine with the names in its store replaced. -/
def Machine.rename (m : Machine) : Machine := { m with store := m.store.rename r }

/-- The outcome with the names in its machine and its fault replaced.  The result is the same. -/
def Outcome.rename {α : Type} : Outcome α → Outcome α
  | .done a m => .done a (m.rename r)
  | .failed f m => .failed (f.rename r) (m.rename r)
  | .outOfFuel => .outOfFuel

end Syntax

section Rename

variable {α β : Type} {r : String → String}

@[simp] theorem Outcome.rename_done (a : α) (m : Machine) :
    (done a m).rename r = done a (m.rename r) := rfl
@[simp] theorem Outcome.rename_failed (f : Fault) (m : Machine) :
    (failed f m : Outcome α).rename r = failed (f.rename r) (m.rename r) := rfl
@[simp] theorem Outcome.rename_outOfFuel : (outOfFuel : Outcome α).rename r = outOfFuel := rfl

@[simp] theorem Machine.rename_store (m : Machine) : (m.rename r).store = m.store.rename r := rfl
@[simp] theorem Machine.rename_record (m : Machine) (e : Event) :
    (m.rename r).record e = (m.record e).rename r := rfl

theorem Outcome.rename_eq_outOfFuel_iff {o : Outcome α} :
    o.rename r = .outOfFuel ↔ o = .outOfFuel := by
  cases o <;> simp

theorem Outcome.rename_ofExcept (m : Machine) (e : Except Fault α) :
    (ofExcept m e).rename r = ofExcept (m.rename r) (e.mapError (Fault.rename r)) := by
  cases e <;> rfl

/-- A sequence of steps is renamed step by step. -/
theorem Outcome.rename_andThen {o : Outcome α} {next next' : α → Machine → Outcome β}
    (h : ∀ a m, next' a (m.rename r) = (next a m).rename r) :
    (o.rename r).andThen next' = (o.andThen next).rename r := by
  cases o with
  | done a m => exact h a m
  | failed f m => rfl
  | outOfFuel => rfl

/-! ### Stores -/

section Store

variable (hr : Function.Injective r)
include hr

theorem Store.find?_rename (σ : Store) (x : String) : (σ.rename r).find? (r x) = σ.find? x := by
  obtain ⟨entries⟩ := σ
  simp only [rename, find?]
  induction entries with
  | nil => rfl
  | cons e entries ih =>
    obtain ⟨n, v⟩ := e
    rw [List.map_cons, Prod.map_apply, id, lookup_cons, lookup_cons, ih]
    by_cases hx : x = n
    · rw [if_pos hx, if_pos (congrArg r hx)]
    · rw [if_neg hx, if_neg fun h => hx (hr h)]

theorem Store.insert_rename (σ : Store) (x : String) (v : Variable) :
    (σ.rename r).insert (r x) v = (σ.insert x v).rename r := by
  obtain ⟨entries⟩ := σ
  simp only [rename, insert, Store.mk.injEq]
  induction entries with
  | nil => rfl
  | cons e entries ih =>
    obtain ⟨n, w⟩ := e
    rw [List.map_cons, Prod.map_apply, id, insertEntry, insertEntry]
    by_cases hn : n = x
    · rw [if_pos hn, if_pos (congrArg r hn)]
      rfl
    · rw [if_neg hn, if_neg fun h => hn (hr h), ih]
      rfl

theorem Store.get_rename (σ : Store) (x : String) :
    (σ.rename r).get (r x) = (σ.get x).mapError (Fault.rename r) := by
  rw [get, get, find?_rename hr]
  cases σ.find? x <;> rfl

theorem Machine.declare_rename (m : Machine) (x : String) (v : Value) (type : TypeTag) :
    (m.rename r).declare (r x) v type = (m.declare x v type).rename r := by
  have hstore := Store.insert_rename hr m.store x ⟨v, some type, m.scope⟩
  simp only [declare, rename, Store.declare, hstore]

theorem Machine.assign_rename (m : Machine) (x : String) (v : Value) :
    (m.rename r).assign (r x) v = (m.assign x v).rename r := by
  have hstore := Store.insert_rename hr m.store x
  simp only [assign, rename, Store.assign, Store.find?_rename hr]
  cases m.store.find? x <;> simp only [hstore]

end Store

/-! ### Faults without a name -/

theorem mapError_bind (g : Fault → Fault) (e : Except Fault α) (k : α → Except Fault β) :
    (e >>= k).mapError g = e.mapError g >>= fun a => (k a).mapError g := by
  cases e <;> rfl

theorem mapError_pure (g : Fault → Fault) (a : α) : (pure a : Except Fault α).mapError g = pure a :=
  rfl

/-- Renaming leaves a result alone that does not report an undefined variable. -/
theorem mapError_rename_eq {e : Except Fault α} (h : ∀ x, e ≠ .error (.undefinedVariable x)) :
    e.mapError (Fault.rename r) = e := by
  cases e with
  | ok a => rfl
  | error f =>
    cases f with
    | undefinedVariable x => exact absurd rfl (h x)
    | _ => rfl

theorem readNumeral_rename (t : String) :
    (readNumeral t).mapError (Fault.rename r) = readNumeral t := by
  refine mapError_rename_eq fun x => ?_
  rw [readNumeral]
  split <;> simp

theorem Value.asNumber_rename (v : Value) :
    v.asNumber.mapError (Fault.rename r) = v.asNumber := by
  cases v with
  | number x => rfl
  | text t =>
    rw [asNumber]
    split
    · exact readNumeral_rename t
    · rfl

theorem ArithOp.apply_rename (op : ArithOp) (x y : Double) :
    (op.apply x y).mapError (Fault.rename r) = op.apply x y := by
  refine mapError_rename_eq fun n => ?_
  cases op with
  | div =>
    rw [apply]
    split <;> simp
  | _ => simp [apply]

theorem Operator.applyArith_rename (op : Operator ArithOp) (x y : Double) :
    (op.applyArith x y).mapError (Fault.rename r) = op.applyArith x y := by
  cases op with
  | known op => exact op.apply_rename x y
  | foreign symbol => rfl

theorem Operator.testCompare_rename (tolerance : Double) (op : Operator CompareOp) (x y : Double) :
    (op.testCompare tolerance x y).mapError (Fault.rename r) = op.testCompare tolerance x y := by
  cases op <;> rfl

theorem Operator.join_rename (op : Operator LogicalOp) (a b : Bool) :
    (op.join a b).mapError (Fault.rename r) = op.join a b := by
  cases op with
  | known op => cases op <;> rfl
  | foreign symbol => rfl

/-! ### Evaluation -/

theorem Expr.renameAll_eq_map (es : List Expr) : Expr.renameAll r es = es.map (Expr.rename r) := by
  induction es with
  | nil => rfl
  | cons e es ih => rw [renameAll, ih, List.map_cons]

section Eval

variable (hr : Function.Injective r) (tolerance : Double) (σ : Store)
include hr

theorem Expr.eval_rename (e : Expr) :
    (e.rename r).eval (σ.rename r) = (e.eval σ).mapError (Fault.rename r) := by
  induction e using Expr.induct with
  | number numeral => exact (readNumeral_rename numeral).symm
  | ref name =>
    simp only [Expr.rename, Expr.eval, mapError_bind, Store.get_rename hr, Value.asNumber_rename]
  | binary op left right ihLeft ihRight =>
    simp only [Expr.rename, Expr.eval, mapError_bind, ihLeft, ihRight, Operator.applyArith_rename]
  | paren inner ih =>
    simp only [Expr.rename, Expr.eval]
    exact ih
  | call name args ih =>
    -- the name of the function is kept, and only a single argument is evaluated
    simp only [Expr.rename, Expr.eval, Expr.renameAll_eq_map]
    cases (Spelled.parse? name : Option Builtin) with
    | none => rfl
    | some f =>
      rcases args with _ | ⟨arg, _ | ⟨arg', rest⟩⟩
      · rfl
      · have harg := ih arg (by simp)
        simp only [List.map_cons, List.map_nil, mapError_bind, harg, mapError_pure]
      · simp only [List.map_cons, List.length_cons, List.length_map]
        rfl
  | relabelled kind e ih => rfl

theorem RValue.eval_rename (v : RValue) :
    (v.rename r).eval (σ.rename r) = (v.eval σ).mapError (Fault.rename r) := by
  cases v with
  | arith e => simp only [RValue.rename, RValue.eval, Expr.eval_rename hr, mapError_bind,
      mapError_pure]
  | text s => rfl
  | relabelledText kind s => rfl

theorem RValue.evalNumber_rename (v : RValue) :
    (v.rename r).evalNumber (σ.rename r) = (v.evalNumber σ).mapError (Fault.rename r) := by
  cases v with
  | arith e => exact e.eval_rename hr σ
  | text s => exact (Value.asNumber_rename (.text s)).symm
  | relabelledText kind s => rfl

theorem Declarator.eval_rename (type : TypeTag) (d : Declarator) :
    (d.rename r).eval (σ.rename r) type = (d.eval σ type).mapError (Fault.rename r) := by
  simp only [Declarator.eval, Declarator.rename]
  cases d.initializer with
  | none => rfl
  | some v => exact v.eval_rename hr σ

theorem Store.stepped_rename (target : String) (step : Double → Double) :
    (σ.rename r).stepped (r target) step = (σ.stepped target step).mapError (Fault.rename r) := by
  simp only [Store.stepped, mapError_bind, Store.get_rename hr, Value.asNumber_rename,
    mapError_pure]

theorem operandNumber_rename (symbol : String) (operand : Option RValue) :
    operandNumber (σ.rename r) symbol (operand.map (RValue.rename r)) =
      (operandNumber σ symbol operand).mapError (Fault.rename r) := by
  cases operand with
  | none => rfl
  | some v => exact v.evalNumber_rename hr σ

theorem Action.eval_rename (target : String) (a : Action) :
    (a.rename r).eval (σ.rename r) (r target) =
      (a.eval σ target).mapError (Fault.rename r) := by
  cases a with
  | set v => exact v.eval_rename hr σ
  | increment => exact Store.stepped_rename hr σ target _
  | decrement => exact Store.stepped_rename hr σ target _
  | update op operand =>
    simp only [Action.rename, Action.eval, mapError_bind, Store.get_rename hr,
      Value.asNumber_rename, RValue.evalNumber_rename hr, ArithOp.apply_rename, mapError_pure]
  | foreign symbol operand =>
    simp only [Action.rename, Action.eval]
    split
    · rfl
    · exact Store.stepped_rename hr σ target _
    · exact Store.stepped_rename hr σ target _
    · simp only [mapError_bind, Store.get_rename hr, Value.asNumber_rename, operandNumber_rename hr]
      rfl

omit hr in
theorem Link.testAll_rename {links : List Link}
    (h : ∀ l ∈ links, (l.term.rename r).test tolerance (σ.rename r) =
      (l.term.test tolerance σ).mapError (Fault.rename r)) (soFar : Bool) :
    Link.testAll tolerance (σ.rename r) soFar (Link.renameAll r links) =
      (Link.testAll tolerance σ soFar links).mapError (Fault.rename r) := by
  induction links generalizing soFar with
  | nil => rfl
  | cons l links ih =>
    obtain ⟨op, term⟩ := l
    obtain ⟨hterm, hlinks⟩ := List.forall_mem_cons.1 h
    have hterm' : (term.rename r).test tolerance (σ.rename r) =
        (term.test tolerance σ).mapError (Fault.rename r) := hterm
    simp only [Link.renameAll, Link.testAll, mapError_bind, hterm', Operator.join_rename, ih hlinks]

theorem Condition.test_rename (c : Condition) :
    (c.rename r).test tolerance (σ.rename r) =
      (c.test tolerance σ).mapError (Fault.rename r) := by
  induction c using Condition.induct with
  | comparison op left right =>
    simp only [Condition.rename, Condition.test, mapError_bind, Expr.eval_rename hr,
      Operator.testCompare_rename]
  | truth e =>
    simp only [Condition.rename, Condition.test, mapError_bind, Expr.eval_rename hr, mapError_pure]
  | not operand ih =>
    simp only [Condition.rename, Condition.test, mapError_bind, ih, mapError_pure]
  | paren inner ih =>
    simp only [Condition.rename, Condition.test]
    exact ih
  | bool b => rfl
  | null => rfl
  | chain head links ihHead ihLinks =>
    simp only [Condition.rename, Condition.test, mapError_bind, ihHead,
      Link.testAll_rename tolerance σ ihLinks]
  | relabelled kind c ih => rfl

theorem testOptional_rename (c : Option Condition) :
    testOptional tolerance (σ.rename r) (c.map (Condition.rename r)) =
      (testOptional tolerance σ c).mapError (Fault.rename r) := by
  cases c with
  | none => rfl
  | some c => exact c.test_rename hr tolerance σ

end Eval

/-! ### Execution -/

section Exec

variable (hr : Function.Injective r)
include hr

theorem Declarator.execAll_rename (type : TypeTag) (ds : List Declarator) (last : Option Value)
    (m : Machine) :
    Declarator.execAll type (ds.map (Declarator.rename r)) last (m.rename r) =
      (Declarator.execAll type ds last m).rename r := by
  induction ds generalizing last m with
  | nil => rfl
  | cons d ds ih =>
    have hd := d.eval_rename hr m.store type
    rw [List.map_cons, execAll_cons, execAll_cons, Machine.rename_store, hd, ← rename_ofExcept]
    refine rename_andThen fun v m' => ?_
    rw [← ih, ← Machine.declare_rename hr]
    rfl

theorem Declaration.exec_rename (d : Declaration) (m : Machine) :
    (d.rename r).exec (m.rename r) = (d.exec m).rename r :=
  Declarator.execAll_rename hr d.type d.declarators none m

theorem Assignment.exec_rename (a : Assignment) (m : Machine) :
    (a.rename r).exec (m.rename r) = (a.exec m).rename r := by
  have ha := a.action.eval_rename hr m.store a.target
  simp only [Assignment.exec, Assignment.rename, Machine.rename_store, ha]
  cases a.action.eval m.store a.target with
  | error f => rfl
  | ok v => exact congrArg (done (some v)) (Machine.assign_rename hr m a.target v)

theorem execInit_rename (init : Option Declaration) (m : Machine) :
    execInit (init.map (Declaration.rename r)) (m.rename r) = (execInit init m).rename r := by
  cases init with
  | none => rfl
  | some d => exact d.exec_rename hr m

theorem execUpdate_rename (update : Option Assignment) (m : Machine) :
    execUpdate (update.map (Assignment.rename r)) (m.rename r) =
      (execUpdate update m).rename r := by
  cases update with
  | none => rfl
  | some a => exact a.exec_rename hr m

omit hr in
theorem loopRound_rename {body body' update update' : Machine → Outcome (Option Value)}
    (hbody : ∀ m, body' (m.rename r) = (body m).rename r)
    (hupdate : ∀ m, update' (m.rename r) = (update m).rename r) (m : Machine) :
    loopRound body' update' (m.rename r) = (loopRound body update m).rename r := by
  rw [loopRound, loopRound, hbody]
  refine rename_andThen fun v m₁ => ?_
  rw [hupdate]
  exact rename_andThen fun _ m₂ => rfl

omit hr in
/-- A loop is renamed if its test and its rounds are. -/
theorem iterate_rename {kind : LoopKind} {test test' : Store → Except Fault Bool}
    {body body' update update' : Machine → Outcome (Option Value)}
    (htest : ∀ σ, test' (σ.rename r) = (test σ).mapError (Fault.rename r))
    (hround : ∀ m, loopRound body' update' (m.rename r) = (loopRound body update m).rename r)
    (fuel count : Nat) (last : Option Value) (m : Machine) :
    iterate kind test' body' update' fuel count last (m.rename r) =
      (iterate kind test body update fuel count last m).rename r := by
  induction fuel generalizing count last m with
  | zero => rfl
  | succ fuel ih =>
    have ht : test' (m.rename r).store = (test m.store).mapError (Fault.rename r) := htest m.store
    cases hm : test m.store with
    | error f =>
      rw [hm] at ht
      rw [iterate_of_error hm, iterate_of_error ht]
      rfl
    | ok holds =>
      rw [hm] at ht
      cases holds with
      | false =>
        rw [iterate_of_false hm, iterate_of_false ht]
        rfl
      | true =>
        rw [iterate_of_true hm, iterate_of_true ht, hround]
        exact rename_andThen fun v m₁ => ih (count + 1) v m₁

omit hr in
theorem Stmt.execAll_rename_of_forall {tolerance : Double} {fuel : Nat} {ss : List Stmt}
    (h : ∀ s ∈ ss, ∀ m, (s.rename r).exec tolerance fuel (m.rename r) =
      (s.exec tolerance fuel m).rename r) (last : Option Value) (m : Machine) :
    Stmt.execAll tolerance fuel (Stmt.renameAll r ss) last (m.rename r) =
      (Stmt.execAll tolerance fuel ss last m).rename r := by
  induction ss generalizing last m with
  | nil => simp only [Stmt.renameAll, Stmt.execAll, rename_done]
  | cons s ss ih =>
    obtain ⟨hs, hss⟩ := List.forall_mem_cons.1 h
    rw [Stmt.renameAll, execAll_cons, execAll_cons, hs]
    exact rename_andThen fun v m' => ih hss v m'

/-- The renamed statement does to the renamed machine what the statement does to the machine. -/
theorem Stmt.exec_rename (tolerance : Double) (fuel : Nat) (s : Stmt) (m : Machine) :
    (s.rename r).exec tolerance fuel (m.rename r) = (s.exec tolerance fuel m).rename r := by
  induction s using Stmt.induct generalizing m with
  | declare d =>
    simp only [Stmt.rename, Stmt.exec]
    exact d.exec_rename hr m
  | assign a =>
    simp only [Stmt.rename, Stmt.exec]
    exact a.exec_rename hr m
  | expression e span =>
    simp only [Stmt.rename, Stmt.exec, rename_ofExcept, mapError_bind, mapError_pure,
      Machine.rename_store, Expr.eval_rename hr]
  | branch c body alternative span ihBody ihAlternative =>
    simp only [Stmt.rename, Stmt.exec, Machine.rename_store, Condition.test_rename hr]
    cases c.test tolerance m.store with
    | error f => rfl
    | ok holds =>
      cases holds with
      | true => exact execAll_rename_of_forall ihBody none m
      | false =>
        cases alternative with
        | none => rfl
        | some body' => exact execAll_rename_of_forall (ihAlternative body' rfl) none m
  | forLoop init c update body span ih =>
    simp only [Stmt.rename, Stmt.exec]
    rw [execInit_rename hr]
    refine rename_andThen fun _ m₁ => ?_
    refine iterate_rename (fun σ => testOptional_rename hr tolerance σ c) ?_ fuel 0 none m₁
    exact loopRound_rename (execAll_rename_of_forall ih none) (execUpdate_rename hr update)
  | whileLoop c body span ih =>
    simp only [Stmt.rename, Stmt.exec]
    refine iterate_rename (fun σ => testOptional_rename hr tolerance σ c) ?_ fuel 0 none m
    exact loopRound_rename (execAll_rename_of_forall ih none) (execUpdate_rename hr none)
  | ret v span =>
    cases v with
    | none => rfl
    | some v =>
      simp only [Stmt.rename, Stmt.exec, Option.map_some, rename_ofExcept, mapError_bind,
        mapError_pure, Machine.rename_store, RValue.eval_rename hr]
  | call name args span =>
    have hcall := (Expr.call name args).eval_rename hr m.store
    rw [Expr.rename] at hcall
    simp only [Stmt.rename, Stmt.exec, rename_ofExcept, mapError_bind, mapError_pure,
      Machine.rename_store, hcall]
  | relabelled kind s ih => rfl

theorem Stmt.execAll_rename (tolerance : Double) (fuel : Nat) (ss : List Stmt)
    (last : Option Value) (m : Machine) :
    Stmt.execAll tolerance fuel (Stmt.renameAll r ss) last (m.rename r) =
      (Stmt.execAll tolerance fuel ss last m).rename r :=
  execAll_rename_of_forall (fun s _ => s.exec_rename hr tolerance fuel) last m

end Exec

/-! ### Runs -/

theorem Stmt.length_renameAll (ss : List Stmt) : (Stmt.renameAll r ss).length = ss.length := by
  induction ss with
  | nil => rfl
  | cons s ss ih => rw [renameAll, List.length_cons, List.length_cons, ih]

theorem Store.size_rename (σ : Store) : (σ.rename r).size = σ.size := List.length_map ..

theorem Program.start_rename (p : Program) : (p.rename r).start = p.start.rename r := by
  simp only [start, rename, Entry.rename, List.length_map, Stmt.length_renameAll]
  rfl

theorem Program.stmts_rename (p : Program) (scope : Scope) :
    (p.rename r).stmts scope = Stmt.renameAll r (p.stmts scope) := by
  cases scope with
  | main => rfl
  | globals =>
    simp only [stmts, rename]
    induction p.globals with
    | nil => rfl
    | cons g globals ih =>
      cases g with
      | declaration d => exact congrArg (Stmt.declare (d.rename r) :: ·) ih
      | relabelledDeclaration kind d =>
        exact congrArg (Stmt.relabelled kind (.declare (d.rename r)) :: ·) ih
      | function f => exact ih

/-- Under every bound on the iterations, the renamed program has the renamed outcome. -/
theorem Program.run_rename (hr : Function.Injective r) (tolerance : Double) (fuel : Nat)
    (p : Program) : (p.rename r).run tolerance fuel = (p.run tolerance fuel).rename r := by
  rw [run_eq, run_eq, start_rename, stmts_rename, stmts_rename, Stmt.execAll_rename hr]
  refine rename_andThen fun last m => ?_
  have hscope : ({ m.rename r with scope := .main } : Machine) =
      ({ m with scope := .main } : Machine).rename r := rfl
  rw [hscope, Stmt.execAll_rename hr]
  refine rename_andThen fun last m => ?_
  rw [Machine.rename_store, Store.size_rename, Machine.rename_record, rename_done]

/-- **The names of variables carry no meaning.**  If different names have different images, the
renamed program ends exactly if the program does.  It has the same value and the same log, the same
fault but for the name of an undefined variable, which is renamed, and the same variables in the
same order under their new names. -/
theorem Program.endsWith_rename_iff (r : String → String) (hr : Function.Injective r)
    (tolerance : Double) (p : Program) (o : Outcome (Option Value)) :
    EndsWith (fun fuel => (p.rename r).run tolerance fuel) o ↔
      ∃ o', EndsWith (fun fuel => p.run tolerance fuel) o' ∧ o = o'.rename r := by
  simp only [run_rename hr]
  constructor
  · intro h
    obtain ⟨fuel, hfuel⟩ := h.exists_fuel
    have hne : p.run tolerance fuel ≠ .outOfFuel := fun hout =>
      h.1 (hfuel.symm.trans (rename_eq_outOfFuel_iff.2 hout))
    exact ⟨p.run tolerance fuel, (p.run_steady tolerance).endsWith hne, hfuel.symm⟩
  · rintro ⟨o', ⟨hne, bound, hbound⟩, rfl⟩
    refine ⟨fun hout => hne (rename_eq_outOfFuel_iff.1 hout), bound, fun fuel hle => ?_⟩
    exact congrArg (Outcome.rename r) (hbound fuel hle)

/-- In `x = 0; sin(x); x += sin;` the variable `sin` is undefined.  With the names `x` and `sin`
exchanged, the function keeps its name, and it is `x` that is undefined. -/
theorem Program.endsWith_rename_iff_of_swap :
    let r : String → String := Equiv.swap "x" "sin"
    let program (x sin : String) : Program := { entry := { body := [
      .assign ⟨x, .set (.arith (.number "0")), .unknown⟩,
      .call "sin" [.variable x] .unknown,
      .assign ⟨x, .update .add (.arith (.variable sin)), .unknown⟩] } }
    let outcome (x sin : String) : Outcome (Option Value) := .failed (.undefinedVariable sin)
      ⟨⟨[(x, ⟨.number .zero, none, .main⟩)]⟩, .main, #[.started 0 3]⟩
    Function.Injective r ∧ (program "x" "sin").rename r = program "sin" "x" ∧
      EndsWith (fun fuel => (program "x" "sin").run Double.one fuel) (outcome "x" "sin") ∧
      EndsWith (fun fuel => (program "sin" "x").run Double.one fuel) (outcome "sin" "x") := by
  intro r program outcome
  have hr : Function.Injective r := Equiv.injective _
  have hx : r "x" = "sin" := Equiv.swap_apply_left _ _
  have hsin : r "sin" = "x" := Equiv.swap_apply_right _ _
  have hprogram : (program "x" "sin").rename r = program "sin" "x" := by
    simp [program, rename, Entry.rename, Stmt.renameAll, Stmt.rename, Assignment.rename,
      Action.rename, RValue.rename, Expr.rename, Expr.renameAll, hx, hsin]
  have houtcome : outcome "sin" "x" = (outcome "x" "sin").rename r := by
    simp [outcome, Fault.rename, Machine.rename, Store.rename, hx, hsin]
  have hrun : (program "x" "sin").run Double.one 0 = outcome "x" "sin" := by decide +kernel
  have hends := ((program "x" "sin").run_steady Double.one).endsWith_of_eq hrun (by simp [outcome])
  refine ⟨hr, hprogram, hends, ?_⟩
  rw [← hprogram, endsWith_rename_iff r hr]
  exact ⟨_, hends, houtcome⟩

end Rename

end FlatScript
