import FlatScript.Analysis.Analyze
import FlatScript.Proofs.Ending

/-!
# Shorthand statements

Four kinds of statements are shorthand for others.  A compound assignment `x op= e` and the
increments `x++` and `x--` stand for a plain assignment; a call for its effect and a return of a
number stand for the statement that evaluates the same expression.  `Program.desugar` writes all of
them out, at any depth and in the updates of loops.  A compound assignment of a text, a return
without a value and a return of a text have no longer form and stay as they are.

* `Stmt.exec_desugar` : a desugared statement does to every machine what the statement does, under
  every bound on the iterations;
* `Stmt.scan_desugar`, `Stmt.calls_desugar` : it has the same contents and the same direct calls;
* `Program.isCore_desugar` : no shorthand is left;
* `Program.run_desugar_agree` : **desugaring preserves the runs and the analysis of a program**.
-/

namespace FlatScript

open Outcome

/-! ### Desugaring -/

/-- The plain form of an action on a target. -/
def Action.desugar (target : String) : Action → Action
  | .increment => .set (.arith (.binary (.known .add) (.variable target) (.number "1")))
  | .decrement => .set (.arith (.binary (.known .sub) (.variable target) (.number "1")))
  | .update op (.arith e) => .set (.arith (.binary (.known op) (.variable target) e))
  | a => a

/-- The plain form of an assignment. -/
def Assignment.desugar (a : Assignment) : Assignment :=
  { a with action := a.action.desugar a.target }

mutual

/-- The statement with all shorthand written out. -/
def Stmt.desugar : Stmt → Stmt
  | .assign a => .assign a.desugar
  | .branch c body alternative span =>
    .branch c (Stmt.desugarAll body) (Stmt.desugarAlternative alternative) span
  | .forLoop init c update body span =>
    .forLoop init c (update.map Assignment.desugar) (Stmt.desugarAll body) span
  | .whileLoop c body span => .whileLoop c (Stmt.desugarAll body) span
  | .ret (some (.arith e)) span => .expression e span
  | .call name args span => .expression (.call name args) span
  | .relabelled kind s => .relabelled kind s.desugar
  | s => s

/-- The statements of a body with all shorthand written out. -/
def Stmt.desugarAll : List Stmt → List Stmt
  | [] => []
  | s :: rest => s.desugar :: Stmt.desugarAll rest

/-- The alternative of a branch with all shorthand written out. -/
def Stmt.desugarAlternative : Option (List Stmt) → Option (List Stmt)
  | none => none
  | some body => some (Stmt.desugarAll body)

end

/-- The function with all shorthand of its body written out. -/
def Function.desugar (f : Function) : Function := { f with body := Stmt.desugarAll f.body }

/-- The global with all shorthand written out: a declaration of variables has none. -/
def Global.desugar : Global → Global
  | .function f => .function f.desugar
  | g => g

/-- The entry block with all shorthand written out. -/
def Entry.desugar (e : Entry) : Entry := { e with body := Stmt.desugarAll e.body }

/-- The program with all shorthand written out. -/
def Program.desugar (p : Program) : Program := ⟨p.globals.map Global.desugar, p.entry.desugar⟩

/-! ### Execution -/

theorem readNumeral_one : readNumeral "1" = .ok Double.one := by
  have h : Double.read? "1" = some Double.one := by decide +kernel
  rw [readNumeral, h]

/-- An operation on a variable reads the variable before it evaluates the other operand. -/
theorem Expr.eval_binary_variable (σ : Store) (op : ArithOp) (name : String) (e : Expr) :
    (Expr.binary (.known op) (.variable name) e).eval σ =
      (do
        let x ← (← σ.get name).asNumber
        let y ← e.eval σ
        op.apply x y) := by
  simp only [Expr.eval, Operator.applyArith, bind_assoc]

theorem Action.eval_desugar (σ : Store) (target : String) (a : Action) :
    (a.desugar target).eval σ target = a.eval σ target := by
  -- both forms read the target first; only after that is the operand evaluated
  cases a with
  | set v => rfl
  | increment =>
    simp only [desugar, Action.eval, Store.stepped, RValue.eval, Expr.eval_binary_variable,
      bind_assoc]
    simp only [Expr.eval, readNumeral_one]
    rfl
  | decrement =>
    simp only [desugar, Action.eval, Store.stepped, RValue.eval, Expr.eval_binary_variable,
      bind_assoc]
    simp only [Expr.eval, readNumeral_one]
    rfl
  | update op operand =>
    cases operand with
    | arith e =>
      simp only [desugar, Action.eval, RValue.eval, RValue.evalNumber, Expr.eval_binary_variable,
        bind_assoc]
    | text s => rfl
    | relabelledText kind s => rfl
  | foreign symbol operand => rfl

theorem Assignment.exec_desugar (a : Assignment) (m : Machine) : a.desugar.exec m = a.exec m := by
  simp only [Assignment.exec, desugar, Action.eval_desugar]

theorem execUpdate_desugar (update : Option Assignment) :
    execUpdate (update.map Assignment.desugar) = execUpdate update := by
  funext m
  cases update with
  | none => rfl
  | some a => exact a.exec_desugar m

theorem Stmt.execAll_desugarAll {tolerance : Double} {fuel : Nat} {ss : List Stmt}
    (h : ∀ s ∈ ss, ∀ m, s.desugar.exec tolerance fuel m = s.exec tolerance fuel m)
    (last : Option Value) (m : Machine) :
    Stmt.execAll tolerance fuel (Stmt.desugarAll ss) last m =
      Stmt.execAll tolerance fuel ss last m := by
  induction ss generalizing last m with
  | nil => rfl
  | cons s ss ih =>
    obtain ⟨hs, hss⟩ := List.forall_mem_cons.1 h
    rw [desugarAll, execAll_cons, execAll_cons, hs m]
    congr 1
    funext v m'
    exact ih hss v m'

/-- A desugared statement does to every machine what the statement does. -/
theorem Stmt.exec_desugar (tolerance : Double) (fuel : Nat) (s : Stmt) (m : Machine) :
    s.desugar.exec tolerance fuel m = s.exec tolerance fuel m := by
  induction s using Stmt.induct generalizing m with
  | declare d => rfl
  | assign a => simp only [desugar, Stmt.exec, Assignment.exec_desugar]
  | expression e span => rfl
  | branch c body alternative span ihBody ihAlternative =>
    simp only [desugar, Stmt.exec]
    cases c.test tolerance m.store with
    | error f => rfl
    | ok holds =>
      cases holds with
      | true => exact execAll_desugarAll ihBody none m
      | false =>
        cases alternative with
        | none => rfl
        | some body' => exact execAll_desugarAll (ihAlternative body' rfl) none m
  | forLoop init c update body span ih =>
    simp only [desugar, Stmt.exec, execUpdate_desugar, execAll_desugarAll ih]
  | whileLoop c body span ih => simp only [desugar, Stmt.exec, execAll_desugarAll ih]
  | ret v span =>
    cases v with
    | none => rfl
    | some v =>
      cases v with
      | text s => rfl
      | relabelledText kind s => rfl
      | arith e =>
        simp only [desugar, Stmt.exec, RValue.eval]
        cases e.eval m.store <;> rfl
  | call name args span => simp only [desugar, Stmt.exec]
  | relabelled kind s ih =>
    -- refused for its kind name, before anything in it is executed
    simp only [desugar, Stmt.exec]

theorem Stmt.length_desugarAll (ss : List Stmt) : (Stmt.desugarAll ss).length = ss.length := by
  induction ss with
  | nil => rfl
  | cons s ss ih => simp [desugarAll, ih]

theorem Global.stmt?_desugar (g : Global) : g.desugar.stmt? = g.stmt? := by
  cases g <;> rfl

theorem Program.run_desugar (tolerance : Double) (fuel : Nat) (p : Program) :
    p.desugar.run tolerance fuel = p.run tolerance fuel := by
  have hglobals : p.desugar.globals.filterMap Global.stmt? = p.globals.filterMap Global.stmt? := by
    simp only [desugar, List.filterMap_map]
    congr 1
    funext g
    exact g.stmt?_desugar
  have hentry : ∀ last m, Stmt.execAll tolerance fuel p.desugar.entry.body last m =
      Stmt.execAll tolerance fuel p.entry.body last m :=
    Stmt.execAll_desugarAll fun s _ => s.exec_desugar tolerance fuel
  have hstart : Event.started p.desugar.globals.length p.desugar.entry.body.length =
      .started p.globals.length p.entry.body.length := by
    simp [desugar, Entry.desugar, Stmt.length_desugarAll]
  simp only [run, hglobals, hentry, hstart]

/-! ### Analysis -/

theorem Action.any_calls_desugar (name target : String) (a : Action) :
    (a.desugar target).value?.any (RValue.calls name) = a.value?.any (RValue.calls name) := by
  -- the operand that desugaring adds is a variable, in which there is no call
  cases a with
  | set v => rfl
  | increment => rfl
  | decrement => rfl
  | update op operand =>
    cases operand with
    | arith e => simp [desugar, value?, RValue.calls, Expr.calls]
    | text s => rfl
    | relabelledText kind s => rfl
  | foreign symbol operand => rfl

theorem Stmt.anyCalls_desugarAll {name : String} {ss : List Stmt}
    (h : ∀ s ∈ ss, s.desugar.calls name = s.calls name) :
    Stmt.anyCalls name (Stmt.desugarAll ss) = Stmt.anyCalls name ss := by
  induction ss with
  | nil => rfl
  | cons s ss ih =>
    obtain ⟨hs, hss⟩ := List.forall_mem_cons.1 h
    rw [desugarAll, anyCalls, anyCalls, hs, ih hss]

/-- A desugared statement has the direct calls of the statement. -/
theorem Stmt.calls_desugar (name : String) (s : Stmt) : s.desugar.calls name = s.calls name := by
  induction s using Stmt.induct with
  | declare d => rfl
  | assign a => simp only [desugar, calls, Assignment.desugar, Action.any_calls_desugar]
  | expression e span => rfl
  | branch c body alternative span ihBody ihAlternative =>
    have halternative : alternativeCalls name (desugarAlternative alternative) =
        alternativeCalls name alternative := by
      cases alternative with
      | none => rfl
      | some body' =>
        simp only [desugarAlternative, alternativeCalls]
        exact anyCalls_desugarAll (ihAlternative body' rfl)
    simp only [desugar, calls, anyCalls_desugarAll ihBody, halternative]
  | forLoop init c update body span ih => simp only [desugar, calls, anyCalls_desugarAll ih]
  | whileLoop c body span ih => simp only [desugar, calls, anyCalls_desugarAll ih]
  | ret v span =>
    cases v with
    | none => rfl
    | some v =>
      cases v with
      | text s => rfl
      | relabelledText kind s => rfl
      | arith e => simp [desugar, calls, RValue.calls]
  | call n args span => simp [desugar, calls, Expr.calls]
  | relabelled kind s ih => simp only [desugar, calls]

theorem Stmt.scanAll_desugarAll {ss : List Stmt} (h : ∀ s ∈ ss, s.desugar.scan = s.scan) :
    Stmt.scanAll (Stmt.desugarAll ss) = Stmt.scanAll ss := by
  induction ss with
  | nil => rfl
  | cons s ss ih =>
    obtain ⟨hs, hss⟩ := List.forall_mem_cons.1 h
    rw [desugarAll, scanAll, scanAll, hs, ih hss]

/-- A desugared statement has the contents of the statement. -/
theorem Stmt.scan_desugar (s : Stmt) : s.desugar.scan = s.scan := by
  induction s using Stmt.induct with
  | declare d => rfl
  | assign a => simp only [desugar, scan]
  | expression e span => rfl
  | branch c body alternative span ihBody ihAlternative =>
    have halternative : scanAlternative (desugarAlternative alternative) =
        scanAlternative alternative := by
      cases alternative with
      | none => rfl
      | some body' =>
        simp only [desugarAlternative, scanAlternative]
        exact scanAll_desugarAll (ihAlternative body' rfl)
    have hkind : (desugarAlternative alternative).isSome = alternative.isSome := by
      cases alternative <;> rfl
    simp only [desugar, scan, scanAll_desugarAll ihBody, halternative, hkind]
  | forLoop init c update body span ih => simp only [desugar, scan, scanAll_desugarAll ih]
  | whileLoop c body span ih => simp only [desugar, scan, scanAll_desugarAll ih]
  | ret v span =>
    cases v with
    | none => rfl
    | some v =>
      cases v with
      | text s => rfl
      | relabelledText kind s => rfl
      | arith e => simp only [desugar, scan]
  | call n args span => simp only [desugar, scan]
  | relabelled kind s ih => simp only [desugar, scan]

/-- The subject with all shorthand of its body written out. -/
def Subject.desugar (s : Subject) : Subject := { s with body := Stmt.desugarAll s.body }

theorem Program.functions_desugar (p : Program) :
    p.desugar.functions = p.functions.map Function.desugar := by
  simp only [functions, desugar, List.filterMap_map, List.map_filterMap]
  congr 1
  funext g
  cases g <;> rfl

theorem Program.subjects_desugar (p : Program) :
    p.desugar.subjects = p.subjects.map Subject.desugar := by
  simp only [subjects, functions_desugar, List.map_append, List.map_map]
  rfl

theorem scanSubjects_desugar (subjects : List Subject) :
    scanSubjects (subjects.map Subject.desugar) =
      (scanSubjects subjects).map (List.map (Prod.map Subject.desugar id)) := by
  induction subjects with
  | nil => rfl
  | cons s rest ih =>
    have hs : Stmt.scanAll s.desugar.body = Stmt.scanAll s.body :=
      Stmt.scanAll_desugarAll fun t _ => t.scan_desugar
    rw [List.map_cons, scanSubjects, scanSubjects, hs, ih]
    cases Stmt.scanAll s.body with
    | error f => rfl
    | ok contents => cases scanSubjects rest <;> rfl

theorem reportAll_desugar (scanned : List (Subject × Contents)) :
    reportAll (scanned.map (Prod.map Subject.desugar id)) = reportAll scanned := by
  induction scanned with
  | nil => rfl
  | cons entry rest ih =>
    obtain ⟨s, contents⟩ := entry
    have hs : Stmt.anyCalls s.name s.desugar.body = Stmt.anyCalls s.name s.body :=
      Stmt.anyCalls_desugarAll fun t _ => t.calls_desugar s.name
    have hname : s.desugar.name = s.name := rfl
    have hreport : ∀ recursive, s.desugar.report contents recursive = s.report contents recursive :=
      fun _ => rfl
    simp only [List.map_cons, Prod.map_apply, id, reportAll, hname, hs, hreport, ih]

theorem Program.analyze_desugar (p : Program) : p.desugar.analyze = p.analyze := by
  simp only [analyze, subjects_desugar, scanSubjects_desugar]
  cases scanSubjects p.subjects with
  | error f => rfl
  | ok scanned => exact reportAll_desugar scanned

/-! ### The desugared form -/

/-- Whether the action is not shorthand for a plain one. -/
def Action.isCore : Action → Bool
  | .increment => false
  | .decrement => false
  | .update _ (.arith _) => false
  | _ => true

mutual

/-- Whether the statement is free of shorthand at any depth. -/
def Stmt.isCore : Stmt → Bool
  | .assign a => a.action.isCore
  | .branch _ body alternative _ => Stmt.coreAll body && Stmt.coreAlternative alternative
  | .forLoop _ _ update body _ => update.all (·.action.isCore) && Stmt.coreAll body
  | .whileLoop _ body _ => Stmt.coreAll body
  | .ret (some (.arith _)) _ => false
  | .call _ _ _ => false
  | .relabelled _ s => s.isCore
  | _ => true

/-- Whether the statements of a body are free of shorthand. -/
def Stmt.coreAll : List Stmt → Bool
  | [] => true
  | s :: rest => s.isCore && Stmt.coreAll rest

/-- Whether the alternative of a branch is free of shorthand. -/
def Stmt.coreAlternative : Option (List Stmt) → Bool
  | none => true
  | some body => Stmt.coreAll body

end

/-- Whether the program is free of shorthand, in its functions and in its entry block. -/
def Program.isCore (p : Program) : Bool :=
  p.functions.all (fun f => Stmt.coreAll f.body) && Stmt.coreAll p.entry.body

theorem Action.isCore_desugar (target : String) (a : Action) :
    (a.desugar target).isCore = true := by
  cases a with
  | set v => rfl
  | increment => rfl
  | decrement => rfl
  | update op operand =>
    cases operand with
    | arith e => rfl
    | text s => rfl
    | relabelledText kind s => rfl
  | foreign symbol operand => rfl

theorem Stmt.coreAll_desugarAll {ss : List Stmt} (h : ∀ s ∈ ss, s.desugar.isCore = true) :
    Stmt.coreAll (Stmt.desugarAll ss) = true := by
  induction ss with
  | nil => rfl
  | cons s ss ih =>
    obtain ⟨hs, hss⟩ := List.forall_mem_cons.1 h
    rw [desugarAll, coreAll, hs, ih hss]
    rfl

theorem Stmt.isCore_desugar (s : Stmt) : s.desugar.isCore = true := by
  induction s using Stmt.induct with
  | declare d => rfl
  | assign a => exact a.action.isCore_desugar a.target
  | expression e span => rfl
  | branch c body alternative span ihBody ihAlternative =>
    have halternative : coreAlternative (desugarAlternative alternative) = true := by
      cases alternative with
      | none => rfl
      | some body' => exact coreAll_desugarAll (ihAlternative body' rfl)
    simp only [desugar, isCore, coreAll_desugarAll ihBody, halternative, Bool.and_self]
  | forLoop init c update body span ih =>
    have hupdate : (update.map Assignment.desugar).all (·.action.isCore) = true := by
      cases update with
      | none => rfl
      | some a => exact a.action.isCore_desugar a.target
    simp only [desugar, isCore, coreAll_desugarAll ih, hupdate, Bool.and_self]
  | whileLoop c body span ih => simp only [desugar, isCore, coreAll_desugarAll ih]
  | ret v span =>
    cases v with
    | none => rfl
    | some v =>
      cases v with
      | text s => rfl
      | relabelledText kind s => rfl
      | arith e => rfl
  | call name args span => rfl
  | relabelled kind s ih => exact ih

/-- **No shorthand is left in a desugared program.** -/
theorem Program.isCore_desugar (p : Program) : p.desugar.isCore = true := by
  have hbody : ∀ ss, Stmt.coreAll (Stmt.desugarAll ss) = true := fun _ =>
    Stmt.coreAll_desugarAll fun s _ => s.isCore_desugar
  rw [isCore, functions_desugar, List.all_map, Bool.and_eq_true, List.all_eq_true]
  exact ⟨fun f _ => hbody f.body, hbody p.entry.body⟩

/-! ### Meaning -/

/-- **Desugaring preserves meaning.**  The desugared program runs forever exactly when the program
does; otherwise both end with the same value or the same fault, the same variables and the same
log.  The analysis of the desugared program is that of the program, and no shorthand is left in
it. -/
theorem Program.run_desugar_agree (tolerance : Double) (p : Program) :
    Agree Eq Eq (fun fuel => p.desugar.run tolerance fuel) (fun fuel => p.run tolerance fuel) ∧
      p.desugar.analyze = p.analyze ∧ p.desugar.isCore = true := by
  refine ⟨?_, p.analyze_desugar, p.isCore_desugar⟩
  refine Agree.of_forall (p.desugar.run_steady tolerance) (p.run_steady tolerance) fun fuel => ?_
  exact .of_eq (p.run_desugar tolerance fuel)

end FlatScript
