import FlatScript.Proofs.Native
import FlatScript.Schema.Model

/-!
# What reading data yields

A reading *yields* values with a property if every value that it accepts has the property.  Each
combinator of readers has a rule for this, so a property of trees is shown for one class of nodes
at a time.

* `Checked.Yields`, with `Yields.map`, `Yields.seq` and `Yields.andThen` for the ways of combining
  readings, and `Schema.list_yields`, `Schema.node_yields` and the like for the readers;
* `Schema.readProgram_yields_native` : **every program that is read from data is native**, since
  the readers accept the operators and the kind names of the language only.
-/

namespace FlatScript

/-! ### Combined readings -/

namespace Checked

variable {α β : Type} {P : α → Prop} {Q : β → Prop}

/-- Every value that the reading accepts has the property. -/
def Yields (P : α → Prop) (c : Checked α) : Prop := ∀ a, c = .ok a → P a

theorem yields_ok {a : α} (h : P a) : (ok a).Yields P := by
  rintro _ ⟨⟩
  exact h

theorem yields_bad (is : List Issue) : (bad is : Checked α).Yields P := by
  rintro _ ⟨⟩

theorem yields_true (c : Checked α) : c.Yields fun _ => True := fun _ _ => trivial

theorem Yields.map {c : Checked α} {f : α → β} (h : c.Yields P) (hf : ∀ a, P a → Q (f a)) :
    (f <$> c).Yields Q := by
  cases c with
  | ok a => exact yields_ok (hf a (h a rfl))
  | bad is => exact yields_bad is

theorem Yields.seq {g : Checked (α → β)} {c : Checked α}
    (hg : g.Yields fun f => ∀ a, P a → Q (f a)) (hc : c.Yields P) : (g <*> c).Yields Q := by
  cases g with
  | ok f =>
    cases c with
    | ok a => exact yields_ok (hg f rfl a (hc a rfl))
    | bad is => exact yields_bad is
  | bad is => cases c <;> exact yields_bad _

theorem Yields.andThen {c : Checked α} {f : α → Checked β} (h : c.Yields P)
    (hf : ∀ a, P a → (f a).Yields Q) : (c.andThen f).Yields Q := by
  cases c with
  | ok a => exact hf a (h a rfl)
  | bad is => exact yields_bad is

theorem Yields.under {c : Checked α} (h : c.Yields P) (step : Step) : (c.under step).Yields P := by
  cases c with
  | ok a => exact h
  | bad is => exact yields_bad _

end Checked

/-! ### Readers -/

namespace Schema

open Checked

section Readers
variable {α : Type} {P : α → Prop} {read : Reader α} (h : ∀ j, (read j).Yields P)
include h

theorem required_yields (f : Fields) (name : String) : (required f name read).Yields P := by
  unfold required
  cases f.lookup name with
  | some j => exact (h j).under _
  | none => exact yields_bad _

theorem optional_yields (f : Fields) (name : String) {default : α} (hdefault : P default) :
    (optional f name default read).Yields P := by
  unfold optional
  cases f.lookup name with
  | some j => exact (h j).under _
  | none => exact yields_ok hdefault

theorem items_yields (i : Nat) (js : List Json) :
    (items read i js).Yields fun as => ∀ a ∈ as, P a := by
  induction js generalizing i with
  | nil => exact yields_ok (by simp)
  | cons j js ih =>
    refine .seq (.map ((h j).under _) fun a ha as has => ?_) (ih (i + 1))
    exact List.forall_mem_cons.2 ⟨ha, has⟩

theorem list_yields (j : Json) : (list read j).Yields fun as => ∀ a ∈ as, P a := by
  cases j with
  | arr js => exact items_yields h 0 js
  | _ => exact yields_bad _

theorem nullable_yields (j : Json) : (nullable read j).Yields fun o => ∀ a ∈ o, P a := by
  unfold nullable
  split
  · exact yields_ok (by simp)
  · refine (h _).map ?_
    rintro a ha _ ⟨⟩
    exact ha

end Readers

section Objects
variable {α : Type} {P : α → Prop}

theorem object_yields {read : Fields → Checked α} (h : ∀ f, (read f).Yields P)
    (className : String) (j : Json) : (object className read j).Yields P := by
  cases j with
  | obj fields => exact h fields
  | _ => exact yields_bad _

/-- The kind name of a node is checked and then forgotten. -/
theorem node_yields {read : Fields → Checked α} (h : ∀ f, (read f).Yields P)
    (className kind : String) (j : Json) : (node className kind read j).Yields P :=
  object_yields (fun f => .seq (.map (yields_true _) fun _ _ _ ha => ha) (h f)) className j

theorem union_yields {options : List (String × Reader α)}
    (h : ∀ o ∈ options, ∀ j, (o.2 j).Yields P) (j : Json) : (union options j).Yields P := by
  unfold union
  split
  · split
    · exact yields_bad _
    · split
      · rename_i kind read hchosen
        obtain ⟨-, hread⟩ := chosen?_eq_some_iff.1 hchosen
        obtain ⟨before, after, rfl, -⟩ := List.lookup_eq_some_iff.1 hread
        exact (h (kind, read) (by simp) _).under _
      · exact yields_bad _
  · exact yields_bad _

end Objects

/-! ### Expressions -/

section Expressions
variable {sub : Reader Expr} (hsub : ∀ j, (sub j).Yields fun e => e.isNative = true)
include hsub

theorem operation_yields_native (className kind : String) (ops : List ArithOp) (j : Json) :
    (operation sub className kind ops j).Yields fun e => e.isNative = true := by
  refine node_yields (fun f => ?_) className kind j
  -- one rule for each field, that of the last field outermost
  refine .seq (.seq (.map (yields_true _) ?_) (required_yields hsub f _)) (required_yields hsub f _)
  intro op _ left hleft right hright
  simp [hleft, hright, Operator.isKnown]

theorem paren_yields_native (j : Json) : (paren sub j).Yields fun e => e.isNative = true := by
  refine node_yields (fun f => ?_) _ _ j
  exact (required_yields hsub f _).map fun e he => by simp [he]

theorem callParts_yields_native (j : Json) :
    (callParts sub j).Yields fun call => ∀ e ∈ call.2, e.isNative = true := by
  refine node_yields (fun f => ?_) _ _ j
  refine .seq (.map (yields_true _) ?_) (optional_yields (list_yields hsub) f _ (by simp))
  intro name _ args hargs
  exact hargs

theorem call_yields_native (j : Json) : (call sub j).Yields fun e => e.isNative = true := by
  refine (callParts_yields_native hsub j).map ?_
  rintro ⟨name, args⟩ hargs
  simpa using hargs

theorem exprOptions_yield_native :
    ∀ o ∈ exprOptions sub, ∀ j, (o.2 j).Yields fun e => e.isNative = true := by
  simp only [exprOptions, List.forall_mem_cons]
  refine ⟨?_, ?_, operation_yields_native hsub _ _ _, operation_yields_native hsub _ _ _,
    paren_yields_native hsub, call_yields_native hsub, by simp⟩
  · exact node_yields (fun f => .map (yields_true _) fun _ _ => by simp) _ _
  · exact node_yields (fun f => .map (yields_true _) fun _ _ => by simp) _ _

theorem valueOptions_yield_native :
    ∀ o ∈ valueOptions sub, ∀ j, (o.2 j).Yields fun v => v.isNative = true := by
  simp only [valueOptions, List.forall_mem_append, List.forall_mem_map, List.forall_mem_singleton]
  constructor
  · intro o ho j
    exact (exprOptions_yield_native hsub o ho j).map fun e he => by simp [he]
  · exact node_yields (fun f => .map (yields_true _) fun _ _ => by simp) _ _

end Expressions

theorem expression_yields_native (depth : Nat) (j : Json) :
    (expression depth j).Yields fun e => e.isNative = true := by
  induction depth generalizing j with
  | zero => exact yields_bad _
  | succ depth ih => exact union_yields (exprOptions_yield_native ih) j

theorem value_yields_native (depth : Nat) (j : Json) :
    (value depth j).Yields fun v => v.isNative = true := by
  cases depth with
  | zero => exact yields_bad _
  | succ depth => exact union_yields (valueOptions_yield_native (expression_yields_native depth)) j

/-! ### Conditions -/

section Conditions
variable {expr : Reader Expr} (hexpr : ∀ j, (expr j).Yields fun e => e.isNative = true)
  {sub : Reader Condition} (hsub : ∀ j, (sub j).Yields fun c => c.isNative = true)

include hexpr in
theorem comparison_yields_native (j : Json) :
    (comparison expr j).Yields fun c => c.isNative = true := by
  refine node_yields (fun f => ?_) _ _ j
  refine .seq (.seq (.map (yields_true _) ?_) (required_yields hexpr f _))
    (required_yields hexpr f _)
  intro op _ left hleft right hright
  simp [hleft, hright, Operator.isKnown]

include hsub in
theorem logicalChain_yields_native (j : Json) :
    (logicalChain sub j).Yields fun c => c.isNative = true := by
  have hlink : ∀ j, (chainLink sub j).Yields
      fun l => ∀ op term, l = .mk op term → op.isKnown = true ∧ term.isNative = true := by
    refine object_yields (fun f => ?_) _
    refine .seq (.map (yields_true _) ?_) (required_yields hsub f _)
    rintro op _ term hterm _ _ ⟨⟩
    exact ⟨rfl, hterm⟩
  refine node_yields (fun f => ?_) _ _ j
  refine .seq (.map (required_yields hsub f _) ?_)
    (optional_yields (list_yields hlink) f _ (by simp))
  intro head hhead links hlinks
  exact Condition.isNative_chain hhead fun op term hl => hlinks _ hl op term rfl

include hexpr hsub in
theorem conditionOptions_yield_native :
    ∀ o ∈ conditionOptions expr sub, ∀ j, (o.2 j).Yields fun c => c.isNative = true := by
  simp only [conditionOptions, List.forall_mem_cons]
  refine ⟨comparison_yields_native hexpr, ?_, ?_, ?_, ?_, ?_, logicalChain_yields_native hsub,
    by simp⟩
  · exact node_yields (fun f => (required_yields hexpr f _).map fun e he => by simp [he]) _ _
  · exact node_yields (fun f => (required_yields hsub f _).map fun c hc => by simp [hc]) _ _
  · exact node_yields (fun f => (required_yields hsub f _).map fun c hc => by simp [hc]) _ _
  · exact node_yields (fun f => .map (yields_true _) fun _ _ => by simp) _ _
  · exact node_yields (fun f => yields_ok (by simp)) _ _

end Conditions

theorem condition_yields_native (depth : Nat) (j : Json) :
    (condition depth j).Yields fun c => c.isNative = true := by
  induction depth generalizing j with
  | zero => exact yields_bad _
  | succ depth ih =>
    exact union_yields (conditionOptions_yield_native (expression_yields_native depth) ih) j

/-! ### Statements -/

theorem declarationOf_yields (type : TypeTag) (declarators : List Declarator) (span : Span) :
    (declarationOf type declarators span).Yields fun d => d.declarators = declarators := by
  unfold declarationOf
  split
  · exact yields_ok rfl
  · exact yields_bad _

theorem actionOf_yields (op : AssignOp) (operand : Option RValue) :
    (actionOf op operand).Yields fun a => a.op.isKnown = true ∧ a.value? = operand := by
  unfold actionOf
  cases op <;> cases operand <;>
    first | exact yields_bad _ | exact yields_ok ⟨rfl, rfl⟩

section Statements
variable {expr : Reader Expr} (hexpr : ∀ j, (expr j).Yields fun e => e.isNative = true)
  {val : Reader RValue} (hval : ∀ j, (val j).Yields fun v => v.isNative = true)
  {cond : Reader Condition} (hcond : ∀ j, (cond j).Yields fun c => c.isNative = true)
  {sub : Reader Stmt} (hsub : ∀ j, (sub j).Yields fun s => s.isNative = true)

include hval in
theorem declaration_yields_native (j : Json) :
    (declaration val j).Yields fun d => (Piece.declaration d).isNative = true := by
  have hdeclarator : ∀ j, (declarator val j).Yields
      fun d => ∀ v ∈ d.initializer, v.isNative = true := by
    refine object_yields (fun f => ?_) _
    refine .seq (.seq (.map (yields_true _) ?_)
      (optional_yields (nullable_yields hval) f _ (by simp))) (yields_true _)
    intro name _ initializer hinitializer span _
    exact hinitializer
  have hfields : (declarationFields val j).Yields
      fun d => ∀ e ∈ d.2.1, ∀ v ∈ e.initializer, v.isNative = true := by
    refine node_yields (fun f => ?_) _ _ j
    refine .seq (.seq (.map (yields_true _) ?_) (required_yields (list_yields hdeclarator) f _))
      (yields_true _)
    intro type _ declarators hdeclarators span _
    exact hdeclarators
  refine hfields.andThen ?_
  rintro ⟨type, declarators, span⟩ hdeclarators d hd
  refine Piece.isNative_of_values rfl rfl fun v hv => ?_
  obtain ⟨e, he, hv⟩ := List.mem_filterMap.1 hv
  rw [declarationOf_yields type declarators span d hd] at he
  exact hdeclarators e he v hv

include hval in
theorem assignment_yields_native (j : Json) :
    (assignment val j).Yields fun a => (Piece.assignment a).isNative = true := by
  have hfields : (assignmentFields val j).Yields fun a => ∀ v ∈ a.2.2.1, v.isNative = true := by
    refine node_yields (fun f => ?_) _ _ j
    refine .seq (.seq (.seq (.map (yields_true _) ?_) (yields_true _))
      (optional_yields (nullable_yields hval) f _ (by simp))) (yields_true _)
    intro target _ op _ operand hoperand span _
    exact hoperand
  refine hfields.andThen ?_
  rintro ⟨target, op, operand, span⟩ hoperand
  refine (actionOf_yields op operand).map ?_
  rintro action ⟨hop, rfl⟩
  refine Piece.isNative_of_values hop rfl fun v hv => hoperand v ?_
  simpa [Piece.values] using hv

include hcond hsub in
theorem ifStatement_yields_native (j : Json) :
    (ifStatement cond sub j).Yields fun s => s.isNative = true := by
  refine node_yields (fun f => ?_) _ _ j
  refine .seq (.seq (.seq (.map (required_yields hcond f _) ?_)
    (optional_yields (list_yields hsub) f _ (by simp)))
    (optional_yields (nullable_yields (list_yields hsub)) f _ (by simp))) (yields_true _)
  intro c hc body hbody alternative halternative span _
  exact Stmt.isNative_branch hc hbody halternative span

include hval hcond hsub in
theorem forStatement_yields_native (j : Json) :
    (forStatement val cond sub j).Yields fun s => s.isNative = true := by
  refine node_yields (fun f => ?_) _ _ j
  refine .seq (.seq (.seq (.seq
    (.map (optional_yields (nullable_yields (declaration_yields_native hval)) f _ (by simp)) ?_)
    (optional_yields (nullable_yields hcond) f _ (by simp)))
    (optional_yields (nullable_yields (assignment_yields_native hval)) f _ (by simp)))
    (optional_yields (list_yields hsub) f _ (by simp))) (yields_true _)
  intro init hinit c hc update hupdate body hbody span _
  exact Stmt.isNative_forLoop hinit hc hupdate hbody span

include hcond hsub in
theorem whileStatement_yields_native (j : Json) :
    (whileStatement cond sub j).Yields fun s => s.isNative = true := by
  refine node_yields (fun f => ?_) _ _ j
  refine .seq (.seq (.map (optional_yields (nullable_yields hcond) f _ (by simp)) ?_)
    (optional_yields (list_yields hsub) f _ (by simp))) (yields_true _)
  intro c hc body hbody span _
  exact Stmt.isNative_whileLoop hc hbody span

include hval in
theorem returnStatement_yields_native (j : Json) :
    (returnStatement val j).Yields fun s => s.isNative = true := by
  refine node_yields (fun f => ?_) _ _ j
  refine .seq (.map (optional_yields (nullable_yields hval) f _ (by simp)) ?_) (yields_true _)
  intro v hv span _
  simpa [Stmt.isNative_iff, Stmt.isOwn, Stmt.pieces] using hv

include hexpr in
theorem callStatement_yields_native (j : Json) :
    (callStatement expr j).Yields fun s => s.isNative = true := by
  refine node_yields (fun f => ?_) _ _ j
  refine .seq (.map (required_yields (callParts_yields_native hexpr) f _) ?_) (yields_true _)
  rintro ⟨name, args⟩ hargs span _
  simpa [Stmt.isNative_iff, Stmt.isOwn, Stmt.pieces] using hargs

include hexpr hval hcond hsub in
theorem stmtOptions_yield_native :
    ∀ o ∈ stmtOptions expr val cond sub, ∀ j, (o.2 j).Yields fun s => s.isNative = true := by
  simp only [stmtOptions, List.forall_mem_cons]
  refine ⟨fun j => ?_, fun j => ?_, ?_, ifStatement_yields_native hcond hsub,
    forStatement_yields_native hval hcond hsub, whileStatement_yields_native hcond hsub,
    returnStatement_yields_native hval, callStatement_yields_native hexpr, by simp⟩
  · refine (declaration_yields_native hval j).map fun d hd => ?_
    simpa [Stmt.isNative_iff, Stmt.isOwn, Stmt.pieces] using hd
  · refine (assignment_yields_native hval j).map fun a ha => ?_
    simpa [Stmt.isNative_iff, Stmt.isOwn, Stmt.pieces] using ha
  · refine node_yields (fun f => .seq ((required_yields hexpr f _).map ?_) (yields_true _)) _ _
    intro e he span _
    simpa [Stmt.isNative_iff, Stmt.isOwn, Stmt.pieces] using he

end Statements

theorem statement_yields_native (depth : Nat) (j : Json) :
    (statement depth j).Yields fun s => s.isNative = true := by
  induction depth generalizing j with
  | zero => exact yields_bad _
  | succ depth ih =>
    exact union_yields (stmtOptions_yield_native (expression_yields_native depth)
      (value_yields_native depth) (condition_yields_native depth) ih) j

/-! ### Programs -/

theorem function_yields_native {sub : Reader Stmt}
    (hsub : ∀ j, (sub j).Yields fun s => s.isNative = true) (j : Json) :
    (function sub j).Yields fun g => ∀ s ∈ g.body, s.isNative = true := by
  refine node_yields (fun f => ?_) _ _ j
  refine .seq (.seq (.seq (.seq (.map (yields_true _) ?_) (yields_true _)) (yields_true _))
    (optional_yields (list_yields hsub) f _ (by simp))) (yields_true _)
  intro name _ type _ parameters _ body hbody span _
  exact hbody

theorem entry_yields_native {sub : Reader Stmt}
    (hsub : ∀ j, (sub j).Yields fun s => s.isNative = true) (j : Json) :
    (entry sub j).Yields fun e => ∀ s ∈ e.body, s.isNative = true := by
  refine object_yields (fun f => ?_) _ j
  refine .seq (.seq (.seq (.map (yields_true _) ?_) (yields_true _))
    (optional_yields (list_yields hsub) f _ (by simp))) (yields_true _)
  intro name _ type _ body hbody span _
  exact hbody

theorem global_yields_native {val : Reader RValue} {sub : Reader Stmt}
    (hval : ∀ j, (val j).Yields fun v => v.isNative = true)
    (hsub : ∀ j, (sub j).Yields fun s => s.isNative = true) (j : Json) :
    (global val sub j).Yields fun g => (∀ s ∈ g.stmt?, s.isNative = true) ∧
      ∀ f ∈ g.function?, ∀ s ∈ f.body, s.isNative = true := by
  refine union_yields ?_ j
  simp only [globalOptions, List.forall_mem_cons]
  refine ⟨fun j => ?_, fun j => ?_, by simp⟩
  · refine (declaration_yields_native hval j).map fun d hd => ?_
    simpa [Global.stmt?, Global.function?, Stmt.isNative_iff, Stmt.isOwn, Stmt.pieces] using hd
  · refine (function_yields_native hsub j).map fun g hg => ?_
    simpa [Global.stmt?, Global.function?] using hg

/-- **Every program that is read from data is native.** -/
theorem readProgram_yields_native (j : Json) :
    (readProgram j).Yields fun p => p.isNative = true := by
  have hval := value_yields_native j.depth
  have hsub := statement_yields_native j.depth
  refine object_yields (fun f => ?_) _ j
  refine .seq (.map (optional_yields (list_yields (global_yields_native hval hsub)) f _
    (by simp)) ?_) (optional_yields (entry_yields_native hsub) f _ (by simp))
  intro globals hglobals entry hentry
  simp only [Program.isNative, Program.stmts, Program.functions, Bool.and_eq_true,
    List.all_eq_true, List.mem_filterMap]
  refine ⟨⟨?_, ?_⟩, hentry⟩
  · rintro s ⟨g, hg, hs⟩
    exact (hglobals g hg).1 s hs
  · rintro f' ⟨g, hg, hf'⟩
    exact (hglobals g hg).2 f' hf'

end Schema

end FlatScript
