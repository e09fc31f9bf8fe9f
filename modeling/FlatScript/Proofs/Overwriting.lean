import FlatScript.Overwrite
import FlatScript.Proofs.History
import FlatScript.Proofs.Log
import FlatScript.Proofs.Native
import Mathlib.Data.List.Forall2

/-!
# Overwritten trees

A kind name or an operator that the language does not know is found when a run comes to the place
where it is looked up, and not before.  Until then the run of an overwritten program is that of the
program itself.

* `IsForeign` : a word that is neither a kind name nor the symbol of an operator;
* `SameOrReports F` : an evaluation gives what another one gives, or reports a fault of `F`;
* `Outcome.AsBefore F` : the same for outcomes.  What was logged by the time of the report is a
  prefix of what the other one logs;
* `Overwrite.expr_asBefore`, `Overwrite.condition_asBefore`, `Overwrite.stmt_overwritten` : **to
  overwrite a node anywhere in a tree leaves the tree as before, but for reports of the word**;
* `Program.run_overwrite` : **an overwritten program fails only where it is reached**.

Assignments are apart.  One under a foreign operator reads its target first, which a plain
assignment does not, so it can fail in a way that has nothing to do with the operator.  That is why
`Stmt.Overwritten` asks for known operators of assignments and says that they were known before.
-/

namespace FlatScript

open Outcome

variable {α β : Type} {F : Fault → Prop}

/-! ### Foreign words -/

/-- The kind names of the classes of nodes. -/
def kindNames : List String :=
  ["number", "text", "variable_ref", "additive", "multiplicative", "paren", "call", "comparison",
    "arith_term", "not", "paren_condition", "bool", "null", "chain", "declaration", "assignment",
    "expression", "if", "for", "while", "return", "call_stmt", "function"]

/-- The symbols of the operators of one set. -/
def symbolsOf (α : Type) [Spelled α] : List String := (Spelled.all : List α).map Spelled.spell

/-- The words that a class has as its kind name or an operator as its symbol. -/
def languageWords : List String :=
  kindNames ++ symbolsOf ArithOp ++ symbolsOf CompareOp ++ symbolsOf LogicalOp ++
    symbolsOf AssignOp

/-- No class has the word as its kind name, and no operator has it as its symbol. -/
def IsForeign (word : String) : Prop := word ∉ languageWords

instance (word : String) : Decidable (IsForeign word) := inferInstanceAs (Decidable (_ ∉ _))

/-- A foreign word is no operator of any of the sets. -/
theorem IsForeign.ofSymbol_eq [Spelled α] {word : String} (h : IsForeign word)
    (hα : ∀ w ∈ symbolsOf α, w ∈ languageWords) :
    (Operator.ofSymbol word : Operator α) = .foreign word := by
  have hword : word ∉ symbolsOf α := fun hmem => h (hα word hmem)
  have hparse : (Spelled.parse? word : Option α) = none := by
    simpa [Spelled.parse?, Spelled.among?, symbolsOf] using hword
  rw [Operator.ofSymbol, hparse]

/-- The faults `F` are those of reaching the word where that breaks an invariant of the language,
and maybe others.  The operator of an assignment is no such place. -/
def Reports (F : Fault → Prop) (word : String) : Prop :=
  ∀ lookup, (Fault.unsupported lookup word).category? = some .invariant →
    F (.unsupported lookup word)

/-! ### Computations as before -/

/-- The second evaluation gives what the first one gives, or reports a fault of `F`. -/
inductive SameOrReports (F : Fault → Prop) (x : Except Fault α) : Except Fault α → Prop
  | same : SameOrReports F x x
  | reported {f : Fault} (h : F f) : SameOrReports F x (.error f)

theorem SameOrReports.bind {x x' : Except Fault α} {k k' : α → Except Fault β}
    (h : SameOrReports F x x') (hk : ∀ a, SameOrReports F (k a) (k' a)) :
    SameOrReports F (x >>= k) (x' >>= k') := by
  cases h with
  | same =>
    cases x with
    | error f => exact .same
    | ok a => exact hk a
  | reported hw => exact .reported hw

namespace Outcome

/-- The second outcome is the first one, or a report of a fault of `F`.  Whatever machine the first
one leaves behind, it has logged what was logged by the time of the report. -/
inductive AsBefore (F : Fault → Prop) (o : Outcome α) : Outcome α → Prop
  | same : AsBefore F o o
  | reported {f : Fault} {m : Machine} (h : F f) (hlog : o.Grows m) : AsBefore F o (.failed f m)

variable {o o' o'' : Outcome α}

theorem AsBefore.trans (h : o.AsBefore F o') (h' : o'.AsBefore F o'') : o.AsBefore F o'' := by
  cases h' with
  | same => exact h
  | reported hw hlog =>
    cases h with
    | same => exact .reported hw hlog
    | reported _ hlog' => exact .reported hw fun m' hm' => (hlog _ rfl).trans (hlog' m' hm')

theorem AsBefore.andThen {next next' : α → Machine → Outcome β} (h : o.AsBefore F o')
    (hgrows : ∀ a m, (next a m).Grows m) (hnext : ∀ a m, (next a m).AsBefore F (next' a m)) :
    (o.andThen next).AsBefore F (o'.andThen next') := by
  cases h with
  | same =>
    cases o with
    | done a m => exact hnext a m
    | failed f m => exact .same
    | outOfFuel => exact .same
  | reported hw hlog => exact .reported hw (hlog.andThen hgrows)

theorem AsBefore.ofExcept {x x' : Except Fault α} (h : SameOrReports F x x') (m : Machine) :
    (ofExcept m x).AsBefore F (ofExcept m x') := by
  cases h with
  | same => exact .same
  | reported hw => exact .reported hw (grows_ofExcept m x)

end Outcome

/-! ### Lists with one member changed -/

theorem forall₂_modify {R : α → α → Prop} {f : α → α} (hrefl : ∀ a, R a a) (hf : ∀ a, R a (f a))
    (l : List α) (i : Nat) : List.Forall₂ R l (l.modify i f) := by
  induction l generalizing i with
  | nil => simp
  | cons a l ih =>
    cases i with
    | zero =>
      rw [List.modify_zero_cons]
      exact .cons (hf a) (List.forall₂_same.2 fun b _ => hrefl b)
    | succ i =>
      rw [List.modify_succ_cons]
      exact .cons (hrefl a) (ih i)

/-! ### Expressions -/

/-- The second expression evaluates as the first one, or reports a fault of `F`. -/
def Expr.AsBefore (F : Fault → Prop) (e e' : Expr) : Prop :=
  ∀ σ, SameOrReports F (e.eval σ) (e'.eval σ)

/-- The same for right-hand sides, whether as values or as operands. -/
structure RValue.AsBefore (F : Fault → Prop) (v v' : RValue) : Prop where
  eval : ∀ σ, SameOrReports F (v.eval σ) (v'.eval σ)
  evalNumber : ∀ σ, SameOrReports F (v.evalNumber σ) (v'.evalNumber σ)

theorem Expr.AsBefore.refl (e : Expr) : e.AsBefore F e := fun _ => .same

theorem RValue.AsBefore.refl (v : RValue) : v.AsBefore F v := ⟨fun _ => .same, fun _ => .same⟩

theorem Expr.AsBefore.binary {left left' right right' : Expr} (op : Operator ArithOp)
    (hleft : left.AsBefore F left') (hright : right.AsBefore F right') :
    (Expr.binary op left right).AsBefore F (.binary op left' right') := by
  intro σ
  simp only [Expr.eval]
  exact (hleft σ).bind fun x => (hright σ).bind fun y => .same

/-- The arguments are counted before the only one is evaluated. -/
theorem Expr.AsBefore.call {args args' : List Expr} (name : String)
    (hargs : List.Forall₂ (Expr.AsBefore F) args args') :
    (Expr.call name args).AsBefore F (.call name args') := by
  intro σ
  simp only [Expr.eval]
  cases (Spelled.parse? name : Option Builtin) with
  | none => exact .same
  | some f =>
    cases hargs with
    | nil => exact .same
    | cons harg hrest =>
      cases hrest with
      | nil => exact (harg σ).bind fun x => .same
      | cons _ hrest =>
        simp only [List.length_cons, hrest.length_eq]
        exact .same

namespace Overwrite

variable {word : String}

section
variable (hforeign : IsForeign word) (hF : Reports F word)
  (part : Part)

theorem insideExpr_asBefore {f : Expr → Expr} (hf : ∀ e : Expr, e.AsBefore F (f e)) (e : Expr) :
    e.AsBefore F (insideExpr f e) := by
  cases e with
  | relabelled kind e => exact fun _ => .same
  | _ => exact hf _

include hF in
theorem relabelExpr_asBefore (e : Expr) : e.AsBefore F (e.relabel word) := by
  intro σ
  cases e <;> exact .reported (hF _ rfl)

include hforeign hF in
theorem exprOp_asBefore (op : Operator ArithOp) (left right : Expr) :
    (Expr.binary op left right).AsBefore F (.binary (.ofSymbol word) left right) := by
  have hop : (Operator.ofSymbol word : Operator ArithOp) = .foreign word :=
    hforeign.ofSymbol_eq fun w hw => by simp [languageWords, hw]
  intro σ
  simp only [hop, Expr.eval]
  exact SameOrReports.same.bind fun x => SameOrReports.same.bind fun y =>
    .reported (hF _ rfl)

include hforeign hF in
theorem expr_asBefore (path : List Step) (e : Expr) :
    e.AsBefore F (Overwrite.expr part word path e) := by
  -- by the length of the path: to go to an argument takes two steps off it
  induction hn : path.length using Nat.strongRecOn generalizing path e with
  | ind n ih =>
  subst hn
  unfold Overwrite.expr
  split
  · split
    · exact relabelExpr_asBefore hF e
    · refine insideExpr_asBefore (fun e => ?_) e
      cases e with
      | binary op left right => exact exprOp_asBefore hforeign hF op left right
      | _ => exact .refl _
  · refine insideExpr_asBefore (fun e => ?_) e
    cases e with
    | binary op left right => exact .binary op (ih _ (by simp) _ left rfl) (.refl right)
    | _ => exact .refl _
  · refine insideExpr_asBefore (fun e => ?_) e
    cases e with
    | binary op left right => exact .binary op (.refl left) (ih _ (by simp) _ right rfl)
    | _ => exact .refl _
  · refine insideExpr_asBefore (fun e => ?_) e
    cases e with
    | paren inner => exact ih _ (by simp) _ inner rfl
    | _ => exact .refl _
  · refine insideExpr_asBefore (fun e => ?_) e
    cases e with
    | call name args =>
      refine .call name (forall₂_modify .refl (fun arg => ih _ ?_ _ arg rfl) args _)
      simp only [List.length_cons]
      omega
    | _ => exact .refl _
  · exact .refl _

include hforeign hF in
theorem args_asBefore (path : List Step) (es : List Expr) :
    List.Forall₂ (Expr.AsBefore F) es (args part word path es) := by
  unfold args
  split
  · exact forall₂_modify .refl (expr_asBefore hforeign hF part _) es _
  · exact List.forall₂_same.2 fun e _ => .refl e

/-- A text under a foreign kind name is still a value, and is reported as an operand only. -/
theorem relabelText_asBefore (hF : Reports F word)
    {v : RValue} (hv : ∀ e, v ≠ .arith e) : v.AsBefore F (v.relabel word) := by
  cases v with
  | arith e => exact absurd rfl (hv e)
  | text s => exact ⟨fun σ => .same, fun σ => .reported (hF _ rfl)⟩
  | relabelledText kind s => exact ⟨fun σ => .same, fun σ => .reported (hF _ rfl)⟩

include hforeign hF in
theorem value_asBefore (path : List Step) (v : RValue) :
    v.AsBefore F (Overwrite.value part word path v) := by
  unfold Overwrite.value
  split
  · rename_i e
    have he := expr_asBefore hforeign hF part path e
    exact ⟨fun σ => (he σ).bind fun x => .same, he⟩
  · rename_i hv
    split
    · exact relabelText_asBefore hF hv
    · exact .refl v

end

end Overwrite

/-! ### Conditions -/

/-- The second condition is tested as the first one, or reports a fault of `F`. -/
def Condition.AsBefore (F : Fault → Prop) (c c' : Condition) : Prop :=
  ∀ tolerance σ, SameOrReports F (c.test tolerance σ) (c'.test tolerance σ)

/-- The same for a link, as a chain of its own. -/
def Link.AsBefore (F : Fault → Prop) (l l' : Link) : Prop :=
  ∀ tolerance σ soFar, SameOrReports F (Link.testAll tolerance σ soFar [l])
    (Link.testAll tolerance σ soFar [l'])

theorem Condition.AsBefore.refl (c : Condition) : c.AsBefore F c := fun _ _ => .same

theorem Link.AsBefore.refl (l : Link) : l.AsBefore F l := fun _ _ _ => .same

theorem Link.testAll_cons (tolerance : Double) (σ : Store) (soFar : Bool) (l : Link)
    (links : List Link) :
    Link.testAll tolerance σ soFar (l :: links) =
      Link.testAll tolerance σ soFar [l] >>= fun b => Link.testAll tolerance σ b links := by
  obtain ⟨op, term⟩ := l
  simp only [Link.testAll, bind_assoc]
  rfl

theorem Condition.AsBefore.comparison {left left' right right' : Expr} (op : Operator CompareOp)
    (hleft : left.AsBefore F left') (hright : right.AsBefore F right') :
    (Condition.comparison op left right).AsBefore F (.comparison op left' right') := by
  intro tolerance σ
  simp only [Condition.test]
  exact (hleft σ).bind fun x => (hright σ).bind fun y => .same

theorem Condition.AsBefore.chain {head head' : Condition} {links links' : List Link}
    (hhead : head.AsBefore F head') (hlinks : List.Forall₂ (Link.AsBefore F) links links') :
    (Condition.chain head links).AsBefore F (.chain head' links') := by
  intro tolerance σ
  simp only [Condition.test]
  refine (hhead tolerance σ).bind fun first => ?_
  induction hlinks generalizing first with
  | nil => exact .same
  | @cons l l' ls ls' hl _ ih =>
    rw [Link.testAll_cons _ _ first l ls, Link.testAll_cons _ _ first l' ls']
    exact (hl tolerance σ first).bind ih

namespace Overwrite

variable {word : String}

section
variable (hforeign : IsForeign word) (hF : Reports F word)
  (part : Part)

theorem insideCondition_asBefore {f : Condition → Condition}
    (hf : ∀ c : Condition, c.AsBefore F (f c)) (c : Condition) :
    c.AsBefore F (insideCondition f c) := by
  cases c with
  | relabelled kind c => exact fun _ _ => .same
  | _ => exact hf _

include hF in
theorem relabelCondition_asBefore (c : Condition) : c.AsBefore F (c.relabel word) := by
  intro tolerance σ
  cases c <;> exact .reported (hF _ rfl)

include hforeign hF in
theorem conditionOp_asBefore (op : Operator CompareOp) (left right : Expr) :
    (Condition.comparison op left right).AsBefore F
      (.comparison (.ofSymbol word) left right) := by
  have hop : (Operator.ofSymbol word : Operator CompareOp) = .foreign word :=
    hforeign.ofSymbol_eq fun w hw => by simp [languageWords, hw]
  intro tolerance σ
  simp only [hop, Condition.test]
  exact SameOrReports.same.bind fun x => SameOrReports.same.bind fun y =>
    .reported (hF _ rfl)

include hforeign hF in
/-- The term of a link is tested before its operator is looked at. -/
theorem linkOp_asBefore (l : Link) : l.AsBefore F (linkOp part word l) := by
  obtain ⟨op, term⟩ := l
  have hop : (Operator.ofSymbol word : Operator LogicalOp) = .foreign word :=
    hforeign.ofSymbol_eq fun w hw => by simp [languageWords, hw]
  cases part with
  | kind => exact .refl _
  | op =>
    intro tolerance σ soFar
    simp only [linkOp, hop, Link.testAll]
    exact SameOrReports.same.bind fun next => .reported (hF _ rfl)

theorem linkTerm_asBefore {f : Condition → Condition} (hf : ∀ c : Condition, c.AsBefore F (f c))
    (l : Link) : l.AsBefore F (match l with | .mk op term => .mk op (f term)) := by
  obtain ⟨op, term⟩ := l
  intro tolerance σ soFar
  simp only [Link.testAll]
  exact (hf term tolerance σ).bind fun next => .same

include hforeign hF in
theorem condition_asBefore (path : List Step) (c : Condition) :
    c.AsBefore F (Overwrite.condition part word path c) := by
  induction hn : path.length using Nat.strongRecOn generalizing path c with
  | ind n ih =>
  subst hn
  unfold Overwrite.condition
  split
  · split
    · exact relabelCondition_asBefore hF c
    · refine insideCondition_asBefore (fun c => ?_) c
      cases c with
      | comparison op left right => exact conditionOp_asBefore hforeign hF op left right
      | _ => exact .refl _
  · refine insideCondition_asBefore (fun c => ?_) c
    cases c with
    | comparison op left right =>
      exact .comparison op (expr_asBefore hforeign hF part _ left) (.refl right)
    | _ => exact .refl _
  · refine insideCondition_asBefore (fun c => ?_) c
    cases c with
    | comparison op left right =>
      exact .comparison op (.refl left) (expr_asBefore hforeign hF part _ right)
    | _ => exact .refl _
  · refine insideCondition_asBefore (fun c => ?_) c
    cases c with
    | truth e => exact fun _ σ => (expr_asBefore hforeign hF part _ e σ).bind fun x => .same
    | _ => exact .refl _
  · refine insideCondition_asBefore (fun c => ?_) c
    cases c with
    | not operand =>
      exact fun tolerance σ => (ih _ (by simp) _ operand rfl tolerance σ).bind fun b => .same
    | _ => exact .refl _
  · refine insideCondition_asBefore (fun c => ?_) c
    cases c with
    | paren inner => exact ih _ (by simp) _ inner rfl
    | _ => exact .refl _
  · refine insideCondition_asBefore (fun c => ?_) c
    cases c with
    | chain head links =>
      exact .chain (ih _ (by simp) _ head rfl) (List.forall₂_same.2 fun l _ => .refl l)
    | _ => exact .refl _
  · refine insideCondition_asBefore (fun c => ?_) c
    cases c with
    | chain head links =>
      exact .chain (.refl head) (forall₂_modify .refl (linkOp_asBefore hforeign hF part) links _)
    | _ => exact .refl _
  · rename_i i path
    refine insideCondition_asBefore (fun c => ?_) c
    cases c with
    | chain head links =>
      have hterm := linkTerm_asBefore fun term =>
        ih path.length (by simp only [List.length_cons]; omega) path term rfl
      exact .chain (.refl head) (forall₂_modify .refl hterm links _)
    | _ => exact .refl _
  · exact .refl _

end

end Overwrite

/-! ### Declarations and assignments -/

/-- The second declarator has the same name and is evaluated as the first one, or reports a fault
of `F`. -/
structure Declarator.AsBefore (F : Fault → Prop) (d d' : Declarator) : Prop where
  name : d.name = d'.name
  eval : ∀ σ type, SameOrReports F (d.eval σ type) (d'.eval σ type)

/-- The second declaration executes as the first one, or reports a fault of `F`. -/
def Declaration.AsBefore (F : Fault → Prop) (d d' : Declaration) : Prop :=
  ∀ m, (d.exec m).AsBefore F (d'.exec m)

/-- If the second assignment has a known operator, so has the first one, and the second executes as
the first or reports a fault of `F`. -/
def Assignment.Overwritten (F : Fault → Prop) (a a' : Assignment) : Prop :=
  a'.action.op.isKnown = true →
    a.action.op.isKnown = true ∧ ∀ m, (a.exec m).AsBefore F (a'.exec m)

theorem Declarator.AsBefore.refl (d : Declarator) : d.AsBefore F d := ⟨rfl, fun _ _ => .same⟩

theorem Declaration.AsBefore.refl (d : Declaration) : d.AsBefore F d := fun _ => .same

theorem Assignment.Overwritten.refl (a : Assignment) : a.Overwritten F a :=
  fun h => ⟨h, fun _ => .same⟩

theorem Declarator.execAll_asBefore {ds ds' : List Declarator}
    (h : List.Forall₂ (Declarator.AsBefore F) ds ds') (type : TypeTag) (last : Option Value)
    (m : Machine) :
    (Declarator.execAll type ds last m).AsBefore F (Declarator.execAll type ds' last m) := by
  induction h generalizing last m with
  | nil => exact .same
  | cons hd _ ih =>
    rw [execAll_cons, execAll_cons, ← hd.name]
    refine (AsBefore.ofExcept (hd.eval m.store type) m).andThen (fun v m₁ => ?_) fun v m₁ => ?_
    · exact execAll_grows type _ (some v) (m₁.declare _ v type)
    · exact ih (some v) _

theorem Assignment.exec_asBefore {a a' : Assignment} (htarget : a.target = a'.target)
    (h : ∀ σ, SameOrReports F (a.action.eval σ a.target) (a'.action.eval σ a.target))
    (m : Machine) : (a.exec m).AsBefore F (a'.exec m) := by
  have hexec : ∀ b : Assignment, b.exec m =
      (ofExcept m (b.action.eval m.store b.target)).andThen fun v m =>
        .done (some v) (m.assign b.target v) := by
    intro b
    rw [Assignment.exec]
    cases b.action.eval m.store b.target <;> rfl
  rw [hexec, hexec, ← htarget]
  refine (AsBefore.ofExcept (h m.store) m).andThen (fun v m₁ => ?_) fun v m₁ => .same
  exact grows_done (some v) (.refl m₁)

namespace Overwrite

variable {word : String}

section
variable (hforeign : IsForeign word) (hF : Reports F word)
  (part : Part)
include hforeign hF

theorem declarator_asBefore (path : List Step) (d : Declarator) :
    d.AsBefore F (Overwrite.declarator part word path d) := by
  unfold Overwrite.declarator
  split
  · refine ⟨rfl, fun σ type => ?_⟩
    unfold Declarator.eval
    cases d.initializer with
    | none => exact .same
    | some v => exact (value_asBefore hforeign hF part _ v).eval σ
  · exact .refl d

theorem declaration_asBefore (path : List Step) (d : Declaration) :
    d.AsBefore F (Overwrite.declaration part word path d) := by
  unfold Overwrite.declaration
  split
  · rename_i i path
    have hds := forall₂_modify .refl (declarator_asBefore hforeign hF part path) d.declarators i
    exact Declarator.execAll_asBefore hds d.type none
  · exact .refl d

theorem assignment_overwritten (path : List Step) (a : Assignment) :
    a.Overwritten F (Overwrite.assignment part word path a) := by
  have hvalue := value_asBefore hforeign hF part
  unfold Overwrite.assignment
  split
  · cases part with
    | kind => exact .refl a
    | op =>
      have hop : (Operator.ofSymbol word : Operator AssignOp) = .foreign word :=
        hforeign.ofSymbol_eq fun w hw => by simp [languageWords, hw]
      -- nothing is claimed of an assignment under a foreign operator
      intro hknown
      simp [Action.withOp, hop, Action.op, Operator.isKnown] at hknown
  · rename_i path
    intro hknown
    cases haction : a.action with
    | set v =>
      refine ⟨rfl, Assignment.exec_asBefore rfl fun σ => ?_⟩
      simp only [haction, Action.eval]
      exact (hvalue path v).eval σ
    | update op v =>
      refine ⟨rfl, Assignment.exec_asBefore rfl fun σ => ?_⟩
      simp only [haction, Action.eval]
      refine SameOrReports.same.bind fun w => SameOrReports.same.bind fun x => ?_
      exact ((hvalue path v).evalNumber σ).bind fun y => .same
    | increment =>
      refine ⟨rfl, Assignment.exec_asBefore rfl fun σ => ?_⟩
      simp only [haction]
      exact .same
    | decrement =>
      refine ⟨rfl, Assignment.exec_asBefore rfl fun σ => ?_⟩
      simp only [haction]
      exact .same
    | foreign symbol operand => simp [haction, Action.op, Operator.isKnown] at hknown
  · exact .refl a

end

end Overwrite

/-! ### Statements -/

/-- The piece is no assignment under a foreign operator. -/
def Piece.HasKnownOp : Piece → Prop
  | .assignment a => a.action.op.isKnown = true
  | _ => True

/-- If the assignments in the second statement have known operators, so have those in the first
one, and the second executes as the first or reports a fault of `F`. -/
def Stmt.Overwritten (F : Fault → Prop) (s s' : Stmt) : Prop :=
  s'.All Piece.HasKnownOp → s.All Piece.HasKnownOp ∧
    ∀ tolerance fuel m, (s.exec tolerance fuel m).AsBefore F (s'.exec tolerance fuel m)

theorem Stmt.Overwritten.refl (s : Stmt) : s.Overwritten F s := fun h => ⟨h, fun _ _ _ => .same⟩

theorem SameOrReports.eq_or {x x' : Except Fault α} (h : SameOrReports F x x') :
    x' = x ∨ ∃ f, F f ∧ x' = .error f := by
  cases h with
  | same => exact .inl rfl
  | reported hf => exact .inr ⟨_, hf, rfl⟩

theorem rel_map {R : α → α → Prop} {f : α → α} (hf : ∀ a, R a (f a)) (o : Option α) :
    Option.Rel R o (o.map f) := by
  cases o with
  | none => exact .none
  | some a => exact .some (hf a)

theorem rel_refl {R : α → α → Prop} (hR : ∀ a, R a a) (o : Option α) : Option.Rel R o o := by
  cases o with
  | none => exact .none
  | some a => exact .some (hR a)

theorem testOptional_asBefore {c c' : Option Condition}
    (h : Option.Rel (Condition.AsBefore F) c c') (tolerance : Double) (σ : Store) :
    SameOrReports F (testOptional tolerance σ c) (testOptional tolerance σ c') := by
  cases h with
  | none => exact .same
  | some hc => exact hc tolerance σ

theorem execInit_asBefore {init init' : Option Declaration}
    (h : Option.Rel (Declaration.AsBefore F) init init') (m : Machine) :
    (execInit init m).AsBefore F (execInit init' m) := by
  cases h with
  | none => exact .same
  | some hd => exact hd m

theorem execUpdate_asBefore {update update' : Option Assignment}
    (h : Option.Rel (Assignment.Overwritten F) update update')
    (hknown : ∀ a ∈ update', (Piece.assignment a).HasKnownOp) :
    (∀ a ∈ update, (Piece.assignment a).HasKnownOp) ∧
      ∀ m, (execUpdate update m).AsBefore F (execUpdate update' m) := by
  cases h with
  | none => exact ⟨by simp, fun m => .same⟩
  | some ha =>
    obtain ⟨hop, hexec⟩ := ha (hknown _ rfl)
    refine ⟨?_, hexec⟩
    rintro _ ⟨⟩
    exact hop

theorem Stmt.execAll_asBefore {ss ss' : List Stmt} (h : List.Forall₂ (Stmt.Overwritten F) ss ss')
    (hknown : ∀ s ∈ ss', s.All Piece.HasKnownOp) :
    (∀ s ∈ ss, s.All Piece.HasKnownOp) ∧ ∀ tolerance fuel last m,
      (Stmt.execAll tolerance fuel ss last m).AsBefore F
        (Stmt.execAll tolerance fuel ss' last m) := by
  induction h with
  | nil => exact ⟨by simp, fun _ _ _ _ => .same⟩
  | cons hs _ ih =>
    obtain ⟨hs', hss'⟩ := List.forall_mem_cons.1 hknown
    obtain ⟨hhead, hexec⟩ := hs hs'
    obtain ⟨htail, hexecAll⟩ := ih hss'
    refine ⟨List.forall_mem_cons.2 ⟨hhead, htail⟩, fun tolerance fuel last m => ?_⟩
    rw [execAll_cons, execAll_cons]
    exact (hexec tolerance fuel m).andThen (execAll_grows tolerance fuel _)
      (hexecAll tolerance fuel)

/-- A loop is as before if its test and its rounds are. -/
theorem iterate_asBefore {kind : LoopKind} {test test' : Store → Except Fault Bool}
    {body body' update update' : Machine → Outcome (Option Value)}
    (htest : ∀ σ, SameOrReports F (test σ) (test' σ))
    (hround : ∀ m, (loopRound body update m).AsBefore F (loopRound body' update' m))
    (hgrows : ∀ m, (loopRound body update m).Grows m) (fuel count : Nat) (last : Option Value)
    (m : Machine) :
    (iterate kind test body update fuel count last m).AsBefore F
      (iterate kind test' body' update' fuel count last m) := by
  induction fuel generalizing count last m with
  | zero => exact .same
  | succ fuel ih =>
    rcases (htest m.store).eq_or with ht | ⟨f, hf, ht⟩
    · cases hholds : test m.store with
      | error f =>
        rw [iterate_of_error hholds, iterate_of_error (ht.trans hholds)]
        exact .same
      | ok holds =>
        cases holds with
        | false =>
          rw [iterate_of_false hholds, iterate_of_false (ht.trans hholds)]
          exact .same
        | true =>
          rw [iterate_of_true hholds, iterate_of_true (ht.trans hholds)]
          exact (hround m).andThen (iterate_grows hgrows fuel (count + 1)) (ih (count + 1))
    · -- the test reports on the machine as it is, and the loop itself only adds to the log
      rw [iterate_of_error ht]
      exact .reported hf (iterate_grows hgrows (fuel + 1) count last m)

theorem loopRound_asBefore {body body' update update' : Machine → Outcome (Option Value)}
    (hbody : ∀ m, (body m).AsBefore F (body' m))
    (hupdate : ∀ m, (update m).AsBefore F (update' m)) (hgrows : ∀ m, (update m).Grows m)
    (m : Machine) : (loopRound body update m).AsBefore F (loopRound body' update' m) := by
  refine (hbody m).andThen (fun v m₁ => ?_) fun v m₁ => ?_
  · exact (hgrows m₁).andThen fun _ m₂ => grows_done v (.refl m₂)
  · exact (hupdate m₁).andThen (fun _ m₂ => grows_done v (.refl m₂)) fun _ _ => .same

namespace Stmt.Overwritten

theorem declare {d d' : Declaration} (h : d.AsBefore F d') :
    (Stmt.declare d).Overwritten F (.declare d') := by
  intro _
  refine ⟨.declare trivial, fun tolerance fuel m => ?_⟩
  simp only [Stmt.exec]
  exact h m

theorem assign {a a' : Assignment} (h : a.Overwritten F a') :
    (Stmt.assign a).Overwritten F (.assign a') := by
  intro hall
  cases hall with
  | assign hknown =>
  obtain ⟨hop, hexec⟩ := h hknown
  refine ⟨.assign hop, fun tolerance fuel m => ?_⟩
  simp only [Stmt.exec]
  exact hexec m

theorem expression {e e' : Expr} (h : e.AsBefore F e') (span : Span) :
    (Stmt.expression e span).Overwritten F (.expression e' span) := by
  intro _
  refine ⟨.expression trivial, fun tolerance fuel m => ?_⟩
  simp only [Stmt.exec]
  exact .ofExcept ((h m.store).bind fun x => .same) m

theorem branch {c c' : Condition} {body body' : List Stmt}
    {alternative alternative' : Option (List Stmt)} (hc : c.AsBefore F c')
    (hbody : List.Forall₂ (Stmt.Overwritten F) body body')
    (halternative : Option.Rel (List.Forall₂ (Stmt.Overwritten F)) alternative alternative')
    (span : Span) :
    (Stmt.branch c body alternative span).Overwritten F
      (.branch c' body' alternative' span) := by
  intro h
  cases h with
  | branch _ hknown hknownAlternative =>
  obtain ⟨hbody', hexec⟩ := execAll_asBefore hbody hknown
  have hexecAlternative : (∀ b ∈ alternative, ∀ s ∈ b, s.All Piece.HasKnownOp) ∧
      ∀ tolerance fuel m, (Stmt.execAlternative tolerance fuel alternative m).AsBefore F
        (Stmt.execAlternative tolerance fuel alternative' m) := by
    cases halternative with
    | none => exact ⟨by simp, fun _ _ _ => .same⟩
    | some hb =>
      obtain ⟨hb', hexecBody⟩ := execAll_asBefore hb (hknownAlternative _ rfl)
      refine ⟨?_, fun tolerance fuel m => ?_⟩
      · rintro _ ⟨⟩
        exact hb'
      · simp only [Stmt.execAlternative]
        exact hexecBody tolerance fuel none m
  refine ⟨.branch trivial hbody' hexecAlternative.1, fun tolerance fuel m => ?_⟩
  rcases (hc tolerance m.store).eq_or with ht | ⟨f, hf, ht⟩
  · simp only [Stmt.exec, ht]
    cases c.test tolerance m.store with
    | error f => exact .same
    | ok holds =>
      cases holds with
      | true => exact hexec tolerance fuel none m
      | false => exact hexecAlternative.2 tolerance fuel m
  · have hreport : (Stmt.branch c' body' alternative' span).exec tolerance fuel m =
        .failed f m := by
      simp only [Stmt.exec, ht]
    rw [hreport]
    exact .reported hf (Stmt.exec_grows tolerance fuel _ m)

theorem forLoop {init init' : Option Declaration} {c c' : Option Condition}
    {update update' : Option Assignment} {body body' : List Stmt}
    (hinit : Option.Rel (Declaration.AsBefore F) init init')
    (hc : Option.Rel (Condition.AsBefore F) c c')
    (hupdate : Option.Rel (Assignment.Overwritten F) update update')
    (hbody : List.Forall₂ (Stmt.Overwritten F) body body') (span : Span) :
    (Stmt.forLoop init c update body span).Overwritten F
      (.forLoop init' c' update' body' span) := by
  intro h
  cases h with
  | forLoop _ _ hknownUpdate hknown =>
  obtain ⟨hupdate', hexecUpdate⟩ := execUpdate_asBefore hupdate hknownUpdate
  obtain ⟨hbody', hexec⟩ := execAll_asBefore hbody hknown
  refine ⟨.forLoop (fun _ _ => trivial) (fun _ _ => trivial) hupdate' hbody',
    fun tolerance fuel m => ?_⟩
  have hgrows : ∀ m, (loopRound (fun m => Stmt.execAll tolerance fuel body none m)
      (execUpdate update) m).Grows m :=
    loopRound_grows (Stmt.execAll_grows tolerance fuel body none) (execUpdate_grows update)
  simp only [Stmt.exec]
  refine (execInit_asBefore hinit m).andThen (fun _ => iterate_grows hgrows fuel 0 none) ?_
  intro _ m₁
  exact iterate_asBefore (testOptional_asBefore hc tolerance)
    (loopRound_asBefore (hexec tolerance fuel none) hexecUpdate (execUpdate_grows update))
    hgrows fuel 0 none m₁

theorem whileLoop {c c' : Option Condition} {body body' : List Stmt}
    (hc : Option.Rel (Condition.AsBefore F) c c')
    (hbody : List.Forall₂ (Stmt.Overwritten F) body body') (span : Span) :
    (Stmt.whileLoop c body span).Overwritten F (.whileLoop c' body' span) := by
  intro h
  cases h with
  | whileLoop _ hknown =>
  obtain ⟨hbody', hexec⟩ := execAll_asBefore hbody hknown
  refine ⟨.whileLoop (fun _ _ => trivial) hbody', fun tolerance fuel m => ?_⟩
  simp only [Stmt.exec]
  refine iterate_asBefore (testOptional_asBefore hc tolerance) ?_ ?_ fuel 0 none m
  · exact loopRound_asBefore (hexec tolerance fuel none) (fun _ => .same) (execUpdate_grows none)
  · exact loopRound_grows (Stmt.execAll_grows tolerance fuel body none) (execUpdate_grows none)

theorem ret {v v' : Option RValue} (h : Option.Rel (RValue.AsBefore F) v v') (span : Span) :
    (Stmt.ret v span).Overwritten F (.ret v' span) := by
  intro _
  refine ⟨.ret fun _ _ => trivial, fun tolerance fuel m => ?_⟩
  cases h with
  | none => exact .same
  | some hv =>
    simp only [Stmt.exec]
    exact .ofExcept ((hv.eval m.store).bind fun x => .same) m

theorem call {args args' : List Expr} (name : String)
    (h : List.Forall₂ (Expr.AsBefore F) args args') (span : Span) :
    (Stmt.call name args span).Overwritten F (.call name args' span) := by
  intro _
  refine ⟨.call trivial, fun tolerance fuel m => ?_⟩
  simp only [Stmt.exec]
  exact .ofExcept ((Expr.AsBefore.call name h m.store).bind fun x => .same) m

/-- A statement of a foreign kind is reported whatever it is. -/
theorem relabelled {s s' : Stmt} (kind : String) (h : s.Overwritten F s') :
    (Stmt.relabelled kind s).Overwritten F (.relabelled kind s') := by
  intro hall
  cases hall with
  | relabelled hs =>
  refine ⟨.relabelled (h hs).1, fun tolerance fuel m => ?_⟩
  simp only [Stmt.exec]
  exact .same

end Stmt.Overwritten

namespace Overwrite

variable {word : String}

theorem insideStmt_overwritten {f : Stmt → Stmt} (hf : ∀ s : Stmt, s.Overwritten F (f s))
    (s : Stmt) : s.Overwritten F (insideStmt f s) := by
  cases s with
  | relabelled kind s => exact .relabelled kind (hf s)
  | _ => exact hf _

section
variable (hforeign : IsForeign word) (hF : Reports F word)
  (part : Part)

include hF in
theorem relabelStmt_overwritten (s : Stmt) : s.Overwritten F (s.relabel word) := by
  have hexec : ∀ tolerance fuel m, (s.relabel word).exec tolerance fuel m =
      .failed (.unsupported .statementKind word) m := by
    intro tolerance fuel m
    cases s <;> simp only [Stmt.relabel, Stmt.exec]
  intro h
  refine ⟨?_, fun tolerance fuel m => ?_⟩
  · cases s with
    | relabelled kind s =>
      cases h with
      | relabelled hs => exact .relabelled hs
    | _ =>
      cases h with
      | relabelled hs => exact hs
  · rw [hexec]
    exact .reported (hF _ rfl) (s.exec_grows tolerance fuel m)

include hforeign hF in
theorem stmt_overwritten (path : List Step) (s : Stmt) :
    s.Overwritten F (Overwrite.stmt part word path s) := by
  have hblock : ∀ body : List Stmt, List.Forall₂ (Stmt.Overwritten F) body body :=
    fun body => List.forall₂_same.2 fun s _ => .refl s
  have hcondition := condition_asBefore hforeign hF part
  induction hn : path.length using Nat.strongRecOn generalizing path s with
  | ind n ih =>
  subst hn
  unfold Overwrite.stmt
  split
  · split
    · exact relabelStmt_overwritten hF s
    · refine insideStmt_overwritten (fun s => ?_) s
      cases s with
      | assign a => exact .assign (assignment_overwritten hforeign hF _ [] a)
      | _ => exact .refl _
  · rename_i i path
    have hbody := fun body : List Stmt => forall₂_modify .refl
      (fun s => ih path.length (by simp only [List.length_cons]; omega) path s rfl) body i
    refine insideStmt_overwritten (fun s => ?_) s
    cases s with
    | branch c body alternative span =>
      exact .branch (.refl c) (hbody body) (rel_refl hblock alternative) span
    | forLoop init c update body span =>
      exact .forLoop (rel_refl .refl init) (rel_refl .refl c) (rel_refl .refl update)
        (hbody body) span
    | whileLoop c body span => exact .whileLoop (rel_refl .refl c) (hbody body) span
    | _ => exact .refl _
  · rename_i i path
    have hbody := fun body : List Stmt => forall₂_modify .refl
      (fun s => ih path.length (by simp only [List.length_cons]; omega) path s rfl) body i
    refine insideStmt_overwritten (fun s => ?_) s
    cases s with
    | branch c body alternative span =>
      exact .branch (.refl c) (hblock body) (rel_map hbody alternative) span
    | _ => exact .refl _
  · rename_i path
    refine insideStmt_overwritten (fun s => ?_) s
    cases s with
    | branch c body alternative span =>
      exact .branch (hcondition path c) (hblock body) (rel_refl hblock alternative) span
    | forLoop init c update body span =>
      exact .forLoop (rel_refl .refl init) (rel_map (hcondition path) c) (rel_refl .refl update)
        (hblock body) span
    | whileLoop c body span =>
      exact .whileLoop (rel_map (hcondition path) c) (hblock body) span
    | _ => exact .refl _
  · rename_i path
    refine insideStmt_overwritten (fun s => ?_) s
    cases s with
    | forLoop init c update body span =>
      exact .forLoop (rel_map (declaration_asBefore hforeign hF part path) init)
        (rel_refl .refl c) (rel_refl .refl update) (hblock body) span
    | _ => exact .refl _
  · rename_i path
    refine insideStmt_overwritten (fun s => ?_) s
    cases s with
    | forLoop init c update body span =>
      exact .forLoop (rel_refl .refl init) (rel_refl .refl c)
        (rel_map (assignment_overwritten hforeign hF part path) update) (hblock body) span
    | _ => exact .refl _
  · refine insideStmt_overwritten (fun s => ?_) s
    cases s with
    | expression e span => exact .expression (expr_asBefore hforeign hF part _ e) span
    | _ => exact .refl _
  · refine insideStmt_overwritten (fun s => ?_) s
    cases s with
    | call name args span => exact .call name (args_asBefore hforeign hF part _ args) span
    | _ => exact .refl _
  · refine insideStmt_overwritten (fun s => ?_) s
    cases s with
    | assign a => exact .assign (assignment_overwritten hforeign hF part _ a)
    | ret v span => exact .ret (rel_map (value_asBefore hforeign hF part _) v) span
    | _ => exact .refl _
  · refine insideStmt_overwritten (fun s => ?_) s
    cases s with
    | declare d => exact .declare (declaration_asBefore hforeign hF part _ d)
    | _ => exact .refl _
  · exact .refl _

end

end Overwrite

/-! ### Programs -/

/-- If the assignments that the second program can run have known operators, so have those of the
first one, and the second runs as the first or reports a fault of `F`. -/
def Program.Overwritten (F : Fault → Prop) (p q : Program) : Prop :=
  (∀ scope, ∀ s ∈ q.stmts scope, s.All Piece.HasKnownOp) →
    (∀ scope, ∀ s ∈ p.stmts scope, s.All Piece.HasKnownOp) ∧
      ∀ tolerance fuel, (p.run tolerance fuel).AsBefore F (q.run tolerance fuel)

namespace Program.Overwritten

theorem refl (p : Program) : p.Overwritten F p := fun h => ⟨h, fun _ _ => .same⟩

theorem trans {p q r : Program} (h : p.Overwritten F q) (h' : q.Overwritten F r) :
    p.Overwritten F r := by
  intro hr
  obtain ⟨hq, hrun'⟩ := h' hr
  obtain ⟨hp, hrun⟩ := h hq
  exact ⟨hp, fun tolerance fuel => (hrun tolerance fuel).trans (hrun' tolerance fuel)⟩

theorem of_stmts {p q : Program} (hstart : p.start = q.start)
    (h : ∀ scope, List.Forall₂ (Stmt.Overwritten F) (p.stmts scope) (q.stmts scope)) :
    p.Overwritten F q := by
  intro hknown
  have hexec := fun scope => Stmt.execAll_asBefore (h scope) (hknown scope)
  refine ⟨fun scope => (hexec scope).1, fun tolerance fuel => ?_⟩
  have hfinish : ∀ (last : Option Value) (m : Machine),
      (done last (m.record (.finished m.store.size))).Grows m :=
    fun last m => grows_done last ((Machine.LogPrefix.refl m).record _)
  rw [run_eq, run_eq, ← hstart]
  refine ((hexec .globals).2 tolerance fuel none p.start).andThen (fun last m => ?_)
    fun last m => ?_
  · exact (Stmt.execAll_grows tolerance fuel _ last { m with scope := .main }).andThen hfinish
  · exact ((hexec .main).2 tolerance fuel last { m with scope := .main }).andThen hfinish
      fun _ _ => .same

end Program.Overwritten

theorem forall₂_filterMap {R : β → β → Prop} {f : α → Option β} {l l' : List α}
    (h : List.Forall₂ (fun a a' => Option.Rel R (f a) (f a')) l l') :
    List.Forall₂ R (l.filterMap f) (l'.filterMap f) := by
  induction h with
  | nil => exact .nil
  | @cons a a' _ _ ha _ ih =>
    rw [List.filterMap_cons, List.filterMap_cons]
    generalize f a = b at ha ⊢
    generalize f a' = b' at ha ⊢
    cases ha with
    | none => exact ih
    | some hb => exact .cons hb ih

namespace Overwrite

variable {word : String}

section
variable (hforeign : IsForeign word) (hF : Reports F word)
  (part : Part)
include hforeign hF

theorem global_overwritten (path : List Step) (g : Global) :
    Option.Rel (Stmt.Overwritten F) g.stmt? (Overwrite.global part word path g).stmt? := by
  have hdeclaration := fun path d =>
    Stmt.Overwritten.declare (declaration_asBefore hforeign hF part path d)
  unfold Overwrite.global
  split
  · split
    · cases g with
      | declaration d => exact .some (relabelStmt_overwritten hF (.declare d))
      | relabelledDeclaration kind d =>
        exact .some (relabelStmt_overwritten hF (.relabelled kind (.declare d)))
      | function f => exact .none
    · exact rel_refl .refl _
  · exact .none
  · exact .some (hdeclaration path _)
  · exact .some (.relabelled _ (hdeclaration path _))
  · exact rel_refl .refl _

theorem program_overwritten (path : List Step) (p : Program) :
    p.Overwritten F (Overwrite.program part word path p) := by
  unfold Overwrite.program
  split
  · rename_i i path
    refine .of_stmts (by simp [Program.start]) fun scope => ?_
    cases scope with
    | globals =>
      exact forall₂_filterMap (forall₂_modify (fun g => rel_refl .refl g.stmt?)
        (global_overwritten hforeign hF part path) p.globals i)
    | main => exact List.forall₂_same.2 fun s _ => .refl s
  · rename_i i path
    refine .of_stmts (by simp [Program.start]) fun scope => ?_
    cases scope with
    | globals => exact List.forall₂_same.2 fun s _ => .refl s
    | main => exact forall₂_modify .refl (stmt_overwritten hforeign hF part path) p.entry.body i
  · exact .refl p

end

end Overwrite

theorem Program.overwrite_overwritten {changes : List Overwrite} (p : Program)
    (h : ∀ c ∈ changes, IsForeign c.word ∧ Reports F c.word) :
    p.Overwritten F (p.overwrite changes) := by
  induction changes generalizing p with
  | nil => exact .refl p
  | cons c changes ih =>
    obtain ⟨⟨hforeign, hF⟩, hchanges⟩ := List.forall_mem_cons.1 h
    exact (Overwrite.program_overwritten hforeign hF c.part c.path p).trans (ih _ hchanges)

/-- A computation that is as before under every bound ends as before, or with a report. -/
theorem EndsWith.of_asBefore {run run' : Nat → Outcome α} (hrun : Steady run)
    (h : ∀ fuel, (run fuel).AsBefore F (run' fuel)) {o : Outcome α} (ho : EndsWith run' o) :
    EndsWith run o ∨
      ∃ f m, o = .failed f m ∧ F f ∧ ∀ o', EndsWith run o' → o'.Grows m := by
  obtain ⟨fuel, hfuel⟩ := ho.exists_fuel
  have hbefore := h fuel
  rw [hfuel] at hbefore
  generalize hfirst : run fuel = first at hbefore
  cases hbefore with
  | same => exact .inl (hrun.endsWith_of_eq hfirst ho.1)
  | @reported f m hf _ =>
    refine .inr ⟨f, m, rfl, hf, fun o' ho' => ?_⟩
    -- the first computation may need a larger bound to end than the report does
    obtain ⟨fuel', hfailed, ho'⟩ := ho.exists_common ho'
    have hbefore' := h fuel'
    rw [hfailed, ho'] at hbefore'
    cases hbefore' with
    | same => exact grows_failed f m
    | reported _ hlog => exact hlog

/-- **An overwritten program fails only where it is reached.**  Kind names and operators of a
program are overwritten by foreign words, the operators of assignments excepted: the assignments
that the result can run still have known ones.  If its run ends, then it ends as the run of the
program itself, with the same value or fault, the same variables and the same log; or it breaks an
invariant of the language, in words that name one of the changes, and whatever the run of the
program itself ends with, it has logged the same up to that point. -/
theorem Program.run_overwrite (tolerance : Double) (p : Program) (changes : List Overwrite)
    (hforeign : ∀ c ∈ changes, IsForeign c.word)
    (hops : ∀ a, .assignment a ∈ (p.overwrite changes).pieces → a.action.op.isKnown = true)
    (o : Outcome (Option Value))
    (ho : EndsWith (fun fuel => (p.overwrite changes).run tolerance fuel) o) :
    EndsWith (fun fuel => p.run tolerance fuel) o ∨
      ∃ f m, o = .failed f m ∧ f.category? = some .invariant ∧
        (∃ c ∈ changes, ∃ lookup : Lookup,
          f.message = "Unsupported " ++ lookup.description ++ ": " ++ c.word) ∧
        ∀ o', EndsWith (fun fuel => p.run tolerance fuel) o' → ∀ m' ∈ o'.machine?,
          m.log.toList <+: m'.log.toList := by
  let F : Fault → Prop := fun f => f.category? = some .invariant ∧ ∃ c ∈ changes,
    ∃ lookup : Lookup, f.message = "Unsupported " ++ lookup.description ++ ": " ++ c.word
  have hreport : ∀ c ∈ changes, Reports F c.word := by
    intro c hc lookup hinvariant
    cases lookup with
    | assignmentOp => cases hinvariant
    | absentOperand => cases hinvariant
    | _ => exact ⟨rfl, c, hc, _, rfl⟩
  have hknown : ∀ scope, ∀ s ∈ (p.overwrite changes).stmts scope, s.All Piece.HasKnownOp := by
    intro scope s hs
    refine s.all_of_forall_mem fun pc hpc => ?_
    have hmem : pc ∈ (p.overwrite changes).pieces := by
      cases scope with
      | globals => exact List.mem_append_left _ (Stmt.mem_piecesAll hs hpc)
      | main => exact List.mem_append_right _ (Stmt.mem_piecesAll hs hpc)
    cases pc with
    | assignment a => exact hops a hmem
    | _ => trivial
  have hrun : ∀ fuel, (p.run tolerance fuel).AsBefore F
      ((p.overwrite changes).run tolerance fuel) :=
    (p.overwrite_overwritten (fun c hc => ⟨hforeign c hc, hreport c hc⟩) hknown).2 tolerance
  rcases ho.of_asBefore (p.run_steady tolerance) hrun with hsame | ⟨f, m, rfl, hf, hlog⟩
  · exact .inl hsame
  · exact .inr ⟨f, m, rfl, hf.1, hf.2, hlog⟩

/-- A program counts to two, does not take a branch and adds.  Under a foreign kind name in the
branch and a foreign operator in the sum, it fails at the sum, and the loop is in both logs. -/
theorem Program.run_overwrite_of_sum :
    let zero : RValue := .arith (.number "0")
    let sum : Expr := .binary (.known .add) (.variable "x") (.number "1")
    let below (n : String) : Condition :=
      .comparison (.known .lt) (.variable "x") (.number n)
    let p : Program := {
      globals := [.declaration ⟨.int, [⟨"x", some zero, .unknown⟩], .unknown, by simp⟩]
      entry := { body := [
        .whileLoop (some (below "2")) [.assign ⟨"x", .set (.arith sum), .unknown⟩] .unknown,
        .branch (below "2") [.ret none .unknown] none .unknown,
        .expression sum .unknown] } }
    let changes : List Overwrite := [
      ⟨[.key "entry", .key "body", .index 1, .key "body", .index 0], .kind, "goto"⟩,
      ⟨[.key "entry", .key "body", .index 2, .key "expr"], .op, "**"⟩]
    let two : Value := .number (.ofDecimal ⟨false, 2, 0⟩)
    let three : Value := .number (.ofDecimal ⟨false, 3, 0⟩)
    let m : Machine :=
      { store := ⟨[("x", ⟨two, some .int, .globals⟩)]⟩, scope := .main,
        log := #[.started 1 3, .loopExited .whileLoop 2] }
    (∀ c ∈ changes, IsForeign c.word) ∧
      (∀ a, .assignment a ∈ (p.overwrite changes).pieces → a.action.op.isKnown = true) ∧
      EndsWith (fun fuel => (p.overwrite changes).run Double.one fuel)
        (.failed (.unsupported .arithmeticOp "**") m) ∧
      EndsWith (fun fuel => p.run Double.one fuel)
        (.done (some three) (m.record (.finished 1))) ∧
      (Fault.unsupported .arithmeticOp "**").category? = some .invariant ∧
      m.log.toList <+: (m.record (.finished 1)).log.toList := by
  intro zero sum below p changes two three m
  have hforeign : ∀ c ∈ changes, IsForeign c.word := by decide
  have hops : ∀ a, .assignment a ∈ (p.overwrite changes).pieces →
      a.action.op.isKnown = true := by
    intro a ha
    have hpieces : (p.overwrite changes).pieces =
        [.declaration ⟨.int, [⟨"x", some zero, .unknown⟩], .unknown, by simp⟩,
          .condition (below "2"), .assignment ⟨"x", .set (.arith sum), .unknown⟩,
          .condition (below "2"),
          .expr (.binary (.foreign "**") (.variable "x") (.number "1"))] := rfl
    rw [hpieces] at ha
    obtain rfl : a = ⟨"x", .set (.arith sum), .unknown⟩ := by simpa using ha
    rfl
  have hrun : (p.overwrite changes).run Double.one 3 =
      .failed (.unsupported .arithmeticOp "**") m := by decide +kernel
  have hends := ((p.overwrite changes).run_steady Double.one).endsWith_of_eq hrun (by simp)
  have hdone : p.run Double.one 3 = .done (some three) (m.record (.finished 1)) := by
    decide +kernel
  have hends' := (p.run_steady Double.one).endsWith_of_eq hdone (by simp)
  refine ⟨hforeign, hops, hends, hends', ?_⟩
  rcases run_overwrite Double.one p changes hforeign hops _ hends with h | ⟨f, m', h, hf, -, hlog⟩
  · -- a computation ends with one outcome only
    obtain ⟨fuel, hfailed, hdone'⟩ := h.exists_common hends'
    cases hfailed.symm.trans hdone'
  · cases h
    exact ⟨hf, hlog _ hends' _ rfl⟩

end FlatScript
