import FlatScript.Proofs.Overwriting
import FlatScript.Proofs.Reports

/-!
# Foreign kind names in an analysis

An analysis looks at the kind names of statements only, and only in bodies.  So it fails exactly if
one of these is foreign, and then at the first one that it comes across; every other kind name can
be overwritten without any change to the reports.

* `Program.analyzed` : the statements that an analysis comes across, in its order;
* `scanSubjects_eq_survey` : **the first pass fails at the first of them under a foreign kind
  name**, and at no other place;
* `Expr.SameText`, `RValue.SameText` : the source text and the calls are the same;
* `Stmt.Relabelled`, `Program.Relabelled` : a tree with some kind names overwritten.  As long as no
  kind name of a statement is foreign, an analysis sees no difference;
* `Overwrite.stmt_relabelled`, `Program.overwrite_relabelled` : to overwrite kind names anywhere in
  a tree leads to such a tree;
* `Program.analyze_overwrite` : **when the analysis of an overwritten program fails, where it does,
  and that it is the analysis of the program itself if it does not**.
-/

namespace FlatScript

/-! ### The statements of an analysis -/

/-- The statements that an analysis comes across: those of the functions in the order of their
declarations, then those of the entry block, and those of each body in preorder. -/
def Program.analyzed (p : Program) : List Stmt := p.subjects.flatMap fun s => Stmt.preorder s.body

/-- The first pass fails at the first statement under a foreign kind name. -/
theorem scanSubjects_eq_survey (subjects : List Subject) :
    scanSubjects subjects =
      match (subjects.flatMap fun s => Stmt.preorder s.body).findSome? Stmt.foreignKind? with
      | some kind => .error (.unsupported .statementKind kind)
      | none => .ok (subjects.map fun s => (s, .ofListed (Stmt.preorder s.body))) := by
  induction subjects with
  | nil => rfl
  | cons s rest ih =>
    rw [scanSubjects, ih, Stmt.scanAll_eq_survey, Stmt.survey, List.flatMap_cons,
      List.findSome?_append]
    cases (Stmt.preorder s.body).findSome? Stmt.foreignKind? with
    | some kind => rfl
    | none =>
      cases (rest.flatMap fun s => Stmt.preorder s.body).findSome? Stmt.foreignKind? <;> rfl

namespace Stmt

theorem ownAll_of_forall {ss : List Stmt}
    (hss : ∀ s ∈ ss, (∀ t ∈ s :: s.inside, t.foreignKind? = none) → s.isOwn = true)
    (h : ∀ t ∈ preorder ss, t.foreignKind? = none) : ownAll ss = true := by
  induction ss with
  | nil => rfl
  | cons s ss ih =>
    obtain ⟨hs, hrest⟩ := List.forall_mem_cons.1 hss
    rw [preorder_cons, List.forall_mem_append] at h
    rw [ownAll, hs h.1, ih hrest h.2, Bool.and_self]

theorem isOwn_of_foreignKind? (s : Stmt) (h : ∀ t ∈ s :: s.inside, t.foreignKind? = none) :
    s.isOwn = true := by
  induction s using Stmt.induct with
  | branch c body alternative span ihBody ihAlternative =>
    rw [List.forall_mem_cons, inside, List.forall_mem_append] at h
    obtain ⟨-, hbody, hother⟩ := h
    rw [isOwn, ownAll_of_forall ihBody hbody, Bool.true_and]
    cases alternative with
    | none => rfl
    | some other => exact ownAll_of_forall (ihAlternative other rfl) hother
  | forLoop init c update body span ih =>
    rw [List.forall_mem_cons, inside] at h
    exact ownAll_of_forall ih h.2
  | whileLoop c body span ih =>
    rw [List.forall_mem_cons, inside] at h
    exact ownAll_of_forall ih h.2
  | relabelled kind s ih => cases h _ List.mem_cons_self
  | _ => rfl

/-- A body is of this language exactly if no statement of it is under a foreign kind name. -/
theorem ownAll_iff {ss : List Stmt} :
    ownAll ss = true ↔ ∀ t ∈ preorder ss, t.foreignKind? = none :=
  ⟨foreignKind?_of_ownAll fun s _ => s.foreignKind?_of_isOwn,
    ownAll_of_forall fun s _ => s.isOwn_of_foreignKind?⟩

end Stmt

/-! ### Expressions -/

/-- The second expression has the text of the first one and calls the same functions. -/
structure Expr.SameText (e e' : Expr) : Prop where
  sourceText : e'.sourceText = e.sourceText
  calls : ∀ name, e'.calls name = e.calls name

/-- The same for right-hand sides. -/
structure RValue.SameText (v v' : RValue) : Prop where
  sourceText : v'.sourceText = v.sourceText
  calls : ∀ name, v'.calls name = v.calls name

theorem Expr.SameText.refl (e : Expr) : e.SameText e := ⟨rfl, fun _ => rfl⟩

theorem RValue.SameText.refl (v : RValue) : v.SameText v := ⟨rfl, fun _ => rfl⟩

theorem Expr.SameText.binary {left left' right right' : Expr} (op : Operator ArithOp)
    (hleft : left.SameText left') (hright : right.SameText right') :
    (Expr.binary op left right).SameText (.binary op left' right') := by
  refine ⟨?_, fun name => ?_⟩
  · simp only [Expr.sourceText, hleft.sourceText, hright.sourceText]
  · simp only [Expr.calls, hleft.calls, hright.calls]

theorem Expr.SameText.paren {inner inner' : Expr} (h : inner.SameText inner') :
    (Expr.paren inner).SameText (.paren inner') := by
  refine ⟨?_, h.calls⟩
  simp only [Expr.sourceText, h.sourceText]

theorem Expr.argsText_cons_cons (e₁ e₂ : Expr) (es : List Expr) :
    argsText (e₁ :: e₂ :: es) = e₁.sourceText ++ "," ++ argsText (e₂ :: es) := rfl

theorem Expr.argsText_congr {es es' : List Expr} (h : List.Forall₂ Expr.SameText es es') :
    Expr.argsText es' = Expr.argsText es := by
  induction h with
  | nil => rfl
  | cons he hes ih =>
    cases hes with
    | nil => simp only [argsText, he.sourceText]
    | cons he' hes' => rw [argsText_cons_cons, argsText_cons_cons, he.sourceText, ih]

theorem Expr.SameText.call {args args' : List Expr} (name : String)
    (h : List.Forall₂ Expr.SameText args args') :
    (Expr.call name args).SameText (.call name args') := by
  refine ⟨?_, fun _ => rfl⟩
  simp only [Expr.sourceText, Expr.argsText_congr h]

namespace Overwrite

variable (word : String)

theorem insideExpr_sameText {f : Expr → Expr} (hf : ∀ e : Expr, e.SameText (f e)) (e : Expr) :
    e.SameText (insideExpr f e) := by
  cases e with
  | relabelled kind e => exact ⟨(hf e).sourceText, (hf e).calls⟩
  | _ => exact hf _

/-- The kind name of an expression shows nowhere in an analysis. -/
theorem expr_sameText (path : List Step) (e : Expr) :
    e.SameText (Overwrite.expr .kind word path e) := by
  induction hn : path.length using Nat.strongRecOn generalizing path e with
  | ind n ih =>
  subst hn
  unfold Overwrite.expr
  split
  · cases e <;> exact ⟨rfl, fun _ => rfl⟩
  · refine insideExpr_sameText (fun e => ?_) e
    cases e with
    | binary op left right => exact .binary op (ih _ (by simp) _ left rfl) (.refl right)
    | _ => exact .refl _
  · refine insideExpr_sameText (fun e => ?_) e
    cases e with
    | binary op left right => exact .binary op (.refl left) (ih _ (by simp) _ right rfl)
    | _ => exact .refl _
  · refine insideExpr_sameText (fun e => ?_) e
    cases e with
    | paren inner => exact .paren (ih _ (by simp) _ inner rfl)
    | _ => exact .refl _
  · refine insideExpr_sameText (fun e => ?_) e
    cases e with
    | call name args =>
      refine .call name (forall₂_modify .refl (fun arg => ih _ ?_ _ arg rfl) args _)
      simp only [List.length_cons]
      omega
    | _ => exact .refl _
  · exact .refl _

theorem value_sameText (path : List Step) (v : RValue) :
    v.SameText (Overwrite.value .kind word path v) := by
  unfold Overwrite.value
  split
  · rename_i e
    have he := expr_sameText word path e
    exact ⟨he.sourceText, he.calls⟩
  · rename_i hv
    split
    · cases v with
      | arith e => exact absurd rfl (hv e)
      | text s => exact ⟨rfl, fun _ => rfl⟩
      | relabelledText kind s => exact ⟨rfl, fun _ => rfl⟩
    · exact .refl v

end Overwrite

/-! ### Declarations and assignments -/

/-- The second declarator has the same entry in a report and calls the same functions. -/
structure Declarator.SameText (d d' : Declarator) : Prop where
  info : ∀ type, d'.info type = d.info type
  calls : ∀ name, d'.initializer.any (RValue.calls name) = d.initializer.any (RValue.calls name)

/-- The same for declarations. -/
structure Declaration.SameText (d d' : Declaration) : Prop where
  contents : d'.contents = d.contents
  calls : ∀ name, d'.calls name = d.calls name

/-- The right-hand sides of the assignments call the same functions. -/
def Assignment.SameCalls (a a' : Assignment) : Prop :=
  ∀ name, a'.action.value?.any (RValue.calls name) = a.action.value?.any (RValue.calls name)

theorem Declarator.SameText.refl (d : Declarator) : d.SameText d := ⟨fun _ => rfl, fun _ => rfl⟩

theorem Declaration.SameText.refl (d : Declaration) : d.SameText d := ⟨rfl, fun _ => rfl⟩

theorem Assignment.SameCalls.refl (a : Assignment) : a.SameCalls a := fun _ => rfl

theorem RValue.any_calls_congr {v v' : Option RValue} (h : Option.Rel RValue.SameText v v')
    (name : String) : v'.any (RValue.calls name) = v.any (RValue.calls name) := by
  cases h with
  | none => rfl
  | some hv => exact hv.calls name

theorem RValue.map_sourceText_congr {v v' : Option RValue}
    (h : Option.Rel RValue.SameText v v') :
    v'.map RValue.sourceText = v.map RValue.sourceText := by
  cases h with
  | none => rfl
  | some hv => exact congrArg some hv.sourceText

theorem Declaration.SameText.of_declarators {d d' : Declaration} (htype : d'.type = d.type)
    (h : List.Forall₂ Declarator.SameText d.declarators d'.declarators) : d.SameText d' := by
  have hall : d'.declarators.map (Declarator.info d.type) =
        d.declarators.map (Declarator.info d.type) ∧
      ∀ name, d'.calls name = d.calls name := by
    simp only [Declaration.calls]
    generalize d.declarators = ds at h ⊢
    generalize d'.declarators = ds' at h ⊢
    induction h with
    | nil => exact ⟨rfl, fun _ => rfl⟩
    | cons hd _ ih =>
      refine ⟨?_, fun name => ?_⟩
      · rw [List.map_cons, List.map_cons, hd.info, ih.1]
      · rw [List.any_cons, List.any_cons, hd.calls, ih.2]
  refine ⟨?_, hall.2⟩
  rw [Declaration.contents, Declaration.contents, htype, hall.1]

namespace Overwrite

variable (word : String)

theorem declarator_sameText (path : List Step) (d : Declarator) :
    d.SameText (Overwrite.declarator .kind word path d) := by
  unfold Overwrite.declarator
  split
  · rename_i path
    have hvalue := rel_map (value_sameText word path) d.initializer
    refine ⟨fun type => ?_, RValue.any_calls_congr hvalue⟩
    rw [Declarator.info, Declarator.info, RValue.map_sourceText_congr hvalue]
  · exact .refl d

theorem declaration_sameText (path : List Step) (d : Declaration) :
    d.SameText (Overwrite.declaration .kind word path d) := by
  unfold Overwrite.declaration
  split
  · exact .of_declarators rfl (forall₂_modify .refl (declarator_sameText word _) d.declarators _)
  · exact .refl d

theorem assignment_sameCalls (path : List Step) (a : Assignment) :
    a.SameCalls (Overwrite.assignment .kind word path a) := by
  unfold Overwrite.assignment
  split
  · exact .refl a
  · rename_i path
    have hvalue := value_sameText word path
    intro name
    cases haction : a.action with
    | set v => exact (hvalue v).calls name
    | update op v => exact (hvalue v).calls name
    | increment => rfl
    | decrement => rfl
    | foreign symbol operand =>
      exact RValue.any_calls_congr (rel_map hvalue operand) name
  · exact .refl a

end Overwrite

/-! ### Statements -/

namespace Stmt

variable {W : String → Prop}

/-- The foreign kind names among those of listed statements are all of `W`. -/
def KindsIn (W : String → Prop) (ss : List Stmt) : Prop :=
  ∀ s ∈ ss, ∀ kind ∈ s.foreignKind?, W kind

theorem kindsIn_append {ss ts : List Stmt} :
    KindsIn W (ss ++ ts) ↔ KindsIn W ss ∧ KindsIn W ts := List.forall_mem_append

theorem kindsIn_singleton {s : Stmt} : KindsIn W [s] ↔ ∀ kind ∈ s.foreignKind?, W kind :=
  List.forall_mem_singleton

theorem kindsIn_singleton_of_none {s : Stmt} (h : s.foreignKind? = none) : KindsIn W [s] := by
  rw [kindsIn_singleton, h]
  intro kind hkind
  cases hkind

/-- The second statement is the first one with some kind names overwritten, those of statements by
words of `W`.  If no kind name of a statement is foreign in the second, then none is in the first,
and an analysis finds the same in both.  The kind name of the statement itself is apart from those
inside it because it can be overwritten once more. -/
structure Relabelled (W : String → Prop) (s s' : Stmt) : Prop where
  own : KindsIn W [s] → KindsIn W [s']
  inside : KindsIn W s.inside → KindsIn W s'.inside
  same : s'.isOwn = true →
    s.isOwn = true ∧ s'.scan = s.scan ∧ ∀ name, s'.calls name = s.calls name

/-- The same for bodies. -/
structure BodyRelabelled (W : String → Prop) (ss ss' : List Stmt) : Prop where
  kinds : KindsIn W (preorder ss) → KindsIn W (preorder ss')
  same : ownAll ss' = true →
    ownAll ss = true ∧ scanAll ss' = scanAll ss ∧ ∀ name, anyCalls name ss' = anyCalls name ss

theorem Relabelled.refl (s : Stmt) : s.Relabelled W s := ⟨id, id, fun h => ⟨h, rfl, fun _ => rfl⟩⟩

theorem BodyRelabelled.of_forall₂ {ss ss' : List Stmt}
    (h : List.Forall₂ (Relabelled W) ss ss') : BodyRelabelled W ss ss' := by
  induction h with
  | nil => exact ⟨id, fun h => ⟨h, rfl, fun _ => rfl⟩⟩
  | @cons s s' ss ss' hs _ ih =>
    refine ⟨fun hkinds => ?_, fun hown => ?_⟩
    · rw [preorder_cons, ← List.singleton_append, kindsIn_append, kindsIn_append] at hkinds ⊢
      exact ⟨⟨hs.own hkinds.1.1, hs.inside hkinds.1.2⟩, ih.kinds hkinds.2⟩
    · rw [ownAll, Bool.and_eq_true] at hown
      obtain ⟨hs', hscan, hcalls⟩ := hs.same hown.1
      obtain ⟨hss', hscanAll, hanyCalls⟩ := ih.same hown.2
      refine ⟨by rw [ownAll, hs', hss', Bool.and_self], ?_, fun name => ?_⟩
      · rw [scanAll, scanAll, hscan, hscanAll]
      · rw [anyCalls, anyCalls, hcalls, hanyCalls]

namespace Relabelled

theorem declare {d d' : Declaration} (h : d.SameText d') :
    (Stmt.declare d).Relabelled W (.declare d') where
  own _ := kindsIn_singleton_of_none rfl
  inside := id
  same _ := ⟨rfl, by rw [scan, scan, h.contents], fun name => by rw [calls, calls, h.calls]⟩

theorem assign {a a' : Assignment} (h : a.SameCalls a') :
    (Stmt.assign a).Relabelled W (.assign a') where
  own _ := kindsIn_singleton_of_none rfl
  inside := id
  same _ := ⟨rfl, rfl, fun name => by rw [calls, calls, h]⟩

theorem expression {e e' : Expr} (h : e.SameText e') (span : Span) :
    (Stmt.expression e span).Relabelled W (.expression e' span) where
  own _ := kindsIn_singleton_of_none rfl
  inside := id
  same _ := ⟨rfl, rfl, fun name => by rw [calls, calls, h.calls]⟩

theorem ret {v v' : Option RValue} (h : Option.Rel RValue.SameText v v') (span : Span) :
    (Stmt.ret v span).Relabelled W (.ret v' span) where
  own _ := kindsIn_singleton_of_none rfl
  inside := id
  same _ := ⟨rfl, rfl, fun name => by rw [calls, calls, RValue.any_calls_congr h]⟩

/-- The arguments of a call are not searched. -/
theorem call (name : String) (args args' : List Expr) (span : Span) :
    (Stmt.call name args span).Relabelled W (.call name args' span) where
  own _ := kindsIn_singleton_of_none rfl
  inside := id
  same _ := ⟨rfl, rfl, fun _ => rfl⟩

/-- The condition does not show. -/
theorem branch {body body' : List Stmt} {alternative alternative' : Option (List Stmt)}
    (c c' : Condition) (hbody : List.Forall₂ (Relabelled W) body body')
    (halternative : Option.Rel (List.Forall₂ (Relabelled W)) alternative alternative')
    (span : Span) :
    (Stmt.branch c body alternative span).Relabelled W (.branch c' body' alternative' span) := by
  have hb := BodyRelabelled.of_forall₂ hbody
  have hkindsOther : KindsIn W (preorderAlternative alternative) →
      KindsIn W (preorderAlternative alternative') := by
    cases halternative with
    | none => exact id
    | some hother => exact (BodyRelabelled.of_forall₂ hother).kinds
  have hsameOther : ownAlternative alternative' = true → ownAlternative alternative = true ∧
      scanAlternative alternative' = scanAlternative alternative ∧
      ∀ name, alternativeCalls name alternative' = alternativeCalls name alternative := by
    cases halternative with
    | none => exact fun h => ⟨h, rfl, fun _ => rfl⟩
    | some hother => exact (BodyRelabelled.of_forall₂ hother).same
  have hsome : alternative'.isSome = alternative.isSome := by cases halternative <;> rfl
  refine ⟨fun _ => kindsIn_singleton_of_none rfl, fun hkinds => ?_, fun hown => ?_⟩
  · rw [Stmt.inside, kindsIn_append] at hkinds ⊢
    exact ⟨hb.kinds hkinds.1, hkindsOther hkinds.2⟩
  · rw [isOwn, Bool.and_eq_true] at hown
    obtain ⟨hown', hscan, hcalls⟩ := hb.same hown.1
    obtain ⟨hownOther, hscanOther, hcallsOther⟩ := hsameOther hown.2
    refine ⟨by rw [isOwn, hown', hownOther, Bool.and_self], ?_, fun name => ?_⟩
    · rw [scan, scan, hscan, hscanOther, hsome]
    · rw [calls, calls, hcalls, hcallsOther]

/-- Of the header of a loop, only the declaration shows. -/
theorem forLoop {init init' : Option Declaration} {body body' : List Stmt}
    (hinit : Option.Rel Declaration.SameText init init') (c c' : Option Condition)
    (update update' : Option Assignment) (hbody : List.Forall₂ (Relabelled W) body body')
    (span : Span) :
    (Stmt.forLoop init c update body span).Relabelled W
      (.forLoop init' c' update' body' span) := by
  have hb := BodyRelabelled.of_forall₂ hbody
  have hcontents : initContents init' = initContents init := by
    cases hinit with
    | none => rfl
    | some hd => exact hd.contents
  refine ⟨fun _ => kindsIn_singleton_of_none rfl, hb.kinds, fun hown => ?_⟩
  obtain ⟨hown', hscan, hcalls⟩ := hb.same hown
  refine ⟨hown', ?_, fun name => ?_⟩
  · rw [scan, scan, hscan, hcontents]
  · rw [calls, calls, hcalls]

theorem whileLoop {body body' : List Stmt} (c c' : Option Condition)
    (hbody : List.Forall₂ (Relabelled W) body body') (span : Span) :
    (Stmt.whileLoop c body span).Relabelled W (.whileLoop c' body' span) := by
  have hb := BodyRelabelled.of_forall₂ hbody
  refine ⟨fun _ => kindsIn_singleton_of_none rfl, hb.kinds, fun hown => ?_⟩
  obtain ⟨hown', hscan, hcalls⟩ := hb.same hown
  refine ⟨hown', ?_, fun name => ?_⟩
  · rw [scan, scan, hscan]
  · rw [calls, calls, hcalls]

/-- A statement under a foreign kind name that stays. -/
theorem relabelled {s s' : Stmt} (kind : String) (h : s.Relabelled W s') :
    (Stmt.relabelled kind s).Relabelled W (.relabelled kind s') where
  own hkind := by
    rw [kindsIn_singleton] at hkind ⊢
    exact hkind
  inside := h.inside
  same hown := by cases hown

/-- A statement whose kind name is overwritten. -/
theorem relabel {word : String} (hword : W word) (s : Stmt) :
    s.Relabelled W (s.relabel word) := by
  have hkind : ∀ t, KindsIn W [Stmt.relabelled word t] := by
    intro t
    rw [kindsIn_singleton]
    rintro kind ⟨⟩
    exact hword
  cases s <;> exact ⟨fun _ => hkind _, id, fun hown => by cases hown⟩

end Relabelled

end Stmt

namespace Overwrite

variable {W : String → Prop} {word : String}

theorem insideStmt_relabelled {f : Stmt → Stmt} (hf : ∀ s : Stmt, s.Relabelled W (f s))
    (s : Stmt) : s.Relabelled W (insideStmt f s) := by
  cases s with
  | relabelled kind s => exact .relabelled kind (hf s)
  | _ => exact hf _

theorem stmt_relabelled (hword : W word) (path : List Step) (s : Stmt) :
    s.Relabelled W (Overwrite.stmt .kind word path s) := by
  have hblock : ∀ body : List Stmt, List.Forall₂ (Stmt.Relabelled W) body body :=
    fun body => List.forall₂_same.2 fun s _ => .refl s
  -- by the length of the path: to go to a statement of a body takes two steps off it
  induction hn : path.length using Nat.strongRecOn generalizing path s with
  | ind n ih =>
  subst hn
  unfold Overwrite.stmt
  split
  · exact .relabel hword s
  · rename_i i path
    have hbody := fun body : List Stmt => forall₂_modify .refl
      (fun s => ih path.length (by simp only [List.length_cons]; omega) path s rfl) body i
    refine insideStmt_relabelled (fun s => ?_) s
    cases s with
    | branch c body alternative span =>
      exact .branch c c (hbody body) (rel_refl hblock alternative) span
    | forLoop init c update body span =>
      exact .forLoop (rel_refl .refl init) c c update update (hbody body) span
    | whileLoop c body span => exact .whileLoop c c (hbody body) span
    | _ => exact .refl _
  · rename_i i path
    have hbody := fun body : List Stmt => forall₂_modify .refl
      (fun s => ih path.length (by simp only [List.length_cons]; omega) path s rfl) body i
    refine insideStmt_relabelled (fun s => ?_) s
    cases s with
    | branch c body alternative span =>
      exact .branch c c (hblock body) (rel_map hbody alternative) span
    | _ => exact .refl _
  · refine insideStmt_relabelled (fun s => ?_) s
    cases s with
    | branch c body alternative span =>
      exact .branch c _ (hblock body) (rel_refl hblock alternative) span
    | forLoop init c update body span =>
      exact .forLoop (rel_refl .refl init) c _ update update (hblock body) span
    | whileLoop c body span => exact .whileLoop c _ (hblock body) span
    | _ => exact .refl _
  · refine insideStmt_relabelled (fun s => ?_) s
    cases s with
    | forLoop init c update body span =>
      exact .forLoop (rel_map (declaration_sameText word _) init) c c update update
        (hblock body) span
    | _ => exact .refl _
  · refine insideStmt_relabelled (fun s => ?_) s
    cases s with
    | forLoop init c update body span =>
      exact .forLoop (rel_refl .refl init) c c update _ (hblock body) span
    | _ => exact .refl _
  · refine insideStmt_relabelled (fun s => ?_) s
    cases s with
    | expression e span => exact .expression (expr_sameText word _ e) span
    | _ => exact .refl _
  · refine insideStmt_relabelled (fun s => ?_) s
    cases s with
    | call name args span => exact .call name args _ span
    | _ => exact .refl _
  · refine insideStmt_relabelled (fun s => ?_) s
    cases s with
    | assign a => exact .assign (assignment_sameCalls word _ a)
    | ret v span => exact .ret (rel_map (value_sameText word _) v) span
    | _ => exact .refl _
  · refine insideStmt_relabelled (fun s => ?_) s
    cases s with
    | declare d => exact .declare (declaration_sameText word _ d)
    | _ => exact .refl _
  · exact .refl _

end Overwrite

/-! ### Programs -/

/-- The second subject is the first one with kind names overwritten in its body. -/
structure Subject.Relabelled (W : String → Prop) (s s' : Subject) : Prop where
  frame : s' = { s with body := s'.body }
  body : Stmt.BodyRelabelled W s.body s'.body

/-- The second program is the first one with some kind names overwritten, those of statements by
words of `W`.  If the second has no statement under a foreign kind name, then the first has none,
and their analyses are the same. -/
structure Program.Relabelled (W : String → Prop) (p q : Program) : Prop where
  kinds : Stmt.KindsIn W p.analyzed → Stmt.KindsIn W q.analyzed
  same : (∀ s ∈ q.subjects, Stmt.ownAll s.body = true) →
    (∀ s ∈ p.subjects, Stmt.ownAll s.body = true) ∧ q.analyze = p.analyze

section
variable {W : String → Prop}

theorem Subject.Relabelled.of_body {s : Subject} {body : List Stmt}
    (h : List.Forall₂ (Stmt.Relabelled W) s.body body) : s.Relabelled W { s with body := body } :=
  ⟨rfl, .of_forall₂ h⟩

theorem Subject.Relabelled.refl (s : Subject) : s.Relabelled W s :=
  .of_body (List.forall₂_same.2 fun t _ => .refl t)

theorem kindsIn_subjects {ss ss' : List Subject} (h : List.Forall₂ (Subject.Relabelled W) ss ss')
    (hkinds : Stmt.KindsIn W (ss.flatMap fun s => Stmt.preorder s.body)) :
    Stmt.KindsIn W (ss'.flatMap fun s => Stmt.preorder s.body) := by
  induction h with
  | nil => exact hkinds
  | cons hs _ ih =>
    rw [List.flatMap_cons, Stmt.kindsIn_append] at hkinds ⊢
    exact ⟨hs.body.kinds hkinds.1, ih hkinds.2⟩

/-- The reports on bodies without foreign kind names are the same. -/
theorem reportAll_relabelled {ss ss' : List Subject}
    (h : List.Forall₂ (Subject.Relabelled W) ss ss')
    (hown : ∀ s ∈ ss', Stmt.ownAll s.body = true) :
    (∀ s ∈ ss, Stmt.ownAll s.body = true) ∧
      reportAll (ss'.map fun s => (s, .ofListed (Stmt.preorder s.body))) =
        reportAll (ss.map fun s => (s, .ofListed (Stmt.preorder s.body))) := by
  induction h with
  | nil => exact ⟨hown, rfl⟩
  | @cons s s' ss ss' hs _ ih =>
    obtain ⟨hs', hss'⟩ := List.forall_mem_cons.1 hown
    obtain ⟨howns, hscan, hcalls⟩ := hs.body.same hs'
    obtain ⟨hownss, hreports⟩ := ih hss'
    refine ⟨List.forall_mem_cons.2 ⟨howns, hownss⟩, ?_⟩
    -- both scans succeed, so the contents are the same; the name and the rest are in the frame
    rw [Stmt.scanAll_of_ownAll hs', Stmt.scanAll_of_ownAll howns] at hscan
    have hcontents := Except.ok.inj hscan
    have hname : s'.name = s.name := by rw [hs.frame]
    have hreport : ∀ contents found, s'.report contents found = s.report contents found := by
      intro contents found
      rw [hs.frame]
      rfl
    simp only [List.map_cons, reportAll, hname, hcalls, hcontents, hreport, hreports]

end

namespace Program.Relabelled

variable {W : String → Prop}

theorem refl (p : Program) : p.Relabelled W p := ⟨id, fun h => ⟨h, rfl⟩⟩

theorem trans {p q r : Program} (h : p.Relabelled W q) (h' : q.Relabelled W r) :
    p.Relabelled W r := by
  refine ⟨fun hp => h'.kinds (h.kinds hp), fun hr => ?_⟩
  obtain ⟨hq, hanalyze'⟩ := h'.same hr
  obtain ⟨hp, hanalyze⟩ := h.same hq
  exact ⟨hp, hanalyze'.trans hanalyze⟩

theorem of_subjects {p q : Program}
    (h : List.Forall₂ (Subject.Relabelled W) p.subjects q.subjects) : p.Relabelled W q := by
  refine ⟨kindsIn_subjects h, fun hq => ?_⟩
  obtain ⟨hp, hreports⟩ := reportAll_relabelled h hq
  refine ⟨hp, ?_⟩
  rw [analyze, analyze, scanSubjects_of_ownAll hq, scanSubjects_of_ownAll hp]
  exact hreports

end Program.Relabelled

namespace Overwrite

variable {W : String → Prop} {word : String}

/-- A global variable is no part of an analysis, and a function stays one under any kind name. -/
theorem global_relabelled (hword : W word) (path : List Step) (g : Global) :
    Option.Rel (fun f f' => f.subject.Relabelled W f'.subject) g.function?
      (Overwrite.global .kind word path g).function? := by
  unfold Overwrite.global
  split
  · cases g with
    | function f => exact .some (.refl f.subject)
    | _ => exact .none
  · rename_i i path f
    exact .some (.of_body (forall₂_modify .refl (stmt_relabelled hword path) f.body i))
  · exact .none
  · exact .none
  · exact rel_refl (fun f => .refl f.subject) _

theorem program_relabelled (hword : W word) (path : List Step) (p : Program) :
    p.Relabelled W (Overwrite.program .kind word path p) := by
  unfold Overwrite.program
  split
  · rename_i i path
    have hglobals := forall₂_filterMap (forall₂_modify
      (fun g => rel_refl (fun f => .refl f.subject) g.function?)
      (global_relabelled hword path) p.globals i)
    refine .of_subjects (List.rel_append ?_ (.cons (.refl p.entry.subject) .nil))
    rwa [List.forall₂_map_left_iff, List.forall₂_map_right_iff]
  · rename_i i path
    have hentry := forall₂_modify .refl (stmt_relabelled hword path) p.entry.body i
    refine .of_subjects (List.rel_append ?_ (.cons (.of_body hentry) .nil))
    exact List.forall₂_same.2 fun s _ => .refl s
  · exact .refl p

end Overwrite

theorem Program.overwrite_relabelled {W : String → Prop} {changes : List Overwrite} (p : Program)
    (h : ∀ c ∈ changes, c.part = .kind ∧ W c.word) : p.Relabelled W (p.overwrite changes) := by
  induction changes generalizing p with
  | nil => exact .refl p
  | cons c changes ih =>
    obtain ⟨⟨hpart, hword⟩, hchanges⟩ := List.forall_mem_cons.1 h
    have hfirst := Overwrite.program_relabelled hword c.path p
    rw [← hpart] at hfirst
    exact hfirst.trans (ih _ hchanges)

/-! ### The analysis of an overwritten program -/

namespace Program

theorem ownAll_subjects_iff {p : Program} :
    (∀ s ∈ p.subjects, Stmt.ownAll s.body = true) ↔ ∀ t ∈ p.analyzed, t.foreignKind? = none := by
  simp only [Stmt.ownAll_iff, analyzed, List.mem_flatMap, forall_exists_index, and_imp]
  exact ⟨fun h t s hs ht => h s hs t ht, fun h s hs t ht => h t s hs ht⟩

/-- The analysis fails at the first statement under a foreign kind name, before the first report. -/
theorem analyze_of_first {p : Program} {before after : List Stmt} {s : Stmt} {kind : String}
    (h : p.analyzed = before ++ s :: after) (hbefore : ∀ t ∈ before, t.foreignKind? = none)
    (hs : s.foreignKind? = some kind) :
    p.analyze = ⟨.error (.unsupported .statementKind kind), []⟩ := by
  have hfirst : p.analyzed.findSome? Stmt.foreignKind? = some kind := by
    rw [h, List.findSome?_append, List.findSome?_eq_none_iff.2 hbefore, Option.none_or,
      List.findSome?_cons_of_isSome (by simp [hs]), hs]
  rw [analyze, scanSubjects_eq_survey, ← analyzed, hfirst]

/-- The analysis fails if there is such a statement, and only then. -/
theorem analyze_fails_iff (p : Program) :
    (∃ f, p.analyze.result = .error f) ↔ ∃ s ∈ p.analyzed, s.foreignKind? ≠ none := by
  constructor
  · rintro ⟨f, hf⟩
    by_contra hnone
    push Not at hnone
    rw [analyze_result (ownAll_subjects_iff.2 hnone)] at hf
    cases hf
  · rintro ⟨s, hs, hforeign⟩
    cases hfirst : p.analyzed.findSome? Stmt.foreignKind? with
    | none => exact absurd (List.findSome?_eq_none_iff.1 hfirst s hs) hforeign
    | some kind =>
      rw [analyze, scanSubjects_eq_survey, ← analyzed, hfirst]
      exact ⟨_, rfl⟩

/-- The foreign kind names that an analysis comes across are words of the changes. -/
theorem foreignKind?_overwrite {p : Program} (hp : p.isNative = true) {changes : List Overwrite}
    (h : ∀ c ∈ changes, c.part = .kind) {s : Stmt} (hs : s ∈ (p.overwrite changes).analyzed)
    {kind : String} (hkind : s.foreignKind? = some kind) : ∃ c ∈ changes, c.word = kind := by
  have hrelabelled : p.Relabelled (fun kind => ∃ c ∈ changes, c.word = kind)
      (p.overwrite changes) :=
    p.overwrite_relabelled fun c hc => ⟨h c hc, c, hc, rfl⟩
  refine hrelabelled.kinds (fun t ht word hword => ?_) s hs kind hkind
  rw [ownAll_subjects_iff.1 (ownAll_of_native hp) t ht] at hword
  cases hword

/-- If there are none, then the analysis is that of the program itself. -/
theorem analyze_overwrite_of_forall {p : Program} {changes : List Overwrite}
    (h : ∀ c ∈ changes, c.part = .kind)
    (hnone : ∀ s ∈ (p.overwrite changes).analyzed, s.foreignKind? = none) :
    (p.overwrite changes).analyze = p.analyze := by
  have hrelabelled : p.Relabelled (fun _ => True) (p.overwrite changes) :=
    p.overwrite_relabelled fun c hc => ⟨h c hc, trivial⟩
  exact (hrelabelled.same (ownAll_subjects_iff.2 hnone)).2

end Program

/-- Whatever the first pass gets through, the second one does. -/
theorem Stmt.exists_anyCalls_of_scanAll {body : List Stmt} {contents : Contents}
    (h : scanAll body = .ok contents) (name : String) :
    ∃ found, anyCalls name body = .ok found := by
  have hown : ownAll body = true := by
    rw [ownAll_iff, ← List.findSome?_eq_none_iff]
    rw [scanAll_eq_survey, survey] at h
    split at h
    · cases h
    · assumption
  exact exists_anyCalls_of_forall (fun s _ => s.exists_calls name) hown

theorem Node.sourceText_overwrite {changes : List Overwrite}
    (h : ∀ c ∈ changes, c.part = .kind) (v : RValue) :
    ((Node.value v).overwrite changes).sourceText = .ok v.sourceText := by
  induction changes generalizing v with
  | nil => rfl
  | cons c changes ih =>
    obtain ⟨hpart, hchanges⟩ := List.forall_mem_cons.1 h
    have hfirst := (Overwrite.value_sameText c.word c.path v).sourceText
    rw [← hpart] at hfirst
    rw [← hfirst]
    exact ih hchanges _

/-- **When an analysis fails.**  Kind names of a native program, such as every program that is read
from data, are overwritten by words that no class has.  The analysis of the result fails if a
statement in the body of a function or of the entry block, at any depth, is under one of these
words, and only then.  In that case it breaks an invariant of the language, in words that name the
kind of the first such statement, and it logs nothing; the statements are taken function by function
in the order of the declarations, then those of the entry block, and those of each body in preorder.
In every other case its reports and its log are those of the program itself.  A body that the first
pass gets through is searched for calls without a fault, whatever the name, and the text of a
right-hand side is that of the original. -/
theorem Program.analyze_overwrite (p : Program) (hp : p.isNative = true)
    (changes : List Overwrite) (hkind : ∀ c ∈ changes, c.part = .kind ∧ c.word ∉ kindNames) :
    let q := p.overwrite changes
    ((∃ f, q.analyze.result = .error f) ↔
      ∃ s ∈ q.analyzed, ∃ c ∈ changes, s.foreignKind? = some c.word) ∧
    (∀ before s after kind, q.analyzed = before ++ s :: after →
      (∀ t ∈ before, t.foreignKind? = none) → s.foreignKind? = some kind →
      (∃ c ∈ changes, c.word = kind) ∧
        ∃ f, q.analyze = ⟨.error f, []⟩ ∧ f.category? = some .invariant ∧
          f.message = "Unsupported statement kind: " ++ kind) ∧
    ((∀ s ∈ q.analyzed, ∀ c ∈ changes, s.foreignKind? ≠ some c.word) →
      q.analyze = p.analyze ∧ ∃ reports, p.analyze.result = .ok reports) ∧
    (∀ s ∈ q.subjects, ∀ contents, Stmt.scanAll s.body = .ok contents →
      ∀ name, ∃ found, Stmt.anyCalls name s.body = .ok found) ∧
    ∀ v : RValue, ((Node.value v).overwrite changes).sourceText = .ok v.sourceText := by
  intro q
  have hpart : ∀ c ∈ changes, c.part = .kind := fun c hc => (hkind c hc).1
  have hforeign : ∀ s ∈ q.analyzed,
      s.foreignKind? ≠ none ↔ ∃ c ∈ changes, s.foreignKind? = some c.word := by
    intro s hs
    constructor
    · intro hsome
      obtain ⟨kind, hk⟩ := Option.ne_none_iff_exists'.1 hsome
      obtain ⟨c, hc, rfl⟩ := foreignKind?_overwrite hp hpart hs hk
      exact ⟨c, hc, hk⟩
    · rintro ⟨c, -, hc⟩
      simp [hc]
  refine ⟨?_, ?_, ?_, ?_, Node.sourceText_overwrite hpart⟩
  · rw [analyze_fails_iff]
    exact exists_congr fun s => and_congr_right (hforeign s)
  · intro before s after kind hsplit hbefore hs
    have hmem : s ∈ q.analyzed := by simp [hsplit]
    exact ⟨foreignKind?_overwrite hp hpart hmem hs, _, analyze_of_first hsplit hbefore hs, rfl, rfl⟩
  · intro hwords
    have hnone : ∀ s ∈ q.analyzed, s.foreignKind? = none := by
      intro s hs
      by_contra hsome
      obtain ⟨c, hc, hword⟩ := (hforeign s hs).1 hsome
      exact hwords s hs c hc hword
    exact ⟨analyze_overwrite_of_forall hpart hnone, _, analyze_result (ownAll_of_native hp)⟩
  · exact fun s _ contents hscan => Stmt.exists_anyCalls_of_scanAll hscan

/-- A function counts in a loop and returns a call of itself from an alternative.  The kind names
around its statements show nowhere.  Of two overwritten statements, the one in the function comes
before the one in the entry block. -/
theorem Program.analyze_overwrite_of_alternative :
    let self : RValue := .arith (.call "f" [.number "1"])
    let p : Program := {
      globals := [.function { name := "f", returnType := .int, body := [
        .forLoop (some ⟨.int, [⟨"i", some self, .unknown⟩], .unknown, by simp⟩)
          (some (.comparison (.known .lt) (.variable "i") (.number "2")))
          (some ⟨"i", .increment, .unknown⟩)
          [.branch (.bool true) [] (some [.ret (some self) .unknown]) .unknown] .unknown] }]
      entry := { body := [.expression (.number "1") .unknown] } }
    let loop : List Step := [.key "globals", .index 0, .key "body", .index 0]
    let around : List Overwrite := [
      ⟨[.key "globals", .index 0], .kind, "lambda"⟩,
      ⟨loop ++ [.key "init"], .kind, "let"⟩,
      ⟨loop ++ [.key "init", .key "declarators", .index 0, .key "initializer"], .kind, "await"⟩,
      ⟨loop ++ [.key "condition", .key "left"], .kind, "deref"⟩,
      ⟨[.key "entry", .key "body", .index 0, .key "expr"], .kind, "literal"⟩]
    let within : List Overwrite := around ++ [
      ⟨[.key "entry", .key "body", .index 0], .kind, "goto"⟩,
      ⟨loop ++ [.key "body", .index 0, .key "else_body", .index 0], .kind, "yield"⟩]
    p.isNative = true ∧ (∀ c ∈ within, c.part = .kind ∧ c.word ∉ kindNames) ∧
      (p.overwrite around).analyze = p.analyze ∧
      ∃ f, (p.overwrite within).analyze = ⟨.error f, []⟩ ∧ f.category? = some .invariant ∧
        f.message = "Unsupported statement kind: yield" := by
  intro self p loop around within
  have hp : p.isNative = true := by decide +kernel
  have hwithin : ∀ c ∈ within, c.part = .kind ∧ c.word ∉ kindNames := by decide
  have haround : ∀ c ∈ around, c.part = .kind ∧ c.word ∉ kindNames :=
    fun c hc => hwithin c (List.mem_append_left _ hc)
  have hnone : (p.overwrite around).analyzed.map Stmt.foreignKind? =
      [none, none, none, none] := by decide +kernel
  refine ⟨hp, hwithin, ?_, ?_⟩
  · refine ((analyze_overwrite p hp around haround).2.2.1 fun s hs c _ => ?_).1
    have hmem : s.foreignKind? ∈ (p.overwrite around).analyzed.map Stmt.foreignKind? :=
      List.mem_map_of_mem hs
    have hown : s.foreignKind? = none := by simpa [hnone] using hmem
    simp [hown]
  · have hanalyzed : (p.overwrite within).analyzed =
        (p.overwrite within).analyzed.take 2 ++ .relabelled "yield" (.ret (some self) .unknown) ::
          (p.overwrite within).analyzed.drop 3 := rfl
    exact ((analyze_overwrite p hp within hwithin).2.1 _ _ _ _ hanalyzed (by decide +kernel)
      rfl).2

end FlatScript
