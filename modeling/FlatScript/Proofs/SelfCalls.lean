import FlatScript.Proofs.Loop
import FlatScript.Proofs.Reports
import Mathlib.Data.List.Forall2

/-!
# Functions that call themselves

The flag of a report says whether a function calls itself.  It is found by a search that goes
through the body and stops at the first call; here the search is compared with a relation, which
says where a call counts and nothing of the order in which it is looked for.

* `Expr.Invokes`, `RValue.Invokes`, `Stmt.Invokes` : the name is that of a call in a place that
  counts, which excludes the arguments of calls, the conditions and the headers of loops;
* `Stmt.calls_answers` : **whatever the search answers is right**, in both directions;
* `Program.selfCalls_exact` : the search through a body of this language answers, and the flags of
  the reports are these answers;
* `Stmt.Unfolds` : a `for` loop of a body, at any depth, is written as the block that it
  abbreviates;
* `Stmt.Unfolds.bodyInvokes_iff` : this adds the calls in the header of the loop, and nothing else;
* `Program.unfold_selfCalls` : **so the flag of the function can change**, and it does if the header
  calls the function and no other place does (`Program.unfold_selfCalls_changes_flag`).
-/

namespace FlatScript

/-! ### Calls that count -/

/-- There is a call of the function in the expression, outside of the arguments of calls. -/
inductive Expr.Invokes (f : String) : Expr → Prop
  | call (args : List Expr) : Invokes f (.call f args)
  | left {op : Operator ArithOp} {left right : Expr} (h : left.Invokes f) :
      Invokes f (.binary op left right)
  | right {op : Operator ArithOp} {left right : Expr} (h : right.Invokes f) :
      Invokes f (.binary op left right)
  | paren {inner : Expr} (h : inner.Invokes f) : Invokes f (.paren inner)
  /-- The kind name of an expression is not consulted. -/
  | relabelled (kind : String) {e : Expr} (h : e.Invokes f) : Invokes f (.relabelled kind e)

/-- The right-hand side is an expression with such a call; a text has none, whatever it says. -/
inductive RValue.Invokes (f : String) : RValue → Prop
  | arith {e : Expr} (h : e.Invokes f) : Invokes f (.arith e)

/-- There is a call of the function in the statement: it is called for its effect, or in an
initializer, a right-hand side, an expression or a returned value, of the statement itself or of one
in its bodies. -/
inductive Stmt.Invokes (f : String) : Stmt → Prop
  | call (args : List Expr) (span : Span) : Invokes f (.call f args span)
  | initializer {d : Declaration} {e : Declarator} {v : RValue} (he : e ∈ d.declarators)
      (hv : e.initializer = some v) (h : v.Invokes f) : Invokes f (.declare d)
  | value {a : Assignment} {v : RValue} (hv : a.action.value? = some v) (h : v.Invokes f) :
      Invokes f (.assign a)
  | expression {e : Expr} (h : e.Invokes f) (span : Span) : Invokes f (.expression e span)
  | ret {v : RValue} (h : v.Invokes f) (span : Span) : Invokes f (.ret (some v) span)
  | body {c : Condition} {body : List Stmt} {alternative : Option (List Stmt)} {span : Span}
      {s : Stmt} (hs : s ∈ body) (h : s.Invokes f) : Invokes f (.branch c body alternative span)
  | alternative {c : Condition} {body other : List Stmt} {span : Span} {s : Stmt}
      (hs : s ∈ other) (h : s.Invokes f) : Invokes f (.branch c body (some other) span)
  | forBody {init : Option Declaration} {c : Option Condition} {update : Option Assignment}
      {body : List Stmt} {span : Span} {s : Stmt} (hs : s ∈ body) (h : s.Invokes f) :
      Invokes f (.forLoop init c update body span)
  | whileBody {c : Option Condition} {body : List Stmt} {span : Span} {s : Stmt} (hs : s ∈ body)
      (h : s.Invokes f) : Invokes f (.whileLoop c body span)

/-- There is a call of the function in a statement of the body. -/
def Stmt.BodyInvokes (f : String) (body : List Stmt) : Prop := ∃ s ∈ body, s.Invokes f

/-! ### The relation at each kind of node -/

theorem Expr.invokes_binary {f : String} {op : Operator ArithOp} {left right : Expr} :
    (Expr.binary op left right).Invokes f ↔ left.Invokes f ∨ right.Invokes f := by
  constructor
  · intro h
    cases h with
    | left h => exact .inl h
    | right h => exact .inr h
  · rintro (h | h)
    · exact .left h
    · exact .right h

namespace Stmt

variable {f : String}

theorem invokes_declare {d : Declaration} :
    (declare d).Invokes f ↔ ∃ e ∈ d.declarators, ∃ v ∈ e.initializer, v.Invokes f := by
  constructor
  · intro h
    cases h with
    | initializer he hv h => exact ⟨_, he, _, hv, h⟩
  · rintro ⟨e, he, v, hv, h⟩
    exact .initializer he hv h

theorem invokes_branch {c : Condition} {body : List Stmt} {alternative : Option (List Stmt)}
    {span : Span} :
    (branch c body alternative span).Invokes f ↔
      BodyInvokes f body ∨ ∃ other ∈ alternative, BodyInvokes f other := by
  constructor
  · intro h
    cases h with
    | body hs h => exact .inl ⟨_, hs, h⟩
    | alternative hs h => exact .inr ⟨_, rfl, _, hs, h⟩
  · rintro (⟨s, hs, h⟩ | ⟨other, ⟨⟩, s, hs, h⟩)
    · exact .body hs h
    · exact .alternative hs h

theorem invokes_forLoop {init : Option Declaration} {c : Option Condition}
    {update : Option Assignment} {body : List Stmt} {span : Span} :
    (forLoop init c update body span).Invokes f ↔ BodyInvokes f body := by
  constructor
  · intro h
    cases h with
    | forBody hs h => exact ⟨_, hs, h⟩
  · rintro ⟨s, hs, h⟩
    exact .forBody hs h

theorem invokes_whileLoop {c : Option Condition} {body : List Stmt} {span : Span} :
    (whileLoop c body span).Invokes f ↔ BodyInvokes f body := by
  constructor
  · intro h
    cases h with
    | whileBody hs h => exact ⟨_, hs, h⟩
  · rintro ⟨s, hs, h⟩
    exact .whileBody hs h

theorem bodyInvokes_nil : BodyInvokes f [] ↔ False := by
  simp [BodyInvokes]

theorem bodyInvokes_cons {s : Stmt} {ss : List Stmt} :
    BodyInvokes f (s :: ss) ↔ s.Invokes f ∨ BodyInvokes f ss := by
  simp [BodyInvokes]

theorem bodyInvokes_append {b₁ b₂ : List Stmt} :
    BodyInvokes f (b₁ ++ b₂) ↔ BodyInvokes f b₁ ∨ BodyInvokes f b₂ := by
  simp only [BodyInvokes, List.mem_append, or_and_right, exists_or]

end Stmt

/-! ### The search -/

theorem Expr.calls_iff {f : String} {e : Expr} : e.calls f = true ↔ e.Invokes f := by
  induction e using Expr.induct with
  | number numeral => exact ⟨nofun, nofun⟩
  | ref name => exact ⟨nofun, nofun⟩
  | binary op left right ihLeft ihRight =>
    rw [calls, Bool.or_eq_true, ihLeft, ihRight, invokes_binary]
  | paren inner ih =>
    rw [calls, ih]
    exact ⟨.paren, fun h => by cases h with | paren h => exact h⟩
  | call name args ih =>
    rw [calls, beq_iff_eq]
    constructor
    · rintro rfl
      exact .call args
    · rintro ⟨⟩
      rfl
  | relabelled kind e ih =>
    rw [calls, ih]
    exact ⟨.relabelled kind, fun h => by cases h with | relabelled _ h => exact h⟩

theorem RValue.calls_iff {f : String} {v : RValue} : v.calls f = true ↔ v.Invokes f := by
  cases v with
  | arith e =>
    rw [calls, Expr.calls_iff]
    exact ⟨.arith, fun h => by cases h with | arith h => exact h⟩
  | text s => exact ⟨nofun, nofun⟩
  | relabelledText kind s => exact ⟨nofun, nofun⟩

theorem any_calls_iff {f : String} {o : Option RValue} :
    o.any (RValue.calls f) = true ↔ ∃ v ∈ o, v.Invokes f := by
  cases o with
  | none => simp
  | some v => simp [RValue.calls_iff]

/-- The search does not answer, or its answer is right. -/
def Answers (search : Except Fault Bool) (P : Prop) : Prop :=
  ∀ found, search = .ok found → (found = true ↔ P)

theorem answers_ok {found : Bool} {P : Prop} (h : found = true ↔ P) : Answers (.ok found) P := by
  rintro _ ⟨⟩
  exact h

/-- The second part is searched only if there is nothing in the first one. -/
theorem Answers.or {first second : Except Fault Bool} {P Q : Prop} (hfirst : Answers first P)
    (hsecond : Answers second Q) :
    Answers (do
      if ← first then return true
      second) (P ∨ Q) := by
  cases first with
  | error fault => exact nofun
  | ok found =>
    have hP := hfirst found rfl
    cases found with
    | true => exact answers_ok (by simp [hP.1 rfl])
    | false =>
      have hno : ¬P := fun h => by simpa using hP.2 h
      intro found hfound
      rw [hsecond found hfound]
      simp [hno]

namespace Stmt

variable {f : String}

theorem anyCalls_answers_of_forall {ss : List Stmt}
    (h : ∀ s ∈ ss, Answers (s.calls f) (s.Invokes f)) :
    Answers (anyCalls f ss) (BodyInvokes f ss) := by
  induction ss with
  | nil => exact answers_ok (by simp [bodyInvokes_nil])
  | cons s ss ih =>
    obtain ⟨hs, hss⟩ := List.forall_mem_cons.1 h
    rw [anyCalls, bodyInvokes_cons]
    exact hs.or (ih hss)

/-- **Whatever the search answers is right.** -/
theorem calls_answers (f : String) (s : Stmt) : Answers (s.calls f) (s.Invokes f) := by
  induction s using Stmt.induct with
  | declare d =>
    rw [calls]
    refine answers_ok ?_
    simp only [Declaration.calls, List.any_eq_true, any_calls_iff, invokes_declare]
  | assign a =>
    rw [calls]
    refine answers_ok (any_calls_iff.trans ⟨?_, ?_⟩)
    · rintro ⟨v, hv, h⟩
      exact .value hv h
    · intro h
      cases h with
      | value hv h => exact ⟨_, hv, h⟩
  | expression e span =>
    rw [calls]
    refine answers_ok (Expr.calls_iff.trans ⟨fun h => .expression h span, ?_⟩)
    intro h
    cases h with
    | expression h _ => exact h
  | branch c body alternative span ihBody ihAlternative =>
    rw [calls, invokes_branch]
    refine (anyCalls_answers_of_forall ihBody).or ?_
    cases alternative with
    | none => exact answers_ok (by simp)
    | some other =>
      rw [alternativeCalls]
      simpa using anyCalls_answers_of_forall (ihAlternative other rfl)
  | forLoop init c update body span ih =>
    rw [calls, invokes_forLoop]
    exact anyCalls_answers_of_forall ih
  | whileLoop c body span ih =>
    rw [calls, invokes_whileLoop]
    exact anyCalls_answers_of_forall ih
  | ret v span =>
    rw [calls]
    refine answers_ok (any_calls_iff.trans ⟨?_, ?_⟩)
    · rintro ⟨v, ⟨⟩, h⟩
      exact .ret h span
    · intro h
      cases h with
      | ret h _ => exact ⟨_, rfl, h⟩
  | call name args span =>
    rw [calls]
    refine answers_ok (beq_iff_eq.trans ⟨?_, ?_⟩)
    · rintro rfl
      exact .call args span
    · rintro ⟨⟩
      rfl
  | relabelled kind s ih =>
    rw [calls]
    intro found hfound
    cases hfound

theorem anyCalls_answers (f : String) (body : List Stmt) :
    Answers (anyCalls f body) (BodyInvokes f body) :=
  anyCalls_answers_of_forall fun s _ => s.calls_answers f

end Stmt

theorem Subject.isRecursive_iff {s : Subject} (h : Stmt.ownAll s.body = true) :
    s.isRecursive = true ↔ Stmt.BodyInvokes s.name s.body := by
  obtain ⟨found, hfound⟩ := Stmt.exists_anyCalls_of_forall (fun t _ => t.exists_calls s.name) h
  rw [isRecursive, hfound]
  exact Stmt.anyCalls_answers s.name s.body found hfound

/-- **The flag for recursion is exact.**  Whatever the search for a name answers is right, and the
search through a body of this language answers.  The analysis of a native program, such as every
program that is read from data, has one report on each function and on the entry block.  Its flag
says whether the body calls the function itself, so it is not set where the body calls others only,
be they functions that call the first one.  A text calls nothing. -/
theorem Program.selfCalls_exact :
    (∀ f body found, Stmt.anyCalls f body = .ok found →
      (found = true ↔ Stmt.BodyInvokes f body)) ∧
    (∀ f body, Stmt.ownAll body = true →
      (Stmt.anyCalls f body = .ok true ↔ Stmt.BodyInvokes f body) ∧
      (Stmt.anyCalls f body = .ok false ↔ ¬Stmt.BodyInvokes f body)) ∧
    (∀ p : Program, p.isNative = true → ∃ reports, p.analyze.result = .ok reports ∧
      List.Forall₂ (fun s r => r.name = s.name ∧
        (r.isRecursive = true ↔ Stmt.BodyInvokes s.name s.body) ∧
        ((∀ g, Stmt.BodyInvokes g s.body → g ≠ s.name) → r.isRecursive = false))
        p.subjects reports) ∧
    ∀ f t, ¬(RValue.text t).Invokes f := by
  refine ⟨fun f body => Stmt.anyCalls_answers f body, fun f body h => ?_, fun p hp => ?_, nofun⟩
  · obtain ⟨found, hfound⟩ := Stmt.exists_anyCalls_of_forall (fun t _ => t.exists_calls f) h
    have hanswer := Stmt.anyCalls_answers f body found hfound
    rw [hfound, Except.ok.injEq, Except.ok.injEq, ← hanswer, Bool.not_eq_true]
    exact ⟨Iff.rfl, Iff.rfl⟩
  · have hown := ownAll_of_native hp
    refine ⟨_, analyze_result hown, ?_⟩
    rw [List.forall₂_map_right_iff, List.forall₂_same]
    intro s hs
    have hflag := Subject.isRecursive_iff (hown s hs)
    refine ⟨rfl, hflag, fun hothers => ?_⟩
    rw [← Bool.not_eq_true]
    exact fun hset => hothers s.name (hflag.1 hset) rfl

/-- The function `f` calls itself in `while () { if (null) { } else { int r = 1 + (f()); } }`.  The
function `g` calls `f` and names itself where it does not count:
`f(); sqrt(g()); for (; g(); x = g()) { } return "g()";`. -/
theorem Program.selfCalls_exact_of_two :
    let call (n : String) : Expr := .call n []
    let sum : Expr := .binary (.known .add) (.number "1") (.paren (call "f"))
    let r : Declaration := ⟨.int, [⟨"r", some (.arith sum), .unknown⟩], .unknown, by simp⟩
    let f : Function := { name := "f", returnType := .int, body := [
      .whileLoop none [.branch .null [] (some [.declare r]) .unknown] .unknown] }
    let g : Function := { name := "g", returnType := .int, body := [
      .call "f" [] .unknown, .expression (.call "sqrt" [call "g"]) .unknown,
      .forLoop none (some (.truth (call "g"))) (some ⟨"x", .set (.arith (call "g")), .unknown⟩) []
        .unknown,
      .ret (some (.text "g()")) .unknown] }
    let p : Program := ⟨[.function f, .function g], {}⟩
    p.isNative = true ∧ Stmt.BodyInvokes "f" f.body ∧ ¬Stmt.BodyInvokes "g" g.body ∧
      ∃ rf rg rmain, p.analyze.result = .ok [rf, rg, rmain] ∧ rf.isRecursive = true ∧
        rg.isRecursive = false := by
  intro call sum r f g p
  obtain ⟨-, hsearch, hprogram, -⟩ := selfCalls_exact
  have hnative : p.isNative = true := by decide +kernel
  have hf : Stmt.BodyInvokes "f" f.body := by
    refine ⟨_, List.mem_singleton_self _, .whileBody (List.mem_singleton_self _) ?_⟩
    refine .alternative (List.mem_singleton_self _) ?_
    exact .initializer (List.mem_singleton_self _) rfl (.arith (.right (.paren (.call []))))
  have hg : ¬Stmt.BodyInvokes "g" g.body := (hsearch "g" g.body rfl).2.1 rfl
  obtain ⟨reports, hreports, hflags⟩ := hprogram p hnative
  have hsubjects : p.subjects = [f.subject, g.subject, p.entry.subject] := rfl
  rw [hsubjects] at hflags
  obtain ⟨rf, rs, ⟨-, hrf, -⟩, hflags', rfl⟩ := List.forall₂_cons_left_iff.1 hflags
  obtain ⟨rg, rs', ⟨-, hrg, -⟩, hmain, rfl⟩ := List.forall₂_cons_left_iff.1 hflags'
  obtain ⟨rmain, rs'', -, hnil, rfl⟩ := List.forall₂_cons_left_iff.1 hmain
  cases hnil
  refine ⟨hnative, hf, hg, rf, rg, rmain, hreports, hrf.2 hf, ?_⟩
  rw [← Bool.not_eq_true]
  exact fun hset => hg (hrg.1 hset)

/-! ### Headers of loops -/

/-- The declaration or the update in the header of a loop calls the function. -/
def HeaderInvokes (f : String) (init : Option Declaration) (update : Option Assignment) : Prop :=
  (∃ d ∈ init, (Stmt.declare d).Invokes f) ∨ ∃ a ∈ update, (Stmt.assign a).Invokes f

namespace Stmt

/-- The second body is the first one with one `for` loop written as the block that it abbreviates.
The loop has the given header, and it may stand at any depth. -/
inductive Unfolds (init : Option Declaration) (update : Option Assignment) :
    List Stmt → List Stmt → Prop
  | here (c : Option Condition) (body : List Stmt) (span : Span) (rest : List Stmt) :
      Unfolds init update (.forLoop init c update body span :: rest)
        (whileForm init c update body span ++ rest)
  | later (s : Stmt) {ss ss' : List Stmt} (h : Unfolds init update ss ss') :
      Unfolds init update (s :: ss) (s :: ss')
  | body (c : Condition) {b b' : List Stmt} (alternative : Option (List Stmt)) (span : Span)
      (rest : List Stmt) (h : Unfolds init update b b') :
      Unfolds init update (.branch c b alternative span :: rest)
        (.branch c b' alternative span :: rest)
  | alternative (c : Condition) (b : List Stmt) {other other' : List Stmt} (span : Span)
      (rest : List Stmt) (h : Unfolds init update other other') :
      Unfolds init update (.branch c b (some other) span :: rest)
        (.branch c b (some other') span :: rest)
  | forBody (init' : Option Declaration) (c : Option Condition) (update' : Option Assignment)
      {b b' : List Stmt} (span : Span) (rest : List Stmt) (h : Unfolds init update b b') :
      Unfolds init update (.forLoop init' c update' b span :: rest)
        (.forLoop init' c update' b' span :: rest)
  | whileBody (c : Option Condition) {b b' : List Stmt} (span : Span) (rest : List Stmt)
      (h : Unfolds init update b b') :
      Unfolds init update (.whileLoop c b span :: rest) (.whileLoop c b' span :: rest)

variable {f : String} {init : Option Declaration} {update : Option Assignment}
  {ss ss' : List Stmt}

theorem bodyInvokes_whileForm {c : Option Condition} {body : List Stmt} {span : Span} :
    BodyInvokes f (whileForm init c update body span) ↔
      BodyInvokes f body ∨ HeaderInvokes f init update := by
  have hinit : BodyInvokes f (init.map Stmt.declare).toList ↔
      ∃ d ∈ init, (Stmt.declare d).Invokes f := by
    cases init <;> simp [BodyInvokes]
  have hupdate : BodyInvokes f (update.map Stmt.assign).toList ↔
      ∃ a ∈ update, (Stmt.assign a).Invokes f := by
    cases update <;> simp [BodyInvokes]
  rw [whileForm, bodyInvokes_append, bodyInvokes_cons, invokes_whileLoop, bodyInvokes_append,
    bodyInvokes_nil, or_false, hinit, hupdate, HeaderInvokes]
  exact or_left_comm

/-- **To write a `for` loop as its block adds the calls in its header**, and nothing else. -/
theorem Unfolds.bodyInvokes_iff (h : Unfolds init update ss ss') :
    BodyInvokes f ss' ↔ BodyInvokes f ss ∨ HeaderInvokes f init update := by
  induction h with
  | here c body span rest =>
    -- what stands in the header of the loop stands in the bodies of the block
    rw [bodyInvokes_append, bodyInvokes_whileForm, bodyInvokes_cons, invokes_forLoop]
    exact or_right_comm
  | later s _ ih => rw [bodyInvokes_cons, bodyInvokes_cons, ih, or_assoc]
  | body c alternative span rest _ ih =>
    rw [bodyInvokes_cons, bodyInvokes_cons, invokes_branch, invokes_branch, ih]
    exact (or_congr_left or_right_comm).trans or_right_comm
  | alternative c b span rest _ ih =>
    simp only [bodyInvokes_cons, invokes_branch, Option.mem_def, Option.some.injEq,
      exists_eq_left', ih]
    rw [← or_assoc]
    exact or_right_comm
  | forBody init' c update' span rest _ ih =>
    rw [bodyInvokes_cons, bodyInvokes_cons, invokes_forLoop, invokes_forLoop, ih]
    exact or_right_comm
  | whileBody c span rest _ ih =>
    rw [bodyInvokes_cons, bodyInvokes_cons, invokes_whileLoop, invokes_whileLoop, ih]
    exact or_right_comm

theorem ownAll_append (b₁ b₂ : List Stmt) : ownAll (b₁ ++ b₂) = (ownAll b₁ && ownAll b₂) := by
  induction b₁ with
  | nil => rw [List.nil_append, ownAll, Bool.true_and]
  | cons s b₁ ih => rw [List.cons_append, ownAll, ownAll, ih, Bool.and_assoc]

theorem ownAll_whileForm (c : Option Condition) (body : List Stmt) (span : Span) :
    ownAll (whileForm init c update body span) = ownAll body := by
  have hinit : ownAll (init.map Stmt.declare).toList = true := by
    cases init <;> simp [ownAll, isOwn]
  have hupdate : ownAll (update.map Stmt.assign).toList = true := by
    cases update <;> simp [ownAll, isOwn]
  rw [whileForm, ownAll_append, hinit, ownAll, isOwn, ownAll_append, hupdate, ownAll]
  simp

theorem Unfolds.ownAll_eq (h : Unfolds init update ss ss') : ownAll ss' = ownAll ss := by
  induction h with
  | here c body span rest => rw [ownAll_append, ownAll_whileForm, ownAll, isOwn]
  | later s _ ih => rw [ownAll, ownAll, ih]
  | body c alternative span rest _ ih => rw [ownAll, ownAll, isOwn, isOwn, ih]
  | alternative c b span rest _ ih =>
    rw [ownAll, ownAll, isOwn, isOwn, ownAlternative, ownAlternative, ih]
  | forBody init' c update' span rest _ ih => rw [ownAll, ownAll, isOwn, isOwn, ih]
  | whileBody c span rest _ ih => rw [ownAll, ownAll, isOwn, isOwn, ih]

end Stmt

/-- **To write a `for` loop as its block can set the flag of the function.**  Two programs differ in
the body of one function, or of the entry block, and there in one `for` loop that is written as the
block it abbreviates.  Both analyses succeed, and only the reports on that function differ.  Its
flag is set in the second one if it is set in the first one or if the header of the loop calls the
function, and not otherwise. -/
theorem Program.unfold_selfCalls (p q : Program) (hp : p.isNative = true) (s : Subject)
    (before after : List Subject) (body : List Stmt) (init : Option Declaration)
    (update : Option Assignment) (hs : p.subjects = before ++ s :: after)
    (hq : q.subjects = before ++ { s with body := body } :: after)
    (hbody : Stmt.Unfolds init update s.body body) :
    ∃ rs r r' rs', p.analyze.result = .ok (rs ++ r :: rs') ∧
      q.analyze.result = .ok (rs ++ r' :: rs') ∧ rs.length = before.length ∧
      r.name = s.name ∧ r'.name = s.name ∧
      (r'.isRecursive = true ↔ r.isRecursive = true ∨ HeaderInvokes s.name init update) := by
  have hown := ownAll_of_native hp
  have hresult := analyze_result hown
  rw [hs, List.forall_mem_append, List.forall_mem_cons] at hown
  obtain ⟨hbefore, hs', hafter⟩ := hown
  have hbody' : Stmt.ownAll body = true := hbody.ownAll_eq.trans hs'
  have hown' : ∀ t ∈ q.subjects, Stmt.ownAll t.body = true := by
    rw [hq, List.forall_mem_append, List.forall_mem_cons]
    exact ⟨hbefore, hbody', hafter⟩
  have hresult' := analyze_result hown'
  rw [hs, List.map_append, List.map_cons] at hresult
  rw [hq, List.map_append, List.map_cons] at hresult'
  refine ⟨_, _, _, _, hresult, hresult', List.length_map _, rfl, rfl, ?_⟩
  have hflag : s.isRecursive = true ↔ Stmt.BodyInvokes s.name s.body :=
    Subject.isRecursive_iff hs'
  have hflag' : Subject.isRecursive { s with body := body } = true ↔
      Stmt.BodyInvokes s.name body := Subject.isRecursive_iff hbody'
  exact hflag'.trans (hbody.bodyInvokes_iff.trans (or_congr_left hflag.symm))

/-- The update of `while () { for (; ; i = f()) { } }` calls the function `f` that the loop is in,
and the flag is set once the inner loop is written as a block. -/
theorem Program.unfold_selfCalls_of_update :
    let update : Assignment := ⟨"i", .set (.arith (.call "f" [])), .unknown⟩
    let outer (inner : List Stmt) : List Stmt := [.whileLoop none inner .unknown]
    let loop : List Stmt := outer [.forLoop none none (some update) [] .unknown]
    let block : List Stmt := outer (Stmt.whileForm none none (some update) [] .unknown)
    let f (body : List Stmt) : Function := { name := "f", returnType := .int, body := body }
    let p : Program := ⟨[.function (f loop)], {}⟩
    let q : Program := ⟨[.function (f block)], {}⟩
    p.isNative = true ∧ Stmt.Unfolds none (some update) loop block ∧
      HeaderInvokes "f" none (some update) ∧
      ∃ r r' rmain, p.analyze.result = .ok [r, rmain] ∧ q.analyze.result = .ok [r', rmain] ∧
        r.isRecursive = false ∧ r'.isRecursive = true := by
  intro update outer loop block f p q
  have hnative : p.isNative = true := by decide +kernel
  have hbody : Stmt.Unfolds none (some update) loop block :=
    .whileBody none .unknown [] (.here none [] .unknown [])
  have hheader : HeaderInvokes "f" none (some update) :=
    .inr ⟨update, rfl, .value rfl (.arith (.call []))⟩
  obtain ⟨rs, r, r', rs', hp, hq, hlength, -, -, hflag⟩ :=
    unfold_selfCalls p q hnative (f loop).subject [] [p.entry.subject] block none (some update)
      rfl rfl hbody
  obtain rfl : rs = [] := List.length_eq_zero_iff.1 hlength
  have hreports : p.analyze.result = .ok [(f loop).subject.summary, p.entry.subject.summary] := rfl
  rw [hreports] at hp
  obtain ⟨rfl, rfl⟩ := List.cons.inj (Except.ok.inj hp)
  exact ⟨hnative, hbody, hheader, _, r', _, hreports, hq, rfl, hflag.2 (.inr hheader)⟩

/-- **The flag depends on how a loop is written.**  In `for (int i = f(); ; ) { }` and in
`for (; ; i = f()) { }` the header calls the function `f` that the loop is in.  The flag is not set,
and it is set if the loop is written as the block that it abbreviates. -/
theorem Program.unfold_selfCalls_changes_flag :
    let init : Declaration :=
      ⟨.int, [⟨"i", some (.arith (.call "f" [])), .unknown⟩], .unknown, by simp⟩
    let update : Assignment := ⟨"i", .set (.arith (.call "f" [])), .unknown⟩
    let flags (body : List Stmt) : Except Fault (List Bool) :=
      let f : Function := { name := "f", returnType := .int, body := body }
      (Program.mk [.function f] {}).analyze.result.map (List.map FunctionReport.isRecursive)
    let loop : List Stmt := [.forLoop (some init) none none [] .unknown]
    let block : List Stmt := Stmt.whileForm (some init) none none [] .unknown
    let loop' : List Stmt := [.forLoop none none (some update) [] .unknown]
    let block' : List Stmt := Stmt.whileForm none none (some update) [] .unknown
    Stmt.Unfolds (some init) none loop block ∧ flags loop = .ok [false, false] ∧
      flags block = .ok [true, false] ∧
      Stmt.Unfolds none (some update) loop' block' ∧ flags loop' = .ok [false, false] ∧
      flags block' = .ok [true, false] := by
  intro init update flags loop block loop' block'
  exact ⟨.here none [] .unknown [], rfl, rfl, .here none [] .unknown [], rfl, rfl⟩

end FlatScript
