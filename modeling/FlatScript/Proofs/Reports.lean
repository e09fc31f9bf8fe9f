import FlatScript.Analysis.Analyze
import FlatScript.Proofs.Reading

/-!
# The reports of an analysis

An analysis walks through nested bodies and collects what it comes across.  Here the walk is
compared with a list: `Stmt.preorder` lists the statements of a body at any depth, each one before
those inside it, and a report is read off this list one statement after another.

* `Stmt.declaration?`, `Stmt.control?` : what a single statement adds to a report, without those
  inside it;
* `Stmt.survey` : what listed statements add, or the first foreign kind name among them;
* `Stmt.scanAll_eq_survey` : **the scan of a body is the survey of its statements in preorder**;
* `Subject.summary` : the report on a subject, from the subject alone;
* `Program.analyze_result` : the reports of a program are the summaries of its subjects;
* `Program.analyze_exact` : **what the reports of a native program say, and that each of them
  depends on its own function only.**
-/

namespace FlatScript

/-! ### The statements of a body in preorder -/

mutual

/-- The statements inside a statement at any depth, those of a body before those of the
alternative. -/
def Stmt.inside : Stmt → List Stmt
  | .branch _ body alternative _ => Stmt.preorder body ++ Stmt.preorderAlternative alternative
  | .forLoop _ _ _ body _ => Stmt.preorder body
  | .whileLoop _ body _ => Stmt.preorder body
  | .relabelled _ s => s.inside
  | _ => []

/-- The statements of a body at any depth, each one before those inside it. -/
def Stmt.preorder : List Stmt → List Stmt
  | [] => []
  | s :: rest => s :: (s.inside ++ Stmt.preorder rest)

/-- The statements of the alternative of a branch in preorder. -/
def Stmt.preorderAlternative : Option (List Stmt) → List Stmt
  | none => []
  | some body => Stmt.preorder body

end

namespace Stmt

theorem preorder_cons (s : Stmt) (ss : List Stmt) :
    preorder (s :: ss) = (s :: s.inside) ++ preorder ss := by
  rw [preorder, List.cons_append]

theorem preorder_append (b₁ b₂ : List Stmt) :
    preorder (b₁ ++ b₂) = preorder b₁ ++ preorder b₂ := by
  induction b₁ with
  | nil => rw [List.nil_append, preorder, List.nil_append]
  | cons s b₁ ih => rw [List.cons_append, preorder_cons, preorder_cons, ih, List.append_assoc]

/-! ### What a single statement adds to a report -/

/-- The declaration of a statement, the one in the header of a loop included. -/
def declaration? : Stmt → Option Declaration
  | .declare d => some d
  | .forLoop init _ _ _ _ => init
  | _ => none

/-- The statement as a control structure, if it is one.  A branch with an alternative, be it empty,
is a kind of its own. -/
def control? : Stmt → Option Control
  | .branch _ _ none span => some ⟨.branch, span.line⟩
  | .branch _ _ (some _) span => some ⟨.branchElse, span.line⟩
  | .forLoop _ _ _ _ span => some ⟨.forLoop, span.line⟩
  | .whileLoop _ _ span => some ⟨.whileLoop, span.line⟩
  | _ => none

/-- The foreign kind name of a statement, if it is under one. -/
def foreignKind? : Stmt → Option String
  | .relabelled kind _ => some kind
  | _ => none

end Stmt

/-- One entry for each declarator, with the line of its name and the text of its initializer. -/
def Declaration.entries (d : Declaration) : List Local :=
  d.declarators.map fun e =>
    { type := d.type
      name := e.name
      initializerText := match e.initializer with
        | some v => v.sourceText
        | none => ""
      line := e.span.line }

/-- The contents of listed statements, without those inside them. -/
def Contents.ofListed (ss : List Stmt) : Contents :=
  ⟨(ss.filterMap Stmt.declaration?).flatMap Declaration.entries, ss.filterMap Stmt.control?⟩

/-- What listed statements add to a report; the first of them under a foreign kind name is
reported. -/
def Stmt.survey (ss : List Stmt) : Except Fault Contents :=
  match ss.findSome? Stmt.foreignKind? with
  | some kind => .error (.unsupported .statementKind kind)
  | none => .ok (.ofListed ss)

/-! ### The scan of a body -/

theorem Contents.ofListed_append (ss ts : List Stmt) :
    ofListed (ss ++ ts) = ofListed ss ++ ofListed ts := by
  simp only [ofListed, List.filterMap_append, List.flatMap_append]
  rfl

theorem Contents.append_assoc (a b c : Contents) : a ++ b ++ c = a ++ (b ++ c) := by
  show mk (a.locals ++ b.locals ++ c.locals) (a.controls ++ b.controls ++ c.controls) = _
  rw [List.append_assoc, List.append_assoc]
  rfl

theorem Declaration.contents_eq (d : Declaration) : d.contents = ⟨[d].flatMap entries, []⟩ := by
  simp only [contents, entries, List.flatMap_singleton, Contents.mk.injEq, and_true]
  refine List.map_congr_left fun e _ => ?_
  rw [Declarator.info]
  cases e.initializer <;> rfl

namespace Stmt

theorem survey_append (ss ts : List Stmt) :
    survey (ss ++ ts) = do
      let a ← survey ss
      let b ← survey ts
      return a ++ b := by
  simp only [survey, List.findSome?_append, Contents.ofListed_append]
  cases ss.findSome? foreignKind? with
  | some kind => rfl
  | none => cases ts.findSome? foreignKind? <;> rfl

theorem scanAll_eq_of_forall {ss : List Stmt} (h : ∀ s ∈ ss, s.scan = survey (s :: s.inside)) :
    scanAll ss = survey (preorder ss) := by
  induction ss with
  | nil => rfl
  | cons s ss ih =>
    obtain ⟨hs, hss⟩ := List.forall_mem_cons.1 h
    rw [scanAll, hs, ih hss, preorder_cons, survey_append]

/-- A statement followed by those inside it, one part of which is scanned before the other. -/
theorem survey_cons {s : Stmt} {first : Contents} (h : survey [s] = .ok first) (ts : List Stmt) :
    survey (s :: ts) = do
      let rest ← survey ts
      return first ++ rest := by
  rw [← List.singleton_append, survey_append, h]
  rfl

/-- The scan of a statement is the survey of the statement and those inside it. -/
theorem scan_eq_survey (s : Stmt) : s.scan = survey (s :: s.inside) := by
  induction s using Stmt.induct with
  | declare d =>
    rw [scan, Declaration.contents_eq]
    rfl
  | assign a => rfl
  | expression e span => rfl
  | branch c body alternative span ihBody ihAlternative =>
    have hother : scanAlternative alternative = survey (preorderAlternative alternative) := by
      cases alternative with
      | none => rfl
      | some body' => exact scanAll_eq_of_forall (ihAlternative body' rfl)
    have hfirst : survey [branch c body alternative span] =
        .ok (.control (if alternative.isSome then .branchElse else .branch) span) := by
      cases alternative <;> rfl
    rw [scan, scanAll_eq_of_forall ihBody, hother, inside, survey_cons hfirst, survey_append]
    cases survey (preorder body) with
    | error f => rfl
    | ok inner =>
      cases survey (preorderAlternative alternative) with
      | error f => rfl
      | ok other => exact congrArg _ (Contents.append_assoc _ inner other)
  | forLoop init c update body span ih =>
    have hfirst : survey [forLoop init c update body span] =
        .ok (.control .forLoop span ++ initContents init) := by
      cases init with
      | none => rfl
      | some d =>
        rw [initContents, Declaration.contents_eq]
        rfl
    rw [scan, scanAll_eq_of_forall ih, inside, survey_cons hfirst]
  | whileLoop c body span ih =>
    have hfirst : survey [whileLoop c body span] = .ok (.control .whileLoop span) := rfl
    rw [scan, scanAll_eq_of_forall ih, inside, survey_cons hfirst]
  | ret v span => rfl
  | call name args span => rfl
  | relabelled kind s ih => rfl

/-- **The scan of a body is the survey of its statements in preorder.** -/
theorem scanAll_eq_survey (ss : List Stmt) : scanAll ss = survey (preorder ss) :=
  scanAll_eq_of_forall fun s _ => s.scan_eq_survey

theorem foreignKind?_of_ownAll {ss : List Stmt}
    (hss : ∀ s ∈ ss, s.isOwn = true → ∀ t ∈ s :: s.inside, t.foreignKind? = none)
    (h : ownAll ss = true) : ∀ t ∈ preorder ss, t.foreignKind? = none := by
  induction ss with
  | nil => simp [preorder]
  | cons s ss ih =>
    obtain ⟨hs, hrest⟩ := List.forall_mem_cons.1 hss
    rw [ownAll, Bool.and_eq_true] at h
    rw [preorder_cons, List.forall_mem_append]
    exact ⟨hs h.1, ih hrest h.2⟩

/-- A statement of this language has no foreign kind name inside it. -/
theorem foreignKind?_of_isOwn (s : Stmt) (h : s.isOwn = true) :
    ∀ t ∈ s :: s.inside, t.foreignKind? = none := by
  induction s using Stmt.induct with
  | branch c body alternative span ihBody ihAlternative =>
    rw [isOwn, Bool.and_eq_true] at h
    rw [List.forall_mem_cons, inside, List.forall_mem_append]
    refine ⟨rfl, foreignKind?_of_ownAll ihBody h.1, ?_⟩
    cases alternative with
    | none => simp [preorderAlternative]
    | some body' => exact foreignKind?_of_ownAll (ihAlternative body' rfl) h.2
  | forLoop init c update body span ih =>
    rw [List.forall_mem_cons, inside]
    exact ⟨rfl, foreignKind?_of_ownAll ih h⟩
  | whileLoop c body span ih =>
    rw [List.forall_mem_cons, inside]
    exact ⟨rfl, foreignKind?_of_ownAll ih h⟩
  | relabelled kind s ih => cases h
  | _ => simp [inside, foreignKind?]

/-- The scan of a body of this language succeeds. -/
theorem scanAll_of_ownAll {ss : List Stmt} (h : ownAll ss = true) :
    scanAll ss = .ok (.ofListed (preorder ss)) := by
  have hnone : (preorder ss).findSome? foreignKind? = none :=
    List.findSome?_eq_none_iff.2 (foreignKind?_of_ownAll (fun s _ => s.foreignKind?_of_isOwn) h)
  rw [scanAll_eq_survey, survey, hnone]

end Stmt

/-! ### The search for calls -/

namespace Stmt

theorem exists_anyCalls_of_forall {name : String} {ss : List Stmt}
    (hss : ∀ s ∈ ss, s.isOwn = true → ∃ b, s.calls name = .ok b) (h : ownAll ss = true) :
    ∃ b, anyCalls name ss = .ok b := by
  induction ss with
  | nil => exact ⟨false, rfl⟩
  | cons s ss ih =>
    obtain ⟨hs, hrest⟩ := List.forall_mem_cons.1 hss
    rw [ownAll, Bool.and_eq_true] at h
    obtain ⟨b, hb⟩ := hs h.1
    rw [anyCalls, hb]
    cases b with
    | true => exact ⟨true, rfl⟩
    | false => exact ih hrest h.2

/-- The search for calls succeeds in a statement of this language. -/
theorem exists_calls (name : String) (s : Stmt) (h : s.isOwn = true) :
    ∃ b, s.calls name = .ok b := by
  induction s using Stmt.induct with
  | branch c body alternative span ihBody ihAlternative =>
    rw [isOwn, Bool.and_eq_true] at h
    obtain ⟨b, hb⟩ := exists_anyCalls_of_forall ihBody h.1
    rw [calls, hb]
    cases b with
    | true => exact ⟨true, rfl⟩
    | false =>
      cases alternative with
      | none => exact ⟨false, rfl⟩
      | some body' => exact exists_anyCalls_of_forall (ihAlternative body' rfl) h.2
  | forLoop init c update body span ih =>
    rw [calls]
    exact exists_anyCalls_of_forall ih h
  | whileLoop c body span ih =>
    rw [calls]
    exact exists_anyCalls_of_forall ih h
  | relabelled kind s ih => cases h
  | _ => exact ⟨_, by rw [calls]⟩

end Stmt

/-! ### The reports of a program -/

/-- Whether the search for calls finds that the body of the subject calls it. -/
def Subject.isRecursive (s : Subject) : Bool :=
  match Stmt.anyCalls s.name s.body with
  | .ok found => found
  | .error _ => false

/-- The report on a subject of this language, from the subject alone. -/
def Subject.summary (s : Subject) : FunctionReport :=
  s.report (.ofListed (Stmt.preorder s.body)) s.isRecursive

/-- The report shows the subject: its own parts as they are, one entry for each declarator and one
for each control structure of its body, in preorder. -/
structure Subject.ShownBy (s : Subject) (r : FunctionReport) : Prop where
  name : r.name = s.name
  returnType : r.returnType = s.returnType
  isEntry : r.isEntry = s.isEntry
  parameters : r.parameters = s.parameters
  startLine : r.startLine = s.span.line
  endLine : r.endLine = s.span.lastLine
  lines : r.startLine ≤ r.endLine
  locals : r.locals = ((Stmt.preorder s.body).filterMap Stmt.declaration?).flatMap
    Declaration.entries
  controls : r.controls = (Stmt.preorder s.body).filterMap Stmt.control?

theorem Span.line_le_lastLine (s : Span) : s.line ≤ s.lastLine := by
  unfold lastLine
  cases h : s.endLine with
  | none => exact Int.le_refl _
  | some e => exact s.line_le_endLine e h

theorem Subject.shownBy_summary (s : Subject) : s.ShownBy s.summary where
  name := rfl
  returnType := rfl
  isEntry := rfl
  parameters := rfl
  startLine := rfl
  endLine := rfl
  lines := s.span.line_le_lastLine
  locals := rfl
  controls := rfl

theorem scanSubjects_of_ownAll {subjects : List Subject}
    (h : ∀ s ∈ subjects, Stmt.ownAll s.body = true) :
    scanSubjects subjects = .ok (subjects.map fun s => (s, .ofListed (Stmt.preorder s.body))) := by
  induction subjects with
  | nil => rfl
  | cons s subjects ih =>
    obtain ⟨hs, hrest⟩ := List.forall_mem_cons.1 h
    rw [scanSubjects, Stmt.scanAll_of_ownAll hs, ih hrest]
    rfl

theorem reportAll_of_ownAll {subjects : List Subject}
    (h : ∀ s ∈ subjects, Stmt.ownAll s.body = true) :
    (reportAll (subjects.map fun s => (s, .ofListed (Stmt.preorder s.body)))).result =
      .ok (subjects.map Subject.summary) := by
  induction subjects with
  | nil => rfl
  | cons s subjects ih =>
    obtain ⟨hs, hrest⟩ := List.forall_mem_cons.1 h
    obtain ⟨found, hfound⟩ :=
      Stmt.exists_anyCalls_of_forall (fun t _ => t.exists_calls s.name) hs
    have hsummary : s.report (.ofListed (Stmt.preorder s.body)) found = s.summary := by
      rw [Subject.summary, Subject.isRecursive, hfound]
    simp only [List.map_cons, reportAll, hfound, hsummary, ih hrest]
    rfl

namespace Program

/-- The reports are the summaries of the subjects, in their order. -/
theorem analyze_result {p : Program} (h : ∀ s ∈ p.subjects, Stmt.ownAll s.body = true) :
    p.analyze.result = .ok (p.subjects.map Subject.summary) := by
  rw [analyze, scanSubjects_of_ownAll h]
  exact reportAll_of_ownAll h

theorem ownAll_of_native {p : Program} (hp : p.isNative = true) :
    ∀ s ∈ p.subjects, Stmt.ownAll s.body = true := by
  simp only [isNative, Bool.and_eq_true, List.all_eq_true] at hp
  obtain ⟨⟨-, hfunctions⟩, hmain⟩ := hp
  intro s hs
  rcases List.mem_append.1 hs with hs | hs
  · obtain ⟨f, hf, rfl⟩ := List.mem_map.1 hs
    exact (Stmt.native_body (hfunctions f hf)).1
  · rw [List.mem_singleton.1 hs]
    exact (Stmt.native_body hmain).1

end Program

/-- **What an analysis reports.**  Programs that are read from data are native, and the analysis of
a native program succeeds.  It has one report on each function, in the order of the declarations and
whether or not their names differ, and after them one on the entry block.  Each report is the one
that the function has when every other global is removed.  It shows the function: its parameters
and lines, the declarators of its body and the control structures of its body.  The contents of two
bodies one after the other are those of the first followed by those of the second. -/
theorem Program.analyze_exact :
    (∀ j p, Schema.readProgram j = .ok p → p.isNative = true) ∧
    (∀ p : Program, p.isNative = true →
      p.analyze.result =
        .ok (p.functions.map (fun f => f.subject.summary) ++ [p.entry.subject.summary]) ∧
      (∀ f ∈ p.functions, f.subject.ShownBy f.subject.summary ∧
        f.subject.summary.isEntry = false ∧
        (Program.mk [.function f] p.entry).analyze.result =
          .ok [f.subject.summary, p.entry.subject.summary]) ∧
      p.entry.subject.ShownBy p.entry.subject.summary ∧
      p.entry.subject.summary.isEntry = true ∧ p.entry.subject.summary.parameters = [] ∧
      (Program.mk [] p.entry).analyze.result = .ok [p.entry.subject.summary]) ∧
    ∀ b₁ b₂ c₁ c₂, Stmt.scanAll b₁ = .ok c₁ → Stmt.scanAll b₂ = .ok c₂ →
      ∃ c, Stmt.scanAll (b₁ ++ b₂) = .ok c ∧ c.locals = c₁.locals ++ c₂.locals ∧
        c.controls = c₁.controls ++ c₂.controls := by
  refine ⟨fun j p => Schema.readProgram_yields_native j p, fun p hp => ?_, ?_⟩
  · have hown := ownAll_of_native hp
    refine ⟨?_, fun f hf => ⟨f.subject.shownBy_summary, rfl, ?_⟩, p.entry.subject.shownBy_summary,
      rfl, rfl, ?_⟩
    · rw [analyze_result hown, subjects, List.map_append, List.map_map]
      rfl
    · refine analyze_result fun s hs => hown s ?_
      rcases List.mem_cons.1 hs with rfl | hs
      · exact List.mem_append_left _ (List.mem_map_of_mem hf)
      · exact List.mem_append_right _ hs
    · exact analyze_result fun s hs => hown s (List.mem_append_right _ hs)
  · intro b₁ b₂ c₁ c₂ h₁ h₂
    rw [Stmt.scanAll_eq_survey] at h₁ h₂
    refine ⟨c₁ ++ c₂, ?_, rfl, rfl⟩
    rw [Stmt.scanAll_eq_survey, Stmt.preorder_append, Stmt.survey_append, h₁, h₂]
    rfl

/-- Two functions are called `f`.  The first one is
`if (null) { int x; } else { for (float i = 0; ; ) { while () { } } }`, with these parts on lines
1 to 5, and does not call itself; the second one is `f();`, and does. -/
theorem Program.analyze_exact_of_namesakes :
    let x : Declaration := ⟨.int, [⟨"x", none, { line := 2 }⟩], .unknown, by simp⟩
    let i : Declaration :=
      ⟨.float, [⟨"i", some (.arith (.number "0")), { line := 4 }⟩], .unknown, by simp⟩
    let loop : Stmt := .forLoop (some i) none none [.whileLoop none [] { line := 5 }] { line := 4 }
    let f : Function := { name := "f", returnType := .int, body := [
      .branch .null [.declare x] (some [loop]) { line := 1 }] }
    let g : Function := { name := "f", returnType := .double, body := [.call "f" [] .unknown] }
    let p : Program := ⟨[.function f, .function g], {}⟩
    p.isNative = true ∧
      p.analyze.result =
        .ok [f.subject.summary, g.subject.summary, p.entry.subject.summary] ∧
      f.subject.summary.locals = [⟨.int, "x", "", 2⟩, ⟨.float, "i", "0", 4⟩] ∧
      f.subject.summary.controls = [⟨.branchElse, 1⟩, ⟨.forLoop, 4⟩, ⟨.whileLoop, 5⟩] ∧
      f.subject.summary.isRecursive = false ∧ g.subject.summary.isRecursive = true ∧
      (Program.mk [.function g] p.entry).analyze.result =
        .ok [g.subject.summary, p.entry.subject.summary] := by
  intro x i loop f g p
  have hnative : p.isNative = true := by decide +kernel
  obtain ⟨-, hprogram, -⟩ := analyze_exact
  obtain ⟨hresult, hfunctions, -⟩ := hprogram p hnative
  obtain ⟨hshown, -, -⟩ := hfunctions f (by simp [p, functions, Global.function?])
  obtain ⟨-, -, halone⟩ := hfunctions g (by simp [p, functions, Global.function?])
  exact ⟨hnative, hresult, hshown.locals, hshown.controls, rfl, rfl, halone⟩

end FlatScript
