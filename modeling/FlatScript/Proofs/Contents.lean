import FlatScript.Proofs.Provenance
import FlatScript.Proofs.Reports

/-!
# The variables that an analysis reports

An analysis visits every declaration of a body once, in the order of the text and whether or not it
can be reached.  A run visits the declarations that it reaches, as often as it reaches them.  The
two walks are written apart from one another, and they agree on what declares a variable.

* `Stmt.locals`, `Stmt.localsAll` : one entry for each declarator of a statement or a body, at any
  depth, the headers of loops and both sides of branches included;
* `Stmt.scan_finds` : the scan of a statement of this language succeeds and finds exactly these
  entries;
* `Program.exists_entry_report` : so the last report of a native program, which is on the entry
  block, shows the entries of that block;
* `Program.TypesLocally` : an invariant of runs, a typed variable of the main scope is declared in
  the entry block;
* `Program.typed_mem_locals` : **every typed variable that a run leaves in the main scope is in the
  report on the entry block**, with its type and its name.
-/

namespace FlatScript

open Outcome

/-! ### The variables of a body -/

/-- The variables that a piece declares, as a report shows them. -/
def Piece.locals : Piece → List Local
  | .declaration d => d.declarators.map (Declarator.info d.type)
  | _ => []

/-- The variables that a statement declares at any depth. -/
def Stmt.locals (s : Stmt) : List Local := s.pieces.flatMap Piece.locals

/-- The variables that a body declares at any depth. -/
def Stmt.localsAll (ss : List Stmt) : List Local := (Stmt.piecesAll ss).flatMap Piece.locals

/-- The scan succeeds and finds the variables. -/
def Finds (scan : Except Fault Contents) (found : List Local) : Prop :=
  ∃ contents, scan = .ok contents ∧ contents.locals = found

theorem Piece.mem_locals {d : Declaration} {x : String} (hx : x ∈ d.names) :
    ∃ l ∈ (Piece.declaration d).locals, l.type = d.type ∧ l.name = x := by
  obtain ⟨e, he, rfl⟩ := List.mem_map.1 hx
  exact ⟨e.info d.type, List.mem_map_of_mem he, rfl, rfl⟩

theorem locals_initContents (init : Option Declaration) :
    (initContents init).locals = (init.toList.map Piece.declaration).flatMap Piece.locals := by
  cases init with
  | none => rfl
  | some d => simp [initContents, Declaration.contents, Piece.locals]

/-- Only declarations have variables, whatever else is in the header of a loop. -/
theorem locals_header (init : Option Declaration) (c : Option Condition)
    (update : Option Assignment) :
    (init.toList.map Piece.declaration ++ c.toList.map Piece.condition ++
      update.toList.map Piece.assignment).flatMap Piece.locals = (initContents init).locals := by
  rw [locals_initContents, List.flatMap_append, List.flatMap_append]
  have hc : (c.toList.map Piece.condition).flatMap Piece.locals = [] := by
    cases c <;> rfl
  have hupdate : (update.toList.map Piece.assignment).flatMap Piece.locals = [] := by
    cases update <;> rfl
  rw [hc, hupdate, List.append_nil, List.append_nil]

/-! ### The scan of a body -/

namespace Stmt

theorem scanAll_finds_of_forall {ss : List Stmt}
    (hss : ∀ s ∈ ss, s.isOwn = true → Finds s.scan s.locals) (h : ownAll ss = true) :
    Finds (scanAll ss) (localsAll ss) := by
  induction ss with
  | nil => exact ⟨{}, rfl, rfl⟩
  | cons s ss ih =>
    obtain ⟨hs, hrest⟩ := List.forall_mem_cons.1 hss
    rw [ownAll, Bool.and_eq_true] at h
    obtain ⟨first, hfirst, hlocals⟩ := hs h.1
    obtain ⟨others, hothers, hlocals'⟩ := ih hrest h.2
    refine ⟨first ++ others, ?_, ?_⟩
    · rw [scanAll, hfirst, hothers]
      rfl
    · rw [localsAll, piecesAll, List.flatMap_append, ← locals, ← localsAll, ← hlocals, ← hlocals']
      rfl

/-- **The scan of a statement of this language succeeds, and finds one entry for each declarator.**
-/
theorem scan_finds (s : Stmt) (h : s.isOwn = true) : Finds s.scan s.locals := by
  induction s using Stmt.induct with
  | declare d =>
    refine ⟨d.contents, by rw [scan], ?_⟩
    simp [Declaration.contents, locals, pieces, Piece.locals]
  | assign a => exact ⟨{}, by rw [scan], rfl⟩
  | expression e span => exact ⟨{}, by rw [scan], rfl⟩
  | branch c body alternative span ihBody ihAlternative =>
    rw [isOwn, Bool.and_eq_true] at h
    obtain ⟨inner, hinner, hlocals⟩ := scanAll_finds_of_forall ihBody h.1
    have hother : Finds (scanAlternative alternative)
        ((piecesAlternative alternative).flatMap Piece.locals) := by
      cases alternative with
      | none => exact ⟨{}, rfl, rfl⟩
      | some body' => exact scanAll_finds_of_forall (ihAlternative body' rfl) h.2
    obtain ⟨other, hother, hlocals'⟩ := hother
    refine ⟨_, by rw [scan, hinner, hother]; rfl, ?_⟩
    have hlist : (branch c body alternative span).locals =
        localsAll body ++ (piecesAlternative alternative).flatMap Piece.locals := by
      simp [locals, localsAll, pieces, Piece.locals]
    rw [hlist, ← hlocals, ← hlocals']
    rfl
  | forLoop init c update body span ih =>
    obtain ⟨inner, hinner, hlocals⟩ := scanAll_finds_of_forall ih h
    refine ⟨_, by rw [scan, hinner]; rfl, ?_⟩
    rw [locals, pieces, List.flatMap_append, locals_header]
    exact congrArg _ hlocals
  | whileLoop c body span ih =>
    obtain ⟨inner, hinner, hlocals⟩ := scanAll_finds_of_forall ih h
    refine ⟨_, by rw [scan, hinner]; rfl, ?_⟩
    have hheader := locals_header none c none
    simp only [Option.toList_none, List.map_nil, List.nil_append, List.append_nil] at hheader
    rw [locals, pieces, List.flatMap_append, hheader]
    exact hlocals
  | ret v span =>
    refine ⟨{}, by rw [scan], ?_⟩
    cases v <;> rfl
  | call name args span => exact ⟨{}, by rw [scan], rfl⟩
  | relabelled kind s ih => cases h

end Stmt

/-! ### The reports of an analysis -/

/-- The report is on the subject, and shows the variables that its body declares. -/
structure Subject.Reported (s : Subject) (r : FunctionReport) : Prop where
  name : r.name = s.name
  isEntry : r.isEntry = s.isEntry
  locals : r.locals = Stmt.localsAll s.body

theorem Subject.reported_summary {s : Subject} (h : Stmt.ownAll s.body = true) :
    s.Reported s.summary := by
  obtain ⟨contents, hcontents, hlocals⟩ :=
    Stmt.scanAll_finds_of_forall (fun t _ => t.scan_finds) h
  rw [Stmt.scanAll_of_ownAll h] at hcontents
  obtain rfl := Except.ok.inj hcontents
  exact ⟨rfl, rfl, hlocals⟩

/-- The last report of a native program is on the entry block. -/
theorem Program.exists_entry_report {p : Program} (hp : p.isNative = true) :
    ∃ reports r, p.analyze.result = .ok reports ∧ reports.getLast? = some r ∧
      p.entry.subject.Reported r := by
  have hown := ownAll_of_native hp
  refine ⟨_, p.entry.subject.summary, analyze_result hown, ?_, Subject.reported_summary ?_⟩
  · rw [subjects, List.map_append, List.map_singleton, List.getLast?_concat]
  · exact hown _ (List.mem_append_right _ (List.mem_singleton_self _))

/-! ### The variables of a run -/

theorem Store.find?_of_mem_entries {σ : Store} (h : σ.names.Nodup) {x : String} {v : Variable}
    (hmem : (x, v) ∈ σ.entries) : σ.find? x = some v := by
  obtain ⟨entries⟩ := σ
  simp only [names, find?] at h hmem ⊢
  induction entries with
  | nil => cases hmem
  | cons e entries ih =>
    obtain ⟨n, w⟩ := e
    rw [List.map_cons, List.nodup_cons] at h
    rw [lookup_cons]
    rcases List.mem_cons.1 hmem with heq | hlater
    · cases heq
      rw [if_pos rfl]
    · -- the name comes again later, so it is not that of the first entry
      have hne : x ≠ n := by
        rintro rfl
        exact h.1 (List.mem_map.2 ⟨(x, v), hlater, rfl⟩)
      rw [if_neg hne]
      exact ih h.2 hlater

/-- Every typed variable of the main scope is declared in the entry block with its type. -/
def Program.TypesLocally (p : Program) (σ : Store) : Prop :=
  ∀ x v t, σ.find? x = some v → v.scope = .main → v.declaredType = some t → p.DeclaresLocally x t

/-- A write that is made in a scope, by a piece that is executed in it, preserves the invariant. -/
theorem Program.TypesLocally.write {p : Program} {σ : Store} (hσ : p.TypesLocally σ)
    {scope : Scope} {w : Write} (hw : ∃ pc ∈ p.piecesIn scope, pc.MakesIn σ scope w) :
    p.TypesLocally (σ.write w) := by
  obtain ⟨pc, hpc, hmakes⟩ := hw
  intro x v t hv hscope htype
  rw [Store.find?_write] at hv
  by_cases hx : x = w.name
  · rw [if_pos hx] at hv
    obtain rfl := Option.some.inj hv
    cases hmakes with
    | @declare d e value he _ =>
      -- a declaration that gives the main scope is executed in it
      obtain rfl : scope = .main := hscope
      obtain rfl : d.type = t := Option.some.inj htype
      exact ⟨d, hpc, rfl, hx ▸ List.mem_map_of_mem he⟩
    | @assign a value _ =>
      cases hold : σ.find? x with
      | none =>
        rw [hold] at htype
        cases htype
      | some old =>
        rw [hold] at hscope htype
        exact hσ x old t hold hscope htype
  · rw [if_neg hx] at hv
    exact hσ x v t hv hscope htype

theorem Program.typesLocally_of_run {tolerance : Double} {fuel : Nat} {p : Program} {m : Machine}
    (h : m ∈ (p.run tolerance fuel).machine?) : p.TypesLocally m.store := by
  have hempty : p.TypesLocally Store.empty := by
    intro x v t hv
    cases hv
  rw [run_store h, history, Store.writeAll_append]
  refine (p.entryHistory_traces tolerance fuel).invariant (fun _ _ hw hσ => hσ.write hw) ?_
  exact (p.globalHistory_traces tolerance fuel).invariant (fun _ _ hw hσ => hσ.write hw) hempty

/-- **Runs and analyses agree on declarations.**  The analysis of a native program, such as every
program that is read from data, succeeds, and its last report is on the entry block.  Every variable
with a type that a run leaves in the main scope, be it a run that fails, is among the variables of
that report, with its type and its name. -/
theorem Program.typed_mem_locals (tolerance : Double) (p : Program) (hp : p.isNative = true) :
    ∃ reports r, p.analyze.result = .ok reports ∧ reports.getLast? = some r ∧ r.isEntry = true ∧
      ∀ o, EndsWith (fun fuel => p.run tolerance fuel) o → ∀ m ∈ o.machine?,
        ∀ x v t, (x, v) ∈ m.store.entries → v.scope = .main → v.declaredType = some t →
          ∃ l ∈ r.locals, l.type = t ∧ l.name = x := by
  obtain ⟨reports, r, hreports, hlast, hr⟩ := exists_entry_report hp
  refine ⟨reports, r, hreports, hlast, hr.isEntry, ?_⟩
  intro o ho m hm x v t hmem hscope htype
  obtain ⟨fuel, rfl⟩ := ho.exists_fuel
  have hempty : Store.empty.names.Nodup := List.nodup_nil
  have hnodup : m.store.names.Nodup := by
    rw [run_store hm]
    exact Store.nodup_names_writeAll hempty _
  have hv := Store.find?_of_mem_entries hnodup hmem
  obtain ⟨d, hd, rfl, hx⟩ := typesLocally_of_run hm x v t hv hscope htype
  obtain ⟨l, hl, hlocal⟩ := Piece.mem_locals hx
  rw [hr.locals]
  exact ⟨l, List.mem_flatMap.2 ⟨_, hd, hl⟩, hlocal⟩

/-- `int x = 1; main { if (x < 1) { double y; } else { for (float i = 0; i < 1; i++) { } } z; }`
fails at `z`.  The variable `i` of the loop is in the report on the entry block. -/
theorem Program.typed_mem_locals_of_header :
    let x : Declaration := ⟨.int, [⟨"x", some (.arith (.number "1")), .unknown⟩], .unknown, by simp⟩
    let y : Declaration := ⟨.double, [⟨"y", none, .unknown⟩], .unknown, by simp⟩
    let i : Declaration :=
      ⟨.float, [⟨"i", some (.arith (.number "0")), .unknown⟩], .unknown, by simp⟩
    let below (n : String) : Condition := .comparison (.known .lt) (.variable n) (.number "1")
    let loop : Stmt := .forLoop (some i) (some (below "i")) (some ⟨"i", .increment, .unknown⟩) []
      .unknown
    let p : Program := ⟨[.declaration x], { body := [
      .branch (below "x") [.declare y] (some [loop]) .unknown,
      .expression (.variable "z") .unknown] }⟩
    let v : Variable := ⟨.number .one, some .float, .main⟩
    let m : Machine := ⟨⟨[("x", ⟨.number .one, some .int, .globals⟩), ("i", v)]⟩, .main,
      #[.started 1 2, .loopExited .forLoop 1]⟩
    p.isNative = true ∧
      EndsWith (fun fuel => p.run Double.one fuel) (.failed (.undefinedVariable "z") m) ∧
      ("i", v) ∈ m.store.entries ∧
      ∃ reports r, p.analyze.result = .ok reports ∧ reports.getLast? = some r ∧
        ∃ l ∈ r.locals, l.type = .float ∧ l.name = "i" := by
  intro x y i below loop p v m
  have hnative : p.isNative = true := by decide +kernel
  have hrun : p.run Double.one 2 = .failed (.undefinedVariable "z") m := by decide +kernel
  have hfailed := (p.run_steady Double.one).endsWith_of_eq hrun (by simp)
  have hmem : ("i", v) ∈ m.store.entries := by simp [m]
  obtain ⟨reports, r, hreports, hlast, -, hlocals⟩ := typed_mem_locals Double.one p hnative
  exact ⟨hnative, hfailed, hmem, reports, r, hreports, hlast,
    hlocals _ hfailed m rfl "i" v .float hmem rfl rfl⟩

end FlatScript
