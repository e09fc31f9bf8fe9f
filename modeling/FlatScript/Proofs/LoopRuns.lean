import FlatScript.Proofs.Ending

/-!
# The loops that an execution goes through

The only thing that a statement writes to the log is that a loop was left through its condition.
So the log tells which loops were executed, and in what order they came to their end.

* `Loop`, `Stmt.loop?` : a loop of either kind, and the statements that are loops;
* `LoopRun` : one execution of a loop, with the executions of loops inside it;
* `LoopRun.events` : what it writes: first what the loops inside it write, then its own exit, unless
  it was left by a fault;
* `Stmt.loopRuns` : the loops that an execution of a statement goes through;
* `Stmt.exec_logs` : **an execution writes what its loops write**, also where it fails;
* `Program.log_of_done`, `Program.log_of_failed` : the log of a program that ends.
-/

namespace FlatScript

open Outcome

/-! ### Loops -/

/-- A loop of either kind; a `while` loop has neither declaration nor update. -/
structure Loop where
  kind : LoopKind
  init : Option Declaration
  condition : Option Condition
  update : Option Assignment
  body : List Stmt

/-- The loop that the statement is. -/
def Stmt.loop? : Stmt → Option Loop
  | .forLoop init c update body _ => some ⟨.forLoop, init, c, update, body⟩
  | .whileLoop c body _ => some ⟨.whileLoop, none, c, none, body⟩
  | _ => none

namespace Outcome

variable {α β γ : Type}

/-- What follows the step, which is nothing unless the step is done. -/
def whenDone (o : Outcome α) (next : Machine → List γ) : List γ :=
  match o with
  | .done _ m => next m
  | .failed _ _ => []
  | .outOfFuel => []

@[simp] theorem whenDone_done (a : α) (m : Machine) (next : Machine → List γ) :
    (done a m).whenDone next = next m := rfl
@[simp] theorem whenDone_failed (f : Fault) (m : Machine) (next : Machine → List γ) :
    (failed f m : Outcome α).whenDone next = [] := rfl

theorem flatMap_whenDone {δ : Type} (o : Outcome α) (next : Machine → List γ) (f : γ → List δ) :
    (o.whenDone next).flatMap f = o.whenDone fun m => (next m).flatMap f := by
  cases o <;> rfl

/-- The step adds the events to the log of the machine, whether it is done or has failed. -/
def Logs (o : Outcome α) (m : Machine) (es : List Event) : Prop :=
  ∀ m' ∈ o.machine?, m'.log.toList = m.log.toList ++ es

section Logs

variable {m : Machine} {o : Outcome α} {es : List Event}

theorem logs_done (a : α) {m' : Machine} (h : m'.log = m.log) : (done a m').Logs m [] := by
  rintro _ ⟨⟩
  rw [h, List.append_nil]

theorem logs_failed (f : Fault) (m : Machine) : (failed f m : Outcome α).Logs m [] := by
  rintro _ ⟨⟩
  exact (List.append_nil _).symm

theorem logs_outOfFuel (m : Machine) (es : List Event) : (outOfFuel : Outcome α).Logs m es := by
  rintro _ ⟨⟩

theorem logs_record (a : α) (m : Machine) (e : Event) : (done a (m.record e)).Logs m [e] := by
  rintro _ ⟨⟩
  exact Array.toList_push

theorem logs_ofExcept (m : Machine) (e : Except Fault α) : (ofExcept m e).Logs m [] := by
  cases e with
  | ok a => exact logs_done a rfl
  | error f => exact logs_failed f m

theorem Logs.trans {o' : Outcome β} {m₁ : Machine} {es' : List Event}
    (h : m₁.log.toList = m.log.toList ++ es) (h' : o'.Logs m₁ es') : o'.Logs m (es ++ es') := by
  intro m' hm'
  rw [h' m' hm', h, List.append_assoc]

theorem Logs.andThen {next : α → Machine → Outcome β} {events : Machine → List Event}
    (h : o.Logs m es) (hnext : ∀ a m₁, (next a m₁).Logs m₁ (events m₁)) :
    (o.andThen next).Logs m (es ++ o.whenDone events) := by
  cases o with
  | done a m₁ => exact (hnext a m₁).trans (h m₁ rfl)
  | failed f m₁ =>
    rintro _ ⟨⟩
    simpa using h m₁ rfl
  | outOfFuel => exact logs_outOfFuel m _

end Logs

end Outcome

/-! ### Rounds -/

/-- The machines on which a loop starts its rounds. -/
def roundStarts (test : Store → Except Fault Bool) (round : Machine → Outcome (Option Value)) :
    Nat → Machine → List Machine
  | 0, _ => []
  | fuel + 1, m =>
    match test m.store with
    | .error _ => []
    | .ok false => []
    | .ok true => m :: (round m).whenDone (roundStarts test round fuel)

namespace Loop

/-- Execute a loop. -/
def exec (tolerance : Double) (fuel : Nat) (l : Loop) (m : Machine) : Outcome (Option Value) :=
  (execInit l.init m).andThen fun _ m =>
    iterate l.kind (fun σ => testOptional tolerance σ l.condition)
      (fun m => Stmt.execAll tolerance fuel l.body none m) (execUpdate l.update) fuel 0 none m

/-- The machines on which the loop starts its rounds, after its declaration. -/
def starts (tolerance : Double) (fuel : Nat) (l : Loop) (m : Machine) : List Machine :=
  (execInit l.init m).whenDone <| roundStarts (fun σ => testOptional tolerance σ l.condition)
    (loopRound (fun m => Stmt.execAll tolerance fuel l.body none m) (execUpdate l.update)) fuel

/-- The number of rounds after which the loop is left, unless a fault ends it. -/
def exit? (tolerance : Double) (fuel : Nat) (l : Loop) (m : Machine) : Option Nat :=
  match l.exec tolerance fuel m with
  | .done _ _ => some (l.starts tolerance fuel m).length
  | .failed _ _ => none
  | .outOfFuel => none

theorem exit?_isSome_iff {tolerance : Double} {fuel : Nat} {l : Loop} {m : Machine} :
    (l.exit? tolerance fuel m).isSome ↔ ∃ v m', l.exec tolerance fuel m = .done v m' := by
  unfold exit?
  cases l.exec tolerance fuel m <;> simp

theorem map_exit? {α : Type} (tolerance : Double) (fuel : Nat) (l : Loop) (m : Machine)
    (f : Nat → α) :
    (l.exit? tolerance fuel m).toList.map f =
      (l.exec tolerance fuel m).whenDone fun _ => [f (l.starts tolerance fuel m).length] := by
  unfold exit?
  cases l.exec tolerance fuel m <;> rfl

end Loop

theorem Stmt.exec_of_loop? {s : Stmt} {l : Loop} (h : s.loop? = some l) (tolerance : Double)
    (fuel : Nat) (m : Machine) : s.exec tolerance fuel m = l.exec tolerance fuel m := by
  cases s with
  | forLoop init c update body span =>
    obtain rfl := Option.some.inj h
    simp only [Stmt.exec, Loop.exec]
  | whileLoop c body span =>
    obtain rfl := Option.some.inj h
    simp only [Stmt.exec, Loop.exec, execInit, done_andThen]
  | _ => cases h

/-! ### Executions of loops -/

/-- One execution of a loop: after how many rounds it was left, unless a fault ended it, and the
executions of loops that its rounds went through. -/
inductive LoopRun where
  | mk (kind : LoopKind) (exit : Option Nat) (inner : List LoopRun)

mutual

/-- What the execution of a loop writes to the log: what the ones inside it write, and then its own
exit. -/
def LoopRun.events : LoopRun → List Event
  | .mk kind exit inner => LoopRun.eventsAll inner ++ exit.toList.map (Event.loopExited kind)

/-- What executions of loops write to the log, in order. -/
def LoopRun.eventsAll : List LoopRun → List Event
  | [] => []
  | r :: rs => r.events ++ LoopRun.eventsAll rs

end

mutual

/-- The loops that an execution of a statement goes through. -/
def Stmt.loopRuns (tolerance : Double) (fuel : Nat) : Stmt → Machine → List LoopRun
  | .branch condition body alternative _, m =>
    match condition.test tolerance m.store with
    | .error _ => []
    | .ok true => Stmt.loopRunsAll tolerance fuel body m
    | .ok false => Stmt.loopRunsAlternative tolerance fuel alternative m
  | .forLoop init condition update body _, m =>
    let l : Loop := ⟨.forLoop, init, condition, update, body⟩
    [.mk .forLoop (l.exit? tolerance fuel m)
      ((l.starts tolerance fuel m).flatMap fun m => Stmt.loopRunsAll tolerance fuel body m)]
  | .whileLoop condition body _, m =>
    let l : Loop := ⟨.whileLoop, none, condition, none, body⟩
    [.mk .whileLoop (l.exit? tolerance fuel m)
      ((l.starts tolerance fuel m).flatMap fun m => Stmt.loopRunsAll tolerance fuel body m)]
  | .declare _, _ => []
  | .assign _, _ => []
  | .expression _ _, _ => []
  | .ret _ _, _ => []
  | .call _ _ _, _ => []
  | .relabelled _ _, _ => []

/-- The loops that an execution of statements goes through, in order. -/
def Stmt.loopRunsAll (tolerance : Double) (fuel : Nat) : List Stmt → Machine → List LoopRun
  | [], _ => []
  | s :: rest, m =>
    s.loopRuns tolerance fuel m ++
      (s.exec tolerance fuel m).whenDone fun m => Stmt.loopRunsAll tolerance fuel rest m

/-- The loops that an execution of the alternative of a branch goes through. -/
def Stmt.loopRunsAlternative (tolerance : Double) (fuel : Nat) :
    Option (List Stmt) → Machine → List LoopRun
  | none, _ => []
  | some body, m => Stmt.loopRunsAll tolerance fuel body m

end

theorem LoopRun.eventsAll_eq_flatMap (rs : List LoopRun) :
    LoopRun.eventsAll rs = rs.flatMap LoopRun.events := by
  induction rs with
  | nil => rfl
  | cons r rs ih => rw [eventsAll, ih, List.flatMap_cons]

theorem LoopRun.events_mk (kind : LoopKind) (exit : Option Nat) (inner : List LoopRun) :
    (LoopRun.mk kind exit inner).events =
      inner.flatMap LoopRun.events ++ exit.toList.map (Event.loopExited kind) := by
  rw [events, eventsAll_eq_flatMap]

/-- The event is the exit of a loop. -/
def Event.IsExit (e : Event) : Prop := ∃ kind k, e = .loopExited kind k

mutual

theorem LoopRun.isExit_of_mem_events : ∀ r : LoopRun, ∀ e ∈ r.events, e.IsExit
  | .mk kind exit inner, e, he => by
    rw [events, List.mem_append] at he
    rcases he with he | he
    · exact isExit_of_mem_eventsAll inner e he
    · obtain ⟨k, -, rfl⟩ := List.mem_map.1 he
      exact ⟨kind, k, rfl⟩

theorem LoopRun.isExit_of_mem_eventsAll :
    ∀ rs : List LoopRun, ∀ e ∈ LoopRun.eventsAll rs, e.IsExit
  | [], e, he => by cases he
  | r :: rs, e, he => by
    rw [eventsAll, List.mem_append] at he
    rcases he with he | he
    · exact isExit_of_mem_events r e he
    · exact isExit_of_mem_eventsAll rs e he

end

/-- A loop is executed once, and its rounds go through the loops of its body. -/
theorem Stmt.loopRuns_of_loop? {s : Stmt} {l : Loop} (h : s.loop? = some l) (tolerance : Double)
    (fuel : Nat) (m : Machine) :
    s.loopRuns tolerance fuel m = [.mk l.kind (l.exit? tolerance fuel m)
      ((l.starts tolerance fuel m).flatMap (Stmt.loopRunsAll tolerance fuel l.body))] := by
  cases s with
  | forLoop init c update body span =>
    obtain rfl := Option.some.inj h
    rw [Stmt.loopRuns]
  | whileLoop c body span =>
    obtain rfl := Option.some.inj h
    rw [Stmt.loopRuns]
  | _ => cases h

/-! ### Parts without loops -/

theorem Declarator.execAll_logs (type : TypeTag) (ds : List Declarator) (last : Option Value)
    (m : Machine) : (Declarator.execAll type ds last m).Logs m [] := by
  induction ds generalizing last m with
  | nil => exact logs_done last rfl
  | cons d ds ih =>
    simp only [Declarator.execAll]
    cases d.eval m.store type with
    | error f => exact logs_failed f m
    | ok v => exact ih (some v) (m.declare d.name v type)

theorem Assignment.exec_logs (a : Assignment) (m : Machine) : (a.exec m).Logs m [] := by
  simp only [Assignment.exec]
  cases a.action.eval m.store a.target with
  | error f => exact logs_failed f m
  | ok v => exact logs_done (some v) rfl

theorem execInit_logs (init : Option Declaration) (m : Machine) : (execInit init m).Logs m [] := by
  cases init with
  | none => exact logs_done none rfl
  | some d => exact Declarator.execAll_logs d.type d.declarators none m

theorem execUpdate_logs (update : Option Assignment) (m : Machine) :
    (execUpdate update m).Logs m [] := by
  cases update with
  | none => exact logs_done none rfl
  | some a => exact a.exec_logs m

/-! ### Execution writes what its loops write -/

section Loops

variable {body update : Machine → Outcome (Option Value)} {events : Machine → List Event}

theorem loopRound_logs (hbody : ∀ m, (body m).Logs m (events m))
    (hupdate : ∀ m, (update m).Logs m []) (m : Machine) :
    (loopRound body update m).Logs m (events m) := by
  have hround : (loopRound body update m).Logs m (events m ++ (body m).whenDone fun _ => []) := by
    refine (hbody m).andThen fun v m₁ m₂ hm₂ => ?_
    have h := hupdate m₁
    cases hu : update m₁ with
    | outOfFuel => simp [hu] at hm₂
    | failed f m' => rw [hu] at h hm₂; exact h m₂ hm₂
    | done u m' => rw [hu] at h hm₂; exact h m₂ hm₂
  cases hb : body m <;> simpa [hb, whenDone] using hround

/-- A loop that has made `count` rounds writes what its further rounds write, and its exit if it is
done. -/
theorem iterate_logs (kind : LoopKind) (test : Store → Except Fault Bool)
    (hround : ∀ m, (loopRound body update m).Logs m (events m)) (fuel count : Nat)
    (last : Option Value) (m : Machine) :
    (iterate kind test body update fuel count last m).Logs m
      ((roundStarts test (loopRound body update) fuel m).flatMap events ++
        (iterate kind test body update fuel count last m).whenDone fun _ => [.loopExited kind
          (count + (roundStarts test (loopRound body update) fuel m).length)]) := by
  induction fuel generalizing count last m with
  | zero => exact logs_outOfFuel m _
  | succ fuel ih =>
    cases ht : test m.store with
    | error f =>
      simp only [iterate_of_error ht, roundStarts, ht]
      exact logs_failed f m
    | ok holds =>
      cases holds with
      | false =>
        simp only [iterate_of_false ht, roundStarts, ht]
        exact logs_record last m _
      | true =>
        have h := hround m
        simp only [iterate_of_true ht, roundStarts, ht]
        cases hr : loopRound body update m with
        | outOfFuel => exact logs_outOfFuel m _
        | failed f m₁ =>
          rw [hr] at h
          simpa using h
        | done v m₁ =>
          rw [hr] at h
          have hrest := (ih (count + 1) v m₁).trans (h m₁ rfl)
          simpa [Nat.add_assoc, Nat.add_comm 1] using hrest

theorem Loop.exec_logs {tolerance : Double} {fuel : Nat} {l : Loop}
    (hbody : ∀ m, (Stmt.execAll tolerance fuel l.body none m).Logs m (events m)) (m : Machine) :
    (l.exec tolerance fuel m).Logs m ((l.starts tolerance fuel m).flatMap events ++
      (l.exit? tolerance fuel m).toList.map (Event.loopExited l.kind)) := by
  have hinit := execInit_logs l.init m
  rw [map_exit?]
  simp only [Loop.exec, Loop.starts]
  generalize execInit l.init m = o at hinit ⊢
  cases o with
  | outOfFuel => exact logs_outOfFuel m _
  | failed f m₁ => exact hinit
  | done u m₁ =>
    have hloop := iterate_logs l.kind (fun σ => testOptional tolerance σ l.condition)
      (loopRound_logs hbody (execUpdate_logs l.update)) fuel 0 none m₁
    rw [Nat.zero_add] at hloop
    have hall := hloop.trans (hinit m₁ rfl)
    rw [List.nil_append] at hall
    exact hall

end Loops

theorem Stmt.execAll_logs_of_forall {tolerance : Double} {fuel : Nat} {ss : List Stmt}
    (h : ∀ s ∈ ss, ∀ m, (s.exec tolerance fuel m).Logs m
      ((s.loopRuns tolerance fuel m).flatMap LoopRun.events)) (last : Option Value) (m : Machine) :
    (Stmt.execAll tolerance fuel ss last m).Logs m
      ((Stmt.loopRunsAll tolerance fuel ss m).flatMap LoopRun.events) := by
  induction ss generalizing last m with
  | nil =>
    simp only [Stmt.execAll, Stmt.loopRunsAll]
    exact logs_done last rfl
  | cons s ss ih =>
    obtain ⟨hs, hss⟩ := List.forall_mem_cons.1 h
    rw [execAll_cons, loopRunsAll, List.flatMap_append, flatMap_whenDone]
    exact (hs m).andThen (ih hss)

/-- The body of a loop writes what its loops write, and so does the loop. -/
theorem Stmt.exec_logs_of_loop? {tolerance : Double} {fuel : Nat} {s : Stmt} {l : Loop}
    (hs : s.loop? = some l) (h : ∀ s ∈ l.body, ∀ m, (s.exec tolerance fuel m).Logs m
      ((s.loopRuns tolerance fuel m).flatMap LoopRun.events)) (m : Machine) :
    (s.exec tolerance fuel m).Logs m
      ((s.loopRuns tolerance fuel m).flatMap LoopRun.events) := by
  rw [exec_of_loop? hs, loopRuns_of_loop? hs, List.flatMap_singleton, LoopRun.events_mk,
    List.flatMap_assoc]
  exact Loop.exec_logs (execAll_logs_of_forall h none) m

/-- **An execution writes what its loops write**, whether it is done or has failed. -/
theorem Stmt.exec_logs (tolerance : Double) (fuel : Nat) (s : Stmt) (m : Machine) :
    (s.exec tolerance fuel m).Logs m ((s.loopRuns tolerance fuel m).flatMap LoopRun.events) := by
  induction s using Stmt.induct generalizing m with
  | declare d =>
    simp only [Stmt.exec, Stmt.loopRuns]
    exact Declarator.execAll_logs d.type d.declarators none m
  | assign a =>
    simp only [Stmt.exec, Stmt.loopRuns]
    exact a.exec_logs m
  | expression e span =>
    simp only [Stmt.exec, Stmt.loopRuns]
    exact logs_ofExcept m _
  | branch c body alternative span ihBody ihAlternative =>
    simp only [Stmt.exec, Stmt.loopRuns]
    cases c.test tolerance m.store with
    | error f => exact logs_failed f m
    | ok holds =>
      cases holds with
      | true => exact execAll_logs_of_forall ihBody none m
      | false =>
        cases alternative with
        | none => exact logs_done none rfl
        | some body' => exact execAll_logs_of_forall (ihAlternative body' rfl) none m
  | forLoop init c update body span ih => exact exec_logs_of_loop? rfl ih m
  | whileLoop c body span ih => exact exec_logs_of_loop? rfl ih m
  | ret v span =>
    cases v with
    | none =>
      simp only [Stmt.exec, Stmt.loopRuns]
      exact logs_done none rfl
    | some v =>
      simp only [Stmt.exec, Stmt.loopRuns]
      exact logs_ofExcept m _
  | call name args span =>
    simp only [Stmt.exec, Stmt.loopRuns]
    exact logs_ofExcept m _
  | relabelled kind s ih =>
    simp only [Stmt.exec, Stmt.loopRuns]
    exact logs_failed _ m

theorem Stmt.execAll_logs (tolerance : Double) (fuel : Nat) (ss : List Stmt) (last : Option Value)
    (m : Machine) :
    (Stmt.execAll tolerance fuel ss last m).Logs m
      ((Stmt.loopRunsAll tolerance fuel ss m).flatMap LoopRun.events) :=
  execAll_logs_of_forall (fun s _ => s.exec_logs tolerance fuel) last m

/-! ### Programs -/

/-- The loops that a run of the program goes through. -/
def Program.loopRuns (tolerance : Double) (fuel : Nat) (p : Program) : List LoopRun :=
  Stmt.loopRunsAll tolerance fuel (p.stmts .globals) p.start ++
    (Stmt.execAll tolerance fuel (p.stmts .globals) none p.start).whenDone fun m =>
      Stmt.loopRunsAll tolerance fuel (p.stmts .main) { m with scope := .main }

namespace Program

variable {tolerance : Double} {fuel : Nat} {p : Program} {m : Machine}

/-- The statements of both scopes write what the loops of the program write. -/
theorem blocks_logs (tolerance : Double) (fuel : Nat) (p : Program) :
    ((Stmt.execAll tolerance fuel (p.stmts .globals) none p.start).andThen fun last m =>
      Stmt.execAll tolerance fuel (p.stmts .main) last { m with scope := .main }).Logs p.start
      ((p.loopRuns tolerance fuel).flatMap LoopRun.events) := by
  rw [loopRuns, List.flatMap_append, flatMap_whenDone]
  refine (Stmt.execAll_logs tolerance fuel _ none p.start).andThen fun last m => ?_
  exact Stmt.execAll_logs tolerance fuel _ last { m with scope := .main }

/-- The log of a program that comes to its end. -/
theorem log_of_done {v : Option Value} (h : p.run tolerance fuel = .done v m) :
    m.log.toList = .started p.globals.length p.entry.body.length ::
      (p.loopRuns tolerance fuel).flatMap LoopRun.events ++ [.finished m.store.size] := by
  rw [run_eq, ← andThen_assoc] at h
  obtain ⟨u, m₁, hblocks, hlast⟩ := andThen_eq_done_iff.1 h
  obtain ⟨-, rfl⟩ := done.inj hlast
  have hlog := blocks_logs tolerance fuel p m₁ (by rw [hblocks]; rfl)
  simp only [Machine.record, Array.toList_push, hlog]
  rfl

/-- The log of a program that fails. -/
theorem log_of_failed {f : Fault} (h : p.run tolerance fuel = .failed f m) :
    m.log.toList = .started p.globals.length p.entry.body.length ::
      (p.loopRuns tolerance fuel).flatMap LoopRun.events := by
  rw [run_eq, ← andThen_assoc] at h
  rcases andThen_eq_failed_iff.1 h with hblocks | ⟨u, m₁, -, hlast⟩
  · exact blocks_logs tolerance fuel p m (by rw [hblocks]; rfl)
  · cases hlast

end Program

end FlatScript
