import FlatScript.Proofs.Failure

/-!
# The trace of a loop

A loop that is left through its condition has gone through a number of rounds, and it is described
by the stores before and after them.  The stores say all there is to say: they fix the value of the
loop, the variables that it leaves behind and the number that it writes to the log.

* `Loop.Leads` : a round leads from one store to another;
* `Loop.Trace` : rounds lead along a sequence of stores, the condition holding before each of them;
* `Loop.endsWith_done_iff` : **a loop is done exactly if it has a trace up to a store in which its
  condition is false**;
* `Program.loops_traced` : the traces of loops, and what a run writes to the log.
-/

namespace FlatScript

open Outcome

/-! ### Traces -/

/-- A round of the loop leads from the store `σ` to `σ'`: the body, which has the value `v`, and
then the update. -/
def Loop.Leads (tolerance : Double) (scope : Scope) (l : Loop) (σ : Store) (v : Option Value)
    (σ' : Store) : Prop :=
  ∃ u m m', EndsWith (fun fuel => Stmt.execAll tolerance fuel l.body none { store := σ, scope })
    (.done v m) ∧ execUpdate l.update m = .done u m' ∧ m'.store = σ'

/-- The first `k` rounds of the loop lead along the stores `σ 0, …, σ k`, and the condition holds
before each of them if there is one.  The body has the values `w 0, …, w (k - 1)`. -/
structure Loop.Trace (tolerance : Double) (scope : Scope) (l : Loop) (k : Nat) (σ : Nat → Store)
    (w : Nat → Option Value) : Prop where
  holds : ∀ i < k, ∀ c ∈ l.condition, c.test tolerance (σ i) = .ok true
  leads : ∀ i < k, l.Leads tolerance scope (σ i) (w i) (σ (i + 1))

/-- The value of a loop before its round `k` is that of the body in the round before it.  There is
none before the first round. -/
def valueBefore (w : Nat → Option Value) : Nat → Option Value
  | 0 => none
  | k + 1 => w k

section Tests

variable {tolerance : Double} {σ : Store} {c : Option Condition}

theorem testOptional_eq_true_iff :
    testOptional tolerance σ c = .ok true ↔ ∀ c' ∈ c, c'.test tolerance σ = .ok true := by
  cases c <;> simp [testOptional]

theorem testOptional_eq_false_iff :
    testOptional tolerance σ c = .ok false ↔ ∃ c' ∈ c, c'.test tolerance σ = .ok false := by
  cases c <;> simp [testOptional]

end Tests

section Rounds

variable {tolerance : Double} {l : Loop} {m₀ m m₁ m₂ : Machine} {k : Nat} {u v : Option Value}
  {σ : Nat → Store} {w : Nat → Option Value}

/-- What a round does to a machine does not depend on its log. -/
theorem Loop.round_sameState {m' : Machine} (h : SameState m m')
    (hbody : EndsWith (fun fuel => Stmt.execAll tolerance fuel l.body none m) (.done v m₁))
    (hupdate : execUpdate l.update m₁ = .done u m₂) :
    ∃ m₁' m₂', EndsWith (fun fuel => Stmt.execAll tolerance fuel l.body none m') (.done v m₁') ∧
      execUpdate l.update m₁' = .done u m₂' ∧ SameState m₂ m₂' := by
  obtain ⟨m₁', hbody', h₁⟩ := Stmt.execAll_endsWith_done_sameState h hbody
  have hcorr := execUpdate_sameState l.update h₁
  rw [hupdate] at hcorr
  generalize hu : execUpdate l.update m₁' = o at hcorr
  cases hcorr with
  | done hvalue h₂ =>
    subst hvalue
    exact ⟨m₁', _, hbody', hu, h₂⟩

theorem Loop.leads_of_endsWith
    (hbody : EndsWith (fun fuel => Stmt.execAll tolerance fuel l.body none m) (.done v m₁))
    (hupdate : execUpdate l.update m₁ = .done u m₂) :
    l.Leads tolerance m.scope m.store v m₂.store := by
  have hsame : SameState m { store := m.store, scope := m.scope } := ⟨rfl, rfl⟩
  obtain ⟨m₁', m₂', hbody', hupdate', h₂⟩ := round_sameState hsame hbody hupdate
  exact ⟨u, m₁', m₂', hbody', hupdate', h₂.1.symm⟩

theorem Loop.Leads.exists_endsWith {σ' : Store} (h : l.Leads tolerance m.scope m.store v σ') :
    ∃ u m₁ m₂, EndsWith (fun fuel => Stmt.execAll tolerance fuel l.body none m) (.done v m₁) ∧
      execUpdate l.update m₁ = .done u m₂ ∧ m₂.store = σ' := by
  obtain ⟨u, m₁, m₂, hbody, hupdate, rfl⟩ := h
  have hsame : SameState { store := m.store, scope := m.scope } m := ⟨rfl, rfl⟩
  obtain ⟨m₁', m₂', hbody', hupdate', h₂⟩ := round_sameState hsame hbody hupdate
  exact ⟨u, m₁', m₂', hbody', hupdate', h₂.1.symm⟩

/-- A trace goes on with one more round. -/
theorem Loop.Trace.snoc {scope : Scope} {σ' : Store} (h : l.Trace tolerance scope k σ w)
    (hcondition : ∀ c ∈ l.condition, c.test tolerance (σ k) = .ok true)
    (hround : l.Leads tolerance scope (σ k) v σ') :
    l.Trace tolerance scope (k + 1) (fun i => if i ≤ k then σ i else σ')
      (fun i => if i < k then w i else v) where
  holds i hi := by
    rw [if_pos (Nat.lt_succ_iff.1 hi)]
    rcases Nat.lt_succ_iff_lt_or_eq.1 hi with hlt | rfl
    · exact h.holds i hlt
    · exact hcondition
  leads i hi := by
    rw [if_pos (Nat.lt_succ_iff.1 hi)]
    rcases Nat.lt_succ_iff_lt_or_eq.1 hi with hlt | rfl
    · rw [if_pos hlt, if_pos (Nat.succ_le_of_lt hlt)]
      exact h.leads i hlt
    · rw [if_neg (Nat.lt_irrefl i), if_neg (Nat.not_succ_le_self i)]
      exact hround

/-- The trace of the rounds before the last one. -/
theorem Loop.Trace.init {scope : Scope} (h : l.Trace tolerance scope (k + 1) σ w) :
    l.Trace tolerance scope k σ w where
  holds i hi := h.holds i (Nat.lt_succ_of_lt hi)
  leads i hi := h.leads i (Nat.lt_succ_of_lt hi)

theorem Rounds.scope_eq {c : Option Condition} {update : Option Assignment} {body : List Stmt}
    (h : Rounds tolerance c update body m₀ k v m) : m.scope = m₀.scope := by
  induction h with
  | start => rfl
  | round _ _ hbody hupdate ih =>
    rw [(execUpdate_performs update _).scope_eq hupdate, Stmt.scope_eq_of_endsWith hbody, ih]

/-- The rounds of a loop lead along the stores that they leave behind. -/
theorem Rounds.exists_trace (h : Rounds tolerance l.condition l.update l.body m₀ k v m) :
    ∃ σ w, σ 0 = m₀.store ∧ l.Trace tolerance m₀.scope k σ w ∧ σ k = m.store ∧
      valueBefore w k = v := by
  induction h with
  | start => exact ⟨fun _ => m₀.store, fun _ => none, rfl, ⟨by simp, by simp⟩, rfl, rfl⟩
  | @round k _ _ _ m _ _ hm ht hbody hupdate ih =>
    obtain ⟨σ, w, hstart, htrace, hstore, -⟩ := ih
    have hlead := Loop.leads_of_endsWith hbody hupdate
    rw [← hstore, hm.scope_eq] at hlead
    rw [← hstore] at ht
    refine ⟨_, _, ?_, htrace.snoc (testOptional_eq_true_iff.1 ht) hlead, ?_, ?_⟩
    · exact hstart
    · exact if_neg (Nat.not_succ_le_self k)
    · exact if_neg (Nat.lt_irrefl k)

/-- A loop goes through the rounds of a trace. -/
theorem Loop.Trace.exists_rounds (h : l.Trace tolerance m₀.scope k σ w)
    (hstart : σ 0 = m₀.store) :
    ∃ m, Rounds tolerance l.condition l.update l.body m₀ k (valueBefore w k) m ∧
      m.store = σ k := by
  induction k with
  | zero => exact ⟨m₀, .start, hstart.symm⟩
  | succ k ih =>
    obtain ⟨m, hm, hstore⟩ := ih h.init
    have ht := testOptional_eq_true_iff.2 (h.holds k (Nat.lt_succ_self k))
    have hlead := h.leads k (Nat.lt_succ_self k)
    rw [← hstore] at ht hlead
    rw [← hm.scope_eq] at hlead
    obtain ⟨u, m₁, m₂, hbody, hupdate, hstore₂⟩ := hlead.exists_endsWith
    exact ⟨m₂, hm.round ht hbody hupdate, hstore₂⟩

end Rounds

/-! ### Loops that are done -/

/-- **A loop is done exactly if it has a trace up to a store in which its condition is false.**
It leaves that store behind, its value is that of the last body, and it writes the number of its
rounds to the log. -/
theorem Loop.endsWith_done_iff {tolerance : Double} {l : Loop} {m : Machine} {v : Option Value}
    {t : Store} {k : Nat} :
    (∃ m', EndsWith (fun fuel => l.exec tolerance fuel m) (.done v m') ∧ m'.store = t ∧
      m'.log.back? = some (.loopExited l.kind k)) ↔
    ∃ u m₀ σ w, execInit l.init m = .done u m₀ ∧ σ 0 = m₀.store ∧
      l.Trace tolerance m.scope k σ w ∧ (∃ c ∈ l.condition, c.test tolerance (σ k) = .ok false) ∧
      t = σ k ∧ v = valueBefore w k := by
  constructor
  · rintro ⟨m', hends, rfl, hlog⟩
    obtain ⟨fuel, hfuel⟩ := hends.exists_fuel
    obtain ⟨u, m₀, hinit, hloop⟩ := andThen_eq_done_iff.1 hfuel
    obtain ⟨n, m₁, hrounds, htest, rfl⟩ := iterate_eq_done .start hloop
    obtain rfl : n = k := by simpa [Machine.record] using hlog
    obtain ⟨σ, w, hstart, htrace, hstore, hvalue⟩ := hrounds.exists_trace
    rw [(execInit_performs l.init m).scope_eq hinit] at htrace
    rw [← hstore] at htest
    exact ⟨u, m₀, σ, w, hinit, hstart, htrace, testOptional_eq_false_iff.1 htest, hstore.symm,
      hvalue.symm⟩
  · rintro ⟨u, m₀, σ, w, hinit, hstart, htrace, htest, rfl, rfl⟩
    rw [← (execInit_performs l.init m).scope_eq hinit] at htrace
    obtain ⟨m₁, hrounds, hstore⟩ := htrace.exists_rounds hstart
    rw [← hstore, ← testOptional_eq_false_iff] at htest
    have hexit : EndsWith (loopFrom tolerance l.kind l.condition l.update l.body k
        (valueBefore w k) m₁) (.done (valueBefore w k) (m₁.record (.loopExited l.kind k))) :=
      loopFrom_steady.endsWith_of_eq (iterate_of_false htest 0 k _) (by simp)
    refine ⟨m₁.record (.loopExited l.kind k), ?_, hstore, by simp [Machine.record]⟩
    simp only [Loop.exec, hinit, done_andThen]
    exact hrounds.endsWith hexit

/-- **The loops of a run and its log.**  A loop statement is done exactly along a trace, which gives
its value, its store and the number that it writes to the log.  A statement writes what the loops
that it goes through write, of which each writes its exit after those inside it if it is done, and
none otherwise.  The log of a program starts with its start and, unless the program fails, ends
with its end and the number of its variables. -/
theorem Program.loops_traced (tolerance : Double) :
    (∀ s l, Stmt.loop? s = some l → ∀ m v t k,
      (∃ m', EndsWith (fun fuel => s.exec tolerance fuel m) (.done v m') ∧ m'.store = t ∧
        m'.log.back? = some (.loopExited l.kind k)) ↔
      ∃ u m₀ σ w, execInit l.init m = .done u m₀ ∧ σ 0 = m₀.store ∧
        l.Trace tolerance m.scope k σ w ∧ (∃ c ∈ l.condition, c.test tolerance (σ k) = .ok false) ∧
        t = σ k ∧ v = valueBefore w k) ∧
    (∀ s fuel m, ∀ m' ∈ (Stmt.exec tolerance fuel s m).machine?,
      m'.log.toList = m.log.toList ++ (s.loopRuns tolerance fuel m).flatMap LoopRun.events) ∧
    (∀ s l, Stmt.loop? s = some l → ∀ fuel m, ∃ exit, s.loopRuns tolerance fuel m =
        [.mk l.kind exit ((l.starts tolerance fuel m).flatMap
          (Stmt.loopRunsAll tolerance fuel l.body))] ∧
      (exit.isSome ↔ ∃ v m', s.exec tolerance fuel m = .done v m')) ∧
    (∀ p fuel v m, Program.run tolerance fuel p = .done v m →
      m.log.toList = .started p.globals.length p.entry.body.length ::
        (p.loopRuns tolerance fuel).flatMap LoopRun.events ++ [.finished m.store.size]) ∧
    ∀ p fuel f m, Program.run tolerance fuel p = .failed f m →
      m.log.toList = .started p.globals.length p.entry.body.length ::
        (p.loopRuns tolerance fuel).flatMap LoopRun.events ∧
      ∀ size, .finished size ∉ m.log.toList := by
  refine ⟨fun s l hs m v t k => ?_, fun s fuel m => s.exec_logs tolerance fuel m,
    fun s l hs fuel m => ?_, fun p fuel v m => log_of_done, fun p fuel f m h => ?_⟩
  · simp only [Stmt.exec_of_loop? hs]
    exact Loop.endsWith_done_iff
  · refine ⟨_, Stmt.loopRuns_of_loop? hs tolerance fuel m, ?_⟩
    rw [Stmt.exec_of_loop? hs]
    exact Loop.exit?_isSome_iff
  · have hlog := log_of_failed h
    refine ⟨hlog, fun size hmem => ?_⟩
    rw [hlog, ← LoopRun.eventsAll_eq_flatMap] at hmem
    rcases List.mem_cons.1 hmem with hstarted | hexit
    · cases hstarted
    · obtain ⟨kind, k, heq⟩ := LoopRun.isExit_of_mem_eventsAll _ _ hexit
      cases heq

/-- `while (x < 2) { for (int i; i < 1; i++) { x++; } }` goes through two rounds if `x` is `0`, and
leaves its inner loop twice before the outer one.  If its body goes on with `1 / 0`, only the inner
loop is left through its condition. -/
theorem Program.loops_traced_of_nested :
    let one : Double := .one
    let two : Value := .number (one.add one)
    let below (x bound : String) : Condition :=
      .comparison (.known .lt) (.variable x) (.number bound)
    let declare (x : String) : Declaration := ⟨.int, [⟨x, none, .unknown⟩], .unknown, by simp⟩
    let inner : Stmt := .forLoop (some (declare "i")) (some (below "i" "1"))
      (some ⟨"i", .increment, .unknown⟩) [.assign ⟨"x", .increment, .unknown⟩] .unknown
    let divide : Stmt := .expression (.binary (.known .div) (.number "1") (.number "0")) .unknown
    let outer (body : List Stmt) : Loop := ⟨.whileLoop, none, some (below "x" "2"), none, body⟩
    let program (body : List Stmt) : Program := { entry := { body :=
      [.declare (declare "x"), .whileLoop (some (below "x" "2")) body .unknown] } }
    let start : Machine := Machine.fresh.declare "x" TypeTag.int.defaultValue .int
    (∃ σ w, σ 0 = start.store ∧ (outer [inner]).Trace one start.scope 2 σ w ∧
      (below "x" "2").test one (σ 2) = .ok false ∧ valueBefore w 2 = some two) ∧
    (∃ v m, (program [inner]).run one 3 = .done v m ∧
      m.log.toList = [.started 0 2, .loopExited .forLoop 1, .loopExited .forLoop 1,
        .loopExited .whileLoop 2, .finished 2]) ∧
    ∃ m, (program [inner, divide]).run one 3 = .failed .divisionByZero m ∧
      m.log.toList = [.started 0 2, .loopExited .forLoop 1] := by
  intro one two below declare inner divide outer program start
  obtain ⟨htrace, -, -, hdone, hfailed⟩ := loops_traced one
  refine ⟨?_, ?_, ?_⟩
  · let s : Stmt := .whileLoop (some (below "x" "2")) [inner] .unknown
    let m' : Machine := { start with
      store := ⟨[("x", ⟨two, some .int, .globals⟩), ("i", ⟨.number one, some .int, .globals⟩)]⟩
      log := #[.loopExited .forLoop 1, .loopExited .forLoop 1, .loopExited .whileLoop 2] }
    have hexec : s.exec one 3 start = .done (some two) m' := by decide +kernel
    have hends := (Stmt.exec_steady one s start).endsWith_of_eq hexec (by simp)
    obtain ⟨u, m₀, σ, w, hinit, hstart, htrace, ⟨c, hc, htest⟩, -, hvalue⟩ :=
      (htrace s (outer [inner]) rfl start (some two) m'.store 2).1 ⟨m', hends, rfl, rfl⟩
    obtain ⟨-, rfl⟩ := done.inj hinit
    obtain rfl := Option.some.inj hc
    exact ⟨σ, w, hstart, htrace, htest, hvalue.symm⟩
  · let m : Machine := {
      store := ⟨[("x", ⟨two, some .int, .main⟩), ("i", ⟨.number one, some .int, .main⟩)]⟩
      scope := .main
      log := #[.started 0 2, .loopExited .forLoop 1, .loopExited .forLoop 1,
        .loopExited .whileLoop 2, .finished 2] }
    have hrun : (program [inner]).run one 3 = .done (some two) m := by decide +kernel
    have hloops : ((program [inner]).loopRuns one 3).flatMap LoopRun.events =
      [.loopExited .forLoop 1, .loopExited .forLoop 1, .loopExited .whileLoop 2] := by
      decide +kernel
    refine ⟨some two, m, hrun, ?_⟩
    rw [hdone _ 3 _ m hrun, hloops]
    rfl
  · let m : Machine := {
      store := ⟨[("x", ⟨.number one, some .int, .main⟩), ("i", ⟨.number one, some .int, .main⟩)]⟩
      scope := .main
      log := #[.started 0 2, .loopExited .forLoop 1] }
    have hrun : (program [inner, divide]).run one 3 = .failed .divisionByZero m := by
      decide +kernel
    have hloops : ((program [inner, divide]).loopRuns one 3).flatMap LoopRun.events =
      [.loopExited .forLoop 1] := by decide +kernel
    refine ⟨m, hrun, ?_⟩
    rw [(hfailed _ 3 _ m hrun).1, hloops]
    rfl

end FlatScript
