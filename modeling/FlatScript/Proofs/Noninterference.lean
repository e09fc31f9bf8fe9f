import FlatScript.Proofs.History

/-!
# What an execution depends on

Values are read as numbers only, so a statement cannot tell apart two stores in which each name that
it reads is absent from both, or stands for the same number in both (`SameReading`).  Neither does
it depend on the tolerance, unless it tests for equality (`Stmt.testsEquality`).

* `Expr.eval_congr`, `Condition.test_congr`, `Action.eval_congr` : the parts of a statement have the
  same results in both stores;
* `Stmt.exec_inStep` : two executions go through machines that are `Alike` and perform the same
  writes, in step with one another;
* `Stmt.exec_noninterference` : **what is not read does not matter**: the two executions end
  together, with the same value or fault and the same log, and each name has been written in both,
  with the same value at the end, or in neither.
-/

namespace FlatScript

open Outcome

/-! ### Stores that read alike -/

/-- The name is absent from both stores, or its values are the same number, or neither can be read
as a number and for the same reason. -/
def SameReading (σ σ' : Store) (x : String) : Prop :=
  (σ.find? x).map (fun v => v.value.asNumber) = (σ'.find? x).map (fun v => v.value.asNumber)

section SameReading

variable {σ σ' : Store} {x : String}

/-- What is computed from a name by way of its number is the same in both stores. -/
theorem SameReading.bind_get {α : Type} (h : SameReading σ σ' x)
    {next : Value → Except Fault α}
    (hnext : ∀ v v' : Value, v.asNumber = v'.asNumber → next v = next v') :
    σ.get x >>= next = σ'.get x >>= next := by
  unfold SameReading at h
  unfold Store.get
  cases hx : σ.find? x with
  | none =>
    cases hx' : σ'.find? x with
    | none => rfl
    | some v' => simp [hx, hx'] at h
  | some v =>
    cases hx' : σ'.find? x with
    | none => simp [hx, hx'] at h
    | some v' =>
      have hv : v.value.asNumber = v'.value.asNumber := by simpa [hx, hx'] using h
      exact hnext v.value v'.value hv

theorem SameReading.write (h : SameReading σ σ' x) (w : Write) :
    SameReading (σ.write w) (σ'.write w) x := by
  unfold SameReading
  rw [Store.find?_write, Store.find?_write]
  by_cases hx : x = w.name
  · -- the value written is the same, whatever type and scope the variables have
    simp [hx]
  · rw [if_neg hx, if_neg hx]
    exact h

end SameReading

/-! ### Tests for equality -/

/-- The comparison is one for equality, up to the tolerance. -/
def Operator.isEquality : Operator CompareOp → Bool
  | .known .eq => true
  | .known .ne => true
  | _ => false

mutual

/-- The condition has a comparison for equality. -/
def Condition.testsEquality : Condition → Bool
  | .comparison op _ _ => op.isEquality
  | .truth _ => false
  | .not operand => operand.testsEquality
  | .paren inner => inner.testsEquality
  | .bool _ => false
  | .null => false
  | .chain head links => head.testsEquality || Link.anyTestsEquality links
  | .relabelled _ c => c.testsEquality

/-- One of the links has a comparison for equality. -/
def Link.anyTestsEquality : List Link → Bool
  | [] => false
  | .mk _ term :: links => term.testsEquality || Link.anyTestsEquality links

end

/-- The piece has a comparison for equality. -/
def Piece.testsEquality : Piece → Bool
  | .condition c => c.testsEquality
  | _ => false

/-- The statement has a comparison for equality, at any depth. -/
def Stmt.testsEquality (s : Stmt) : Bool := s.pieces.any Piece.testsEquality

theorem Operator.testCompare_congr {tolerance tolerance' : Double} {op : Operator CompareOp}
    (h : op.isEquality = true → tolerance = tolerance') (x y : Double) :
    op.testCompare tolerance x y = op.testCompare tolerance' x y := by
  cases op with
  | foreign symbol => rfl
  | known op => cases op <;> first | rfl | rw [h rfl]

/-! ### Evaluation -/

section Eval

variable {σ σ' : Store} {tolerance tolerance' : Double}

theorem Expr.eval_congr {e : Expr} (h : ∀ x ∈ e.reads, SameReading σ σ' x) :
    e.eval σ = e.eval σ' := by
  induction e using Expr.induct with
  | number numeral => rfl
  | ref name =>
    simp only [Expr.eval]
    exact (h name (by simp [Expr.reads])).bind_get fun _ _ hv => hv
  | binary op left right ihLeft ihRight =>
    rw [Expr.reads, List.forall_mem_append] at h
    simp only [Expr.eval, ihLeft h.1, ihRight h.2]
  | paren inner ih =>
    simp only [Expr.eval]
    exact ih h
  | call name args ih =>
    -- only a single argument is evaluated
    rcases args with _ | ⟨arg, _ | ⟨arg', rest⟩⟩
    · simp only [Expr.eval]
    · have harg : arg.eval σ = arg.eval σ' :=
        ih arg (by simp) (by simpa [Expr.reads, Expr.readsAll] using h)
      simp only [Expr.eval, harg]
    · simp only [Expr.eval]
  | relabelled kind e ih => simp only [Expr.eval]

theorem RValue.eval_congr {v : RValue} (h : ∀ x ∈ v.reads, SameReading σ σ' x) :
    v.eval σ = v.eval σ' := by
  cases v with
  | arith e => simp only [RValue.eval, Expr.eval_congr h]
  | text s => rfl
  | relabelledText kind s => rfl

theorem RValue.evalNumber_congr {v : RValue} (h : ∀ x ∈ v.reads, SameReading σ σ' x) :
    v.evalNumber σ = v.evalNumber σ' := by
  cases v with
  | arith e => exact Expr.eval_congr h
  | text s => rfl
  | relabelledText kind s => rfl

theorem Declarator.eval_congr {d : Declarator} (h : ∀ x ∈ d.reads, SameReading σ σ' x)
    (type : TypeTag) : d.eval σ type = d.eval σ' type := by
  unfold Declarator.eval
  cases hv : d.initializer with
  | none => rfl
  | some v => exact RValue.eval_congr (by simpa [Declarator.reads, hv] using h)

theorem Store.stepped_congr {target : String} {step : Double → Double}
    (h : SameReading σ σ' target) : σ.stepped target step = σ'.stepped target step := by
  refine h.bind_get fun v v' hv => ?_
  rw [hv]

theorem operandNumber_congr {symbol : String} {operand : Option RValue}
    (h : ∀ x ∈ operand.toList.flatMap RValue.reads, SameReading σ σ' x) :
    operandNumber σ symbol operand = operandNumber σ' symbol operand := by
  cases operand with
  | none => rfl
  | some v => exact RValue.evalNumber_congr (by simpa using h)

theorem Action.eval_congr {a : Action} {target : String}
    (h : ∀ x ∈ a.reads target, SameReading σ σ' x) : a.eval σ target = a.eval σ' target := by
  cases a with
  | set v => exact RValue.eval_congr h
  | increment => exact Store.stepped_congr (h target (by simp [Action.reads]))
  | decrement => exact Store.stepped_congr (h target (by simp [Action.reads]))
  | update op operand =>
    obtain ⟨htarget, hoperand⟩ := List.forall_mem_cons.1 h
    simp only [Action.eval, RValue.evalNumber_congr hoperand]
    refine htarget.bind_get fun v v' hv => ?_
    rw [hv]
  | foreign symbol operand =>
    obtain ⟨htarget, hoperand⟩ := List.forall_mem_cons.1 h
    simp only [Action.eval, operandNumber_congr hoperand]
    split
    · rfl
    · exact Store.stepped_congr htarget
    · exact Store.stepped_congr htarget
    · refine htarget.bind_get fun v v' hv => ?_
      rw [hv]

theorem Link.testAll_congr {links : List Link}
    (h : ∀ l ∈ links, l.term.test tolerance σ = l.term.test tolerance' σ') (soFar : Bool) :
    Link.testAll tolerance σ soFar links = Link.testAll tolerance' σ' soFar links := by
  induction links generalizing soFar with
  | nil => simp only [Link.testAll]
  | cons l links ih =>
    obtain ⟨op, term⟩ := l
    obtain ⟨hterm, hlinks⟩ := List.forall_mem_cons.1 h
    have hterm' : term.test tolerance σ = term.test tolerance' σ' := hterm
    simp only [Link.testAll, hterm', ih hlinks]

theorem Link.forall_mem_of_forall_mem_readsAll {Q : String → Prop} {links : List Link}
    (h : ∀ x ∈ Link.readsAll links, Q x) : ∀ l ∈ links, ∀ x ∈ l.term.reads, Q x := by
  induction links with
  | nil => simp
  | cons l links ih =>
    obtain ⟨op, term⟩ := l
    rw [Link.readsAll, List.forall_mem_append] at h
    exact List.forall_mem_cons.2 ⟨h.1, ih h.2⟩

theorem Link.anyTestsEquality_of_mem {links : List Link} {l : Link} (hl : l ∈ links)
    (h : l.term.testsEquality = true) : Link.anyTestsEquality links = true := by
  induction links with
  | nil => cases hl
  | cons l' links ih =>
    obtain ⟨op, term⟩ := l'
    rw [Link.anyTestsEquality, Bool.or_eq_true]
    rcases List.mem_cons.1 hl with rfl | hl
    · exact .inl h
    · exact .inr (ih hl)

theorem Condition.test_congr {c : Condition} (h : ∀ x ∈ c.reads, SameReading σ σ' x)
    (htolerance : c.testsEquality = true → tolerance = tolerance') :
    c.test tolerance σ = c.test tolerance' σ' := by
  induction c using Condition.induct with
  | comparison op left right =>
    rw [Condition.reads, List.forall_mem_append] at h
    rw [Condition.testsEquality] at htolerance
    simp only [Condition.test, Expr.eval_congr h.1, Expr.eval_congr h.2,
      Operator.testCompare_congr htolerance]
  | truth e => simp only [Condition.test, Expr.eval_congr h]
  | not operand ih => simp only [Condition.test, ih h htolerance]
  | paren inner ih => simp only [Condition.test, ih h htolerance]
  | bool value => rfl
  | null => rfl
  | chain head links ihHead ihLinks =>
    rw [Condition.reads, List.forall_mem_append] at h
    rw [Condition.testsEquality, Bool.or_eq_true] at htolerance
    have hhead := ihHead h.1 fun he => htolerance (.inl he)
    have hlinks : ∀ l ∈ links, l.term.test tolerance σ = l.term.test tolerance' σ' := fun l hl =>
      ihLinks l hl (Link.forall_mem_of_forall_mem_readsAll h.2 l hl)
        fun he => htolerance (.inr (Link.anyTestsEquality_of_mem hl he))
    simp only [Condition.test, hhead, Link.testAll_congr hlinks]
  | relabelled kind c ih => rfl

end Eval

/-! ### Executions in step -/

/-- The machines have the same scope and the same log, and their stores read alike for the
names. -/
structure Alike (names : List String) (m m' : Machine) : Prop where
  scope : m.scope = m'.scope
  log : m.log = m'.log
  reading : ∀ x ∈ names, SameReading m.store m'.store x

section Alike

variable {names : List String} {m m' : Machine}

theorem Alike.record (h : Alike names m m') (e : Event) :
    Alike names (m.record e) (m'.record e) where
  scope := h.scope
  log := congrArg (·.push e) h.log
  reading := h.reading

theorem Alike.declare (h : Alike names m m') (x : String) (v : Value) (type : TypeTag) :
    Alike names (m.declare x v type) (m'.declare x v type) where
  scope := h.scope
  log := h.log
  reading y hy := by
    have hw := (h.reading y hy).write (.declare x v type m.scope)
    simp only [Machine.declare, ← h.scope]
    exact hw

theorem Alike.assign (h : Alike names m m') (x : String) (v : Value) :
    Alike names (m.assign x v) (m'.assign x v) where
  scope := h.scope
  log := h.log
  reading y hy := by
    have hw := (h.reading y hy).write (.assign x v m.scope)
    simp only [Machine.assign, ← h.scope]
    exact hw

end Alike

/-- Two steps of a run in step with one another: their outcomes correspond, with equal results and
machines that are alike, and they perform the same writes. -/
structure InStep {α : Type} (names : List String) (o : Outcome α) (ws : List Write) (o' : Outcome α)
    (ws' : List Write) : Prop where
  corr : o.Corr Eq (Alike names) o'
  writes : ws = ws'

section InStep

variable {α β : Type} {names : List String}

theorem InStep.done (a : α) {m m' : Machine} (h : Alike names m m') :
    InStep names (done a m) [] (done a m') [] :=
  ⟨.done rfl h, rfl⟩

theorem InStep.failed (f : Fault) {m m' : Machine} (h : Alike names m m') :
    InStep names (failed f m : Outcome α) [] (failed f m') [] :=
  ⟨.failed h, rfl⟩

theorem InStep.ofExcept {e e' : Except Fault α} (he : e = e') {m m' : Machine}
    (h : Alike names m m') : InStep names (ofExcept m e) [] (ofExcept m' e') [] :=
  ⟨.ofExcept he h, rfl⟩

theorem InStep.andThen {o o' : Outcome α} {ws ws' : List Write}
    {next next' : α → Machine → Outcome β} {writes writes' : α → Machine → List Write}
    (h : InStep names o ws o' ws')
    (hnext : ∀ a m m', Alike names m m' →
      InStep names (next a m) (writes a m) (next' a m') (writes' a m')) :
    InStep names (o.andThen next) (ws ++ o.thenWrites writes)
      (o'.andThen next') (ws' ++ o'.thenWrites writes') := by
  obtain ⟨hcorr, rfl⟩ := h
  constructor
  · refine hcorr.andThen (fun _ _ h => h) ?_
    rintro a _ m m' rfl hm
    exact (hnext a m m' hm).corr
  · congr 1
    refine thenWrites_corr hcorr ?_
    rintro a _ m m' rfl hm
    exact (hnext a m m' hm).writes

theorem Declarator.execAll_inStep {type : TypeTag} {ds : List Declarator}
    (hds : ∀ d ∈ ds, ∀ x ∈ d.reads, x ∈ names) (last : Option Value) {m m' : Machine}
    (h : Alike names m m') :
    InStep names (Declarator.execAll type ds last m) (Declarator.history type ds m)
      (Declarator.execAll type ds last m') (Declarator.history type ds m') := by
  induction ds generalizing last m m' with
  | nil => exact .done last h
  | cons d ds ih =>
    obtain ⟨hd, hds⟩ := List.forall_mem_cons.1 hds
    have hv := Declarator.eval_congr (fun x hx => h.reading x (hd x hx)) type
    simp only [Declarator.execAll, Declarator.history, ← hv, ← h.scope]
    cases d.eval m.store type with
    | error f => exact .failed f h
    | ok v =>
      obtain ⟨hcorr, hwrites⟩ := ih hds (some v) (h.declare d.name v type)
      exact ⟨hcorr, congrArg _ hwrites⟩

theorem Declaration.exec_inStep {d : Declaration}
    (hd : ∀ x ∈ (Piece.declaration d).reads, x ∈ names) {m m' : Machine} (h : Alike names m m') :
    InStep names (d.exec m) (d.history m) (d.exec m') (d.history m') :=
  Declarator.execAll_inStep (fun e he x hx => hd x (List.mem_flatMap.2 ⟨e, he, hx⟩)) none h

theorem Assignment.exec_inStep {a : Assignment}
    (ha : ∀ x ∈ (Piece.assignment a).reads, x ∈ names) {m m' : Machine} (h : Alike names m m') :
    InStep names (a.exec m) (a.history m) (a.exec m') (a.history m') := by
  have hv : a.action.eval m.store a.target = a.action.eval m'.store a.target :=
    Action.eval_congr fun x hx => h.reading x (ha x hx)
  simp only [Assignment.exec, Assignment.history, ← hv, ← h.scope]
  cases a.action.eval m.store a.target with
  | error f => exact .failed f h
  | ok v => exact ⟨.done rfl (h.assign a.target v), rfl⟩

theorem execInit_inStep {init : Option Declaration}
    (hinit : ∀ d ∈ init, ∀ x ∈ (Piece.declaration d).reads, x ∈ names) {m m' : Machine}
    (h : Alike names m m') :
    InStep names (execInit init m) (initHistory init m)
      (execInit init m') (initHistory init m') := by
  cases init with
  | none => exact .done none h
  | some d => exact Declaration.exec_inStep (hinit d rfl) h

theorem execUpdate_inStep {update : Option Assignment}
    (hupdate : ∀ a ∈ update, ∀ x ∈ (Piece.assignment a).reads, x ∈ names) {m m' : Machine}
    (h : Alike names m m') :
    InStep names (execUpdate update m) (updateHistory update m)
      (execUpdate update m') (updateHistory update m') := by
  cases update with
  | none => exact .done none h
  | some a => exact Assignment.exec_inStep (hupdate a rfl) h

theorem loopRound_inStep {body body' update : Machine → Outcome (Option Value)}
    {bodyWrites bodyWrites' updateWrites : Machine → List Write}
    (hbody : ∀ m m', Alike names m m' →
      InStep names (body m) (bodyWrites m) (body' m') (bodyWrites' m'))
    (hupdate : ∀ m m', Alike names m m' →
      InStep names (update m) (updateWrites m) (update m') (updateWrites m'))
    {m m' : Machine} (h : Alike names m m') :
    InStep names (loopRound body update m) (roundHistory body bodyWrites updateWrites m)
      (loopRound body' update m') (roundHistory body' bodyWrites' updateWrites m') := by
  refine (hbody m m' h).andThen fun v m₁ m₁' h₁ => ?_
  obtain ⟨hcorr, hwrites⟩ := hupdate m₁ m₁' h₁
  refine ⟨hcorr.andThen (fun _ _ h => h) ?_, hwrites⟩
  intro _ _ m₂ m₂' _ h₂
  exact .done rfl h₂

theorem iterate_inStep {kind : LoopKind} {test test' : Store → Except Fault Bool}
    {body body' update : Machine → Outcome (Option Value)} {writes writes' : Machine → List Write}
    (htest : ∀ m m', Alike names m m' → test m.store = test' m'.store)
    (hround : ∀ m m', Alike names m m' →
      InStep names (loopRound body update m) (writes m) (loopRound body' update m') (writes' m'))
    (fuel count : Nat) (last : Option Value) {m m' : Machine} (h : Alike names m m') :
    InStep names (iterate kind test body update fuel count last m)
      (iterateHistory test (loopRound body update) writes fuel m)
      (iterate kind test' body' update fuel count last m')
      (iterateHistory test' (loopRound body' update) writes' fuel m') := by
  induction fuel generalizing count last m m' with
  | zero => exact ⟨.outOfFuel, rfl⟩
  | succ fuel ih =>
    have ht := htest m m' h
    simp only [iterateHistory, ← ht]
    -- the tests agree, so the loops are left in the same round
    cases hm : test m.store with
    | error f =>
      rw [iterate_of_error hm, iterate_of_error (ht.symm.trans hm)]
      exact .failed f h
    | ok holds =>
      cases holds with
      | false =>
        rw [iterate_of_false hm, iterate_of_false (ht.symm.trans hm)]
        exact .done last (h.record _)
      | true =>
        rw [iterate_of_true hm, iterate_of_true (ht.symm.trans hm)]
        exact (hround m m' h).andThen fun v m₁ m₁' h₁ => ih (count + 1) v h₁

end InStep

/-! ### Statements -/

section Stmt

variable {names : List String} {tolerance tolerance' : Double}

theorem testOptional_congr {c : Option Condition}
    (h : ∀ c' ∈ c, (∀ x ∈ (Piece.condition c').reads, x ∈ names) ∧
      ((Piece.condition c').testsEquality = true → tolerance = tolerance')) {m m' : Machine}
    (hm : Alike names m m') :
    testOptional tolerance m.store c = testOptional tolerance' m'.store c := by
  cases c with
  | none => rfl
  | some c =>
    obtain ⟨hreads, htolerance⟩ := h c rfl
    exact Condition.test_congr (fun x hx => hm.reading x (hreads x hx)) htolerance

theorem Stmt.execAll_inStep {fuel : Nat} {ss : List Stmt}
    (h : ∀ s ∈ ss, ∀ m m', Alike names m m' →
      InStep names (s.exec tolerance fuel m) (s.history tolerance fuel m)
        (s.exec tolerance' fuel m') (s.history tolerance' fuel m'))
    (last : Option Value) (m m' : Machine) (hm : Alike names m m') :
    InStep names (Stmt.execAll tolerance fuel ss last m) (Stmt.historyAll tolerance fuel ss m)
      (Stmt.execAll tolerance' fuel ss last m') (Stmt.historyAll tolerance' fuel ss m') := by
  induction ss generalizing last m m' with
  | nil =>
    simp only [Stmt.execAll, Stmt.historyAll]
    exact .done last hm
  | cons s ss ih =>
    obtain ⟨hs, hss⟩ := List.forall_mem_cons.1 h
    rw [execAll_cons, execAll_cons, historyAll, historyAll]
    exact (hs m m' hm).andThen fun v m₁ m₁' h₁ => ih hss v m₁ m₁' h₁

/-- From machines that are alike for the names it reads, a statement is executed in step. -/
theorem Stmt.exec_inStep {s : Stmt}
    (hs : s.All fun p => (∀ x ∈ p.reads, x ∈ names) ∧
      (p.testsEquality = true → tolerance = tolerance'))
    (fuel : Nat) (m m' : Machine) (hm : Alike names m m') :
    InStep names (s.exec tolerance fuel m) (s.history tolerance fuel m)
      (s.exec tolerance' fuel m') (s.history tolerance' fuel m') := by
  induction hs generalizing m m' with
  | declare hd =>
    simp only [Stmt.exec, Stmt.history]
    exact Declaration.exec_inStep hd.1 hm
  | assign ha =>
    simp only [Stmt.exec, Stmt.history]
    exact Assignment.exec_inStep ha.1 hm
  | expression he =>
    simp only [Stmt.exec, Stmt.history]
    refine .ofExcept ?_ hm
    rw [Expr.eval_congr fun x hx => hm.reading x (he.1 x hx)]
  | @branch c body alternative span hc _ _ ihBody ihAlternative =>
    have ht := Condition.test_congr (fun x hx => hm.reading x (hc.1 x hx)) hc.2
    simp only [Stmt.exec, Stmt.history, ← ht]
    cases c.test tolerance m.store with
    | error f => exact .failed f hm
    | ok holds =>
      cases holds with
      | true => exact execAll_inStep ihBody none m m' hm
      | false =>
        cases alternative with
        | none => exact .done none hm
        | some body' => exact execAll_inStep (ihAlternative body' rfl) none m m' hm
  | @forLoop init c update body span hinit hc hupdate _ ih =>
    simp only [Stmt.exec, Stmt.history]
    refine (execInit_inStep (fun d hd => (hinit d hd).1) hm).andThen fun _ m₁ m₁' h₁ => ?_
    refine iterate_inStep (fun _ _ h => testOptional_congr hc h) ?_ fuel 0 none h₁
    intro m₂ m₂' h₂
    exact loopRound_inStep (execAll_inStep ih none)
      (fun _ _ h => execUpdate_inStep (fun a ha => (hupdate a ha).1) h) h₂
  | @whileLoop c body span hc _ ih =>
    simp only [Stmt.exec, Stmt.history]
    refine iterate_inStep (fun _ _ h => testOptional_congr hc h) ?_ fuel 0 none hm
    intro m₁ m₁' h₁
    exact loopRound_inStep (execAll_inStep ih none) (fun _ _ h => .done none h) h₁
  | @ret v span hv =>
    cases v with
    | none => simp only [Stmt.exec, Stmt.history]; exact .done none hm
    | some v =>
      simp only [Stmt.exec, Stmt.history]
      refine .ofExcept ?_ hm
      rw [RValue.eval_congr fun x hx => hm.reading x ((hv v rfl).1 x hx)]
  | call he =>
    simp only [Stmt.exec, Stmt.history]
    refine .ofExcept ?_ hm
    rw [Expr.eval_congr fun x hx => hm.reading x (he.1 x hx)]
  | relabelled _ ih =>
    simp only [Stmt.exec, Stmt.history]
    exact .failed _ hm

end Stmt

/-- The machines `m` and `m'` are left behind by runs from the stores `σ` and `σ'` that have both
performed the writes `ws`: what one sees of them differs only where the stores did before. -/
structure SameEffect (σ σ' : Store) (ws : List Write) (m m' : Machine) : Prop where
  scope : m.scope = m'.scope
  log : m.log = m'.log
  /-- A name that was written has the same value in both. -/
  written : ∀ x, (∃ w ∈ ws, w.name = x) →
    ∃ v v', m.store.find? x = some v ∧ m'.store.find? x = some v' ∧ v.value = v'.value
  /-- A name that was not written is as it was, in both. -/
  kept : ∀ x, (∀ w ∈ ws, w.name ≠ x) →
    m.store.find? x = σ.find? x ∧ m'.store.find? x = σ'.find? x

theorem sameEffect_writeAll {σ σ' : Store} {ws : List Write} {m m' : Machine}
    (hscope : m.scope = m'.scope) (hlog : m.log = m'.log) (hm : m.store = σ.writeAll ws)
    (hm' : m'.store = σ'.writeAll ws) : SameEffect σ σ' ws m m' where
  scope := hscope
  log := hlog
  written x hx := by
    obtain ⟨value, hvalue⟩ := Store.value_writeAll hx
    obtain ⟨v, hv, rfl⟩ := hvalue σ
    obtain ⟨v', hv', hval⟩ := hvalue σ'
    rw [hm, hm']
    exact ⟨v, v', hv, hv', hval.symm⟩
  kept x hx := by
    rw [hm, hm']
    exact ⟨Store.find?_writeAll_of_forall_ne hx σ, Store.find?_writeAll_of_forall_ne hx σ'⟩

/-- **What a statement does not read does not matter to it.**  From two stores in which the names
that the statement reads stand for the same numbers, neither execution ends, or both end with the
same value or the same fault, the same log and the same writes.  If the statement does not test for
equality, the tolerances may differ as well. -/
theorem Stmt.exec_noninterference (tolerance tolerance' : Double) (s : Stmt) (scope : Scope)
    (log : Array Event) (σ σ' : Store) (hreads : ∀ x ∈ s.reads, SameReading σ σ' x)
    (htolerance : s.testsEquality = true → tolerance = tolerance') :
    Agree Eq
      (fun m m' => ∃ ws, Settles (fun fuel => s.history tolerance fuel ⟨σ, scope, log⟩) ws ∧
        Settles (fun fuel => s.history tolerance' fuel ⟨σ', scope, log⟩) ws ∧
        SameEffect σ σ' ws m m')
      (fun fuel => s.exec tolerance fuel ⟨σ, scope, log⟩)
      (fun fuel => s.exec tolerance' fuel ⟨σ', scope, log⟩) := by
  have hall : s.All fun p => (∀ x ∈ p.reads, x ∈ s.reads) ∧
      (p.testsEquality = true → tolerance = tolerance') := by
    refine all_of_forall_mem s fun p hp => ⟨fun x hx => ?_, fun he => ?_⟩
    · exact List.mem_flatMap.2 ⟨p, hp, hx⟩
    · exact htolerance (List.any_eq_true.2 ⟨p, hp, he⟩)
  refine Agree.of_forall (exec_steady tolerance s _) (exec_steady tolerance' s _) fun fuel => ?_
  obtain ⟨hcorr, hwrites⟩ :=
    exec_inStep hall fuel ⟨σ, scope, log⟩ ⟨σ', scope, log⟩ ⟨rfl, rfl, hreads⟩
  -- with the same writes performed on them, the stores agree on every name that is written
  refine hcorr.mono (fun _ _ h => h) fun m hm m' hm' halike => ?_
  obtain ⟨hstore, -⟩ := s.exec_performs tolerance fuel _ m hm
  obtain ⟨hstore', -⟩ := s.exec_performs tolerance' fuel _ m' hm'
  rw [← hwrites] at hstore'
  have hends : s.exec tolerance fuel ⟨σ, scope, log⟩ ≠ .outOfFuel := by
    intro h
    simp [h] at hm
  have hends' : s.exec tolerance' fuel ⟨σ', scope, log⟩ ≠ .outOfFuel := by
    intro h
    simp [h] at hm'
  refine ⟨s.history tolerance fuel ⟨σ, scope, log⟩, history_settles hends, ?_,
    sameEffect_writeAll halike.scope halike.log hstore hstore'⟩
  rw [hwrites]
  exact history_settles hends'

/-- `if (x < 1) { y = x; }` does not tell the number `0` from a text that is no number, and does not
depend on the tolerance. -/
theorem Stmt.exec_noninterference_of_text :
    let s := Stmt.branch (.comparison (.known .lt) (.variable "x") (.number "1"))
      [.assign ⟨"y", .set (.arith (.variable "x")), .unknown⟩] none .unknown
    let σ : Store := ⟨[("x", ⟨.number .zero, none, .main⟩)]⟩
    let σ' : Store := ⟨[("z", ⟨.text "1", none, .main⟩), ("x", ⟨.text "abc", some .int, .main⟩)]⟩
    s.exec Double.one 0 ⟨σ, .main, #[]⟩ ≠ .outOfFuel ∧
    Agree Eq
      (fun m m' => ∃ ws, Settles (fun fuel => s.history Double.one fuel ⟨σ, .main, #[]⟩) ws ∧
        Settles (fun fuel => s.history Tolerance.standard.value fuel ⟨σ', .main, #[]⟩) ws ∧
        SameEffect σ σ' ws m m')
      (fun fuel => s.exec Double.one fuel ⟨σ, .main, #[]⟩)
      (fun fuel => s.exec Tolerance.standard.value fuel ⟨σ', .main, #[]⟩) := by
  intro s σ σ'
  have htext : isNumericText "abc" = false := by decide +kernel
  have hx : SameReading σ σ' "x" := by
    simp [σ, σ', SameReading, Store.find?, Store.lookup_cons, Value.asNumber, htext]
  have hreads : s.reads = ["x", "x"] := by decide +kernel
  refine ⟨by decide +kernel, Stmt.exec_noninterference _ _ s .main #[] σ σ' ?_ (by decide +kernel)⟩
  rw [hreads]
  simpa using hx

end FlatScript
