import FlatScript.Proofs.Ending

/-!
# The history of a run

`Stmt.history` lists the writes that the execution of a statement performs, in order and up to the
point where it ends or fails.  What an execution can do to a store is so reduced to what lists of
writes can do.

* `Store.find?_write`, `Store.names_write` : what one write does;
* `Store.find?_writeAll_of_forall_ne`, `Store.value_writeAll` : what a list of writes does, by
  induction on the list;
* `Stmt.exec_performs` : **an execution performs its history**: it leaves behind the store it
  started from with these writes performed, also where it fails;
* `Traces`, `Stmt.history_traces` : each of the writes is made by a declaration or an assignment of
  the statement, in the store that the writes before it have left; so what every such write
  preserves is preserved by the execution (`Traces.invariant`);
* `Stmt.history_settles` : the history is settled as soon as the execution ends;
* `Program.history`, `Program.run_store` : the same for the runs of a program.
-/

namespace FlatScript

open Outcome

/-! ### Lists of writes -/

namespace Write

/-- The name that is written. -/
def name : Write → String
  | .declare name _ _ _ => name
  | .assign name _ _ => name

/-- The value that is written. -/
def value : Write → Value
  | .declare _ value _ _ => value
  | .assign _ value _ => value

/-- The variable after the write, from the one before it. -/
def result : Write → Option Variable → Variable
  | .declare _ value type scope, _ => ⟨value, some type, scope⟩
  | .assign _ value _, some v => { v with value := value }
  | .assign _ value scope, none => ⟨value, none, scope⟩

@[simp] theorem result_value (w : Write) (old : Option Variable) :
    (w.result old).value = w.value := by
  cases w <;> cases old <;> rfl

end Write

namespace Store

theorem write_eq_insert (σ : Store) (w : Write) :
    σ.write w = σ.insert w.name (w.result (σ.find? w.name)) := by
  cases w with
  | declare name value type scope => rfl
  | assign name value scope =>
    simp only [write, assign, Write.name]
    cases σ.find? name <;> rfl

theorem find?_write (σ : Store) (w : Write) (x : String) :
    (σ.write w).find? x = if x = w.name then some (w.result (σ.find? x)) else σ.find? x := by
  rw [write_eq_insert, find?_insert]
  by_cases h : x = w.name
  · rw [if_pos h, if_pos h, h]
  · rw [if_neg h, if_neg h]

theorem names_write (σ : Store) (w : Write) :
    (σ.write w).names = if w.name ∈ σ.names then σ.names else σ.names ++ [w.name] := by
  rw [write_eq_insert, names_insert]

@[simp] theorem writeAll_nil (σ : Store) : σ.writeAll [] = σ := rfl

@[simp] theorem writeAll_cons (σ : Store) (w : Write) (ws : List Write) :
    σ.writeAll (w :: ws) = (σ.write w).writeAll ws := rfl

theorem writeAll_append (σ : Store) (ws ws' : List Write) :
    σ.writeAll (ws ++ ws') = (σ.writeAll ws).writeAll ws' := List.foldl_append

/-- A name that is not written keeps its variable. -/
theorem find?_writeAll_of_forall_ne {ws : List Write} {x : String} (h : ∀ w ∈ ws, w.name ≠ x)
    (σ : Store) : (σ.writeAll ws).find? x = σ.find? x := by
  induction ws generalizing σ with
  | nil => rfl
  | cons w ws ih =>
    obtain ⟨hw, hws⟩ := List.forall_mem_cons.1 h
    rw [writeAll_cons, ih hws, find?_write, if_neg (Ne.symm hw)]

/-- The value of a name that is written does not depend on the store. -/
theorem value_writeAll {ws : List Write} {x : String} (h : ∃ w ∈ ws, w.name = x) :
    ∃ value, ∀ σ : Store, ∃ v, (σ.writeAll ws).find? x = some v ∧ v.value = value := by
  induction ws with
  | nil => simp at h
  | cons w ws ih =>
    by_cases hws : ∃ w ∈ ws, w.name = x
    · obtain ⟨value, hvalue⟩ := ih hws
      exact ⟨value, fun σ => hvalue (σ.write w)⟩
    · -- the first write of the list is the last one of `x`
      have hw : w.name = x := by
        obtain ⟨w', hw', hx⟩ := h
        rcases List.mem_cons.1 hw' with rfl | hw'
        · exact hx
        · exact absurd ⟨w', hw', hx⟩ hws
      have hne : ∀ w ∈ ws, w.name ≠ x := fun w' hw' hx => hws ⟨w', hw', hx⟩
      refine ⟨w.value, fun σ => ⟨w.result (σ.find? x), ?_, Write.result_value w _⟩⟩
      rw [writeAll_cons, find?_writeAll_of_forall_ne hne, find?_write, if_pos hw.symm]

end Store

/-! ### Histories -/

/-- The writes of what follows a step that is done. -/
def Outcome.thenWrites {α : Type} (o : Outcome α) (next : α → Machine → List Write) : List Write :=
  match o with
  | .done a m => next a m
  | .failed _ _ => []
  | .outOfFuel => []

/-- The writes of declarators. -/
def Declarator.history (type : TypeTag) : List Declarator → Machine → List Write
  | [], _ => []
  | d :: ds, m =>
    match d.eval m.store type with
    | .error _ => []
    | .ok v =>
      .declare d.name v type m.scope :: Declarator.history type ds (m.declare d.name v type)

/-- The writes of a declaration. -/
def Declaration.history (d : Declaration) (m : Machine) : List Write :=
  Declarator.history d.type d.declarators m

/-- The write of an assignment, if its value has been found. -/
def Assignment.history (a : Assignment) (m : Machine) : List Write :=
  match a.action.eval m.store a.target with
  | .error _ => []
  | .ok v => [.assign a.target v m.scope]

/-- The writes of an optional declaration. -/
def initHistory : Option Declaration → Machine → List Write
  | none, _ => []
  | some d, m => d.history m

/-- The writes of an optional assignment. -/
def updateHistory : Option Assignment → Machine → List Write
  | none, _ => []
  | some a, m => a.history m

/-- The writes of one round of a loop. -/
def roundHistory (body : Machine → Outcome (Option Value))
    (bodyHistory updateHistory : Machine → List Write) (m : Machine) : List Write :=
  bodyHistory m ++ (body m).thenWrites fun _ m => updateHistory m

/-- The writes of a loop with the given rounds. -/
def iterateHistory (test : Store → Except Fault Bool) (round : Machine → Outcome (Option Value))
    (roundHistory : Machine → List Write) : Nat → Machine → List Write
  | 0, _ => []
  | fuel + 1, m =>
    match test m.store with
    | .error _ => []
    | .ok false => []
    | .ok true =>
      roundHistory m ++
        (round m).thenWrites fun _ m => iterateHistory test round roundHistory fuel m

mutual

/-- The writes of a statement. -/
def Stmt.history (tolerance : Double) (fuel : Nat) : Stmt → Machine → List Write
  | .declare d, m => d.history m
  | .assign a, m => a.history m
  | .branch condition body alternative _, m =>
    match condition.test tolerance m.store with
    | .error _ => []
    | .ok true => Stmt.historyAll tolerance fuel body m
    | .ok false => Stmt.historyAlternative tolerance fuel alternative m
  | .forLoop init condition update body _, m =>
    let block := fun m => Stmt.execAll tolerance fuel body none m
    initHistory init m ++ (execInit init m).thenWrites fun _ m =>
      iterateHistory (fun σ => testOptional tolerance σ condition)
        (loopRound block (execUpdate update))
        (roundHistory block (fun m => Stmt.historyAll tolerance fuel body m)
          (updateHistory update)) fuel m
  | .whileLoop condition body _, m =>
    let block := fun m => Stmt.execAll tolerance fuel body none m
    iterateHistory (fun σ => testOptional tolerance σ condition)
      (loopRound block (execUpdate none))
      (roundHistory block (fun m => Stmt.historyAll tolerance fuel body m) (updateHistory none))
      fuel m
  | .expression _ _, _ => []
  | .ret _ _, _ => []
  | .call _ _ _, _ => []
  | .relabelled _ _, _ => []

/-- The writes of statements in order. -/
def Stmt.historyAll (tolerance : Double) (fuel : Nat) : List Stmt → Machine → List Write
  | [], _ => []
  | s :: rest, m =>
    s.history tolerance fuel m ++
      (s.exec tolerance fuel m).thenWrites fun _ m => Stmt.historyAll tolerance fuel rest m

/-- The writes of the alternative of a branch. -/
def Stmt.historyAlternative (tolerance : Double) (fuel : Nat) :
    Option (List Stmt) → Machine → List Write
  | none, _ => []
  | some body, m => Stmt.historyAll tolerance fuel body m

end

namespace Outcome

variable {α β : Type}

@[simp] theorem thenWrites_done (a : α) (m : Machine) (next : α → Machine → List Write) :
    (done a m).thenWrites next = next a m := rfl
@[simp] theorem thenWrites_failed (f : Fault) (m : Machine) (next : α → Machine → List Write) :
    (failed f m).thenWrites next = [] := rfl
@[simp] theorem thenWrites_outOfFuel (next : α → Machine → List Write) :
    outOfFuel.thenWrites next = [] := rfl

theorem thenWrites_corr {V : α → β → Prop} {R : Machine → Machine → Prop} {o : Outcome α}
    {o' : Outcome β} {next : α → Machine → List Write} {next' : β → Machine → List Write}
    (h : o.Corr V R o') (hnext : ∀ a b m m', V a b → R m m' → next a m = next' b m') :
    o.thenWrites next = o'.thenWrites next' := by
  cases h with
  | done hv hm => exact hnext _ _ _ _ hv hm
  | failed hm => rfl
  | outOfFuel => rfl

theorem thenWrites_below {o o' : Outcome α} {next : α → Machine → Outcome β}
    {writes writes' : α → Machine → List Write} (h : o.Below o')
    (hne : o.andThen next ≠ .outOfFuel)
    (hwrites : ∀ a m, next a m ≠ .outOfFuel → writes' a m = writes a m) :
    o'.thenWrites writes' = o.thenWrites writes := by
  cases o with
  | done a m => rw [h (by simp)]; exact hwrites a m hne
  | failed f m => rw [h (by simp)]; rfl
  | outOfFuel => exact absurd rfl hne

theorem ne_outOfFuel_of_andThen {o : Outcome α} {next : α → Machine → Outcome β}
    (h : o.andThen next ≠ .outOfFuel) : o ≠ .outOfFuel := by
  rintro rfl
  exact h rfl

/-- The machine that the step leaves behind is `m` with the writes performed, in the same scope. -/
def Performs (o : Outcome α) (m : Machine) (ws : List Write) : Prop :=
  ∀ m' ∈ o.machine?, m'.store = m.store.writeAll ws ∧ m'.scope = m.scope

theorem Performs.scope_eq {o : Outcome α} {m m' : Machine} {ws : List Write} {a : α}
    (h : o.Performs m ws) (ho : o = .done a m') : m'.scope = m.scope := by
  subst ho
  exact (h m' rfl).2

theorem performs_done (a : α) (m : Machine) : (done a m).Performs m [] := by
  rintro m' ⟨⟩
  exact ⟨rfl, rfl⟩

theorem performs_failed (f : Fault) (m : Machine) : (failed f m : Outcome α).Performs m [] := by
  rintro m' ⟨⟩
  exact ⟨rfl, rfl⟩

theorem performs_ofExcept (m : Machine) (e : Except Fault α) : (ofExcept m e).Performs m [] := by
  cases e with
  | ok a => exact performs_done a m
  | error f => exact performs_failed f m

theorem Performs.andThen {o : Outcome α} {m : Machine} {ws : List Write}
    {next : α → Machine → Outcome β} {writes : α → Machine → List Write} (h : o.Performs m ws)
    (hnext : ∀ a m₁, (next a m₁).Performs m₁ (writes a m₁)) :
    (o.andThen next).Performs m (ws ++ o.thenWrites writes) := by
  intro m' hm'
  cases o with
  | outOfFuel => cases hm'
  | failed f m₁ => simpa using h m' hm'
  | done a m₁ =>
    obtain ⟨hstore₁, hscope₁⟩ := h m₁ rfl
    obtain ⟨hstore, hscope⟩ := hnext a m₁ m' hm'
    rw [thenWrites_done, Store.writeAll_append, ← hstore₁]
    exact ⟨hstore, hscope.trans hscope₁⟩

end Outcome

/-! ### Execution performs its history -/

theorem Declarator.execAll_performs (type : TypeTag) (ds : List Declarator) (last : Option Value)
    (m : Machine) :
    (Declarator.execAll type ds last m).Performs m (Declarator.history type ds m) := by
  induction ds generalizing last m with
  | nil => exact performs_done last m
  | cons d ds ih =>
    simp only [Declarator.execAll, Declarator.history]
    cases d.eval m.store type with
    | error f => exact performs_failed f m
    | ok v => exact ih (some v) (m.declare d.name v type)

theorem Assignment.exec_performs (a : Assignment) (m : Machine) :
    (a.exec m).Performs m (a.history m) := by
  simp only [Assignment.exec, Assignment.history]
  cases a.action.eval m.store a.target with
  | error f => exact performs_failed f m
  | ok v =>
    rintro m' ⟨⟩
    exact ⟨rfl, rfl⟩

theorem execInit_performs (init : Option Declaration) (m : Machine) :
    (execInit init m).Performs m (initHistory init m) := by
  cases init with
  | none => exact performs_done none m
  | some d => exact Declarator.execAll_performs d.type d.declarators none m

theorem execUpdate_performs (update : Option Assignment) (m : Machine) :
    (execUpdate update m).Performs m (updateHistory update m) := by
  cases update with
  | none => exact performs_done none m
  | some a => exact a.exec_performs m

theorem loopRound_performs {body update : Machine → Outcome (Option Value)}
    {bodyHistory updateHistory : Machine → List Write}
    (hbody : ∀ m, (body m).Performs m (bodyHistory m))
    (hupdate : ∀ m, (update m).Performs m (updateHistory m)) (m : Machine) :
    (loopRound body update m).Performs m (roundHistory body bodyHistory updateHistory m) := by
  refine (hbody m).andThen fun v m₁ m₂ hm₂ => ?_
  -- the value of the update is dropped, its machine is kept
  have h := hupdate m₁
  cases hu : update m₁ with
  | outOfFuel => simp [hu] at hm₂
  | failed f m' => rw [hu] at h hm₂; exact h m₂ hm₂
  | done u m' => rw [hu] at h hm₂; exact h m₂ hm₂

theorem iterate_performs {kind : LoopKind} {test : Store → Except Fault Bool}
    {body update : Machine → Outcome (Option Value)} {writes : Machine → List Write}
    (hround : ∀ m, (loopRound body update m).Performs m (writes m)) (fuel count : Nat)
    (last : Option Value) (m : Machine) :
    (iterate kind test body update fuel count last m).Performs m
      (iterateHistory test (loopRound body update) writes fuel m) := by
  induction fuel generalizing count last m with
  | zero =>
    rintro m' ⟨⟩
  | succ fuel ih =>
    simp only [iterateHistory]
    cases h : test m.store with
    | error f =>
      rw [iterate_of_error h]
      exact performs_failed f m
    | ok holds =>
      cases holds with
      | false =>
        rw [iterate_of_false h]
        rintro m' ⟨⟩
        exact ⟨rfl, rfl⟩
      | true =>
        rw [iterate_of_true h]
        exact (hround m).andThen fun v m₁ => ih (count + 1) v m₁

theorem Stmt.execAll_performs_of_forall {tolerance : Double} {fuel : Nat} {ss : List Stmt}
    (h : ∀ s ∈ ss, ∀ m, (s.exec tolerance fuel m).Performs m (s.history tolerance fuel m))
    (last : Option Value) (m : Machine) :
    (Stmt.execAll tolerance fuel ss last m).Performs m (Stmt.historyAll tolerance fuel ss m) := by
  induction ss generalizing last m with
  | nil =>
    simp only [Stmt.execAll, Stmt.historyAll]
    exact performs_done last m
  | cons s ss ih =>
    obtain ⟨hs, hss⟩ := List.forall_mem_cons.1 h
    rw [execAll_cons, historyAll]
    exact (hs m).andThen fun v m₁ => ih hss v m₁

/-- **An execution performs its history**: the machine it leaves behind, whether it is done or has
failed, has the store of the first machine with the writes of the history performed, and the same
scope. -/
theorem Stmt.exec_performs (tolerance : Double) (fuel : Nat) (s : Stmt) (m : Machine) :
    (s.exec tolerance fuel m).Performs m (s.history tolerance fuel m) := by
  induction s using Stmt.induct generalizing m with
  | declare d => exact Declarator.execAll_performs d.type d.declarators none m
  | assign a => exact a.exec_performs m
  | expression e span => exact performs_ofExcept m _
  | branch c body alternative span ihBody ihAlternative =>
    simp only [Stmt.exec, Stmt.history]
    cases c.test tolerance m.store with
    | error f => exact performs_failed f m
    | ok holds =>
      cases holds with
      | true => exact execAll_performs_of_forall ihBody none m
      | false =>
        cases alternative with
        | none => exact performs_done none m
        | some body' => exact execAll_performs_of_forall (ihAlternative body' rfl) none m
  | forLoop init c update body span ih =>
    simp only [Stmt.exec, Stmt.history]
    refine (execInit_performs init m).andThen fun _ m₁ => iterate_performs ?_ fuel 0 none m₁
    exact loopRound_performs (execAll_performs_of_forall ih none) (execUpdate_performs update)
  | whileLoop c body span ih =>
    simp only [Stmt.exec, Stmt.history]
    refine iterate_performs ?_ fuel 0 none m
    exact loopRound_performs (execAll_performs_of_forall ih none) (execUpdate_performs none)
  | ret v span =>
    cases v with
    | none => exact performs_done none m
    | some v => exact performs_ofExcept m _
  | call name args span => exact performs_ofExcept m _
  | relabelled kind s ih => exact performs_failed _ m

theorem Stmt.execAll_performs (tolerance : Double) (fuel : Nat) (ss : List Stmt)
    (last : Option Value) (m : Machine) :
    (Stmt.execAll tolerance fuel ss last m).Performs m (Stmt.historyAll tolerance fuel ss m) :=
  execAll_performs_of_forall (fun s _ => s.exec_performs tolerance fuel) last m

/-! ### Where writes come from -/

/-- The piece can make the write in the scope, with a value found in some store. -/
inductive Piece.Makes (scope : Scope) : Piece → Write → Prop
  | declare {d : Declaration} {e : Declarator} {σ : Store} {v : Value} : e ∈ d.declarators →
      e.eval σ d.type = .ok v →
      Piece.Makes scope (.declaration d) (.declare e.name v d.type scope)
  | assign {a : Assignment} {σ : Store} {v : Value} : a.action.eval σ a.target = .ok v →
      Piece.Makes scope (.assignment a) (.assign a.target v scope)

/-- The piece makes the write in the scope, with the value that it finds in the store. -/
inductive Piece.MakesIn (σ : Store) (scope : Scope) : Piece → Write → Prop
  | declare {d : Declaration} {e : Declarator} {v : Value} : e ∈ d.declarators →
      e.eval σ d.type = .ok v →
      Piece.MakesIn σ scope (.declaration d) (.declare e.name v d.type scope)
  | assign {a : Assignment} {v : Value} : a.action.eval σ a.target = .ok v →
      Piece.MakesIn σ scope (.assignment a) (.assign a.target v scope)

theorem Piece.MakesIn.makes {σ : Store} {scope : Scope} {p : Piece} {w : Write}
    (h : p.MakesIn σ scope w) : p.Makes scope w := by
  cases h with
  | declare he hv => exact .declare he hv
  | assign hv => exact .assign hv

/-- Each of the writes satisfies `W` in the store that the writes before it have left. -/
inductive Traces (W : Store → Write → Prop) : Store → List Write → Prop
  | nil (σ : Store) : Traces W σ []
  | cons {σ : Store} {w : Write} {ws : List Write} :
      W σ w → Traces W (σ.write w) ws → Traces W σ (w :: ws)

section Traces

variable {W : Store → Write → Prop} {σ : Store} {scope : Scope}

theorem Traces.append {ws ws' : List Write} (h : Traces W σ ws)
    (h' : Traces W (σ.writeAll ws) ws') : Traces W σ (ws ++ ws') := by
  induction h with
  | nil σ => exact h'
  | cons hw _ ih => exact .cons hw (ih h')

theorem Traces.exists_of_mem {ws : List Write} (h : Traces W σ ws) {w : Write} (hw : w ∈ ws) :
    ∃ σ', W σ' w := by
  induction h with
  | nil σ => cases hw
  | @cons σ _ _ hfirst _ ih =>
    rcases List.mem_cons.1 hw with rfl | hw
    · exact ⟨σ, hfirst⟩
    · exact ih hw

/-- What each of the writes preserves holds of the store that they leave. -/
theorem Traces.invariant {I : Store → Prop} {ws : List Write} (h : Traces W σ ws)
    (hI : ∀ σ w, W σ w → I σ → I (σ.write w)) (hσ : I σ) : I (σ.writeAll ws) := by
  induction h with
  | nil σ => exact hσ
  | cons hw _ ih => exact ih (hI _ _ hw hσ)

/-- A step is followed by what goes on from the machine that it leaves behind. -/
theorem Outcome.Performs.traces_append {α : Type} {o : Outcome α} {m : Machine} {ws : List Write}
    {writes : α → Machine → List Write} (ho : o.Performs m ws) (h : Traces W m.store ws)
    (hnext : ∀ a m₁, m₁.scope = m.scope → Traces W m₁.store (writes a m₁)) :
    Traces W m.store (ws ++ o.thenWrites writes) := by
  refine h.append ?_
  cases o with
  | outOfFuel => exact .nil _
  | failed f m₁ => exact .nil _
  | done a m₁ =>
    obtain ⟨hstore, hscope⟩ := ho m₁ rfl
    rw [← hstore]
    exact hnext a m₁ hscope

theorem Declarator.traces_history {type : TypeTag} {ds : List Declarator}
    (h : ∀ e ∈ ds, ∀ σ v, e.eval σ type = .ok v → W σ (.declare e.name v type scope)) {m : Machine}
    (hm : m.scope = scope) : Traces W m.store (Declarator.history type ds m) := by
  induction ds generalizing m with
  | nil => exact .nil _
  | cons d ds ih =>
    obtain ⟨hd, hds⟩ := List.forall_mem_cons.1 h
    simp only [Declarator.history]
    cases hv : d.eval m.store type with
    | error f => exact .nil _
    | ok v =>
      subst hm
      have hrest : Traces W (m.declare d.name v type).store
          (Declarator.history type ds (m.declare d.name v type)) := ih hds rfl
      exact .cons (hd m.store v hv) hrest

theorem Declaration.traces_history {d : Declaration}
    (h : ∀ σ w, Piece.MakesIn σ scope (.declaration d) w → W σ w) {m : Machine}
    (hm : m.scope = scope) : Traces W m.store (d.history m) :=
  Declarator.traces_history (fun _ he σ _ hv => h σ _ (.declare he hv)) hm

theorem Assignment.traces_history {a : Assignment}
    (h : ∀ σ w, Piece.MakesIn σ scope (.assignment a) w → W σ w) {m : Machine}
    (hm : m.scope = scope) : Traces W m.store (a.history m) := by
  simp only [Assignment.history]
  cases hv : a.action.eval m.store a.target with
  | error f => exact .nil _
  | ok v =>
    subst hm
    exact .cons (h m.store _ (.assign hv)) (.nil _)

theorem initHistory_traces {init : Option Declaration}
    (h : ∀ d ∈ init, ∀ σ w, Piece.MakesIn σ scope (.declaration d) w → W σ w) {m : Machine}
    (hm : m.scope = scope) : Traces W m.store (initHistory init m) := by
  cases init with
  | none => exact .nil _
  | some d => exact Declaration.traces_history (h d rfl) hm

theorem updateHistory_traces {update : Option Assignment}
    (h : ∀ a ∈ update, ∀ σ w, Piece.MakesIn σ scope (.assignment a) w → W σ w) {m : Machine}
    (hm : m.scope = scope) : Traces W m.store (updateHistory update m) := by
  cases update with
  | none => exact .nil _
  | some a => exact Assignment.traces_history (h a rfl) hm

theorem iterateHistory_traces {test : Store → Except Fault Bool}
    {round : Machine → Outcome (Option Value)} {writes : Machine → List Write}
    (hround : ∀ m, (round m).Performs m (writes m))
    (hW : ∀ m, m.scope = scope → Traces W m.store (writes m)) (fuel : Nat) {m : Machine}
    (hm : m.scope = scope) : Traces W m.store (iterateHistory test round writes fuel m) := by
  induction fuel generalizing m with
  | zero => exact .nil _
  | succ fuel ih =>
    simp only [iterateHistory]
    cases test m.store with
    | error f => exact .nil _
    | ok holds =>
      cases holds with
      | false => exact .nil _
      | true => exact (hround m).traces_append (hW m hm) fun _ _ h₁ => ih (h₁.trans hm)

theorem Stmt.historyAll_traces_of_forall {tolerance : Double} {fuel : Nat} {ss : List Stmt}
    (h : ∀ s ∈ ss, ∀ m : Machine, m.scope = scope → Traces W m.store (s.history tolerance fuel m))
    (m : Machine) (hm : m.scope = scope) :
    Traces W m.store (Stmt.historyAll tolerance fuel ss m) := by
  induction ss generalizing m with
  | nil => exact .nil _
  | cons s ss ih =>
    obtain ⟨hs, hss⟩ := List.forall_mem_cons.1 h
    rw [historyAll]
    refine (s.exec_performs tolerance fuel m).traces_append (hs m hm) fun _ m₁ h₁ => ?_
    exact ih hss m₁ (h₁.trans hm)

/-- What holds of every write that a piece of the statement can make, in the store in which it is
made, holds along the history. -/
theorem Stmt.history_traces {s : Stmt} (h : s.All fun p => ∀ σ w, p.MakesIn σ scope w → W σ w)
    (tolerance : Double) (fuel : Nat) (m : Machine) (hm : m.scope = scope) :
    Traces W m.store (s.history tolerance fuel m) := by
  induction h generalizing m with
  | declare hd => exact Declaration.traces_history hd hm
  | assign ha => exact Assignment.traces_history ha hm
  | @branch c body alternative span _ _ _ ihBody ihAlternative =>
    simp only [Stmt.history]
    cases c.test tolerance m.store with
    | error f => exact .nil _
    | ok holds =>
      cases holds with
      | true => exact historyAll_traces_of_forall ihBody m hm
      | false =>
        cases alternative with
        | none => exact .nil _
        | some body' => exact historyAll_traces_of_forall (ihAlternative body' rfl) m hm
  | @forLoop init c update body span hinit _ hupdate _ ih =>
    have hbody := Stmt.execAll_performs tolerance fuel body none
    simp only [Stmt.history]
    refine (execInit_performs init m).traces_append (initHistory_traces hinit hm) fun _ m₁ h₁ => ?_
    refine iterateHistory_traces (loopRound_performs hbody (execUpdate_performs update))
      (fun m₂ h₂ => ?_) fuel (h₁.trans hm)
    exact (hbody m₂).traces_append (historyAll_traces_of_forall ih m₂ h₂) fun _ _ h₃ =>
      updateHistory_traces hupdate (h₃.trans h₂)
  | @whileLoop c body span _ _ ih =>
    have hbody := Stmt.execAll_performs tolerance fuel body none
    simp only [Stmt.history]
    refine iterateHistory_traces (loopRound_performs hbody (execUpdate_performs none))
      (fun m₂ h₂ => ?_) fuel hm
    exact (hbody m₂).traces_append (historyAll_traces_of_forall ih m₂ h₂) fun _ _ _ => .nil _
  | expression _ => exact .nil _
  | ret _ => exact .nil _
  | call _ => exact .nil _
  | relabelled _ ih => exact .nil _

end Traces

/-- What holds of every write that a piece of the statement can make holds of the history. -/
theorem Stmt.forall_mem_history {W : Write → Prop} {scope : Scope} {s : Stmt}
    (h : s.All fun p => ∀ w, p.Makes scope w → W w)
    (tolerance : Double) (fuel : Nat) (m : Machine) (hm : m.scope = scope) :
    ∀ w ∈ s.history tolerance fuel m, W w := by
  have htraces : Traces (fun _ w => W w) m.store (s.history tolerance fuel m) :=
    history_traces (h.mono fun _ hp _ w hw => hp w hw.makes) tolerance fuel m hm
  intro w hw
  obtain ⟨-, hW⟩ := htraces.exists_of_mem hw
  exact hW

/-! ### The history is settled when the execution ends -/

theorem roundHistory_eq_of_below {body body' update : Machine → Outcome (Option Value)}
    {bodyHistory bodyHistory' updateHistory : Machine → List Write}
    (hbody : ∀ m, (body m).Below (body' m))
    (hhistory : ∀ m, body m ≠ .outOfFuel → bodyHistory' m = bodyHistory m) {m : Machine}
    (h : loopRound body update m ≠ .outOfFuel) :
    roundHistory body' bodyHistory' updateHistory m =
      roundHistory body bodyHistory updateHistory m := by
  rw [roundHistory, roundHistory, hhistory m (ne_outOfFuel_of_andThen h)]
  congr 1
  exact thenWrites_below (hbody m) h fun _ _ _ => rfl

theorem iterateHistory_eq_of_below {kind : LoopKind} {test : Store → Except Fault Bool}
    {body body' update : Machine → Outcome (Option Value)} {writes writes' : Machine → List Write}
    (hbody : ∀ m, (body m).Below (body' m))
    (hwrites : ∀ m, loopRound body update m ≠ .outOfFuel → writes' m = writes m)
    {fuel fuel' : Nat} (hle : fuel ≤ fuel') {count : Nat} {last : Option Value} {m : Machine}
    (h : iterate kind test body update fuel count last m ≠ .outOfFuel) :
    iterateHistory test (loopRound body' update) writes' fuel' m =
      iterateHistory test (loopRound body update) writes fuel m := by
  induction fuel generalizing fuel' count last m with
  | zero => exact absurd rfl h
  | succ fuel ih =>
    -- the first round is settled, since the loop is, and so is the loop that follows it
    obtain ⟨fuel', rfl⟩ : ∃ n, fuel' = n + 1 := ⟨fuel' - 1, by omega⟩
    simp only [iterateHistory]
    cases ht : test m.store with
    | error f => rfl
    | ok holds =>
      cases holds with
      | false => rfl
      | true =>
        rw [iterate_of_true ht] at h
        dsimp only
        rw [hwrites m (ne_outOfFuel_of_andThen h)]
        congr 1
        exact thenWrites_below (loopRound_below hbody m) h fun v m₁ h₁ => ih (by omega) h₁

theorem Stmt.historyAll_eq_of_forall {tolerance : Double} {fuel fuel' : Nat} (hle : fuel ≤ fuel')
    {ss : List Stmt}
    (hs : ∀ s ∈ ss, ∀ m, s.exec tolerance fuel m ≠ .outOfFuel →
      s.history tolerance fuel' m = s.history tolerance fuel m) {last : Option Value} {m : Machine}
    (h : Stmt.execAll tolerance fuel ss last m ≠ .outOfFuel) :
    Stmt.historyAll tolerance fuel' ss m = Stmt.historyAll tolerance fuel ss m := by
  induction ss generalizing last m with
  | nil => rfl
  | cons s ss ih =>
    obtain ⟨hs, hss⟩ := List.forall_mem_cons.1 hs
    rw [execAll_cons] at h
    rw [historyAll, historyAll, hs m (ne_outOfFuel_of_andThen h)]
    congr 1
    exact thenWrites_below (exec_below tolerance hle s m) h fun v m₁ h₁ => ih hss h₁

theorem Stmt.history_eq_of_le (tolerance : Double) {fuel fuel' : Nat} (hle : fuel ≤ fuel')
    (s : Stmt) (m : Machine) (h : s.exec tolerance fuel m ≠ .outOfFuel) :
    s.history tolerance fuel' m = s.history tolerance fuel m := by
  induction s using Stmt.induct generalizing m with
  | declare d => rfl
  | assign a => rfl
  | expression e span => rfl
  | branch c body alternative span ihBody ihAlternative =>
    simp only [Stmt.exec, Stmt.history] at h ⊢
    cases hc : c.test tolerance m.store with
    | error f => rfl
    | ok holds =>
      cases holds with
      | true =>
        rw [hc] at h
        exact historyAll_eq_of_forall hle ihBody h
      | false =>
        rw [hc] at h
        cases alternative with
        | none => rfl
        | some body' => exact historyAll_eq_of_forall hle (ihAlternative body' rfl) h
  | forLoop init c update body span ih =>
    have hbody : ∀ m, (Stmt.execAll tolerance fuel body none m).Below
        (Stmt.execAll tolerance fuel' body none m) := fun m =>
      execAll_steady tolerance body none m fuel fuel' hle
    simp only [Stmt.exec, Stmt.history] at h ⊢
    congr 1
    refine thenWrites_below (Below.refl _) h fun u m₁ h₁ => ?_
    refine iterateHistory_eq_of_below hbody (fun m₂ h₂ => ?_) hle h₁
    exact roundHistory_eq_of_below hbody (fun m₃ h₃ => historyAll_eq_of_forall hle ih h₃) h₂
  | whileLoop c body span ih =>
    have hbody : ∀ m, (Stmt.execAll tolerance fuel body none m).Below
        (Stmt.execAll tolerance fuel' body none m) := fun m =>
      execAll_steady tolerance body none m fuel fuel' hle
    simp only [Stmt.exec, Stmt.history] at h ⊢
    refine iterateHistory_eq_of_below hbody (fun m₂ h₂ => ?_) hle h
    exact roundHistory_eq_of_below hbody (fun m₃ h₃ => historyAll_eq_of_forall hle ih h₃) h₂
  | ret v span => rfl
  | call name args span => rfl
  | relabelled kind s ih => rfl

/-- A bound that is large enough for the execution is large enough for its history. -/
theorem Stmt.history_settles {tolerance : Double} {fuel : Nat} {s : Stmt} {m : Machine}
    (h : s.exec tolerance fuel m ≠ .outOfFuel) :
    Settles (fun fuel => s.history tolerance fuel m) (s.history tolerance fuel m) :=
  ⟨fuel, fun _ hle => s.history_eq_of_le tolerance hle m h⟩

/-! ### Programs -/

/-- The pieces of the statements that a run of the program executes in a scope. -/
def Program.piecesIn (p : Program) (scope : Scope) : List Piece := Stmt.piecesAll (p.stmts scope)

/-- The pieces of the global declarations and of the entry block.  The bodies of functions are
never executed. -/
def Program.pieces (p : Program) : List Piece := p.piecesIn .globals ++ p.piecesIn .main

/-- The writes that the global declarations make in a run of the program. -/
def Program.globalHistory (tolerance : Double) (fuel : Nat) (p : Program) : List Write :=
  Stmt.historyAll tolerance fuel (p.stmts .globals) p.start

/-- The writes that the entry block makes in a run of the program; there are none if the run does
not reach it. -/
def Program.entryHistory (tolerance : Double) (fuel : Nat) (p : Program) : List Write :=
  (Stmt.execAll tolerance fuel (p.stmts .globals) none p.start).thenWrites fun _ m =>
    Stmt.historyAll tolerance fuel (p.stmts .main) { m with scope := .main }

/-- The writes that a run of the program makes. -/
def Program.history (tolerance : Double) (fuel : Nat) (p : Program) : List Write :=
  p.globalHistory tolerance fuel ++ p.entryHistory tolerance fuel

theorem Stmt.historyAll_traces (tolerance : Double) (fuel : Nat) (ss : List Stmt) (m : Machine) :
    Traces (fun σ w => ∃ p ∈ Stmt.piecesAll ss, p.MakesIn σ m.scope w) m.store
      (Stmt.historyAll tolerance fuel ss m) := by
  refine historyAll_traces_of_forall (fun s hs m' hm' => ?_) m rfl
  refine history_traces (all_of_forall_mem s fun p hp σ w hw => ?_) tolerance fuel m' hm'
  exact ⟨p, mem_piecesAll hs hp, hw⟩

namespace Program

variable {tolerance : Double} {fuel : Nat} {p : Program}

/-- A run of a program performs its history on the empty store. -/
theorem run_store {m : Machine} (h : m ∈ (p.run tolerance fuel).machine?) :
    m.store = Store.empty.writeAll (p.history tolerance fuel) := by
  have hglobals := Stmt.execAll_performs tolerance fuel (p.stmts .globals) none p.start
  rw [run_eq] at h
  unfold history globalHistory entryHistory
  rw [Store.writeAll_append]
  cases hg : Stmt.execAll tolerance fuel (p.stmts .globals) none p.start with
  | outOfFuel => simp [hg] at h
  | failed f m₁ =>
    obtain rfl : m₁ = m := by simpa [hg] using h
    exact (hglobals m₁ (by simp [hg])).1
  | done u m₀ =>
    have hentry := Stmt.execAll_performs tolerance fuel (p.stmts .main) u { m₀ with scope := .main }
    have hstore := (hglobals m₀ (by simp [hg])).1
    rw [hg, done_andThen] at h
    rw [thenWrites_done]
    have hstart : Store.empty = p.start.store := rfl
    rw [hstart, ← hstore]
    cases he : Stmt.execAll tolerance fuel (p.stmts .main) u { m₀ with scope := .main } with
    | outOfFuel => simp [he] at h
    | failed f m₁ =>
      obtain rfl : m₁ = m := by simpa [he] using h
      exact (hentry m₁ (by simp [he])).1
    | done v m₁ =>
      obtain rfl : m₁.record (.finished m₁.store.size) = m := by simpa [he] using h
      exact (hentry m₁ (by simp [he])).1

theorem globalHistory_traces (tolerance : Double) (fuel : Nat) (p : Program) :
    Traces (fun σ w => ∃ pc ∈ p.piecesIn .globals, pc.MakesIn σ .globals w) Store.empty
      (p.globalHistory tolerance fuel) :=
  Stmt.historyAll_traces tolerance fuel (p.stmts .globals) p.start

theorem entryHistory_traces (tolerance : Double) (fuel : Nat) (p : Program) :
    Traces (fun σ w => ∃ pc ∈ p.piecesIn .main, pc.MakesIn σ .main w)
      (Store.empty.writeAll (p.globalHistory tolerance fuel)) (p.entryHistory tolerance fuel) := by
  have hglobals := Stmt.execAll_performs tolerance fuel (p.stmts .globals) none p.start
  unfold entryHistory globalHistory
  cases hg : Stmt.execAll tolerance fuel (p.stmts .globals) none p.start with
  | outOfFuel => exact .nil _
  | failed f m₁ => exact .nil _
  | done u m₀ =>
    have hstore := (hglobals m₀ (by simp [hg])).1
    have hstart : Store.empty = p.start.store := rfl
    rw [hstart, ← hstore, thenWrites_done]
    exact Stmt.historyAll_traces tolerance fuel (p.stmts .main) { m₀ with scope := .main }

end Program

end FlatScript
