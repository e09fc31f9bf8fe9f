import FlatScript.Proofs.Ending

/-!
# The two kinds of loops

A `for` loop abbreviates a block: its declaration, followed by a `while` loop whose body ends with
the update (`Stmt.whileForm`).  The two are executed in different ways, since the update of a `for`
loop is no part of its body and the value of a loop is that of its body.

* `Rounds` : the complete rounds of a loop, the value of the last body and the machine after them;
* `iterate_eq_done` : a loop that ends has gone through such rounds, up to a condition that is
  false;
* `Stmt.forLoop_agree_whileForm` : **a `for` loop and its block end together**, with the same fault
  if any and with the same variables, and the value of the `for` loop is that of its last body.
-/

namespace FlatScript

open Outcome

/-! ### The block of a `for` loop -/

/-- The block that a `for` loop abbreviates. -/
def Stmt.whileForm (init : Option Declaration) (c : Option Condition) (update : Option Assignment)
    (body : List Stmt) (span : Span) : List Stmt :=
  (init.map Stmt.declare).toList ++ [.whileLoop c (body ++ (update.map Stmt.assign).toList) span]

/-- The machines have the same variables and the same scope; their logs may differ. -/
def SameState (m m' : Machine) : Prop := m.store = m'.store ∧ m.scope = m'.scope

theorem Stmt.execAll_singleton (tolerance : Double) (fuel : Nat) (s : Stmt) (last : Option Value)
    (m : Machine) : Stmt.execAll tolerance fuel [s] last m = s.exec tolerance fuel m := by
  rw [execAll_cons]
  cases s.exec tolerance fuel m <;> simp [Stmt.execAll]

theorem Stmt.execAll_whileForm (tolerance : Double) (fuel : Nat) (init : Option Declaration)
    (c : Option Condition) (update : Option Assignment) (body : List Stmt) (span : Span)
    (m : Machine) :
    Stmt.execAll tolerance fuel (Stmt.whileForm init c update body span) none m =
      (execInit init m).andThen fun _ m =>
        (Stmt.whileLoop c (body ++ (update.map Stmt.assign).toList) span).exec
          tolerance fuel m := by
  cases init with
  | none => exact execAll_singleton tolerance fuel _ none m
  | some d =>
    have hblock : Stmt.whileForm (some d) c update body span =
        .declare d :: Stmt.whileForm none c update body span := rfl
    rw [hblock, execAll_cons]
    have hd : (Stmt.declare d).exec tolerance fuel m = execInit (some d) m := by
      simp only [Stmt.exec, execInit]
    rw [hd]
    congr 1
    funext v m'
    exact execAll_singleton tolerance fuel _ v m'

theorem execUpdate_corr_execAll (tolerance : Double) (fuel : Nat) (update : Option Assignment)
    (last : Option Value) (m : Machine) :
    (execUpdate update m).Corr (fun _ _ => True) Eq
      (Stmt.execAll tolerance fuel (update.map Stmt.assign).toList last m) := by
  cases update with
  | none =>
    simp only [execUpdate, Option.map_none, Option.toList, Stmt.execAll]
    exact .done trivial rfl
  | some a =>
    rw [Option.map_some, Option.toList, Stmt.execAll_singleton]
    simp only [execUpdate, Stmt.exec]
    exact (Corr.of_eq rfl).mono (fun _ _ _ => trivial) fun _ _ _ _ h => h

/-- A round of the `for` loop is a round of the `while` loop, up to its value. -/
theorem loopRound_corr_whileForm (tolerance : Double) (fuel : Nat) (update : Option Assignment)
    (body : List Stmt) (m : Machine) :
    (loopRound (fun m => Stmt.execAll tolerance fuel body none m) (execUpdate update) m).Corr
      (fun _ _ => True) Eq
      (loopRound (fun m => Stmt.execAll tolerance fuel (body ++ (update.map Stmt.assign).toList)
        none m) (execUpdate none) m) := by
  simp only [loopRound, Stmt.execAll_append, andThen_assoc]
  refine (Corr.of_eq rfl).andThen (fun _ _ h => h) fun v _ m₁ _ _ hm => ?_
  subst hm
  refine (execUpdate_corr_execAll tolerance fuel update _ m₁).andThen (fun _ _ h => h) ?_
  intro _ _ m₂ _ _ hm
  subst hm
  exact .done trivial rfl

theorem Stmt.forLoop_corr_whileForm (tolerance : Double) (fuel : Nat) (init : Option Declaration)
    (c : Option Condition) (update : Option Assignment) (body : List Stmt) (span : Span)
    (m : Machine) :
    ((Stmt.forLoop init c update body span).exec tolerance fuel m).Corr (fun _ _ => True) SameState
      (Stmt.execAll tolerance fuel (Stmt.whileForm init c update body span) none m) := by
  rw [execAll_whileForm]
  simp only [Stmt.exec]
  have hstate : ∀ m m' : Machine, m = m' → SameState m m' := by
    rintro m _ rfl
    exact ⟨rfl, rfl⟩
  refine (Corr.of_eq rfl).andThen hstate fun _ _ m₁ m₁' _ hm => ?_
  -- the machines are equal in every round, and only the event of the exit differs
  refine iterate_corr hstate ?_ ?_ ?_ fuel 0 trivial hm
  · rintro m _ rfl
    rfl
  · rintro m _ rfl
    exact loopRound_corr_whileForm tolerance fuel update body m
  · rintro count m _ rfl
    exact ⟨rfl, rfl⟩

/-! ### The rounds of a loop -/

/-- From `m₀`, a number of complete rounds of a loop lead to a machine, the condition holding
before each of them.  The value is that of the body in the last round, without the update; there
is none if there was no round. -/
inductive Rounds (tolerance : Double) (c : Option Condition) (update : Option Assignment)
    (body : List Stmt) (m₀ : Machine) : Nat → Option Value → Machine → Prop
  | start : Rounds tolerance c update body m₀ 0 none m₀
  | round {k : Nat} {v w u : Option Value} {m m₁ m₂ : Machine} :
      Rounds tolerance c update body m₀ k v m → testOptional tolerance m.store c = .ok true →
      EndsWith (fun fuel => Stmt.execAll tolerance fuel body none m) (.done w m₁) →
      execUpdate update m₁ = .done u m₂ → Rounds tolerance c update body m₀ (k + 1) w m₂

theorem loopRound_eq_done {body update : Machine → Outcome (Option Value)} {m m₂ : Machine}
    {w : Option Value} (h : loopRound body update m = .done w m₂) :
    ∃ u m₁, body m = .done w m₁ ∧ update m₁ = .done u m₂ := by
  unfold loopRound at h
  cases hb : body m with
  | outOfFuel => simp [hb] at h
  | failed f m₁ => simp [hb] at h
  | done v m₁ =>
    cases hu : update m₁ with
    | outOfFuel => simp [hb, hu] at h
    | failed f m₃ => simp [hb, hu] at h
    | done u m₃ =>
      simp only [hb, hu, done_andThen, done.injEq] at h
      obtain ⟨rfl, rfl⟩ := h
      exact ⟨u, m₁, rfl, hu⟩

/-- A loop that ends without a fault has gone through complete rounds, up to a machine in which the
condition is false. -/
theorem iterate_eq_done {tolerance : Double} {kind : LoopKind} {c : Option Condition}
    {update : Option Assignment} {body : List Stmt} {bound fuel k : Nat} {last v : Option Value}
    {m₀ m m' : Machine} (hm : Rounds tolerance c update body m₀ k last m)
    (h : iterate kind (fun σ => testOptional tolerance σ c)
      (fun m => Stmt.execAll tolerance bound body none m) (execUpdate update) fuel k last m =
        .done v m') :
    ∃ n m₁, Rounds tolerance c update body m₀ n v m₁ ∧
      testOptional tolerance m₁.store c = .ok false ∧ m' = m₁.record (.loopExited kind n) := by
  induction fuel generalizing k last m with
  | zero => simp [iterate] at h
  | succ fuel ih =>
    cases ht : testOptional tolerance m.store c with
    | error f => rw [iterate_of_error ht] at h; cases h
    | ok holds =>
      cases holds with
      | false =>
        rw [iterate_of_false ht] at h
        obtain ⟨rfl, rfl⟩ := done.inj h
        exact ⟨k, m, hm, ht, rfl⟩
      | true =>
        rw [iterate_of_true ht] at h
        cases hr : loopRound (fun m => Stmt.execAll tolerance bound body none m)
            (execUpdate update) m with
        | outOfFuel => simp [hr] at h
        | failed f m₂ => simp [hr] at h
        | done w m₂ =>
          obtain ⟨u, m₁, hb, hu⟩ := loopRound_eq_done hr
          have hends : EndsWith (fun fuel => Stmt.execAll tolerance fuel body none m)
              (.done w m₁) := by
            rw [← hb]
            exact (Stmt.execAll_steady tolerance body none m).endsWith (by simp [hb])
          rw [hr] at h
          exact ih (hm.round ht hends hu) h

/-- **A `for` loop and the block that it abbreviates agree.**  Neither ends, or both end, both
without a fault or with the same one, and with the same variables.  If the `for` loop ends without
a fault, it has gone through complete rounds after its declaration, and its value is that of the
body in the last one. -/
theorem Stmt.forLoop_agree_whileForm (tolerance : Double) (init : Option Declaration)
    (c : Option Condition) (update : Option Assignment) (body : List Stmt) (span : Span)
    (m : Machine) :
    Agree (fun _ _ => True) SameState
      (fun fuel => (Stmt.forLoop init c update body span).exec tolerance fuel m)
      (fun fuel => Stmt.execAll tolerance fuel (Stmt.whileForm init c update body span) none m) ∧
    ∀ v m', EndsWith (fun fuel => (Stmt.forLoop init c update body span).exec tolerance fuel m)
        (.done v m') →
      ∃ u m₀ n m₁, execInit init m = .done u m₀ ∧ Rounds tolerance c update body m₀ n v m₁ ∧
        testOptional tolerance m₁.store c = .ok false ∧
        m' = m₁.record (.loopExited .forLoop n) := by
  constructor
  · refine Agree.of_forall (exec_steady tolerance _ m) (execAll_steady tolerance _ none m) ?_
    intro fuel
    exact forLoop_corr_whileForm tolerance fuel init c update body span m
  · intro v m' h
    obtain ⟨fuel, hfuel⟩ := h.exists_fuel
    simp only [Stmt.exec] at hfuel
    cases hi : execInit init m with
    | outOfFuel => simp [hi] at hfuel
    | failed f m₁ => simp [hi] at hfuel
    | done u m₀ =>
      rw [hi] at hfuel
      obtain ⟨n, m₁, hrounds, htest, hm'⟩ := iterate_eq_done .start hfuel
      exact ⟨u, m₀, n, m₁, rfl, hrounds, htest, hm'⟩

/-- The value of `for (int i; i < 2; i++) { i; }` is `1`, the value of its last body, although `i`
is `2` at the end. -/
theorem Stmt.forLoop_agree_whileForm_of_count :
    let init : Declaration := ⟨.int, [⟨"i", none, .unknown⟩], .unknown, by simp⟩
    let c : Condition := .comparison (.known .lt) (.variable "i") (.number "2")
    let update : Assignment := ⟨"i", .increment, .unknown⟩
    let body : List Stmt := [.expression (.variable "i") .unknown]
    ∃ u m₀ n m₁, execInit (some init) .fresh = .done u m₀ ∧
      Rounds Double.one (some c) (some update) body m₀ n (some (.number .one)) m₁ ∧
      testOptional Double.one m₁.store (some c) = .ok false := by
  intro init c update body
  let s : Stmt := .forLoop (some init) (some c) (some update) body .unknown
  have hexec : s.exec Double.one 3 .fresh = .done (some (.number .one))
      ((Machine.fresh.declare "i" (.number (Double.one.add .one)) .int).record
        (.loopExited .forLoop 2)) := by decide +kernel
  have hends := (Stmt.exec_steady Double.one s .fresh).endsWith (by rw [hexec]; simp)
  rw [hexec] at hends
  obtain ⟨u, m₀, n, m₁, hinit, hrounds, htest, -⟩ :=
    (forLoop_agree_whileForm Double.one _ _ _ _ _ _).2 _ _ hends
  exact ⟨u, m₀, n, m₁, hinit, hrounds, htest⟩

end FlatScript
