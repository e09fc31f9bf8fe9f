import FlatScript.Proofs.History
import FlatScript.Proofs.Log

/-!
# Where an execution fails

A fault ends an execution in the middle, and what has been written by then stays written.  The
rules of `Stmt.Fails` say where a statement can fail and what it then leaves behind: an evaluation
that fails changes nothing, so the machine is always the one in which the failing evaluation was
made.

* `Declaration.Fails` : a declaration fails at a declarator, after those before it;
* `Stmt.Fails`, `Stmt.BlockFails`, `Stmt.LoopFails` : a statement, a block and a loop fail;
* `Stmt.endsWith_failed_iff` : **the rules describe exactly the executions that fail**;
* `Program.FailsAt` : a program fails at a global declaration or a statement of its entry block;
* `Program.failed_iff_failsAt` : **a run that fails leaves behind what the first failing statement
  does**, and what comes after that statement has no part in it.
-/

namespace FlatScript

open Outcome

/-! ### The rules -/

/-- The declaration fails at one of its declarators.  It leaves behind what the same declaration
produces when it is cut off before that declarator. -/
def Declaration.Fails (d : Declaration) (m : Machine) (f : Fault) (m' : Machine) : Prop :=
  ∃ i e v, d.declarators[i]? = some e ∧
    Declarator.execAll d.type (d.declarators.take i) none m = .done v m' ∧
    e.eval m'.store d.type = .error f

mutual

/-- The statement, executed on the first machine, fails with the fault and leaves the second
machine behind. -/
inductive Stmt.Fails (tolerance : Double) : Stmt → Machine → Fault → Machine → Prop
  | declare {d : Declaration} {m m' : Machine} {f : Fault} :
      d.Fails m f m' → Stmt.Fails tolerance (.declare d) m f m'
  | assign {a : Assignment} {m : Machine} {f : Fault} :
      a.action.eval m.store a.target = .error f → Stmt.Fails tolerance (.assign a) m f m
  | expression {e : Expr} {span : Span} {m : Machine} {f : Fault} :
      e.eval m.store = .error f → Stmt.Fails tolerance (.expression e span) m f m
  | ret {v : RValue} {span : Span} {m : Machine} {f : Fault} :
      v.eval m.store = .error f → Stmt.Fails tolerance (.ret (some v) span) m f m
  | call {name : String} {args : List Expr} {span : Span} {m : Machine} {f : Fault} :
      (Expr.call name args).eval m.store = .error f →
      Stmt.Fails tolerance (.call name args span) m f m
  /-- The condition of a branch fails, and nothing has changed. -/
  | condition {c : Condition} {body : List Stmt} {alternative : Option (List Stmt)} {span : Span}
      {m : Machine} {f : Fault} :
      c.test tolerance m.store = .error f →
      Stmt.Fails tolerance (.branch c body alternative span) m f m
  | body {c : Condition} {body : List Stmt} {alternative : Option (List Stmt)} {span : Span}
      {m m' : Machine} {f : Fault} :
      c.test tolerance m.store = .ok true → Stmt.BlockFails tolerance body m f m' →
      Stmt.Fails tolerance (.branch c body alternative span) m f m'
  | alternative {c : Condition} {body body' : List Stmt} {span : Span} {m m' : Machine}
      {f : Fault} :
      c.test tolerance m.store = .ok false → Stmt.BlockFails tolerance body' m f m' →
      Stmt.Fails tolerance (.branch c body (some body') span) m f m'
  /-- The declaration in the header of a loop fails. -/
  | init {d : Declaration} {c : Option Condition} {update : Option Assignment} {body : List Stmt}
      {span : Span} {m m' : Machine} {f : Fault} :
      d.Fails m f m' → Stmt.Fails tolerance (.forLoop (some d) c update body span) m f m'
  | forLoop {init : Option Declaration} {c : Option Condition} {update : Option Assignment}
      {body : List Stmt} {span : Span} {m m₀ m' : Machine} {u : Option Value} {f : Fault} :
      execInit init m = .done u m₀ → Stmt.LoopFails tolerance c update body m₀ f m' →
      Stmt.Fails tolerance (.forLoop init c update body span) m f m'
  | whileLoop {c : Option Condition} {body : List Stmt} {span : Span} {m m' : Machine}
      {f : Fault} :
      Stmt.LoopFails tolerance c none body m f m' →
      Stmt.Fails tolerance (.whileLoop c body span) m f m'
  | relabelled {kind : String} {s : Stmt} {m : Machine} :
      Stmt.Fails tolerance (.relabelled kind s) m (.unsupported .statementKind kind) m

/-- The block fails at one of its statements, executed on what those before it have left. -/
inductive Stmt.BlockFails (tolerance : Double) : List Stmt → Machine → Fault → Machine → Prop
  | stmt {body : List Stmt} {i : Nat} {s : Stmt} {v : Option Value} {m m₁ m' : Machine}
      {f : Fault} :
      body[i]? = some s →
      EndsWith (fun fuel => Stmt.execAll tolerance fuel (body.take i) none m) (.done v m₁) →
      Stmt.Fails tolerance s m₁ f m' → Stmt.BlockFails tolerance body m f m'

/-- The loop fails after some complete rounds. -/
inductive Stmt.LoopFails (tolerance : Double) : Option Condition → Option Assignment →
    List Stmt → Machine → Fault → Machine → Prop
  /-- The condition fails on what the rounds have left. -/
  | condition {c : Option Condition} {update : Option Assignment} {body : List Stmt}
      {m₀ m : Machine} {k : Nat} {v : Option Value} {f : Fault} :
      Rounds tolerance c update body m₀ k v m → testOptional tolerance m.store c = .error f →
      Stmt.LoopFails tolerance c update body m₀ f m
  /-- The body fails on what the rounds have left. -/
  | body {c : Option Condition} {update : Option Assignment} {body : List Stmt}
      {m₀ m m' : Machine} {k : Nat} {v : Option Value} {f : Fault} :
      Rounds tolerance c update body m₀ k v m → testOptional tolerance m.store c = .ok true →
      Stmt.BlockFails tolerance body m f m' → Stmt.LoopFails tolerance c update body m₀ f m'
  /-- The update fails on what the body has left. -/
  | update {c : Option Condition} {a : Assignment} {body : List Stmt} {m₀ m m₁ : Machine}
      {k : Nat} {v w : Option Value} {f : Fault} :
      Rounds tolerance c (some a) body m₀ k v m → testOptional tolerance m.store c = .ok true →
      EndsWith (fun fuel => Stmt.execAll tolerance fuel body none m) (.done w m₁) →
      a.action.eval m₁.store a.target = .error f →
      Stmt.LoopFails tolerance c (some a) body m₀ f m₁

end

/-! ### Failures of sequences -/

theorem Declarator.execAll_eq_failed_iff {type : TypeTag} {ds : List Declarator}
    {last : Option Value} {m m' : Machine} {f : Fault} :
    Declarator.execAll type ds last m = .failed f m' ↔
      ∃ i e v, ds[i]? = some e ∧ Declarator.execAll type (ds.take i) last m = .done v m' ∧
        e.eval m'.store type = .error f := by
  induction ds generalizing last m with
  | nil => simp [Declarator.execAll]
  | cons d ds ih =>
    rw [execAll_cons, andThen_eq_failed_iff, ofExcept_eq_failed_iff]
    constructor
    · rintro (⟨hd, rfl⟩ | ⟨v, m₁, hd, hds⟩)
      · exact ⟨0, d, last, rfl, rfl, hd⟩
      · obtain ⟨i, e, w, hi, hdone, he⟩ := ih.1 hds
        refine ⟨i + 1, e, w, hi, ?_, he⟩
        rw [List.take_succ_cons, execAll_cons, hd]
        exact hdone
    · rintro ⟨i, e, w, hi, hdone, he⟩
      cases i with
      | zero =>
        obtain ⟨-, rfl⟩ := done.inj hdone
        obtain rfl : d = e := by simpa using hi
        exact .inl ⟨he, rfl⟩
      | succ i =>
        rw [List.take_succ_cons, execAll_cons] at hdone
        obtain ⟨v, m₁, hd, hdone⟩ := andThen_eq_done_iff.1 hdone
        exact .inr ⟨v, m₁, hd, ih.2 ⟨i, e, w, hi, hdone, he⟩⟩

theorem Stmt.execAll_eq_failed_iff {tolerance : Double} {fuel : Nat} {ss : List Stmt}
    {last : Option Value} {m m' : Machine} {f : Fault} :
    Stmt.execAll tolerance fuel ss last m = .failed f m' ↔
      ∃ i s v m₁, ss[i]? = some s ∧
        Stmt.execAll tolerance fuel (ss.take i) last m = .done v m₁ ∧
        s.exec tolerance fuel m₁ = .failed f m' := by
  induction ss generalizing last m with
  | nil => simp [Stmt.execAll]
  | cons s ss ih =>
    rw [execAll_cons, andThen_eq_failed_iff]
    constructor
    · rintro (hs | ⟨v, m₁, hs, hss⟩)
      · exact ⟨0, s, last, m, rfl, by simp [Stmt.execAll], hs⟩
      · obtain ⟨i, t, w, m₂, hi, hdone, ht⟩ := ih.1 hss
        refine ⟨i + 1, t, w, m₂, hi, ?_, ht⟩
        rw [List.take_succ_cons, execAll_cons, hs]
        exact hdone
    · rintro ⟨i, t, w, m₂, hi, hdone, ht⟩
      cases i with
      | zero =>
        simp only [List.take_zero, Stmt.execAll, done.injEq] at hdone
        obtain ⟨-, rfl⟩ := hdone
        obtain rfl : s = t := by simpa using hi
        exact .inl ht
      | succ i =>
        rw [List.take_succ_cons, execAll_cons] at hdone
        obtain ⟨v, m₁, hs, hdone⟩ := andThen_eq_done_iff.1 hdone
        exact .inr ⟨v, m₁, hs, ih.2 ⟨i, t, w, m₂, hi, hdone, ht⟩⟩

/-! ### Parts that are executed once -/

theorem Declaration.exec_eq_failed_iff {d : Declaration} {m m' : Machine} {f : Fault} :
    d.exec m = .failed f m' ↔ d.Fails m f m' :=
  Declarator.execAll_eq_failed_iff

theorem Assignment.exec_eq_failed_iff {a : Assignment} {m m' : Machine} {f : Fault} :
    a.exec m = .failed f m' ↔ a.action.eval m.store a.target = .error f ∧ m = m' := by
  unfold Assignment.exec
  cases a.action.eval m.store a.target <;> simp

/-! ### Executions that fail satisfy the rules -/

theorem Stmt.blockFails_of_execAll {tolerance : Double} {fuel : Nat} {ss : List Stmt}
    (hss : ∀ s ∈ ss, ∀ m f m', s.exec tolerance fuel m = .failed f m' →
      s.Fails tolerance m f m') {m m' : Machine} {f : Fault}
    (h : Stmt.execAll tolerance fuel ss none m = .failed f m') :
    Stmt.BlockFails tolerance ss m f m' := by
  obtain ⟨i, s, v, m₁, hi, hdone, hs⟩ := execAll_eq_failed_iff.1 h
  have hends := (execAll_steady tolerance (ss.take i) none m).endsWith_of_eq hdone (by simp)
  exact .stmt hi hends (hss s (List.mem_of_getElem? hi) m₁ f m' hs)

/-- A loop that fails has gone through complete rounds before. -/
theorem loopFails_of_iterate {tolerance : Double} {kind : LoopKind} {c : Option Condition}
    {update : Option Assignment} {body : List Stmt} {bound fuel k : Nat} {last : Option Value}
    {m₀ m m' : Machine} {f : Fault}
    (hbody : ∀ m f m', Stmt.execAll tolerance bound body none m = .failed f m' →
      Stmt.BlockFails tolerance body m f m')
    (hm : Rounds tolerance c update body m₀ k last m)
    (h : iterate kind (fun σ => testOptional tolerance σ c)
      (fun m => Stmt.execAll tolerance bound body none m) (execUpdate update) fuel k last m =
        .failed f m') :
    Stmt.LoopFails tolerance c update body m₀ f m' := by
  induction fuel generalizing k last m with
  | zero => simp [iterate] at h
  | succ fuel ih =>
    cases ht : testOptional tolerance m.store c with
    | error g =>
      rw [iterate_of_error ht] at h
      obtain ⟨rfl, rfl⟩ := failed.inj h
      exact .condition hm ht
    | ok holds =>
      cases holds with
      | false => rw [iterate_of_false ht] at h; cases h
      | true =>
        rw [iterate_of_true ht, andThen_eq_failed_iff] at h
        rcases h with h | ⟨w, m₂, hround, h⟩
        · rcases andThen_eq_failed_iff.1 h with hb | ⟨w, m₁, hb, hu⟩
          · exact .body hm ht (hbody m f m' hb)
          · have hends := (Stmt.execAll_steady tolerance body none m).endsWith_of_eq hb (by simp)
            cases update with
            | none => simp [execUpdate] at hu
            | some a =>
              have ha : a.exec m₁ = .failed f m' := by
                simpa [execUpdate, andThen_eq_failed_iff] using hu
              obtain ⟨hvalue, rfl⟩ := Assignment.exec_eq_failed_iff.1 ha
              exact .update hm ht hends hvalue
        · obtain ⟨u, m₁, hb, hu⟩ := loopRound_eq_done hround
          have hends := (Stmt.execAll_steady tolerance body none m).endsWith_of_eq hb (by simp)
          exact ih (hm.round ht hends hu) h

theorem Stmt.fails_of_exec {tolerance : Double} {fuel : Nat} {s : Stmt} {m m' : Machine}
    {f : Fault} (h : s.exec tolerance fuel m = .failed f m') : s.Fails tolerance m f m' := by
  induction s using Stmt.induct generalizing m f m' with
  | declare d =>
    simp only [Stmt.exec] at h
    exact .declare (Declaration.exec_eq_failed_iff.1 h)
  | assign a =>
    simp only [Stmt.exec] at h
    obtain ⟨ha, rfl⟩ := Assignment.exec_eq_failed_iff.1 h
    exact .assign ha
  | expression e span =>
    simp only [Stmt.exec] at h
    obtain ⟨he, rfl⟩ := ofExcept_map_eq_failed_iff.1 h
    exact .expression he
  | branch c body alternative span ihBody ihAlternative =>
    simp only [Stmt.exec] at h
    cases hc : c.test tolerance m.store with
    | error g =>
      rw [hc] at h
      obtain ⟨rfl, rfl⟩ := failed.inj h
      exact .condition hc
    | ok holds =>
      rw [hc] at h
      cases holds with
      | true => exact .body hc (blockFails_of_execAll (fun s hs m f m' => ihBody s hs) h)
      | false =>
        cases alternative with
        | none => cases h
        | some body' =>
          exact .alternative hc
            (blockFails_of_execAll (fun s hs m f m' => ihAlternative body' rfl s hs) h)
  | forLoop init c update body span ih =>
    simp only [Stmt.exec] at h
    rcases andThen_eq_failed_iff.1 h with hi | ⟨u, m₀, hi, hloop⟩
    · cases init with
      | none => cases hi
      | some d => exact .init (Declaration.exec_eq_failed_iff.1 hi)
    · refine .forLoop hi (loopFails_of_iterate (fun m f m' hb => ?_) .start hloop)
      exact blockFails_of_execAll (fun s hs m f m' => ih s hs) hb
  | whileLoop c body span ih =>
    simp only [Stmt.exec] at h
    refine .whileLoop (loopFails_of_iterate (fun m f m' hb => ?_) .start h)
    exact blockFails_of_execAll (fun s hs m f m' => ih s hs) hb
  | ret v span =>
    cases v with
    | none => simp [Stmt.exec] at h
    | some v =>
      simp only [Stmt.exec] at h
      obtain ⟨hv, rfl⟩ := ofExcept_map_eq_failed_iff.1 h
      exact .ret hv
  | call name args span =>
    simp only [Stmt.exec] at h
    obtain ⟨he, rfl⟩ := ofExcept_map_eq_failed_iff.1 h
    exact .call he
  | relabelled kind s ih =>
    simp only [Stmt.exec] at h
    obtain ⟨rfl, rfl⟩ := failed.inj h
    exact .relabelled

/-! ### Executions that satisfy the rules fail -/

/-- A loop that has made `k` rounds, the last one with the value `last`. -/
def loopFrom (tolerance : Double) (kind : LoopKind) (c : Option Condition)
    (update : Option Assignment) (body : List Stmt) (k : Nat) (last : Option Value) (m : Machine)
    (fuel : Nat) : Outcome (Option Value) :=
  iterate kind (fun σ => testOptional tolerance σ c)
    (fun m => Stmt.execAll tolerance fuel body none m) (execUpdate update) fuel k last m

section LoopFrom

variable {tolerance : Double} {kind : LoopKind} {c : Option Condition}
  {update : Option Assignment} {body : List Stmt} {m₀ m m₁ m₂ : Machine} {k : Nat}
  {last w u : Option Value} {f : Fault}

theorem loopFrom_steady : Steady (loopFrom tolerance kind c update body k last m) := by
  intro fuel fuel' hle
  refine iterate_below (fun m => ?_) hle k last m
  exact Stmt.execAll_steady tolerance body none m fuel fuel' hle

/-- One more round of a loop, before what is known of the rest. -/
theorem loopFrom_endsWith_of_round {o : Outcome (Option Value)}
    (ht : testOptional tolerance m.store c = .ok true)
    (hb : EndsWith (fun fuel => Stmt.execAll tolerance fuel body none m) (.done w m₁))
    (hu : execUpdate update m₁ = .done u m₂)
    (h : EndsWith (loopFrom tolerance kind c update body (k + 1) w m₂) o) :
    EndsWith (loopFrom tolerance kind c update body k last m) o := by
  obtain ⟨fuel, hbody, hrest⟩ := hb.exists_common h
  have hle : fuel ≤ fuel + 1 := Nat.le_succ fuel
  -- under one more unit of fuel the body and the remaining rounds end as before
  have hbody' : Stmt.execAll tolerance (fuel + 1) body none m = .done w m₁ := by
    rw [← hbody]
    exact Stmt.execAll_steady tolerance body none m fuel (fuel + 1) hle (by simp [hbody])
  have hround : loopRound (fun m => Stmt.execAll tolerance (fuel + 1) body none m)
      (execUpdate update) m = .done w m₂ := by
    simp [loopRound, hbody', hu]
  have hloop : loopFrom tolerance kind c update body k last m (fuel + 1) = o := by
    rw [loopFrom, iterate_of_true ht, hround, done_andThen, ← hrest]
    refine iterate_below (fun m => ?_) (Nat.le_refl fuel) (k + 1) w m₂ ?_
    · exact Stmt.execAll_steady tolerance body none m fuel (fuel + 1) hle
    · rw [← loopFrom, hrest]
      exact h.1
  exact loopFrom_steady.endsWith_of_eq hloop h.1

/-- The loop fails in its next round. -/
theorem loopFrom_endsWith_failed (ht : testOptional tolerance m.store c = .ok true) (fuel : Nat)
    (h : loopRound (fun m => Stmt.execAll tolerance fuel body none m) (execUpdate update) m =
      .failed f m₁) :
    EndsWith (loopFrom tolerance kind c update body k last m) (.failed f m₁) := by
  have hround : loopRound (fun m => Stmt.execAll tolerance (fuel + 1) body none m)
      (execUpdate update) m = .failed f m₁ := by
    rw [← h]
    refine loopRound_below (fun m => ?_) m (by simp [h])
    exact Stmt.execAll_steady tolerance body none m fuel (fuel + 1) (Nat.le_succ fuel)
  have hloop : loopFrom tolerance kind c update body k last m (fuel + 1) = .failed f m₁ := by
    rw [loopFrom, iterate_of_true ht, hround, failed_andThen]
  exact loopFrom_steady.endsWith_of_eq hloop (by simp)

theorem Rounds.endsWith {o : Outcome (Option Value)}
    (hm : Rounds tolerance c update body m₀ k last m)
    (h : EndsWith (loopFrom tolerance kind c update body k last m) o) :
    EndsWith (loopFrom tolerance kind c update body 0 none m₀) o := by
  induction hm with
  | start => exact h
  | round _ ht hb hu ih => exact ih (loopFrom_endsWith_of_round ht hb hu h)

end LoopFrom

theorem Stmt.execAll_endsWith_failed {tolerance : Double} {ss : List Stmt} {i : Nat} {s : Stmt}
    {last v : Option Value} {m m₁ m' : Machine} {f : Fault} (hi : ss[i]? = some s)
    (hbefore : EndsWith (fun fuel => Stmt.execAll tolerance fuel (ss.take i) last m) (.done v m₁))
    (hs : EndsWith (fun fuel => s.exec tolerance fuel m₁) (.failed f m')) :
    EndsWith (fun fuel => Stmt.execAll tolerance fuel ss last m) (.failed f m') := by
  obtain ⟨fuel, hdone, hfailed⟩ := hbefore.exists_common hs
  have hblock : Stmt.execAll tolerance fuel ss last m = .failed f m' :=
    execAll_eq_failed_iff.2 ⟨i, s, v, m₁, hi, hdone, hfailed⟩
  exact (execAll_steady tolerance ss last m).endsWith_of_eq hblock (by simp)

mutual

theorem Stmt.Fails.endsWith {tolerance : Double} {s : Stmt} {m m' : Machine} {f : Fault} :
    s.Fails tolerance m f m' → EndsWith (fun fuel => s.exec tolerance fuel m) (.failed f m')
  | .declare h => by
    refine endsWith_of_forall (fun fuel => ?_) (by simp)
    simp only [Stmt.exec]
    exact Declaration.exec_eq_failed_iff.2 h
  | .assign h => by
    refine endsWith_of_forall (fun fuel => ?_) (by simp)
    simp only [Stmt.exec]
    exact Assignment.exec_eq_failed_iff.2 ⟨h, rfl⟩
  | .expression h => by
    refine endsWith_of_forall (fun fuel => ?_) (by simp)
    simp only [Stmt.exec]
    exact ofExcept_map_eq_failed_iff.2 ⟨h, rfl⟩
  | .ret h => by
    refine endsWith_of_forall (fun fuel => ?_) (by simp)
    simp only [Stmt.exec]
    exact ofExcept_map_eq_failed_iff.2 ⟨h, rfl⟩
  | .call h => by
    refine endsWith_of_forall (fun fuel => ?_) (by simp)
    simp only [Stmt.exec]
    exact ofExcept_map_eq_failed_iff.2 ⟨h, rfl⟩
  | .condition h => by
    refine endsWith_of_forall (fun fuel => ?_) (by simp)
    simp only [Stmt.exec, h]
  | .body hc h => by
    simp only [Stmt.exec, hc]
    exact h.endsWith
  | .alternative hc h => by
    simp only [Stmt.exec, hc, Stmt.execAlternative]
    exact h.endsWith
  | .init h => by
    refine endsWith_of_forall (fun fuel => ?_) (by simp)
    have hd : execInit (some _) m = .failed f m' := Declaration.exec_eq_failed_iff.2 h
    simp only [Stmt.exec, hd, failed_andThen]
  | .forLoop hi h => by
    simp only [Stmt.exec, hi, done_andThen]
    exact h.endsWith .forLoop
  | .whileLoop h => by
    simp only [Stmt.exec]
    exact h.endsWith .whileLoop
  | .relabelled => by
    refine endsWith_of_forall (fun fuel => ?_) (by simp)
    simp only [Stmt.exec]

theorem Stmt.BlockFails.endsWith {tolerance : Double} {ss : List Stmt} {m m' : Machine}
    {f : Fault} : Stmt.BlockFails tolerance ss m f m' →
      EndsWith (fun fuel => Stmt.execAll tolerance fuel ss none m) (.failed f m')
  | .stmt hi hbefore hs => Stmt.execAll_endsWith_failed hi hbefore hs.endsWith

theorem Stmt.LoopFails.endsWith {tolerance : Double} {c : Option Condition}
    {update : Option Assignment} {body : List Stmt} {m₀ m' : Machine} {f : Fault} :
    Stmt.LoopFails tolerance c update body m₀ f m' → ∀ kind,
      EndsWith (loopFrom tolerance kind c update body 0 none m₀) (.failed f m')
  | .condition hm ht, kind =>
    hm.endsWith (loopFrom_steady.endsWith_of_eq (iterate_of_error ht 0 _ _) (by simp))
  | .body hm ht h, kind => by
    obtain ⟨fuel, hfuel⟩ := h.endsWith.exists_fuel
    refine hm.endsWith (loopFrom_endsWith_failed ht fuel ?_)
    simp only [loopRound, hfuel, failed_andThen]
  | .update hm ht hb ha, kind => by
    obtain ⟨fuel, hfuel⟩ := hb.exists_fuel
    refine hm.endsWith (loopFrom_endsWith_failed ht fuel ?_)
    have hu : execUpdate (some _) m' = .failed f m' := Assignment.exec_eq_failed_iff.2 ⟨ha, rfl⟩
    simp only [loopRound, hfuel, done_andThen, hu, failed_andThen]

end

/-- **The rules describe exactly the executions that fail.** -/
theorem Stmt.endsWith_failed_iff {tolerance : Double} {s : Stmt} {m m' : Machine} {f : Fault} :
    EndsWith (fun fuel => s.exec tolerance fuel m) (.failed f m') ↔ s.Fails tolerance m f m' := by
  constructor
  · intro h
    obtain ⟨fuel, hfuel⟩ := h.exists_fuel
    exact fails_of_exec hfuel
  · exact Fails.endsWith

theorem Stmt.Fails.scope_eq {tolerance : Double} {s : Stmt} {m m' : Machine} {f : Fault}
    (h : s.Fails tolerance m f m') : m'.scope = m.scope := by
  obtain ⟨fuel, hfuel⟩ := h.endsWith.exists_fuel
  exact (s.exec_performs tolerance fuel m m' (by simp [hfuel])).2

theorem Stmt.scope_eq_of_endsWith {tolerance : Double} {ss : List Stmt} {last v : Option Value}
    {m m' : Machine}
    (h : EndsWith (fun fuel => Stmt.execAll tolerance fuel ss last m) (.done v m')) :
    m'.scope = m.scope := by
  obtain ⟨fuel, hfuel⟩ := h.exists_fuel
  exact (Stmt.execAll_performs tolerance fuel ss last m).scope_eq hfuel

theorem Stmt.Fails.of_sameState {tolerance : Double} {s : Stmt} {m m' m₁ : Machine} {f : Fault}
    (hs : s.Fails tolerance m f m₁) (h : SameState m m') :
    ∃ m₁', s.Fails tolerance m' f m₁' ∧ SameState m₁ m₁' := by
  obtain ⟨o', hends', hcorr⟩ := hs.endsWith.of_corr (exec_steady tolerance s m')
    fun fuel => s.exec_sameState tolerance fuel m m' h
  cases hcorr with
  | failed h₁ => exact ⟨_, endsWith_failed_iff.1 hends', h₁⟩

/-! ### Programs -/

/-- The program fails at the statement of a scope with the given number, counted from zero.  What
it leaves behind is what that statement does, executed on what the ones before it have left. -/
inductive Program.FailsAt (tolerance : Double) (p : Program) : Scope → Nat → Fault → Machine → Prop
  | global {i : Nat} {s : Stmt} {v : Option Value} {m m' : Machine} {f : Fault} :
      (p.stmts .globals)[i]? = some s →
      EndsWith (fun fuel => Stmt.execAll tolerance fuel ((p.stmts .globals).take i) none p.start)
        (.done v m) →
      s.Fails tolerance m f m' → Program.FailsAt tolerance p .globals i f m'
  | entry {i : Nat} {s : Stmt} {u v : Option Value} {m₀ m m' : Machine} {f : Fault} :
      EndsWith (fun fuel => Stmt.execAll tolerance fuel (p.stmts .globals) none p.start)
        (.done u m₀) →
      (p.stmts .main)[i]? = some s →
      EndsWith (fun fuel => Stmt.execAll tolerance fuel ((p.stmts .main).take i) u
        { m₀ with scope := .main }) (.done v m) →
      s.Fails tolerance m f m' → Program.FailsAt tolerance p .main i f m'

/-- The programs execute the same statements, up to and including the one of a scope with the
given number. -/
def Program.SameUpTo (p q : Program) : Scope → Nat → Prop
  | .globals, i => (p.stmts .globals).take (i + 1) = (q.stmts .globals).take (i + 1)
  | .main, i => p.stmts .globals = q.stmts .globals ∧
      (p.stmts .main).take (i + 1) = (q.stmts .main).take (i + 1)

namespace Program

variable {tolerance : Double} {p q : Program} {scope : Scope} {i : Nat} {f : Fault} {m : Machine}

theorem failsAt_of_run {fuel : Nat} (h : p.run tolerance fuel = .failed f m) :
    ∃ scope i, p.FailsAt tolerance scope i f m := by
  rw [run_eq] at h
  rcases andThen_eq_failed_iff.1 h with hglobals | ⟨u, m₀, hglobals, h⟩
  · obtain ⟨i, s, v, m₁, hi, hdone, hs⟩ := Stmt.execAll_eq_failed_iff.1 hglobals
    have hends := (Stmt.execAll_steady tolerance _ none _).endsWith_of_eq hdone (by simp)
    exact ⟨.globals, i, .global hi hends (Stmt.fails_of_exec hs)⟩
  · rcases andThen_eq_failed_iff.1 h with hentry | ⟨v, m₁, _, h⟩
    · obtain ⟨i, s, v, m₁, hi, hdone, hs⟩ := Stmt.execAll_eq_failed_iff.1 hentry
      have hends₀ := (Stmt.execAll_steady tolerance _ none _).endsWith_of_eq hglobals (by simp)
      have hends := (Stmt.execAll_steady tolerance _ u _).endsWith_of_eq hdone (by simp)
      exact ⟨.main, i, .entry hends₀ hi hends (Stmt.fails_of_exec hs)⟩
    · cases h

theorem FailsAt.endsWith (h : p.FailsAt tolerance scope i f m) :
    EndsWith (fun fuel => p.run tolerance fuel) (.failed f m) := by
  cases h with
  | global hi hbefore hs =>
    obtain ⟨fuel, hfuel⟩ := (Stmt.execAll_endsWith_failed hi hbefore hs.endsWith).exists_fuel
    have hrun : p.run tolerance fuel = .failed f m := by
      rw [run_eq, hfuel, failed_andThen]
    exact (p.run_steady tolerance).endsWith_of_eq hrun (by simp)
  | entry hglobals hi hbefore hs =>
    have hentry := Stmt.execAll_endsWith_failed hi hbefore hs.endsWith
    obtain ⟨fuel, hfuel₀, hfuel⟩ := hglobals.exists_common hentry
    have hrun : p.run tolerance fuel = .failed f m := by
      rw [run_eq, hfuel₀, done_andThen, hfuel, failed_andThen]
    exact (p.run_steady tolerance).endsWith_of_eq hrun (by simp)

/-- A program fails in the scope of the statement at which it fails. -/
theorem FailsAt.scope_eq (h : p.FailsAt tolerance scope i f m) : m.scope = scope := by
  cases h with
  | global _ hbefore hs =>
    exact hs.scope_eq.trans (Stmt.scope_eq_of_endsWith hbefore)
  | entry _ _ hbefore hs =>
    exact hs.scope_eq.trans (Stmt.scope_eq_of_endsWith hbefore)

theorem getElem?_of_take_eq {ss ts : List Stmt} {s : Stmt} (h : ss.take (i + 1) = ts.take (i + 1))
    (hi : ss[i]? = some s) : ts[i]? = some s := by
  rw [← List.getElem?_take_of_lt (Nat.lt_succ_self i), ← h,
    List.getElem?_take_of_lt (Nat.lt_succ_self i)]
  exact hi

theorem take_of_take_eq {ss ts : List Stmt} (h : ss.take (i + 1) = ts.take (i + 1)) :
    ss.take i = ts.take i := by
  have hle : min i (i + 1) = i := Nat.min_eq_left (Nat.le_succ i)
  rw [← hle, ← List.take_take, ← List.take_take, h]

/-- Statements after the one that fails have no effect. -/
theorem FailsAt.of_sameUpTo (h : p.FailsAt tolerance scope i f m) (hpq : p.SameUpTo q scope i) :
    ∃ m', q.FailsAt tolerance scope i f m' ∧ SameState m m' := by
  -- the two runs start with machines that differ in the first event of their logs
  have hstart : SameState p.start q.start := ⟨rfl, rfl⟩
  cases h with
  | global hi hbefore hs =>
    rw [take_of_take_eq hpq] at hbefore
    obtain ⟨m₁', hbefore', h₁⟩ := Stmt.execAll_endsWith_done_sameState hstart hbefore
    obtain ⟨m', hs', hm⟩ := hs.of_sameState h₁
    exact ⟨m', .global (getElem?_of_take_eq hpq hi) hbefore' hs', hm⟩
  | @entry _ s u v m₀ m₁ _ _ hglobals hi hbefore hs =>
    obtain ⟨hsame, htake⟩ := hpq
    rw [hsame] at hglobals
    rw [take_of_take_eq htake] at hbefore
    obtain ⟨m₀', hglobals', h₀⟩ := Stmt.execAll_endsWith_done_sameState hstart hglobals
    have hentry : SameState { m₀ with scope := .main } { m₀' with scope := .main } :=
      ⟨h₀.1, rfl⟩
    obtain ⟨m₁', hbefore', h₁⟩ := Stmt.execAll_endsWith_done_sameState hentry hbefore
    obtain ⟨m', hs', hm⟩ := hs.of_sameState h₁
    exact ⟨m', .entry hglobals' (getElem?_of_take_eq htake hi) hbefore' hs', hm⟩

end Program

/-- **What a failure leaves behind.**  A statement fails exactly by the rules, which say what it
leaves behind.  A program fails exactly at a global declaration or a statement of its entry block
that fails on what the ones before it have left; it leaves behind what that statement does, in its
scope.  A program that goes on differently after that statement fails there in the same way. -/
theorem Program.failed_iff_failsAt (tolerance : Double) :
    (∀ s m f m', EndsWith (fun fuel => Stmt.exec tolerance fuel s m) (.failed f m') ↔
      s.Fails tolerance m f m') ∧
    (∀ p f m', EndsWith (fun fuel => Program.run tolerance fuel p) (.failed f m') ↔
      ∃ scope i, p.FailsAt tolerance scope i f m' ∧ m'.scope = scope) ∧
    ∀ (p q : Program) scope i f m', p.FailsAt tolerance scope i f m' → p.SameUpTo q scope i →
      ∃ m'', q.FailsAt tolerance scope i f m'' ∧ SameState m' m'' := by
  refine ⟨fun s m f m' => Stmt.endsWith_failed_iff, fun p f m' => ⟨fun h => ?_, ?_⟩, ?_⟩
  · obtain ⟨fuel, hfuel⟩ := h.exists_fuel
    obtain ⟨scope, i, hfails⟩ := failsAt_of_run hfuel
    exact ⟨scope, i, hfails, hfails.scope_eq⟩
  · rintro ⟨scope, i, hfails, -⟩
    exact hfails.endsWith
  · intro p q scope i f m' h hpq
    exact h.of_sameUpTo hpq

/-- `int x = 5; x /= 0; x = 7;` fails at its second statement with `x` still `5`, and so does the
program without the third statement. -/
theorem Program.failed_iff_failsAt_of_division :
    let five : Value := .number (.ofDecimal ⟨false, 5, 0⟩)
    let declare : Stmt := .declare ⟨.int, [⟨"x", some (.arith (.number "5")), .unknown⟩], .unknown,
      by simp⟩
    let divide : Stmt := .assign ⟨"x", .update .div (.arith (.number "0")), .unknown⟩
    let reset : Stmt := .assign ⟨"x", .set (.arith (.number "7")), .unknown⟩
    let p : Program := { entry := { body := [declare, divide, reset] } }
    let q : Program := { entry := { body := [declare, divide] } }
    let m : Machine := { p.start with store := ⟨[("x", ⟨five, some .int, .main⟩)]⟩, scope := .main }
    EndsWith (fun fuel => p.run Double.one fuel) (.failed .divisionByZero m) ∧
      p.FailsAt Double.one .main 1 .divisionByZero m ∧ p.SameUpTo q .main 1 ∧
      ∃ m', q.FailsAt Double.one .main 1 .divisionByZero m' ∧ SameState m m' := by
  intro five declare divide reset p q m
  have hglobals :
      EndsWith (fun fuel => Stmt.execAll Double.one fuel (p.stmts .globals) none p.start)
        (.done none p.start) :=
    endsWith_of_forall (fun fuel => by simp [p, stmts, Stmt.execAll]) (by simp)
  have hdeclare : Stmt.execAll Double.one 0 [declare] none { p.start with scope := .main } =
      .done (some five) m := by decide +kernel
  have hbefore := (Stmt.execAll_steady Double.one _ none _).endsWith_of_eq hdeclare (by simp)
  have hdivide : divide.exec Double.one 0 m = .failed .divisionByZero m := by decide +kernel
  have hfails : p.FailsAt Double.one .main 1 .divisionByZero m :=
    .entry hglobals rfl hbefore (Stmt.fails_of_exec hdivide)
  have hsame : p.SameUpTo q .main 1 := ⟨rfl, rfl⟩
  obtain ⟨-, hprogram, hlater⟩ := failed_iff_failsAt Double.one
  exact ⟨(hprogram p _ m).2 ⟨.main, 1, hfails, rfl⟩, hfails, hsame,
    hlater p q .main 1 _ m hfails hsame⟩

end FlatScript
