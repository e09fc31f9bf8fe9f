import FlatScript.Eval.Exec
import FlatScript.Proofs.Pieces

/-!
# When a run ends

Execution takes a bound on the iterations of its loops, and answers `outOfFuel` where the bound is
too small.  Here the bound is taken out of sight.  A computation `run : ℕ → Outcome α` is *steady*
when a larger bound never changes an answer other than `outOfFuel`; statements, blocks and programs
are steady (`Stmt.exec_steady`, `Stmt.execAll_steady`, `Program.run_steady`).  A steady computation
either never ends (`Diverges`) or ends with one outcome (`EndsWith`).

Two computations are compared in two stages.  `Outcome.Corr V R` relates two outcomes that are of
the same kind, report the same fault, and have results related by `V` and machines related by `R`.
`Agree V R` says of two computations that neither ends, or that both end and their outcomes
correspond; it follows from a correspondence under every bound (`Agree.of_forall`).
-/

namespace FlatScript

variable {α β γ δ : Type}

/-! ### Outcomes -/

namespace Outcome

/-- The machine that a step leaves behind, whether it is done or has failed. -/
def machine? : Outcome α → Option Machine
  | .done _ m => some m
  | .failed _ m => some m
  | .outOfFuel => none

@[simp] theorem machine?_done (a : α) (m : Machine) : (done a m).machine? = some m := rfl
@[simp] theorem machine?_failed (f : Fault) (m : Machine) :
    (failed f m : Outcome α).machine? = some m := rfl
@[simp] theorem machine?_outOfFuel : (outOfFuel : Outcome α).machine? = none := rfl

@[simp] theorem done_andThen (a : α) (m : Machine) (next : α → Machine → Outcome β) :
    (done a m).andThen next = next a m := rfl
@[simp] theorem failed_andThen (f : Fault) (m : Machine) (next : α → Machine → Outcome β) :
    (failed f m).andThen next = .failed f m := rfl
@[simp] theorem outOfFuel_andThen (next : α → Machine → Outcome β) :
    outOfFuel.andThen next = .outOfFuel := rfl

theorem andThen_assoc (o : Outcome α) (f : α → Machine → Outcome β) (g : β → Machine → Outcome γ) :
    (o.andThen f).andThen g = o.andThen fun a m => (f a m).andThen g := by
  cases o <;> rfl

theorem andThen_eq_done_iff {o : Outcome α} {next : α → Machine → Outcome β} {b : β}
    {m : Machine} :
    o.andThen next = .done b m ↔ ∃ a m₁, o = .done a m₁ ∧ next a m₁ = .done b m := by
  cases o <;> simp [and_assoc]

theorem andThen_eq_failed_iff {o : Outcome α} {next : α → Machine → Outcome β} {f : Fault}
    {m : Machine} :
    o.andThen next = .failed f m ↔
      o = .failed f m ∨ ∃ a m₁, o = .done a m₁ ∧ next a m₁ = .failed f m := by
  cases o <;> simp [and_assoc]

theorem ofExcept_eq_done_iff {m m' : Machine} {e : Except Fault α} {a : α} :
    ofExcept m e = .done a m' ↔ e = .ok a ∧ m = m' := by
  cases e <;> simp [ofExcept]

theorem ofExcept_eq_failed_iff {m m' : Machine} {e : Except Fault α} {f : Fault} :
    ofExcept m e = .failed f m' ↔ e = .error f ∧ m = m' := by
  cases e <;> simp [ofExcept]

theorem ofExcept_map_eq_failed_iff {m m' : Machine} {e : Except Fault α} {g : α → β} {f : Fault} :
    ofExcept m (e >>= fun a => pure (g a)) = .failed f m' ↔ e = .error f ∧ m = m' := by
  cases e <;> simp [ofExcept, bind, Except.bind, pure, Except.pure]

/-- Unless the first outcome has run out of fuel, the second one is the same. -/
def Below (o o' : Outcome α) : Prop := o ≠ .outOfFuel → o' = o

theorem Below.refl (o : Outcome α) : o.Below o := fun _ => rfl

theorem below_of_outOfFuel (o : Outcome α) : Below .outOfFuel o := fun h => absurd rfl h

theorem Below.andThen {o o' : Outcome α} {next next' : α → Machine → Outcome β} (h : o.Below o')
    (hnext : ∀ a m, (next a m).Below (next' a m)) :
    (o.andThen next).Below (o'.andThen next') := by
  cases o with
  | done a m => rw [h (by simp)]; exact hnext a m
  | failed f m => rw [h (by simp)]; exact .refl _
  | outOfFuel => exact below_of_outOfFuel _

/-- The outcomes are of the same kind and report the same fault, their results are related by `V`
and their machines by `R`. -/
inductive Corr (V : α → β → Prop) (R : Machine → Machine → Prop) : Outcome α → Outcome β → Prop
  | done {a : α} {b : β} {m m' : Machine} : V a b → R m m' → Corr V R (.done a m) (.done b m')
  | failed {f : Fault} {m m' : Machine} : R m m' → Corr V R (.failed f m) (.failed f m')
  | outOfFuel : Corr V R .outOfFuel .outOfFuel

section Corr

variable {V : α → β → Prop} {W : γ → δ → Prop} {R : Machine → Machine → Prop} {o : Outcome α}
  {o' : Outcome β}

theorem Corr.outOfFuel_iff (h : o.Corr V R o') : o = .outOfFuel ↔ o' = .outOfFuel := by
  cases h <;> simp

theorem Corr.mono {V' : α → β → Prop} {R' : Machine → Machine → Prop} (h : o.Corr V R o')
    (hV : ∀ a b, V a b → V' a b)
    (hR : ∀ m ∈ o.machine?, ∀ m' ∈ o'.machine?, R m m' → R' m m') : o.Corr V' R' o' := by
  cases h with
  | done hv hm => exact .done (hV _ _ hv) (hR _ rfl _ rfl hm)
  | failed hm => exact .failed (hR _ rfl _ rfl hm)
  | outOfFuel => exact .outOfFuel

theorem Corr.andThen {S : Machine → Machine → Prop} {next : α → Machine → Outcome γ}
    {next' : β → Machine → Outcome δ} (h : o.Corr V R o') (hfailed : ∀ m m', R m m' → S m m')
    (hnext : ∀ a b m m', V a b → R m m' → (next a m).Corr W S (next' b m')) :
    (o.andThen next).Corr W S (o'.andThen next') := by
  cases h with
  | done hv hm => exact hnext _ _ _ _ hv hm
  | failed hm => exact .failed (hfailed _ _ hm)
  | outOfFuel => exact .outOfFuel

theorem Corr.ofExcept {e e' : Except Fault α} (he : e = e') {m m' : Machine} (h : R m m') :
    (ofExcept m e).Corr Eq R (ofExcept m' e') := by
  subst he
  cases e with
  | ok a => exact .done rfl h
  | error f => exact .failed h

theorem Corr.of_eq {o o' : Outcome α} (h : o = o') : o.Corr Eq Eq o' := by
  subst h
  cases o with
  | done a m => exact .done rfl rfl
  | failed f m => exact .failed rfl
  | outOfFuel => exact .outOfFuel

end Corr

end Outcome

open Outcome

/-! ### Computations under a bound -/

/-- From some bound on, the computation gives `b`. -/
def Settles (run : Nat → β) (b : β) : Prop := ∃ bound, ∀ fuel, bound ≤ fuel → run fuel = b

/-- The computation ends with the outcome. -/
def EndsWith (run : Nat → Outcome α) (o : Outcome α) : Prop := o ≠ .outOfFuel ∧ Settles run o

/-- The computation does not end. -/
def Diverges (run : Nat → Outcome α) : Prop := ∀ fuel, run fuel = .outOfFuel

/-- A larger bound does not change an outcome that a smaller one has settled. -/
def Steady (run : Nat → Outcome α) : Prop :=
  ∀ fuel fuel', fuel ≤ fuel' → (run fuel).Below (run fuel')

/-- Neither computation ends, or both end and their outcomes correspond. -/
def Agree (V : α → β → Prop) (R : Machine → Machine → Prop) (run : Nat → Outcome α)
    (run' : Nat → Outcome β) : Prop :=
  Diverges run ∧ Diverges run' ∨
    ∃ o o', EndsWith run o ∧ EndsWith run' o' ∧ o.Corr V R o'

theorem EndsWith.exists_fuel {run : Nat → Outcome α} {o : Outcome α} (h : EndsWith run o) :
    ∃ fuel, run fuel = o := by
  obtain ⟨-, bound, hbound⟩ := h
  exact ⟨bound, hbound bound (Nat.le_refl bound)⟩

theorem Steady.endsWith {run : Nat → Outcome α} (h : Steady run) {fuel : Nat}
    (hfuel : run fuel ≠ .outOfFuel) : EndsWith run (run fuel) :=
  ⟨hfuel, fuel, fun fuel' hle => h fuel fuel' hle hfuel⟩

theorem Steady.endsWith_of_eq {run : Nat → Outcome α} (h : Steady run) {fuel : Nat} {o : Outcome α}
    (hfuel : run fuel = o) (ho : o ≠ .outOfFuel) : EndsWith run o := by
  subst hfuel
  exact h.endsWith ho

theorem endsWith_of_forall {run : Nat → Outcome α} {o : Outcome α} (h : ∀ fuel, run fuel = o)
    (ho : o ≠ .outOfFuel) : EndsWith run o :=
  ⟨ho, 0, fun fuel _ => h fuel⟩

theorem EndsWith.of_corr {V : α → β → Prop} {R : Machine → Machine → Prop}
    {run : Nat → Outcome α} {run' : Nat → Outcome β} (hrun' : Steady run')
    (hcorr : ∀ fuel, (run fuel).Corr V R (run' fuel)) {o : Outcome α} (h : EndsWith run o) :
    ∃ o', EndsWith run' o' ∧ o.Corr V R o' := by
  obtain ⟨fuel, rfl⟩ := h.exists_fuel
  have hfuel' : run' fuel ≠ .outOfFuel := fun h' => h.1 ((hcorr fuel).outOfFuel_iff.2 h')
  exact ⟨run' fuel, hrun'.endsWith hfuel', hcorr fuel⟩

/-- Two computations that end do so under a common bound. -/
theorem EndsWith.exists_common {run : Nat → Outcome α} {run' : Nat → Outcome β} {o : Outcome α}
    {o' : Outcome β} (h : EndsWith run o) (h' : EndsWith run' o') :
    ∃ fuel, run fuel = o ∧ run' fuel = o' := by
  obtain ⟨-, bound, hbound⟩ := h
  obtain ⟨-, bound', hbound'⟩ := h'
  exact ⟨max bound bound', hbound _ (Nat.le_max_left _ _), hbound' _ (Nat.le_max_right _ _)⟩

theorem Agree.of_forall {V : α → β → Prop} {R : Machine → Machine → Prop}
    {run : Nat → Outcome α} {run' : Nat → Outcome β} (hrun : Steady run) (hrun' : Steady run')
    (h : ∀ fuel, (run fuel).Corr V R (run' fuel)) : Agree V R run run' := by
  by_cases hd : Diverges run
  · -- corresponding outcomes run out of fuel together
    exact .inl ⟨hd, fun fuel => (h fuel).outOfFuel_iff.1 (hd fuel)⟩
  · obtain ⟨fuel, hfuel⟩ := Classical.not_forall.1 hd
    have hfuel' : run' fuel ≠ .outOfFuel := fun h' => hfuel ((h fuel).outOfFuel_iff.2 h')
    exact .inr ⟨run fuel, run' fuel, hrun.endsWith hfuel, hrun'.endsWith hfuel', h fuel⟩

/-! ### Blocks and loops as sequences of steps -/

theorem Declarator.execAll_cons (type : TypeTag) (d : Declarator) (ds : List Declarator)
    (last : Option Value) (m : Machine) :
    Declarator.execAll type (d :: ds) last m =
      (ofExcept m (d.eval m.store type)).andThen fun v m =>
        Declarator.execAll type ds (some v) (m.declare d.name v type) := by
  rw [Declarator.execAll]
  cases d.eval m.store type <;> rfl

theorem Stmt.execAll_cons (tolerance : Double) (fuel : Nat) (s : Stmt) (ss : List Stmt)
    (last : Option Value) (m : Machine) :
    Stmt.execAll tolerance fuel (s :: ss) last m =
      (s.exec tolerance fuel m).andThen (Stmt.execAll tolerance fuel ss) := by
  rw [Stmt.execAll]
  cases s.exec tolerance fuel m <;> rfl

theorem Stmt.execAll_append (tolerance : Double) (fuel : Nat) (ss ts : List Stmt)
    (last : Option Value) (m : Machine) :
    Stmt.execAll tolerance fuel (ss ++ ts) last m =
      (Stmt.execAll tolerance fuel ss last m).andThen (Stmt.execAll tolerance fuel ts) := by
  induction ss generalizing last m with
  | nil => simp [Stmt.execAll]
  | cons s ss ih =>
    rw [List.cons_append, execAll_cons, execAll_cons, andThen_assoc]
    congr 1
    funext v m'
    exact ih v m'

/-- One round of a loop: the body and then the update, with the value of the body. -/
def loopRound (body update : Machine → Outcome (Option Value)) (m : Machine) :
    Outcome (Option Value) :=
  (body m).andThen fun v m => (update m).andThen fun _ m => .done v m

section Loop

variable {kind : LoopKind} {test : Store → Except Fault Bool}
  {body update : Machine → Outcome (Option Value)} {m : Machine}

theorem iterate_of_error {f : Fault} (h : test m.store = .error f) (fuel count : Nat)
    (last : Option Value) :
    iterate kind test body update (fuel + 1) count last m = .failed f m := by
  simp [iterate, h]

theorem iterate_of_false (h : test m.store = .ok false) (fuel count : Nat) (last : Option Value) :
    iterate kind test body update (fuel + 1) count last m =
      .done last (m.record (.loopExited kind count)) := by
  simp [iterate, h]

theorem iterate_of_true (h : test m.store = .ok true) (fuel count : Nat) (last : Option Value) :
    iterate kind test body update (fuel + 1) count last m =
      (loopRound body update m).andThen (iterate kind test body update fuel (count + 1)) := by
  simp only [iterate, h, loopRound]
  cases body m with
  | done v m₁ => cases h₁ : update m₁ <;> simp [h₁]
  | failed f m₁ => rfl
  | outOfFuel => rfl

theorem loopRound_below {body' : Machine → Outcome (Option Value)}
    (hbody : ∀ m, (body m).Below (body' m)) (m : Machine) :
    (loopRound body update m).Below (loopRound body' update m) :=
  (hbody m).andThen fun _ _ => .refl _

theorem iterate_below {body' : Machine → Outcome (Option Value)}
    (hbody : ∀ m, (body m).Below (body' m)) {fuel fuel' : Nat} (hle : fuel ≤ fuel') (count : Nat)
    (last : Option Value) (m : Machine) :
    (iterate kind test body update fuel count last m).Below
      (iterate kind test body' update fuel' count last m) := by
  induction fuel generalizing fuel' count last m with
  | zero => exact below_of_outOfFuel _
  | succ fuel ih =>
    -- both loops have an iteration left, and the bound of the other one stays the larger
    obtain ⟨fuel', rfl⟩ : ∃ n, fuel' = n + 1 := ⟨fuel' - 1, by omega⟩
    cases h : test m.store with
    | error f => rw [iterate_of_error h, iterate_of_error h]; exact .refl _
    | ok holds =>
      cases holds with
      | false => rw [iterate_of_false h, iterate_of_false h]; exact .refl _
      | true =>
        rw [iterate_of_true h, iterate_of_true h]
        exact (loopRound_below hbody m).andThen fun v m₁ => ih (by omega) (count + 1) v m₁

theorem loopRound_corr {body' update' : Machine → Outcome (Option Value)}
    {R : Machine → Machine → Prop} (hbody : ∀ m m', R m m' → (body m).Corr Eq R (body' m'))
    (hupdate : ∀ m m', R m m' → (update m).Corr Eq R (update' m')) {m m' : Machine} (h : R m m') :
    (loopRound body update m).Corr Eq R (loopRound body' update' m') := by
  refine (hbody m m' h).andThen (fun _ _ h => h) ?_
  rintro v _ m₁ m₁' rfl h₁
  refine (hupdate m₁ m₁' h₁).andThen (fun _ _ h => h) ?_
  rintro _ _ m₂ m₂' _ h₂
  exact .done rfl h₂

/-- Two loops correspond when their tests and their rounds do. -/
theorem iterate_corr {kind' : LoopKind} {test' : Store → Except Fault Bool}
    {body' update' : Machine → Outcome (Option Value)} {V : Option Value → Option Value → Prop}
    {R S : Machine → Machine → Prop} (hRS : ∀ m m', R m m' → S m m')
    (htest : ∀ m m', R m m' → test m.store = test' m'.store)
    (hround : ∀ m m', R m m' → (loopRound body update m).Corr V R (loopRound body' update' m'))
    (hexit : ∀ count m m', R m m' →
      S (m.record (.loopExited kind count)) (m'.record (.loopExited kind' count)))
    (fuel count : Nat) {last last' : Option Value} (hlast : V last last') {m m' : Machine}
    (h : R m m') :
    (iterate kind test body update fuel count last m).Corr V S
      (iterate kind' test' body' update' fuel count last' m') := by
  induction fuel generalizing count last last' m m' with
  | zero => exact .outOfFuel
  | succ fuel ih =>
    cases ht : test m.store with
    | error f =>
      rw [iterate_of_error ht, iterate_of_error ((htest m m' h).symm.trans ht)]
      exact .failed (hRS m m' h)
    | ok holds =>
      cases holds with
      | false =>
        rw [iterate_of_false ht, iterate_of_false ((htest m m' h).symm.trans ht)]
        exact .done hlast (hexit count m m' h)
      | true =>
        rw [iterate_of_true ht, iterate_of_true ((htest m m' h).symm.trans ht)]
        exact (hround m m' h).andThen hRS fun v v' m₁ m₁' hv h₁ => ih (count + 1) hv h₁

end Loop

/-! ### Execution is steady -/

theorem Stmt.execAll_below {tolerance : Double} {fuel fuel' : Nat} {ss : List Stmt}
    (h : ∀ s ∈ ss, ∀ m, (s.exec tolerance fuel m).Below (s.exec tolerance fuel' m))
    (last : Option Value) (m : Machine) :
    (Stmt.execAll tolerance fuel ss last m).Below (Stmt.execAll tolerance fuel' ss last m) := by
  induction ss generalizing last m with
  | nil => simp only [Stmt.execAll]; exact .refl _
  | cons s ss ih =>
    obtain ⟨hs, hss⟩ := List.forall_mem_cons.1 h
    rw [execAll_cons, execAll_cons]
    exact (hs m).andThen fun v m' => ih hss v m'

theorem Stmt.exec_below (tolerance : Double) {fuel fuel' : Nat} (hle : fuel ≤ fuel') (s : Stmt)
    (m : Machine) : (s.exec tolerance fuel m).Below (s.exec tolerance fuel' m) := by
  induction s using Stmt.induct generalizing m with
  | declare d => simp only [Stmt.exec]; exact .refl _
  | assign a => simp only [Stmt.exec]; exact .refl _
  | expression e span => simp only [Stmt.exec]; exact .refl _
  | branch c body alternative span ihBody ihAlternative =>
    simp only [Stmt.exec]
    cases c.test tolerance m.store with
    | error f => exact .refl _
    | ok holds =>
      cases holds with
      | true => exact execAll_below ihBody none m
      | false =>
        cases alternative with
        | none => simp only [Stmt.execAlternative]; exact .refl _
        | some body' =>
          simp only [Stmt.execAlternative]
          exact execAll_below (ihAlternative body' rfl) none m
  | forLoop init c update body span ih =>
    simp only [Stmt.exec]
    refine (Below.refl _).andThen fun _ m' => ?_
    exact iterate_below (execAll_below ih none) hle 0 none m'
  | whileLoop c body span ih =>
    simp only [Stmt.exec]
    exact iterate_below (execAll_below ih none) hle 0 none m
  | ret v span => cases v <;> simp only [Stmt.exec] <;> exact .refl _
  | call name args span => simp only [Stmt.exec]; exact .refl _
  | relabelled kind s ih => simp only [Stmt.exec]; exact .refl _

/-- **A larger bound does not change what a statement ends with.** -/
theorem Stmt.exec_steady (tolerance : Double) (s : Stmt) (m : Machine) :
    Steady fun fuel => s.exec tolerance fuel m :=
  fun _ _ hle => Stmt.exec_below tolerance hle s m

theorem Stmt.execAll_steady (tolerance : Double) (ss : List Stmt) (last : Option Value)
    (m : Machine) : Steady fun fuel => Stmt.execAll tolerance fuel ss last m :=
  fun _ _ hle => Stmt.execAll_below (fun s _ => Stmt.exec_below tolerance hle s) last m

/-- The machine that a run of the program starts with. -/
def Program.start (p : Program) : Machine :=
  Machine.fresh.record (.started p.globals.length p.entry.body.length)

/-- The statements that a run of the program executes in a scope. -/
def Program.stmts (p : Program) : Scope → List Stmt
  | .globals => p.globals.filterMap Global.stmt?
  | .main => p.entry.body

theorem Program.run_eq (tolerance : Double) (fuel : Nat) (p : Program) :
    p.run tolerance fuel =
      (Stmt.execAll tolerance fuel (p.stmts .globals) none p.start).andThen fun last m =>
        (Stmt.execAll tolerance fuel (p.stmts .main) last { m with scope := .main }).andThen
          fun last m => .done last (m.record (.finished m.store.size)) := rfl

theorem Program.run_steady (tolerance : Double) (p : Program) :
    Steady fun fuel => p.run tolerance fuel := by
  intro fuel fuel' hle
  refine (Stmt.execAll_steady tolerance _ none _ fuel fuel' hle).andThen fun last m => ?_
  refine (Stmt.execAll_steady tolerance _ last _ fuel fuel' hle).andThen fun last m => ?_
  exact .refl _

end FlatScript
