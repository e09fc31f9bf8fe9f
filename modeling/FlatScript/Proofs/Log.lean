import FlatScript.Proofs.Loop
import FlatScript.Proofs.LoopRuns

/-!
# The log of a run

A run writes to its log and never looks at it.  From two machines that differ in their logs only
(`SameState`), a statement has the same value or the same fault, and leaves behind machines that
again differ in their logs only (`Stmt.exec_sameState`).

What is written is never taken back: the log that a statement finds is a prefix of the log that it
leaves behind, whether it is done or fails (`Stmt.exec_grows`), since the events of its loops are
all that it adds.
-/

namespace FlatScript

open Outcome

section SameState

variable {m m' : Machine}

theorem SameState.record (h : SameState m m') (e e' : Event) :
    SameState (m.record e) (m'.record e') := h

theorem SameState.declare (h : SameState m m') (x : String) (v : Value) (type : TypeTag) :
    SameState (m.declare x v type) (m'.declare x v type) := by
  obtain ⟨hstore, hscope⟩ := h
  exact ⟨by simp only [Machine.declare, hstore, hscope], hscope⟩

theorem SameState.assign (h : SameState m m') (x : String) (v : Value) :
    SameState (m.assign x v) (m'.assign x v) := by
  obtain ⟨hstore, hscope⟩ := h
  exact ⟨by simp only [Machine.assign, hstore, hscope], hscope⟩

theorem Declarator.execAll_sameState (type : TypeTag) (ds : List Declarator) (last : Option Value)
    (h : SameState m m') :
    (Declarator.execAll type ds last m).Corr Eq SameState
      (Declarator.execAll type ds last m') := by
  induction ds generalizing last m m' with
  | nil => exact .done rfl h
  | cons d ds ih =>
    rw [execAll_cons, execAll_cons, ← h.1]
    refine (Corr.ofExcept rfl h).andThen (fun _ _ h => h) ?_
    rintro v _ m₁ m₁' rfl h₁
    exact ih (some v) (h₁.declare d.name v type)

theorem Assignment.exec_sameState (a : Assignment) (h : SameState m m') :
    (a.exec m).Corr Eq SameState (a.exec m') := by
  simp only [Assignment.exec, ← h.1]
  cases a.action.eval m.store a.target with
  | error f => exact .failed h
  | ok v => exact .done rfl (h.assign a.target v)

theorem execInit_sameState (init : Option Declaration) (h : SameState m m') :
    (execInit init m).Corr Eq SameState (execInit init m') := by
  cases init with
  | none => exact .done rfl h
  | some d => exact Declarator.execAll_sameState d.type d.declarators none h

theorem execUpdate_sameState (update : Option Assignment) (h : SameState m m') :
    (execUpdate update m).Corr Eq SameState (execUpdate update m') := by
  cases update with
  | none => exact .done rfl h
  | some a => exact a.exec_sameState h

theorem Stmt.execAll_sameState_of_forall {tolerance : Double} {fuel : Nat} {ss : List Stmt}
    (hss : ∀ s ∈ ss, ∀ m m', SameState m m' →
      (s.exec tolerance fuel m).Corr Eq SameState (s.exec tolerance fuel m'))
    (last : Option Value) (m m' : Machine) (h : SameState m m') :
    (Stmt.execAll tolerance fuel ss last m).Corr Eq SameState
      (Stmt.execAll tolerance fuel ss last m') := by
  induction ss generalizing last m m' with
  | nil =>
    simp only [Stmt.execAll]
    exact .done rfl h
  | cons s ss ih =>
    obtain ⟨hs, hss⟩ := List.forall_mem_cons.1 hss
    rw [execAll_cons, execAll_cons]
    refine (hs m m' h).andThen (fun _ _ h => h) ?_
    rintro v _ m₁ m₁' rfl h₁
    exact ih hss v m₁ m₁' h₁

/-- From machines that differ in their logs only, a statement has the same value or fault and
leaves machines that differ in their logs only. -/
theorem Stmt.exec_sameState (tolerance : Double) (fuel : Nat) (s : Stmt) (m m' : Machine)
    (h : SameState m m') :
    (s.exec tolerance fuel m).Corr Eq SameState (s.exec tolerance fuel m') := by
  induction s using Stmt.induct generalizing m m' with
  | declare d =>
    simp only [Stmt.exec]
    exact Declarator.execAll_sameState d.type d.declarators none h
  | assign a =>
    simp only [Stmt.exec]
    exact a.exec_sameState h
  | expression e span =>
    simp only [Stmt.exec, ← h.1]
    exact .ofExcept rfl h
  | branch c body alternative span ihBody ihAlternative =>
    simp only [Stmt.exec, ← h.1]
    cases c.test tolerance m.store with
    | error f => exact .failed h
    | ok holds =>
      cases holds with
      | true => exact execAll_sameState_of_forall ihBody none m m' h
      | false =>
        cases alternative with
        | none => exact .done rfl h
        | some body' => exact execAll_sameState_of_forall (ihAlternative body' rfl) none m m' h
  | forLoop init c update body span ih =>
    simp only [Stmt.exec]
    refine (execInit_sameState init h).andThen (fun _ _ h => h) fun _ _ m₁ m₁' _ h₁ => ?_
    refine iterate_corr (fun _ _ h => h) (fun _ _ h => by rw [h.1]) (fun m₂ m₂' h₂ => ?_)
      (fun _ _ _ h => h.record _ _) fuel 0 rfl h₁
    exact loopRound_corr (execAll_sameState_of_forall ih none)
      (fun _ _ h => execUpdate_sameState update h) h₂
  | whileLoop c body span ih =>
    simp only [Stmt.exec]
    refine iterate_corr (fun _ _ h => h) (fun _ _ h => by rw [h.1]) (fun m₂ m₂' h₂ => ?_)
      (fun _ _ _ h => h.record _ _) fuel 0 rfl h
    exact loopRound_corr (execAll_sameState_of_forall ih none)
      (fun _ _ h => execUpdate_sameState none h) h₂
  | ret v span =>
    cases v with
    | none => simp only [Stmt.exec]; exact .done rfl h
    | some v =>
      simp only [Stmt.exec, ← h.1]
      exact .ofExcept rfl h
  | call name args span =>
    simp only [Stmt.exec, ← h.1]
    exact .ofExcept rfl h
  | relabelled kind s ih =>
    simp only [Stmt.exec]
    exact .failed h

theorem Stmt.execAll_sameState (tolerance : Double) (fuel : Nat) (ss : List Stmt)
    (last : Option Value) (m m' : Machine) (h : SameState m m') :
    (Stmt.execAll tolerance fuel ss last m).Corr Eq SameState
      (Stmt.execAll tolerance fuel ss last m') :=
  execAll_sameState_of_forall (fun s _ => s.exec_sameState tolerance fuel) last m m' h

theorem Stmt.execAll_endsWith_done_sameState {tolerance : Double} {ss : List Stmt}
    {last v : Option Value} {m₁ : Machine} (h : SameState m m')
    (hends : EndsWith (fun fuel => Stmt.execAll tolerance fuel ss last m) (.done v m₁)) :
    ∃ m₁', EndsWith (fun fuel => Stmt.execAll tolerance fuel ss last m') (.done v m₁') ∧
      SameState m₁ m₁' := by
  obtain ⟨o', hends', hcorr⟩ := hends.of_corr (execAll_steady tolerance ss last m')
    fun fuel => execAll_sameState tolerance fuel ss last m m' h
  cases hcorr with
  | done hv h₁ => subst hv; exact ⟨_, hends', h₁⟩

end SameState

/-! ### The log only grows -/

/-- The log of the first machine is a prefix of that of the second. -/
def Machine.LogPrefix (m m' : Machine) : Prop := m.log.toList <+: m'.log.toList

namespace Machine.LogPrefix

variable {m m₁ m₂ : Machine}

theorem refl (m : Machine) : m.LogPrefix m := List.prefix_refl _

theorem trans (h : m.LogPrefix m₁) (h₁ : m₁.LogPrefix m₂) : m.LogPrefix m₂ :=
  List.IsPrefix.trans h h₁

theorem record (h : m.LogPrefix m₁) (e : Event) : m.LogPrefix (m₁.record e) := by
  refine List.IsPrefix.trans h ?_
  simp [Machine.record]

end Machine.LogPrefix

namespace Outcome

variable {α β : Type} {m : Machine} {o : Outcome α}

/-- Whether the step is done or has failed, it has only added to the log of the machine. -/
def Grows (m : Machine) (o : Outcome α) : Prop := ∀ m' ∈ o.machine?, m.LogPrefix m'

theorem grows_done (a : α) {m' : Machine} (h : m.LogPrefix m') : (done a m').Grows m := by
  rintro _ ⟨⟩
  exact h

theorem grows_failed (f : Fault) (m : Machine) : (failed f m : Outcome α).Grows m := by
  rintro _ ⟨⟩
  exact .refl m

theorem grows_outOfFuel (m : Machine) : (outOfFuel : Outcome α).Grows m := by
  rintro _ ⟨⟩

theorem grows_ofExcept (m : Machine) (e : Except Fault α) : (ofExcept m e).Grows m := by
  cases e with
  | ok a => exact grows_done a (.refl m)
  | error f => exact grows_failed f m

theorem Logs.grows {es : List Event} (h : o.Logs m es) : o.Grows m := by
  intro m' hm'
  exact ⟨es, (h m' hm').symm⟩

theorem Grows.andThen {next : α → Machine → Outcome β} (h : o.Grows m)
    (hnext : ∀ a m₁, (next a m₁).Grows m₁) : (o.andThen next).Grows m := by
  cases o with
  | done a m₁ =>
    intro m' hm'
    exact (h m₁ rfl).trans (hnext a m₁ m' hm')
  | failed f m₁ => exact h
  | outOfFuel => exact h

end Outcome

theorem Declarator.execAll_grows (type : TypeTag) (ds : List Declarator) (last : Option Value)
    (m : Machine) : (Declarator.execAll type ds last m).Grows m :=
  (execAll_logs type ds last m).grows

theorem execUpdate_grows (update : Option Assignment) (m : Machine) :
    (execUpdate update m).Grows m :=
  (execUpdate_logs update m).grows

theorem loopRound_grows {body update : Machine → Outcome (Option Value)}
    (hbody : ∀ m, (body m).Grows m) (hupdate : ∀ m, (update m).Grows m) (m : Machine) :
    (loopRound body update m).Grows m :=
  (hbody m).andThen fun v m₁ => (hupdate m₁).andThen fun _ m₂ => grows_done v (.refl m₂)

theorem iterate_grows {kind : LoopKind} {test : Store → Except Fault Bool}
    {body update : Machine → Outcome (Option Value)}
    (hround : ∀ m, (loopRound body update m).Grows m) (fuel count : Nat) (last : Option Value)
    (m : Machine) : (iterate kind test body update fuel count last m).Grows m := by
  induction fuel generalizing count last m with
  | zero => exact grows_outOfFuel m
  | succ fuel ih =>
    cases ht : test m.store with
    | error f =>
      rw [iterate_of_error ht]
      exact grows_failed f m
    | ok holds =>
      cases holds with
      | false =>
        rw [iterate_of_false ht]
        exact grows_done last ((Machine.LogPrefix.refl m).record _)
      | true =>
        rw [iterate_of_true ht]
        exact (hround m).andThen (ih (count + 1))

/-- **The log only grows.** -/
theorem Stmt.exec_grows (tolerance : Double) (fuel : Nat) (s : Stmt) (m : Machine) :
    (s.exec tolerance fuel m).Grows m :=
  (s.exec_logs tolerance fuel m).grows

theorem Stmt.execAll_grows (tolerance : Double) (fuel : Nat) (ss : List Stmt)
    (last : Option Value) (m : Machine) : (Stmt.execAll tolerance fuel ss last m).Grows m :=
  (execAll_logs tolerance fuel ss last m).grows

end FlatScript
