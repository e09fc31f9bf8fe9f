import FlatScript.Proofs.LoopTrace

/-!
# Loops without an exit

A loop is left in two ways only, by a condition that is false and by a fault.  Nothing in its body
can end it: a return yields its value like any other statement, and the block that it stands in goes
on behind it.

* `Loop.test_eq_false_of_exec` : the condition of a loop that is done is false in the store that the
  loop leaves behind;
* `Loop.Unconditional` : the condition is absent, or there is no store in which it is false;
* `Stmt.agree_after` : **a block goes on behind every statement that is done**, as if it had started
  there;
* `Stmt.unconditional_never_done` : **a loop without a condition to leave it runs forever or ends
  with a fault**, whatever its body is.
-/

namespace FlatScript

open Outcome

/-! ### Leaving a loop -/

section Loop

variable {tolerance : Double} {l : Loop} {m : Machine}

/-- A loop that is done was left through its condition. -/
theorem Loop.test_eq_false_of_exec {fuel : Nat} {v : Option Value} {m' : Machine}
    (h : l.exec tolerance fuel m = .done v m') :
    ∃ c ∈ l.condition, c.test tolerance m'.store = .ok false := by
  obtain ⟨u, m₀, -, hloop⟩ := andThen_eq_done_iff.1 h
  obtain ⟨n, m₁, -, htest, rfl⟩ := iterate_eq_done .start hloop
  exact testOptional_eq_false_iff.1 htest

/-- The loop has no condition, or one that is false in no store. -/
def Loop.Unconditional (tolerance : Double) (l : Loop) : Prop :=
  ∀ c ∈ l.condition, ∀ σ, c.test tolerance σ ≠ .ok false

theorem Loop.Unconditional.exec_ne_done (hl : l.Unconditional tolerance) (fuel : Nat)
    (v : Option Value) (m' : Machine) : l.exec tolerance fuel m ≠ .done v m' := by
  intro h
  obtain ⟨c, hc, htest⟩ := Loop.test_eq_false_of_exec h
  exact hl c hc m'.store htest

end Loop

/-- A steady computation that is never done runs forever or fails. -/
theorem Steady.diverges_or_fails {α : Type} {run : Nat → Outcome α} (h : Steady run)
    (hdone : ∀ fuel a m, run fuel ≠ .done a m) :
    Diverges run ∨ ∃ f m, EndsWith run (.failed f m) := by
  by_cases hd : Diverges run
  · exact .inl hd
  · obtain ⟨fuel, hfuel⟩ := Classical.not_forall.1 hd
    cases hrun : run fuel with
    | done a m => exact absurd hrun (hdone fuel a m)
    | failed f m => exact .inr ⟨f, m, h.endsWith_of_eq hrun (by simp)⟩
    | outOfFuel => exact absurd hrun hfuel

/-! ### Going on behind a statement -/

/-- Steady computations that are equal from some bound on agree. -/
theorem Agree.of_eventually_eq {α : Type} {run run' : Nat → Outcome α} (hrun : Steady run)
    (hrun' : Steady run') (bound : Nat) (h : ∀ fuel, bound ≤ fuel → run fuel = run' fuel) :
    Agree Eq Eq run run' := by
  by_cases hends : ∃ fuel, bound ≤ fuel ∧ run fuel ≠ .outOfFuel
  · obtain ⟨fuel, hle, hfuel⟩ := hends
    have hfuel' : run' fuel ≠ .outOfFuel := by rwa [← h fuel hle]
    exact .inr ⟨run fuel, run' fuel, hrun.endsWith hfuel, hrun'.endsWith hfuel',
      Corr.of_eq (h fuel hle)⟩
  · -- an outcome under a small bound would be the outcome under every larger one
    have hlarge : ∀ fuel, bound ≤ fuel → run fuel = .outOfFuel := fun fuel hle =>
      Classical.not_not.1 fun hne => hends ⟨fuel, hle, hne⟩
    have hdiverges : ∀ {r : Nat → Outcome α}, Steady r →
        (∀ fuel, bound ≤ fuel → r fuel = .outOfFuel) → Diverges r := by
      intro r hr hout fuel
      refine Classical.not_not.1 fun hne => ?_
      have hmax := hr fuel (max fuel bound) (Nat.le_max_left _ _) hne
      rw [hout _ (Nat.le_max_right _ _)] at hmax
      exact hne hmax.symm
    refine .inl ⟨hdiverges hrun hlarge, hdiverges hrun' fun fuel hle => ?_⟩
    rw [← h fuel hle, hlarge fuel hle]

namespace Stmt

variable {tolerance : Double} {before after : List Stmt} {s : Stmt} {last u : Option Value}
  {m m₁ : Machine}

/-- **A block goes on behind a statement that is done.**  What is left of the block is executed on
the machine that the statement leaves behind. -/
theorem agree_after
    (h : EndsWith (fun fuel => execAll tolerance fuel (before ++ [s]) last m) (.done u m₁)) :
    Agree Eq Eq (fun fuel => execAll tolerance fuel (before ++ s :: after) last m)
      (fun fuel => execAll tolerance fuel after u m₁) := by
  obtain ⟨-, bound, hbound⟩ := h
  refine Agree.of_eventually_eq (execAll_steady tolerance _ last m)
    (execAll_steady tolerance after u m₁) bound fun fuel hle => ?_
  have hdone : execAll tolerance fuel (before ++ [s]) last m = .done u m₁ := hbound fuel hle
  rw [List.append_cons, execAll_append, hdone, done_andThen]

/-- A block that is done has come to each of its statements, and each of them is done. -/
theorem exists_done_of_getElem? {ss : List Stmt} {w : Option Value} {m' : Machine}
    (h : EndsWith (fun fuel => execAll tolerance fuel ss last m) (.done w m')) {i : Nat}
    (hi : ss[i]? = some s) :
    ∃ u m₁ v m₂, EndsWith (fun fuel => execAll tolerance fuel (ss.take i) last m) (.done u m₁) ∧
      EndsWith (fun fuel => s.exec tolerance fuel m₁) (.done v m₂) := by
  obtain ⟨fuel, hfuel⟩ := h.exists_fuel
  obtain ⟨hlt, rfl⟩ := List.getElem?_eq_some_iff.1 hi
  rw [← List.take_append_drop i ss, List.drop_eq_getElem_cons hlt, execAll_append] at hfuel
  obtain ⟨u, m₁, hbefore, hrest⟩ := andThen_eq_done_iff.1 hfuel
  rw [execAll_cons] at hrest
  obtain ⟨v, m₂, hs, -⟩ := andThen_eq_done_iff.1 hrest
  exact ⟨u, m₁, v, m₂, (execAll_steady tolerance _ last m).endsWith_of_eq hbefore (by simp),
    (exec_steady tolerance _ m₁).endsWith_of_eq hs (by simp)⟩

/-- A return changes nothing. -/
theorem eq_of_ret_done {v : Option RValue} {span : Span} {m' : Machine}
    (h : EndsWith (fun fuel => (Stmt.ret v span).exec tolerance fuel m) (.done u m')) : m' = m := by
  obtain ⟨fuel, hfuel⟩ := h.exists_fuel
  cases v with
  | none =>
    simp only [Stmt.exec, done.injEq] at hfuel
    exact hfuel.2.symm
  | some v =>
    simp only [Stmt.exec, ofExcept_eq_done_iff] at hfuel
    exact hfuel.2.symm

end Stmt

/-! ### Loops and returns -/

/-- **A loop without a condition to leave it is never done.**  It runs forever or ends with a fault,
whatever its declaration, its update and its body are.  A return is no way out: it changes nothing,
and a block goes on behind it, as behind every statement that is done, as if it had started there.
A block that is done has executed each of its statements. -/
theorem Stmt.unconditional_never_done (tolerance : Double) :
    (∀ s l, Stmt.loop? s = some l → l.Unconditional tolerance → ∀ m,
      (∀ fuel v m', s.exec tolerance fuel m ≠ .done v m') ∧
      (Diverges (fun fuel => s.exec tolerance fuel m) ∨
        ∃ f m', EndsWith (fun fuel => s.exec tolerance fuel m) (.failed f m'))) ∧
    (∀ v span m u m', EndsWith (fun fuel => (Stmt.ret v span).exec tolerance fuel m) (.done u m') →
      m' = m) ∧
    (∀ before s after last m u m₁,
      EndsWith (fun fuel => Stmt.execAll tolerance fuel (before ++ [s]) last m) (.done u m₁) →
      Agree Eq Eq (fun fuel => Stmt.execAll tolerance fuel (before ++ s :: after) last m)
        (fun fuel => Stmt.execAll tolerance fuel after u m₁)) ∧
    ∀ ss last m w m',
      EndsWith (fun fuel => Stmt.execAll tolerance fuel ss last m) (.done w m') →
      ∀ i s, ss[i]? = some s → ∃ u m₁ v m₂,
        EndsWith (fun fuel => Stmt.execAll tolerance fuel (ss.take i) last m) (.done u m₁) ∧
        EndsWith (fun fuel => Stmt.exec tolerance fuel s m₁) (.done v m₂) := by
  refine ⟨fun s l hs hl m => ?_, fun v span m u m' => eq_of_ret_done,
    fun before s after last m u m₁ => agree_after, fun ss last m w m' h i s hi => ?_⟩
  · have hdone : ∀ fuel v m', s.exec tolerance fuel m ≠ .done v m' := by
      intro fuel v m'
      rw [exec_of_loop? hs]
      exact hl.exec_ne_done fuel v m'
    exact ⟨hdone, (exec_steady tolerance s m).diverges_or_fails hdone⟩
  · exact exists_done_of_getElem? h hi

/-- The condition of `while (true || y) { if (y) { return "out"; } y--; 1 / y; }` is false in no
store: it is true, or it fails where there is no `y`.  On `y = 2` the loop does not stop at its
return, but in its second round, with a division by zero.  The body goes on behind the branch that
holds the return. -/
theorem Stmt.unconditional_never_done_of_return :
    let one : Double := .one
    let c : Condition := .chain (.bool true) [.mk (.known .or) (.truth (.variable "y"))]
    let leave : Stmt := .branch (.truth (.variable "y")) [.ret (some (.text "out")) .unknown] none
      .unknown
    let count : Stmt := .assign ⟨"y", .decrement, .unknown⟩
    let divide : Stmt := .expression (.binary (.known .div) (.number "1") (.variable "y")) .unknown
    let body : List Stmt := [leave, count, divide]
    let l : Loop := ⟨.whileLoop, none, some c, none, body⟩
    let y (x : Double) : Machine := ⟨⟨[("y", ⟨.number x, none, .main⟩)]⟩, .main, #[]⟩
    l.Unconditional one ∧ c.test one .empty = .error (.undefinedVariable "y") ∧
      EndsWith (fun fuel => (Stmt.whileLoop (some c) body .unknown).exec one fuel (y (one.add one)))
        (.failed .divisionByZero (y .zero)) ∧
      (∀ fuel v m', (Stmt.whileLoop (some c) body .unknown).exec one fuel (y (one.add one)) ≠
        .done v m') ∧
      Stmt.execAll one 0 [leave] none (y one) = .done (some (.text "out")) (y one) ∧
      Agree Eq Eq (fun fuel => Stmt.execAll one fuel body none (y one))
        (fun fuel => Stmt.execAll one fuel [count, divide] (some (.text "out")) (y one)) := by
  intro one c leave count divide body l y
  have hl : l.Unconditional one := by
    rintro _ ⟨⟩ σ
    simp only [c, Condition.test, Link.testAll]
    cases (Expr.variable "y").eval σ <;> simp [bind, Except.bind, pure, Except.pure, Operator.join]
  have hloop : (Stmt.whileLoop (some c) body .unknown).exec one 2 (y (one.add one)) =
      .failed .divisionByZero (y .zero) := by decide +kernel
  have hleave : Stmt.execAll one 0 [leave] none (y one) = .done (some (.text "out")) (y one) := by
    decide +kernel
  obtain ⟨hnever, -, hafter, -⟩ := unconditional_never_done one
  refine ⟨hl, rfl, ?_, (hnever _ l rfl hl _).1, hleave, ?_⟩
  · exact (exec_steady one _ _).endsWith_of_eq hloop (by simp)
  · exact hafter [] leave [count, divide] none (y one) _ _
      ((execAll_steady one _ none _).endsWith_of_eq hleave (by simp))

end FlatScript
