import FlatScript.Proofs.Ending
import FlatScript.Session

/-!
# Isolation of the requests of a session

A session keeps its machine from one request to the next, also when a run or a statement fails half
way.  Here it is shown how far a request can be felt in the answers to later ones.

* `Session.Answers` : every request comes to an end, with these answers.  Once the requests end,
  a larger bound does not change the answers or the session after them
  (`Session.answerAll_steady`);
* `Request.isIdle` : the request only looks at the session, or its data is rejected.  An idle
  request leaves the session as it is (`Session.answer_of_isIdle`);
* `Session.answer_run` : **a program that runs puts any session into the state of a fresh one that
  has run it**;
* `Session.answers_isolated` : what follows for whole sequences of requests.
-/

namespace FlatScript

/-- Whether the request leaves the session as it is: it only looks, or its data is rejected. -/
def Request.isIdle : Request → Bool
  | .run j =>
    match Schema.readProgram j with
    | .ok _ => false
    | .bad _ => true
  | .exec j =>
    match Schema.readStatement j with
    | .ok _ => false
    | .bad _ => true
  | .eval _ => true
  | .test _ => true
  | .listVariables => true

/-- The members of a list that are marked. -/
def kept {α : Type} (l : List (α × Bool)) : List α := (l.filter Prod.snd).map Prod.fst

@[simp] theorem kept_nil {α : Type} : kept ([] : List (α × Bool)) = [] := rfl
@[simp] theorem kept_cons_true {α : Type} (a : α) (l : List (α × Bool)) :
    kept ((a, true) :: l) = a :: kept l := rfl
@[simp] theorem kept_cons_false {α : Type} (a : α) (l : List (α × Bool)) :
    kept ((a, false) :: l) = kept l := rfl

namespace Session

/-- A session that has not been asked anything. -/
def fresh (tolerance : Tolerance) : Session := { tolerance := tolerance }

/-- The session after requests. -/
def after (fuel : Nat) (s : Session) (rs : List Request) : Session :=
  rs.foldl (fun s r => (s.answer fuel r).2) s

/-- Every request comes to an end, and these are the answers. -/
def Answers (s : Session) (rs : List Request) (as : List Answer) : Prop :=
  .outOfFuel ∉ as ∧ Settles (fun fuel => s.answerAll fuel rs) as

variable {s : Session} {fuel fuel' : Nat} {r : Request} {rs : List Request} {as : List Answer}

/-! ### One request -/

theorem answer_tolerance (fuel : Nat) (s : Session) (r : Request) :
    (s.answer fuel r).2.tolerance = s.tolerance := by
  have hconclude : ∀ o, (s.conclude o).2.tolerance = s.tolerance := by
    intro o
    cases o <;> rfl
  cases r <;> simp only [answer] <;> split <;> first | rfl | exact hconclude _

/-- An idle request always comes to an end and leaves the session as it is. -/
theorem answer_of_isIdle (h : r.isIdle = true) (fuel : Nat) (s : Session) :
    (s.answer fuel r).1 ≠ .outOfFuel ∧ (s.answer fuel r).2 = s := by
  cases r with
  | run j =>
    simp only [Request.isIdle] at h
    split at h
    · cases h
    · rename_i hj
      simp [answer, hj]
  | exec j =>
    simp only [Request.isIdle] at h
    split at h
    · cases h
    · rename_i hj
      simp [answer, hj]
  | eval j =>
    simp only [answer]
    split <;> exact ⟨by simp, rfl⟩
  | test j =>
    simp only [answer]
    split <;> exact ⟨by simp, rfl⟩
  | listVariables => exact ⟨by simp [answer], rfl⟩

theorem conclude_ne_outOfFuel {o : Outcome (Option Value)}
    (h : (s.conclude o).1 ≠ .outOfFuel) : o ≠ .outOfFuel := by
  rintro rfl
  exact h rfl

/-- A larger bound does not change an answer that a smaller one has settled. -/
theorem answer_steady (hle : fuel ≤ fuel') (h : (s.answer fuel r).1 ≠ .outOfFuel) :
    s.answer fuel' r = s.answer fuel r := by
  cases r with
  | run j =>
    simp only [answer] at h ⊢
    split
    · rfl
    · rename_i p hp
      simp only [hp] at h
      exact congrArg s.conclude
        (p.run_steady s.tolerance.value fuel fuel' hle (conclude_ne_outOfFuel h))
  | exec j =>
    simp only [answer] at h ⊢
    split
    · rfl
    · rename_i stmt hstmt
      simp only [hstmt] at h
      exact congrArg s.conclude (stmt.exec_steady s.tolerance.value s.machine fuel fuel' hle
        (conclude_ne_outOfFuel h))
  | eval j => rfl
  | test j => rfl
  | listVariables => rfl

/-- A run is answered as in a fresh session. -/
theorem answer_run_fst (fuel : Nat) (s : Session) (j : Json) :
    (s.answer fuel (.run j)).1 = ((fresh s.tolerance).answer fuel (.run j)).1 := by
  simp only [answer, fresh]
  split
  · rfl
  · cases Program.run s.tolerance.value fuel _ <;> rfl

/-- **A program that runs puts any session into the state of a fresh one that has run it.** -/
theorem answer_run {j : Json} {p : Program} (hp : Schema.readProgram j = .ok p)
    (h : (s.answer fuel (.run j)).1 ≠ .outOfFuel) :
    s.answer fuel (.run j) = (fresh s.tolerance).answer fuel (.run j) := by
  simp only [answer, hp, fresh] at h ⊢
  cases hrun : p.run s.tolerance.value fuel with
  | done v m => rfl
  | failed f m => rfl
  | outOfFuel => exact absurd hrun (conclude_ne_outOfFuel h)

/-! ### Sequences of requests -/

theorem answerAll_cons (fuel : Nat) (s : Session) (r : Request) (rs : List Request) :
    s.answerAll fuel (r :: rs) =
      (s.answer fuel r).1 :: (s.answer fuel r).2.answerAll fuel rs := rfl

theorem after_cons (fuel : Nat) (s : Session) (r : Request) (rs : List Request) :
    s.after fuel (r :: rs) = (s.answer fuel r).2.after fuel rs := rfl

theorem answerAll_append (fuel : Nat) (s : Session) (rs rs' : List Request) :
    s.answerAll fuel (rs ++ rs') =
      s.answerAll fuel rs ++ (s.after fuel rs).answerAll fuel rs' := by
  induction rs generalizing s with
  | nil => rfl
  | cons r rs ih =>
    rw [List.cons_append, answerAll_cons, answerAll_cons, after_cons, ih, List.cons_append]

theorem mem_of_mem_kept {α : Type} {a : α} {l : List α} {marks : List Bool}
    (h : a ∈ kept (l.zip marks)) : a ∈ l := by
  obtain ⟨⟨b, mark⟩, hb, rfl⟩ := List.mem_map.1 h
  exact (List.of_mem_zip (List.mem_filter.1 hb).1).1

theorem length_answerAll (fuel : Nat) (s : Session) (rs : List Request) :
    (s.answerAll fuel rs).length = rs.length := by
  induction rs generalizing s with
  | nil => rfl
  | cons r rs ih => rw [answerAll_cons, List.length_cons, List.length_cons, ih]

theorem after_tolerance (fuel : Nat) (s : Session) (rs : List Request) :
    (s.after fuel rs).tolerance = s.tolerance := by
  induction rs generalizing s with
  | nil => rfl
  | cons r rs ih => rw [after_cons, ih, answer_tolerance]

/-- The answers from some request on are those of the session at that point. -/
theorem drop_answerAll {before rest : List Request}
    (h : s.answerAll fuel (before ++ rest) = as) :
    as.drop before.length = (s.after fuel before).answerAll fuel rest := by
  rw [← h, answerAll_append]
  exact List.drop_left' (length_answerAll fuel s before)

/-- Once the requests have ended, a larger bound does not change their answers. -/
theorem answerAll_steady (hle : fuel ≤ fuel') (h : .outOfFuel ∉ s.answerAll fuel rs) :
    s.answerAll fuel' rs = s.answerAll fuel rs := by
  induction rs generalizing s with
  | nil => rfl
  | cons r rs ih =>
    rw [answerAll_cons, List.mem_cons, not_or] at h
    have hr := answer_steady hle (Ne.symm h.1)
    rw [answerAll_cons, answerAll_cons, hr, ih h.2]

theorem Answers.exists_fuel (h : s.Answers rs as) : ∃ fuel, s.answerAll fuel rs = as := by
  obtain ⟨-, bound, hbound⟩ := h
  exact ⟨bound, hbound bound (Nat.le_refl bound)⟩

theorem answers_of_eq (fuel : Nat) (h : s.answerAll fuel rs = as) (has : .outOfFuel ∉ as) :
    s.Answers rs as := by
  subst h
  exact ⟨has, fuel, fun fuel' hle => answerAll_steady hle has⟩

/-- Idle requests can be left out under every bound. -/
theorem answerAll_kept {steps : List (Request × Bool)}
    (h : ∀ r, (r, false) ∈ steps → r.isIdle = true) (fuel : Nat) (s : Session) :
    s.answerAll fuel (kept steps) =
      kept ((s.answerAll fuel (steps.map Prod.fst)).zip (steps.map Prod.snd)) := by
  induction steps generalizing s with
  | nil => rfl
  | cons step steps ih =>
    obtain ⟨r, keep⟩ := step
    have hsteps : ∀ r, (r, false) ∈ steps → r.isIdle = true :=
      fun r hr => h r (List.mem_cons_of_mem _ hr)
    rw [List.map_cons, List.map_cons, answerAll_cons, List.zip_cons_cons]
    cases keep with
    | true => rw [kept_cons_true, kept_cons_true, answerAll_cons, ih hsteps]
    | false =>
      have hidle := (answer_of_isIdle (h r List.mem_cons_self) fuel s).2
      rw [kept_cons_false, kept_cons_false, hidle, ih hsteps]

/-- Where the kept requests end, so do all of them. -/
theorem outOfFuel_notMem_of_kept {steps : List (Request × Bool)}
    (h : ∀ r, (r, false) ∈ steps → r.isIdle = true)
    (hkept : .outOfFuel ∉ s.answerAll fuel (kept steps)) :
    .outOfFuel ∉ s.answerAll fuel (steps.map Prod.fst) := by
  induction steps generalizing s with
  | nil => simp [answerAll]
  | cons step steps ih =>
    obtain ⟨r, keep⟩ := step
    have hsteps : ∀ r, (r, false) ∈ steps → r.isIdle = true :=
      fun r hr => h r (List.mem_cons_of_mem _ hr)
    rw [List.map_cons, answerAll_cons, List.mem_cons, not_or]
    cases keep with
    | true =>
      rw [kept_cons_true, answerAll_cons, List.mem_cons, not_or] at hkept
      exact ⟨hkept.1, ih hsteps hkept.2⟩
    | false =>
      obtain ⟨hends, hidle⟩ := answer_of_isIdle (h r List.mem_cons_self) fuel s
      rw [hidle]
      exact ⟨Ne.symm hends, ih hsteps hkept⟩

/-- **How far a request can be felt.**  A run is answered as the only request of a fresh session
with the same tolerance would be.  Requests that only look, and requests whose data is rejected,
can be left out or put in without a change of the other answers.  From a run on whose data is
accepted, the answers are those of a fresh session that starts with the run. -/
theorem answers_isolated (s : Session) :
    (∀ before j after as, s.Answers (before ++ .run j :: after) as →
      ∃ a, as[before.length]? = some a ∧ (fresh s.tolerance).Answers [.run j] [a]) ∧
    (∀ steps : List (Request × Bool), (∀ r, (r, false) ∈ steps → r.isIdle = true) →
      ∀ as, s.Answers (kept steps) as ↔
        ∃ all, s.Answers (steps.map Prod.fst) all ∧ kept (all.zip (steps.map Prod.snd)) = as) ∧
    (∀ before j p after as, Schema.readProgram j = .ok p →
      s.Answers (before ++ .run j :: after) as →
        (fresh s.tolerance).Answers (.run j :: after) (as.drop before.length)) := by
  refine ⟨?_, ?_, ?_⟩
  · -- the answer to the run is the first one from the run on
    intro before j after as h
    obtain ⟨fuel, hfuel⟩ := h.exists_fuel
    have hdrop := drop_answerAll hfuel
    rw [answerAll_cons, answer_run_fst, after_tolerance] at hdrop
    have hget : as[before.length]? = some ((fresh s.tolerance).answer fuel (.run j)).1 := by
      rw [← Nat.add_zero before.length, ← List.getElem?_drop, hdrop, List.getElem?_cons_zero]
    refine ⟨_, hget, answers_of_eq fuel (answerAll_cons fuel _ _ []) fun hmem => ?_⟩
    rw [List.mem_singleton] at hmem
    exact h.1 (hmem ▸ List.mem_of_getElem? hget)
  · intro steps hsteps as
    constructor
    · intro h
      obtain ⟨fuel, hfuel⟩ := h.exists_fuel
      have hends : .outOfFuel ∉ s.answerAll fuel (kept steps) := by
        rw [hfuel]
        exact h.1
      refine ⟨_, answers_of_eq fuel rfl (outOfFuel_notMem_of_kept hsteps hends), ?_⟩
      rw [← answerAll_kept hsteps, hfuel]
    · rintro ⟨all, h, rfl⟩
      obtain ⟨fuel, rfl⟩ := h.exists_fuel
      refine answers_of_eq fuel (answerAll_kept hsteps fuel s) fun hmem => ?_
      exact h.1 (mem_of_mem_kept hmem)
  · -- the run ends, so it leaves the session that it leaves of a fresh one
    intro before j p after as hp h
    obtain ⟨fuel, hfuel⟩ := h.exists_fuel
    have hends : .outOfFuel ∉ as.drop before.length := fun hmem => h.1 (List.mem_of_mem_drop hmem)
    have hdrop := drop_answerAll hfuel
    have hrun : ((s.after fuel before).answer fuel (.run j)).1 ≠ .outOfFuel := by
      intro hrun
      refine hends ?_
      rw [hdrop, answerAll_cons, hrun]
      exact List.mem_cons_self
    rw [answerAll_cons, answer_run hp hrun, after_tolerance, ← answerAll_cons] at hdrop
    exact answers_of_eq fuel hdrop.symm hends

/-- Variables are declared before a run, in it and after it.  In between, the variables are shown
and data that is no program is rejected. -/
theorem answers_isolated_of_declarations :
    let declare (name : String) : Json := .obj [("kind", .str "declaration"),
      ("type_tag", .str "int"), ("declarators", .arr [.obj [("name", .str name)]])]
    let program : Json := .obj [("entry", .obj [("body", .arr [declare "y"])])]
    let x : Store := ⟨[("x", ⟨.number Double.zero, some .int, .globals⟩)]⟩
    let y : Store := ⟨[("y", ⟨.number Double.zero, some .int, .main⟩)]⟩
    let yz : Store := ⟨y.entries ++ [("z", ⟨.number Double.zero, some .int, .main⟩)]⟩
    let finished (σ : Store) : Answer := .finished (some (.number Double.zero)) σ
    let s : Session := fresh .standard
    s.Answers [.exec (declare "x"), .listVariables, .run .null, .run program, .exec (declare "z")]
        [finished x, .shown x, .rejected [⟨.notObject "Program", []⟩], finished y, finished yz] ∧
      s.Answers [.run program] [finished y] ∧
      s.Answers [.exec (declare "x"), .run program, .exec (declare "z")]
        [finished x, finished y, finished yz] ∧
      s.Answers [.run program, .exec (declare "z")] [finished y, finished yz] := by
  intro declare program x y yz finished s
  have hall : s.Answers
      [.exec (declare "x"), .listVariables, .run .null, .run program, .exec (declare "z")]
      [finished x, .shown x, .rejected [⟨.notObject "Program", []⟩], finished y, finished yz] :=
    answers_of_eq 0 rfl (by simp [finished])
  obtain ⟨hrun, hkept, hafter⟩ := answers_isolated s
  refine ⟨hall, ?_, ?_, ?_⟩
  · obtain ⟨a, ha, hfresh⟩ := hrun
      [.exec (declare "x"), .listVariables, .run .null] program [.exec (declare "z")] _ hall
    obtain rfl : finished y = a := Option.some.inj ha
    exact hfresh
  · refine (hkept [(.exec (declare "x"), true), (.listVariables, false), (.run .null, false),
      (.run program, true), (.exec (declare "z"), true)] (fun r hr => ?_) _).2 ⟨_, hall, rfl⟩
    obtain rfl | rfl : r = .listVariables ∨ r = .run .null := by simpa using hr
    · rfl
    · rfl
  · exact hafter [.exec (declare "x"), .listVariables, .run .null] program _
      [.exec (declare "z")] _ rfl hall

end Session

end FlatScript
