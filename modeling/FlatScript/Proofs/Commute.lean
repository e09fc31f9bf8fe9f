import FlatScript.Proofs.Frame
import FlatScript.Proofs.Log
import FlatScript.Proofs.Noninterference

/-!
# Statements that commute

Two statements are *independent* when neither writes a name that the other one reads or writes
(`Stmt.Independent`).  Such statements can be executed in either order.

The argument has two halves.  What a statement does not read does not matter to it, so the writes of
the one leave the history of the other as it is (`Stmt.exec_of_sameReading`).  And lists of writes
to different names commute, except for the order in which new names are added
(`Store.find?_writeAll_comm`, `Store.names_writeAll_comm`).

* `Stmt.exec_comm` : **independent statements commute**: both succeed in the other order as well,
  with the same values and the same variables.
-/

namespace FlatScript

open Outcome

/-! ### Lists of writes that commute -/

namespace Store

/-- The variable of a name after writes depends on the variable of that name only. -/
theorem find?_writeAll_congr {σ σ' : Store} {x : String} (h : σ.find? x = σ'.find? x)
    (ws : List Write) : (σ.writeAll ws).find? x = (σ'.writeAll ws).find? x := by
  induction ws generalizing σ σ' with
  | nil => exact h
  | cons w ws ih =>
    have hw : (σ.write w).find? x = (σ'.write w).find? x := by
      rw [find?_write, find?_write, h]
    exact ih hw

/-- Lists of writes to different names give every name the same variable in either order. -/
theorem find?_writeAll_comm {ws ws' : List Write} (h : ∀ w ∈ ws, ∀ w' ∈ ws', w.name ≠ w'.name)
    (σ : Store) (x : String) :
    ((σ.writeAll ws).writeAll ws').find? x = ((σ.writeAll ws').writeAll ws).find? x := by
  by_cases hx : ∃ w ∈ ws, w.name = x
  · -- the name belongs to the first list, so the second one leaves it alone
    obtain ⟨w, hw, rfl⟩ := hx
    have hws' : ∀ w' ∈ ws', w'.name ≠ w.name := fun w' hw' => Ne.symm (h w hw w' hw')
    rw [find?_writeAll_of_forall_ne hws']
    exact find?_writeAll_congr (find?_writeAll_of_forall_ne hws' σ).symm ws
  · have hws : ∀ w ∈ ws, w.name ≠ x := fun w hw hname => hx ⟨w, hw, hname⟩
    rw [find?_writeAll_of_forall_ne hws (σ.writeAll ws')]
    exact find?_writeAll_congr (find?_writeAll_of_forall_ne hws σ) ws'

/-- Writes to names that are there leave the names and their order alone. -/
theorem names_writeAll_of_forall_mem {ws : List Write} {σ : Store}
    (h : ∀ w ∈ ws, w.name ∈ σ.names) : (σ.writeAll ws).names = σ.names := by
  induction ws generalizing σ with
  | nil => rfl
  | cons w ws ih =>
    obtain ⟨hw, hws⟩ := List.forall_mem_cons.1 h
    have hnames : (σ.write w).names = σ.names := by rw [names_write, if_pos hw]
    have hws' : ∀ w' ∈ ws, w'.name ∈ (σ.write w).names := by
      rw [hnames]
      exact hws
    rw [writeAll_cons, ih hws', hnames]

/-- Lists of writes to names that are there leave the names in the same order either way. -/
theorem names_writeAll_comm {ws ws' : List Write} {σ : Store}
    (h : ∀ w ∈ ws ++ ws', w.name ∈ σ.names) :
    ((σ.writeAll ws).writeAll ws').names = ((σ.writeAll ws').writeAll ws).names := by
  have h' : ∀ w ∈ ws' ++ ws, w.name ∈ σ.names := fun w hw =>
    h w (List.mem_append.2 (List.mem_append.1 hw).symm)
  rw [← writeAll_append, ← writeAll_append, names_writeAll_of_forall_mem h,
    names_writeAll_of_forall_mem h']

end Store

/-! ### Independent statements -/

/-- Neither statement writes a name that the other one reads or writes. -/
structure Stmt.Independent (s t : Stmt) : Prop where
  /-- The second statement does not read what the first one writes. -/
  notRead : ∀ x ∈ s.writes, x ∉ t.reads
  /-- No name is written by both. -/
  notWritten : ∀ x ∈ s.writes, x ∉ t.writes
  /-- The first statement does not read what the second one writes. -/
  notReadBack : ∀ x ∈ t.writes, x ∉ s.reads

theorem Stmt.name_mem_writes {tolerance : Double} {fuel : Nat} {s : Stmt} {m : Machine} {w : Write}
    (h : w ∈ s.history tolerance fuel m) : w.name ∈ s.writes :=
  (mem_writes_of_mem_history w h).1

/-- What a statement writes does not matter to names that it does not write. -/
theorem Stmt.sameReading_history {tolerance : Double} {fuel : Nat} {s : Stmt} {m : Machine}
    {names : List String} (h : ∀ x ∈ s.writes, x ∉ names) (σ : Store) :
    ∀ x ∈ names, SameReading σ (σ.writeAll (s.history tolerance fuel m)) x := by
  intro x hx
  have hne : ∀ w ∈ s.history tolerance fuel m, w.name ≠ x := by
    rintro w hw rfl
    exact h w.name (name_mem_writes hw) hx
  rw [SameReading, Store.find?_writeAll_of_forall_ne hne]

/-- On a machine in which the names that it reads stand for the same numbers, a statement succeeds
with the same value and performs the same writes, whatever the two logs are. -/
theorem Stmt.exec_of_sameReading {tolerance : Double} {fuel : Nat} {s : Stmt} {m m₁ m' : Machine}
    {v : Option Value} (h : s.exec tolerance fuel m = .done v m₁) (hscope : m.scope = m'.scope)
    (hreads : ∀ x ∈ s.reads, SameReading m.store m'.store x) :
    ∃ m₁', s.exec tolerance fuel m' = .done v m₁' ∧
      m₁'.store = m'.store.writeAll (s.history tolerance fuel m) := by
  have hall : s.All fun p => (∀ x ∈ p.reads, x ∈ s.reads) ∧
      (p.testsEquality = true → tolerance = tolerance) :=
    all_of_forall_mem s fun p hp => ⟨fun x hx => List.mem_flatMap.2 ⟨p, hp, hx⟩, fun _ => rfl⟩
  -- executions in step have the same log, so the log is exchanged first and put back afterwards
  let mid : Machine := { m' with log := m.log }
  obtain ⟨hcorr, hwrites⟩ := exec_inStep hall fuel m mid ⟨hscope, rfl, hreads⟩
  rw [h] at hcorr
  generalize hmid : s.exec tolerance fuel mid = o at hcorr
  cases hcorr with
  | @done _ w _ m₂ hvalue _ =>
    subst hvalue
    have hstate := s.exec_sameState tolerance fuel mid m' ⟨rfl, rfl⟩
    rw [hmid] at hstate
    generalize hend : s.exec tolerance fuel m' = o' at hstate
    cases hstate with
    | @done _ w' _ m₁' hvalue' hsame =>
      subst hvalue'
      obtain ⟨hstore, -⟩ := s.exec_performs tolerance fuel mid m₂ (by rw [hmid]; rfl)
      refine ⟨m₁', rfl, ?_⟩
      rw [← hsame.1, hstore, hwrites]

/-- **Independent statements commute.**  If one statement and then another that is independent of it
succeed, they succeed in the other order as well.  Each of them has the same value in both orders,
and at the end every name has the same variable; the names are in the same order too if all that are
written were there before. -/
theorem Stmt.exec_comm (tolerance : Double) (s t : Stmt) (h : s.Independent t) (m m₁ m₂ : Machine)
    (u v : Option Value) (hs : EndsWith (fun fuel => s.exec tolerance fuel m) (.done u m₁))
    (ht : EndsWith (fun fuel => t.exec tolerance fuel m₁) (.done v m₂)) :
    ∃ m₁' m₂', EndsWith (fun fuel => t.exec tolerance fuel m) (.done v m₁') ∧
      EndsWith (fun fuel => s.exec tolerance fuel m₁') (.done u m₂') ∧
      (∀ x, m₂'.store.find? x = m₂.store.find? x) ∧
      ((∀ x ∈ s.writes ++ t.writes, x ∈ m.store.names) →
        m₂'.store.names = m₂.store.names) := by
  obtain ⟨fuel, hfs, hft⟩ := hs.exists_common ht
  obtain ⟨hstore₁, hscope₁⟩ := s.exec_performs tolerance fuel m m₁ (by rw [hfs]; rfl)
  obtain ⟨hstore₂, -⟩ := t.exec_performs tolerance fuel m₁ m₂ (by rw [hft]; rfl)
  -- the second statement does the same without the writes of the first one
  have hreads : ∀ x ∈ t.reads, SameReading m₁.store m.store x := by
    intro x hx
    rw [hstore₁]
    exact (sameReading_history h.notRead m.store x hx).symm
  obtain ⟨m₁', hft', hstore₁'⟩ := exec_of_sameReading hft hscope₁ hreads
  obtain ⟨-, hscope₁'⟩ := t.exec_performs tolerance fuel m m₁' (by rw [hft']; rfl)
  -- and the first one does the same after the writes of the second one
  have hreads' : ∀ x ∈ s.reads, SameReading m.store m₁'.store x := by
    rw [hstore₁']
    exact sameReading_history h.notReadBack m.store
  obtain ⟨m₂', hfs', hstore₂'⟩ := exec_of_sameReading hfs hscope₁'.symm hreads'
  refine ⟨m₁', m₂', (t.exec_steady tolerance m).endsWith_of_eq hft' (by simp),
    (s.exec_steady tolerance m₁').endsWith_of_eq hfs' (by simp), ?_, ?_⟩
  · intro x
    rw [hstore₂', hstore₁', hstore₂, hstore₁]
    refine Store.find?_writeAll_comm (fun w hw w' hw' hname => ?_) m.store x
    exact h.notWritten w'.name (name_mem_writes hw') (hname ▸ name_mem_writes hw)
  · intro hnames
    rw [hstore₂', hstore₁', hstore₂, hstore₁]
    refine Store.names_writeAll_comm fun w hw => ?_
    rcases List.mem_append.1 hw with hw | hw
    · exact hnames w.name (List.mem_append_right _ (name_mem_writes hw))
    · exact hnames w.name (List.mem_append_left _ (name_mem_writes hw))

/-- `for (int i = 0; i < 1; i++) { a = i; }` and `if (c < 1) { b += c; }` are independent, and can
be executed in either order on a store with the four names. -/
theorem Stmt.exec_comm_of_loop :
    let zero : RValue := .arith (.number "0")
    let below (n : String) : Condition := .comparison (.known .lt) (.variable n) (.number "1")
    let s : Stmt := .forLoop (some ⟨.int, [⟨"i", some zero, .unknown⟩], .unknown, by simp⟩)
      (some (below "i")) (some ⟨"i", .increment, .unknown⟩)
      [.assign ⟨"a", .set (.arith (.variable "i")), .unknown⟩] .unknown
    let t : Stmt := .branch (below "c")
      [.assign ⟨"b", .update .add (.arith (.variable "c")), .unknown⟩] none .unknown
    let two : Value := .number (Double.one.add .one)
    let c : Variable := ⟨.number .zero, some .int, .globals⟩
    let untyped (v : Value) : Variable := ⟨v, none, .main⟩
    let m : Machine := ⟨⟨[("c", c), ("b", untyped (.text "2")), ("a", untyped (.text "")),
      ("i", untyped (.text ""))]⟩, .main, #[]⟩
    let m₁ : Machine := ⟨⟨[("c", c), ("b", untyped (.text "2")), ("a", untyped (.number .zero)),
      ("i", ⟨.number .one, some .int, .main⟩)]⟩, .main, #[.loopExited .forLoop 1]⟩
    let m₂ : Machine := ⟨⟨[("c", c), ("b", untyped two), ("a", untyped (.number .zero)),
      ("i", ⟨.number .one, some .int, .main⟩)]⟩, .main, #[.loopExited .forLoop 1]⟩
    s.Independent t ∧ s.exec Double.one 2 m = .done (some (.number .zero)) m₁ ∧
      t.exec Double.one 2 m₁ = .done (some two) m₂ ∧
      ∃ m₁' m₂', EndsWith (fun fuel => t.exec Double.one fuel m) (.done (some two) m₁') ∧
        EndsWith (fun fuel => s.exec Double.one fuel m₁') (.done (some (.number .zero)) m₂') ∧
        (∀ x, m₂'.store.find? x = m₂.store.find? x) ∧ m₂'.store.names = m₂.store.names := by
  intro zero below s t two c untyped m m₁ m₂
  have hindependent : s.Independent t :=
    ⟨by decide +kernel, by decide +kernel, by decide +kernel⟩
  have hs : s.exec Double.one 2 m = .done (some (.number .zero)) m₁ := by decide +kernel
  have ht : t.exec Double.one 2 m₁ = .done (some two) m₂ := by decide +kernel
  have hnames : ∀ x ∈ s.writes ++ t.writes, x ∈ m.store.names := by decide +kernel
  obtain ⟨m₁', m₂', ht', hs', hfind, horder⟩ := exec_comm Double.one s t hindependent m m₁ m₂ _ _
    ((s.exec_steady Double.one m).endsWith_of_eq hs (by simp))
    ((t.exec_steady Double.one m₁).endsWith_of_eq ht (by simp))
  exact ⟨hindependent, hs, ht, m₁', m₂', ht', hs', hfind, horder hnames⟩

end FlatScript
