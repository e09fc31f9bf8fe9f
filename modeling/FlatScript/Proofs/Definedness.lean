import FlatScript.Proofs.Cause

/-!
# Variables that are not there

A variable is undefined when it is read and the store does not have it.  The store never loses a
name, so a name that is missing was missing all along.

* `Store.find?_writeAll_eq_none_iff` : a name is missing after a list of writes exactly if it was
  missing before and none of them writes it;
* `RaisedBy.undefined` : a piece that finds a variable undefined reads it, and the store does not
  have it;
* `Program.undefinedVariable_safety` : **statements that read only what the store has never find a
  variable undefined, and a variable that a run finds undefined has not been written in it.**
-/

namespace FlatScript

open Outcome

/-! ### Missing names -/

namespace Store

theorem find?_eq_none_iff {σ : Store} {x : String} : σ.find? x = none ↔ x ∉ σ.names := by
  obtain ⟨es⟩ := σ
  simp only [find?, names]
  induction es with
  | nil => simp
  | cons e es ih =>
    obtain ⟨n, v⟩ := e
    rw [lookup_cons, List.map_cons, List.mem_cons]
    by_cases hx : x = n
    · simp [hx]
    · simp [hx, ih]

theorem find?_writeAll_eq_none_iff {σ : Store} {ws : List Write} {x : String} :
    (σ.writeAll ws).find? x = none ↔ σ.find? x = none ∧ ∀ w ∈ ws, w.name ≠ x := by
  constructor
  · intro h
    have hws : ∀ w ∈ ws, w.name ≠ x := by
      intro w hw hx
      obtain ⟨value, hvalue⟩ := value_writeAll ⟨w, hw, hx⟩
      obtain ⟨v, hv, -⟩ := hvalue σ
      simp [hv] at h
    exact ⟨find?_writeAll_of_forall_ne hws σ ▸ h, hws⟩
  · rintro ⟨h, hws⟩
    rw [find?_writeAll_of_forall_ne hws, h]

end Store

/-! ### Undefined variables -/

theorem RaisedBy.undefined {tolerance : Double} {σ : Store} {n : String} {ps : List Piece}
    {own : Bool} (h : RaisedBy tolerance σ (.undefinedVariable n) ps own) :
    n ∈ ps.flatMap Piece.reads ∧ σ.find? n = none := by
  rcases h with ⟨p, hp, hraises⟩ | ⟨-, kind, hkind⟩
  · have haccounts : Accounts ps (fun _ => True) σ (.undefinedVariable n) :=
      hraises.accounts hp (fun _ _ => trivial) fun _ _ _ _ _ => trivial
    cases haccounts with
    | absent hn hfind => exact ⟨hn, hfind⟩
  · cases hkind

theorem Stmt.execAll_ne_undefined {tolerance : Double} {fuel : Nat} {ss : List Stmt}
    {last : Option Value} {m : Machine} (h : ∀ s ∈ ss, ∀ x ∈ s.reads, x ∈ m.store.names)
    (n : String) (m' : Machine) :
    Stmt.execAll tolerance fuel ss last m ≠ .failed (.undefinedVariable n) m' := by
  intro hfailed
  obtain ⟨hn, hfind⟩ := (raisedBy_of_execAll hfailed).undefined
  obtain ⟨p, hp, hn⟩ := List.mem_flatMap.1 hn
  obtain ⟨s, hs, hp⟩ := exists_mem_of_mem_piecesAll hp
  -- the store that is left behind has the name, since the first one has it
  have hperforms := Stmt.execAll_performs tolerance fuel ss last m
  obtain ⟨hstore, -⟩ := hperforms m' (by simp [hfailed])
  rw [hstore, Store.find?_writeAll_eq_none_iff, Store.find?_eq_none_iff] at hfind
  exact hfind.1 (h s hs n (List.mem_flatMap.2 ⟨p, hp, hn⟩))

theorem Program.absent_of_undefined {tolerance : Double} {fuel : Nat} {p : Program} {n : String}
    {m : Machine} (h : p.run tolerance fuel = .failed (.undefinedVariable n) m) :
    n ∈ p.pieces.flatMap Piece.reads ∧ n ∉ m.store.names ∧
      ∀ w ∈ p.history tolerance fuel, w.name ≠ n := by
  obtain ⟨hn, hfind⟩ := (raisedBy_of_run h).undefined
  refine ⟨hn, Store.find?_eq_none_iff.1 hfind, ?_⟩
  have hstore : m.store = Store.empty.writeAll (p.history tolerance fuel) :=
    run_store (by simp [h])
  rw [hstore, Store.find?_writeAll_eq_none_iff] at hfind
  exact hfind.2

/-- **Undefined variables.**  Statements that are executed on a store with every name that they
read never find a variable undefined.  A variable that a run of a program finds undefined is read
by a global declaration or in the entry block and missing from the store that is left behind, and
the run has neither declared it nor assigned to it. -/
theorem Program.undefinedVariable_safety (tolerance : Double) (fuel : Nat) :
    (∀ (ss : List Stmt) (last : Option Value) (m : Machine),
      (∀ s ∈ ss, ∀ x ∈ s.reads, x ∈ m.store.names) →
      ∀ n m', Stmt.execAll tolerance fuel ss last m ≠ .failed (.undefinedVariable n) m') ∧
    ∀ (p : Program) (n : String) (m : Machine),
      p.run tolerance fuel = .failed (.undefinedVariable n) m →
      n ∈ p.pieces.flatMap Piece.reads ∧ n ∉ m.store.names ∧
        ∀ w ∈ p.history tolerance fuel, w.name ≠ n :=
  ⟨fun _ _ _ h => Stmt.execAll_ne_undefined h, fun _ _ _ => absent_of_undefined⟩

/-- `int x = 5; x += y; y = 1;` finds `y` undefined and has not written it.  On the store that is
left behind, `x /= 0` fails as well, but not because a variable is undefined. -/
theorem Program.undefinedVariable_safety_of_update :
    let five : Value := .number (.ofDecimal ⟨false, 5, 0⟩)
    let declare : Stmt := .declare ⟨.int, [⟨"x", some (.arith (.number "5")), .unknown⟩], .unknown,
      by simp⟩
    let add : Stmt := .assign ⟨"x", .update .add (.arith (.variable "y")), .unknown⟩
    let reset : Stmt := .assign ⟨"y", .set (.arith (.number "1")), .unknown⟩
    let divide : Stmt := .assign ⟨"x", .update .div (.arith (.number "0")), .unknown⟩
    let p : Program := { entry := { body := [declare, add, reset] } }
    let m : Machine := { p.start with store := ⟨[("x", ⟨five, some .int, .main⟩)]⟩, scope := .main }
    p.run Double.one 0 = .failed (.undefinedVariable "y") m ∧
      "y" ∈ p.pieces.flatMap Piece.reads ∧ "y" ∉ m.store.names ∧
      (∀ w ∈ p.history Double.one 0, w.name ≠ "y") ∧
      (∀ s ∈ [divide], ∀ x ∈ s.reads, x ∈ m.store.names) ∧
      Stmt.execAll Double.one 0 [divide] none m = .failed .divisionByZero m ∧
      ∀ n m', Stmt.execAll Double.one 0 [divide] none m ≠ .failed (.undefinedVariable n) m' := by
  intro five declare add reset divide p m
  have hrun : p.run Double.one 0 = .failed (.undefinedVariable "y") m := by decide +kernel
  have hreads : ∀ s ∈ [divide], ∀ x ∈ s.reads, x ∈ m.store.names := by decide +kernel
  have hdivide : Stmt.execAll Double.one 0 [divide] none m = .failed .divisionByZero m := by
    decide +kernel
  obtain ⟨hstmts, hprogram⟩ := undefinedVariable_safety Double.one 0
  obtain ⟨hy, habsent, hhistory⟩ := hprogram p "y" m hrun
  exact ⟨hrun, hy, habsent, hhistory, hreads, hdivide, hstmts [divide] none m hreads⟩

end FlatScript
