import FlatScript.Proofs.Frame

/-!
# Where the type and the scope of a variable come from

A declaration gives a variable its type and its scope, and an assignment to a variable that is
there keeps both.  So the last declaration of a name counts (`Store.find?_writeAll_declare`), and a
variable without a type was created by an assignment.  Only a plain assignment can create one, since
every other action reads its target first (`Action.eq_set_of_absent`).

* `Provenance` : what the history of a run says about one of its variables;
* `Program.variable_provenance` : **every variable of a run that has ended has this provenance**,
  and a global variable that the entry block does not declare stays global.
-/

namespace FlatScript

open Outcome

/-! ### The last declaration of a name -/

/-- The write declares the name. -/
def Write.Declares (w : Write) (x : String) : Prop := w.IsDeclaration ∧ w.name = x

theorem Write.declares_declare (x : String) (v : Value) (t : TypeTag) (scope : Scope) :
    (Write.declare x v t scope).Declares x := ⟨⟨x, v, t, scope, rfl⟩, rfl⟩

/-- Either none of the writes declares the name, or one of them is the last that does. -/
theorem Write.exists_last_declaration (ws : List Write) (x : String) :
    (∀ w ∈ ws, ¬ w.Declares x) ∨
      ∃ before value t scope after, ws = before ++ .declare x value t scope :: after ∧
        ∀ w ∈ after, ¬ w.Declares x := by
  induction ws with
  | nil => exact .inl (by simp)
  | cons w ws ih =>
    rcases ih with hnone | ⟨before, value, t, scope, after, rfl, hafter⟩
    · by_cases hw : w.Declares x
      · obtain ⟨⟨y, value, t, scope, rfl⟩, rfl⟩ := hw
        exact .inr ⟨[], value, t, scope, ws, rfl, hnone⟩
      · exact .inl (List.forall_mem_cons.2 ⟨hw, hnone⟩)
    · exact .inr ⟨w :: before, value, t, scope, after, rfl, hafter⟩

namespace Store

/-- Writes that do not declare a name leave its type and its scope alone. -/
theorem typed_writeAll {ws : List Write} {x : String} (h : ∀ w ∈ ws, ¬ w.Declares x) {σ : Store}
    {v : Variable} (hv : σ.find? x = some v) :
    ∃ v', (σ.writeAll ws).find? x = some v' ∧ v'.declaredType = v.declaredType ∧
      v'.scope = v.scope := by
  have hframe : Frame (ws.map Write.name) ((ws.map Write.name).filter (· ≠ x)) σ
      (σ.writeAll ws) := by
    refine frame_writeAll (fun w hw => ⟨List.mem_map_of_mem hw, fun hd => ?_⟩) σ
    have hne : w.name ≠ x := fun hname => h w hw ⟨hd, hname⟩
    exact List.mem_filter.2 ⟨List.mem_map_of_mem hw, by simpa using hne⟩
  exact hframe.typed x v hv (by simp)

/-- The last declaration of a name gives it its type and its scope. -/
theorem find?_writeAll_declare {x : String} {value : Value} {t : TypeTag} {scope : Scope}
    {before after : List Write} (h : ∀ w ∈ after, ¬ w.Declares x) (σ : Store) :
    ∃ v, (σ.writeAll (before ++ .declare x value t scope :: after)).find? x = some v ∧
      v.declaredType = some t ∧ v.scope = scope := by
  rw [writeAll_append, writeAll_cons]
  refine typed_writeAll h (v := ⟨value, some t, scope⟩) ?_
  rw [find?_write, if_pos (by rfl)]
  rfl

/-- A name that is not declared is created by an assignment, in its scope and without a type. -/
theorem untyped_writeAll {ws : List Write} {x : String} (h : ∀ w ∈ ws, ¬ w.Declares x) {σ : Store}
    (hσ : σ.find? x = none) {v : Variable} (hv : (σ.writeAll ws).find? x = some v) :
    v.declaredType = none ∧ ∃ value, Write.assign x value v.scope ∈ ws := by
  induction ws generalizing σ with
  | nil => simp [hσ] at hv
  | cons w ws ih =>
    obtain ⟨hw, hws⟩ := List.forall_mem_cons.1 h
    by_cases hname : x = w.name
    · -- this write creates the variable, and what follows keeps its type and scope
      cases w with
      | declare y value t scope => exact absurd ⟨⟨y, value, t, scope, rfl⟩, hname.symm⟩ hw
      | assign y value scope =>
        obtain rfl : x = y := hname
        have hcreated : (σ.write (.assign x value scope)).find? x = some ⟨value, none, scope⟩ := by
          rw [find?_write, if_pos (by rfl), hσ]
          rfl
        obtain ⟨v', hv', htype, hscope⟩ := typed_writeAll hws hcreated
        rw [writeAll_cons, hv'] at hv
        obtain rfl := Option.some.inj hv
        rw [htype, hscope]
        exact ⟨rfl, value, by simp⟩
    · have hσ' : (σ.write w).find? x = none := by rw [find?_write, if_neg hname, hσ]
      obtain ⟨htype, value, hmem⟩ := ih hws hσ' hv
      exact ⟨htype, value, List.mem_cons_of_mem w hmem⟩

end Store

/-! ### Plain assignments -/

/-- An action on a name that is absent succeeds only if it is a plain assignment. -/
theorem Action.eq_set_of_absent {σ : Store} {x : String} {a : Action} {v : Value}
    (hx : σ.find? x = none) (h : a.eval σ x = .ok v) : ∃ rhs, a = .set rhs := by
  have hget : σ.get x = .error (.undefinedVariable x) := by simp [Store.get, hx]
  cases a with
  | set rhs => exact ⟨rhs, rfl⟩
  | increment => simp [Action.eval, Store.stepped, hget, bind, Except.bind] at h
  | decrement => simp [Action.eval, Store.stepped, hget, bind, Except.bind] at h
  | update op operand => simp [Action.eval, hget, bind, Except.bind] at h
  | foreign symbol operand =>
    simp only [Action.eval] at h
    split at h <;> simp [Store.stepped, hget, bind, Except.bind] at h

/-- The entry block has a plain assignment to the name, at any depth or as the update of a loop. -/
def Program.PlainlyAssigns (p : Program) (x : String) : Prop :=
  ∃ a rhs, Piece.assignment a ∈ p.piecesIn .main ∧ a.target = x ∧ a.action = .set rhs

/-- The entry block has a declaration of the name with the type, at any depth or in the header of a
loop. -/
def Program.DeclaresLocally (p : Program) (x : String) (t : TypeTag) : Prop :=
  ∃ d, Piece.declaration d ∈ p.piecesIn .main ∧ d.type = t ∧ x ∈ d.names

/-! ### What the two parts of a run write -/

/-- The declaration of variables that a global is, under whatever kind name. -/
def Global.declaration? : Global → Option Declaration
  | .declaration d => some d
  | .relabelledDeclaration _ d => some d
  | .function _ => none

/-- The global declarations of variables. -/
def Program.declarations (p : Program) : List Declaration := p.globals.filterMap Global.declaration?

theorem Global.pieces_stmt? {g : Global} {s : Stmt} (h : g.stmt? = some s) :
    ∃ d, g.declaration? = some d ∧ s.pieces = [.declaration d] := by
  cases g with
  | declaration d =>
    obtain rfl := Option.some.inj h
    exact ⟨d, rfl, rfl⟩
  | relabelledDeclaration kind d =>
    obtain rfl := Option.some.inj h
    exact ⟨d, rfl, rfl⟩
  | function f => cases h

namespace Program

variable {tolerance : Double} {fuel : Nat} {p : Program} {x : String}

theorem mem_declarations_of_mem_piecesIn {pc : Piece} (h : pc ∈ p.piecesIn .globals) :
    ∃ d ∈ p.declarations, pc = .declaration d := by
  obtain ⟨s, hs, hpc⟩ := Stmt.exists_mem_of_mem_piecesAll h
  obtain ⟨g, hg, hgs⟩ := List.mem_filterMap.1 hs
  obtain ⟨d, hd, hpieces⟩ := Global.pieces_stmt? hgs
  rw [hpieces] at hpc
  exact ⟨d, List.mem_filterMap.2 ⟨g, hg, hd⟩, List.mem_singleton.1 hpc⟩

/-- A write before the entry block is made by a global declaration. -/
theorem exists_of_mem_globalHistory {w : Write} (h : w ∈ p.globalHistory tolerance fuel) :
    ∃ d ∈ p.declarations, ∃ x ∈ d.names, ∃ value, w = .declare x value d.type .globals := by
  obtain ⟨σ, pc, hpc, hmakes⟩ := (p.globalHistory_traces tolerance fuel).exists_of_mem h
  obtain ⟨d, hd, rfl⟩ := mem_declarations_of_mem_piecesIn hpc
  cases hmakes with
  | @declare _ e value he _ => exact ⟨d, hd, e.name, List.mem_map_of_mem he, value, rfl⟩

/-- A write of the entry block is made by one of its pieces. -/
theorem exists_of_mem_entryHistory {w : Write} (h : w ∈ p.entryHistory tolerance fuel) :
    ∃ pc ∈ p.piecesIn .main, pc.Makes .main w := by
  obtain ⟨σ, pc, hpc, hmakes⟩ := (p.entryHistory_traces tolerance fuel).exists_of_mem h
  exact ⟨pc, hpc, hmakes.makes⟩

theorem declaresLocally_of_mem_entryHistory {value : Value} {t : TypeTag} {scope : Scope}
    (h : Write.declare x value t scope ∈ p.entryHistory tolerance fuel) :
    p.DeclaresLocally x t ∧ scope = .main := by
  obtain ⟨pc, hpc, hmakes⟩ := exists_of_mem_entryHistory h
  cases hmakes with
  | declare he _ => exact ⟨⟨_, hpc, rfl, List.mem_map_of_mem he⟩, rfl⟩

theorem scope_of_mem_entryHistory {value : Value} {scope : Scope}
    (h : Write.assign x value scope ∈ p.entryHistory tolerance fuel) : scope = .main := by
  obtain ⟨pc, -, hmakes⟩ := exists_of_mem_entryHistory h
  cases hmakes with
  | assign _ => rfl

/-- A variable that the entry block creates without a type comes from a plain assignment. -/
theorem plainlyAssigns_of_untyped {v : Variable}
    (hglobals : (Store.empty.writeAll (p.globalHistory tolerance fuel)).find? x = none)
    (hv : (Store.empty.writeAll (p.history tolerance fuel)).find? x = some v)
    (htype : v.declaredType = none) : p.PlainlyAssigns x := by
  rw [history, Store.writeAll_append] at hv
  -- the invariant of the writes: if the name has no type, there is a plain assignment to it
  refine (p.entryHistory_traces tolerance fuel).invariant
    (I := fun σ => ∀ v, σ.find? x = some v → v.declaredType = none → p.PlainlyAssigns x)
    ?_ (by simp [hglobals]) v hv htype
  rintro σ w ⟨pc, hpc, hmakes⟩ hI v hv htype
  rw [Store.find?_write] at hv
  by_cases hx : x = w.name
  · rw [if_pos hx] at hv
    obtain rfl := Option.some.inj hv
    cases hmakes with
    | declare _ _ => cases htype
    | @assign a value hvalue =>
      obtain rfl : x = a.target := hx
      cases hold : σ.find? a.target with
      | none =>
        obtain ⟨rhs, hset⟩ := Action.eq_set_of_absent hold hvalue
        exact ⟨a, rhs, hpc, rfl, hset⟩
      | some v => exact hI v hold (by simpa [hold, Write.result] using htype)
  · rw [if_neg hx] at hv
    exact hI v hv htype

end Program

/-! ### The global declarations are executed before the entry block -/

theorem Declarator.exists_declares_of_done {type : TypeTag} {ds : List Declarator}
    {last u : Option Value} {m m' : Machine} (h : Declarator.execAll type ds last m = .done u m')
    {x : String} (hx : x ∈ ds.map Declarator.name) :
    ∃ w ∈ Declarator.history type ds m, w.Declares x := by
  induction ds generalizing last m with
  | nil => cases hx
  | cons d ds ih =>
    cases hd : d.eval m.store type with
    | error f => simp [Declarator.execAll, hd] at h
    | ok v =>
      simp only [Declarator.execAll, hd] at h
      simp only [Declarator.history, hd]
      rcases List.mem_cons.1 hx with rfl | hx
      · exact ⟨_, List.mem_cons_self, Write.declares_declare _ _ _ _⟩
      · obtain ⟨w, hw, hdeclares⟩ := ih h hx
        exact ⟨w, List.mem_cons_of_mem _ hw, hdeclares⟩

/-- In a block that is done, every statement is done and its writes are part of the history. -/
theorem Stmt.exists_done_of_mem {tolerance : Double} {fuel : Nat} {ss : List Stmt}
    {last u : Option Value} {m m' : Machine}
    (h : Stmt.execAll tolerance fuel ss last m = .done u m') {s : Stmt} (hs : s ∈ ss) :
    ∃ m₁ v m₂, s.exec tolerance fuel m₁ = .done v m₂ ∧
      s.history tolerance fuel m₁ ⊆ Stmt.historyAll tolerance fuel ss m := by
  induction ss generalizing last m with
  | nil => cases hs
  | cons t ss ih =>
    rw [execAll_cons] at h
    obtain ⟨v, m₁, ht, hrest⟩ := andThen_eq_done_iff.1 h
    rw [historyAll, ht, thenWrites_done]
    rcases List.mem_cons.1 hs with rfl | hs
    · exact ⟨m, v, m₁, ht, List.subset_append_left _ _⟩
    · obtain ⟨m₂, v', m₃, hdone, hsub⟩ := ih hrest hs
      exact ⟨m₂, v', m₃, hdone, List.Subset.trans hsub (List.subset_append_right _ _)⟩

theorem Program.exists_declares_of_reached {tolerance : Double} {fuel : Nat} {p : Program}
    {x : String} {d : Declaration} (hd : d ∈ p.declarations) (hx : x ∈ d.names)
    {u : Option Value} {m : Machine}
    (h : Stmt.execAll tolerance fuel (p.stmts .globals) none p.start = .done u m) :
    ∃ w ∈ p.globalHistory tolerance fuel, w.Declares x := by
  obtain ⟨g, hg, hgd⟩ := List.mem_filterMap.1 hd
  cases g with
  | function f => cases hgd
  | declaration d' =>
    obtain rfl := Option.some.inj hgd
    have hs : Stmt.declare d' ∈ p.stmts .globals := List.mem_filterMap.2 ⟨_, hg, rfl⟩
    obtain ⟨m₁, v, m₂, hdone, hsub⟩ := Stmt.exists_done_of_mem h hs
    simp only [Stmt.exec] at hdone
    obtain ⟨w, hw, hdeclares⟩ := Declarator.exists_declares_of_done hdone hx
    exact ⟨w, hsub hw, hdeclares⟩
  | relabelledDeclaration kind d' =>
    -- such a declaration is refused, and the entry block is not reached
    have hs : Stmt.relabelled kind (.declare d') ∈ p.stmts .globals :=
      List.mem_filterMap.2 ⟨_, hg, rfl⟩
    obtain ⟨m₁, v, m₂, hdone, -⟩ := Stmt.exists_done_of_mem h hs
    simp [Stmt.exec] at hdone

/-! ### Provenance -/

/-- What the writes of a run say about its variable `x`, which is `v` at the end. -/
structure Program.Provenance (p : Program) (globalWrites entryWrites : List Write) (x : String)
    (v : Variable) : Prop where
  /-- A global variable has the type of the last global declaration of its name that was executed,
  and no declaration of its name was executed in the entry block. -/
  global : v.scope = .globals → (∀ w ∈ entryWrites, ¬ w.Declares x) ∧
    ∃ before value t after, globalWrites = before ++ .declare x value t .globals :: after ∧
      (∀ w ∈ after, ¬ w.Declares x) ∧ v.declaredType = some t ∧
      ∃ d ∈ p.declarations, d.type = t ∧ x ∈ d.names
  /-- A variable without a type belongs to the entry block, which has a plain assignment to it, and
  no global declaration of its name was executed. -/
  untyped : v.declaredType = none → v.scope = .main ∧ (∀ w ∈ globalWrites, ¬ w.Declares x) ∧
    p.PlainlyAssigns x
  /-- The entry block has a declaration of a typed variable that belongs to it. -/
  typed : ∀ t, v.scope = .main → v.declaredType = some t → p.DeclaresLocally x t

namespace Program

variable {tolerance : Double} {fuel : Nat} {p : Program} {x : String} {v : Variable}

/-- A name that no global declaration has declared is not there before the entry block. -/
theorem absent_of_globalHistory (h : ∀ w ∈ p.globalHistory tolerance fuel, ¬ w.Declares x) :
    (Store.empty.writeAll (p.globalHistory tolerance fuel)).find? x = none := by
  have hne : ∀ w ∈ p.globalHistory tolerance fuel, w.name ≠ x := by
    rintro w hw rfl
    obtain ⟨d, -, y, -, value, rfl⟩ := exists_of_mem_globalHistory hw
    exact h _ hw (Write.declares_declare _ _ _ _)
  rw [Store.find?_writeAll_of_forall_ne hne]
  rfl

/-- The last declaration of the name was executed in the entry block. -/
theorem provenance_of_local {before after : List Write} {value : Value} {t : TypeTag}
    {scope : Scope}
    (hE : p.entryHistory tolerance fuel = before ++ .declare x value t scope :: after)
    (hafter : ∀ w ∈ after, ¬ w.Declares x)
    (hv : (Store.empty.writeAll (p.history tolerance fuel)).find? x = some v) :
    p.Provenance (p.globalHistory tolerance fuel) (p.entryHistory tolerance fuel) x v := by
  have hmem : Write.declare x value t scope ∈ p.entryHistory tolerance fuel := by rw [hE]; simp
  obtain ⟨hlocal, rfl⟩ := declaresLocally_of_mem_entryHistory hmem
  rw [history, Store.writeAll_append, hE] at hv
  obtain ⟨v', hv', htype, hscope⟩ := Store.find?_writeAll_declare hafter _
  obtain rfl : v' = v := Option.some.inj (hv'.symm.trans hv)
  refine ⟨fun h => ?_, fun h => ?_, fun t' _ h => ?_⟩
  · rw [hscope] at h
    cases h
  · rw [htype] at h
    cases h
  · obtain rfl : t = t' := Option.some.inj (htype.symm.trans h)
    exact hlocal

/-- The last declaration of the name that was executed is a global one. -/
theorem provenance_of_global {before after : List Write} {value : Value} {t : TypeTag}
    {scope : Scope} (hE : ∀ w ∈ p.entryHistory tolerance fuel, ¬ w.Declares x)
    (hG : p.globalHistory tolerance fuel = before ++ .declare x value t scope :: after)
    (hafter : ∀ w ∈ after, ¬ w.Declares x) :
    ∃ v, (Store.empty.writeAll (p.history tolerance fuel)).find? x = some v ∧ v.scope = .globals ∧
      p.Provenance (p.globalHistory tolerance fuel) (p.entryHistory tolerance fuel) x v := by
  have hmem : Write.declare x value t scope ∈ p.globalHistory tolerance fuel := by rw [hG]; simp
  obtain ⟨d, hd, y, hy, value', hw⟩ := exists_of_mem_globalHistory hmem
  obtain ⟨rfl, rfl, rfl, rfl⟩ := Write.declare.inj hw
  obtain ⟨v₀, hv₀, htype₀, hscope₀⟩ := Store.find?_writeAll_declare hafter Store.empty
  rw [← hG] at hv₀
  obtain ⟨v, hv, htype, hscope⟩ := Store.typed_writeAll hE hv₀
  rw [history, Store.writeAll_append]
  refine ⟨v, hv, hscope.trans hscope₀, fun _ => ⟨hE, ?_⟩, fun h => ?_, fun t' h => ?_⟩
  · exact ⟨before, value, d.type, after, hG, hafter, htype.trans htype₀, d, hd, rfl, hy⟩
  · rw [htype, htype₀] at h
    cases h
  · rw [hscope, hscope₀] at h
    cases h

/-- No declaration of the name was executed. -/
theorem provenance_of_undeclared (hE : ∀ w ∈ p.entryHistory tolerance fuel, ¬ w.Declares x)
    (hG : ∀ w ∈ p.globalHistory tolerance fuel, ¬ w.Declares x)
    (hv : (Store.empty.writeAll (p.history tolerance fuel)).find? x = some v) :
    p.Provenance (p.globalHistory tolerance fuel) (p.entryHistory tolerance fuel) x v := by
  have habsent := absent_of_globalHistory hG
  have hv' := hv
  rw [history, Store.writeAll_append] at hv'
  obtain ⟨htype, value, hmem⟩ := Store.untyped_writeAll hE habsent hv'
  have hscope := scope_of_mem_entryHistory hmem
  refine ⟨fun h => ?_, fun _ => ?_, fun t _ h => ?_⟩
  · rw [hscope] at h
    cases h
  · exact ⟨hscope, hG, plainlyAssigns_of_untyped habsent hv htype⟩
  · rw [htype] at h
    cases h

end Program

/-- **The provenance of types and scopes.**  After a run that has ended, be it with a fault, every
variable has the provenance that the writes of the run give it.  If the run has reached the entry
block, a name that is declared globally and not in the entry block is a global variable, however
often the entry block assigns to it. -/
theorem Program.variable_provenance (tolerance : Double) (fuel : Nat) (p : Program) (m : Machine)
    (h : m ∈ (p.run tolerance fuel).machine?) :
    (∀ x v, m.store.find? x = some v →
      p.Provenance (p.globalHistory tolerance fuel) (p.entryHistory tolerance fuel) x v) ∧
    ∀ x, (∃ d ∈ p.declarations, x ∈ d.names) →
      (∃ u m₀, Stmt.execAll tolerance fuel (p.stmts .globals) none p.start = .done u m₀) →
      (∀ t, ¬ p.DeclaresLocally x t) → ∃ v, m.store.find? x = some v ∧ v.scope = .globals := by
  rw [run_store h]
  constructor
  · intro x v hv
    rcases Write.exists_last_declaration (p.entryHistory tolerance fuel) x with
      hE | ⟨before, value, t, scope, after, hE, hafter⟩
    · rcases Write.exists_last_declaration (p.globalHistory tolerance fuel) x with
        hG | ⟨before, value, t, scope, after, hG, hafter⟩
      · exact provenance_of_undeclared hE hG hv
      · obtain ⟨v', hv', -, hprovenance⟩ := provenance_of_global hE hG hafter
        obtain rfl : v' = v := Option.some.inj (hv'.symm.trans hv)
        exact hprovenance
    · exact provenance_of_local hE hafter hv
  · rintro x ⟨d, hd, hx⟩ ⟨u, m₀, hreached⟩ hlocal
    have hE : ∀ w ∈ p.entryHistory tolerance fuel, ¬ w.Declares x := by
      rintro _ hw ⟨⟨y, value, t, scope, rfl⟩, rfl⟩
      exact hlocal t (declaresLocally_of_mem_entryHistory hw).1
    obtain ⟨w, hw, hdeclares⟩ := exists_declares_of_reached hd hx hreached
    rcases Write.exists_last_declaration (p.globalHistory tolerance fuel) x with
      hG | ⟨before, value, t, scope, after, hG, hafter⟩
    · exact absurd hdeclares (hG w hw)
    · obtain ⟨v, hv, hscope, -⟩ := provenance_of_global hE hG hafter
      exact ⟨v, hv, hscope⟩

/-- In `int x; main { x = 1; y = x; z; }` the run fails at `z`.  The variable `x` is global although
the entry block assigns to it, and `y` has no type. -/
theorem Program.variable_provenance_of_failed :
    let p : Program := {
      globals := [.declaration ⟨.int, [⟨"x", none, .unknown⟩], .unknown, by simp⟩]
      entry := { body := [.assign ⟨"x", .set (.arith (.number "1")), .unknown⟩,
        .assign ⟨"y", .set (.arith (.variable "x")), .unknown⟩,
        .expression (.variable "z") .unknown] } }
    let y : Variable := ⟨.number .one, none, .main⟩
    let m : Machine := { p.start with
      store := ⟨[("x", ⟨.number .one, some .int, .globals⟩), ("y", y)]⟩, scope := .main }
    p.run Double.one 0 = .failed (.undefinedVariable "z") m ∧
      p.Provenance (p.globalHistory Double.one 0) (p.entryHistory Double.one 0) "y" y ∧
      ∃ v, m.store.find? "x" = some v ∧ v.scope = .globals := by
  intro p y m
  have hrun : p.run Double.one 0 = .failed (.undefinedVariable "z") m := by decide +kernel
  have hreached : Stmt.execAll Double.one 0 (p.stmts .globals) none p.start =
      .done (some (.number .zero)) (p.start.declare "x" (.number .zero) .int) := by decide +kernel
  have hlocal : ∀ t, ¬ p.DeclaresLocally "x" t := by
    rintro t ⟨d, hd, -⟩
    simp [p, piecesIn, stmts, Stmt.piecesAll, Stmt.pieces] at hd
  obtain ⟨hprovenance, hglobal⟩ := variable_provenance Double.one 0 p m (by rw [hrun]; rfl)
  refine ⟨hrun, hprovenance "y" y (by decide +kernel), hglobal "x" ?_ ⟨_, _, hreached⟩ hlocal⟩
  exact ⟨_, List.mem_singleton.2 rfl, List.mem_singleton.2 rfl⟩

end FlatScript
