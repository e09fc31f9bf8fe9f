import FlatScript.Proofs.Cause
import FlatScript.Proofs.LastWrite

/-!
# Where texts come from

An expression gives a number, and a variable that occurs in it counts as one.  So a text is neither
made nor handed on in a run: it stands in the program, where it is written to the variable or
returned.

* `RValue.mem_texts_of_eval`, `Action.eq_set_of_eval` : a text is the value of a piece of text on
  the right-hand side, and of no other action than a plain assignment;
* `Piece.Sets` : a piece gives a name the value of a right-hand side;
* `Program.sets_of_mem_history`, `Program.text_of_run` : each text that a run writes, and each that
  it leaves in a variable, is set by a piece of the program for that very variable;
* `Stmt.exec_valueIn` : the value of a statement is one that a piece of it gives;
* `Program.text_sources` : **every text of a run is a literal of the program.**
-/

namespace FlatScript

open Outcome

/-! ### Evaluations that give a text -/

theorem RValue.mem_texts_of_eval {v : RValue} {σ : Store} {t : String}
    (h : v.eval σ = .ok (.text t)) : t ∈ v.texts := by
  cases v with
  | arith e =>
    obtain ⟨x, -, hx⟩ := bind_eq_ok_iff.1 h
    cases hx
  | text s =>
    obtain rfl : s = t := by simpa [eval] using h
    simp [texts]
  | relabelledText kind s =>
    obtain rfl : s = t := by simpa [eval] using h
    simp [texts]

theorem Store.stepped_ne_text {σ : Store} {target t : String} {step : Double → Double} :
    σ.stepped target step ≠ .ok (.text t) := by
  intro h
  obtain ⟨v, -, h⟩ := bind_eq_ok_iff.1 h
  obtain ⟨x, -, h⟩ := bind_eq_ok_iff.1 h
  cases h

/-- An action other than a plain assignment gives a number. -/
theorem Action.eq_set_of_eval {a : Action} {σ : Store} {target t : String}
    (h : a.eval σ target = .ok (.text t)) : ∃ v, a = .set v ∧ t ∈ v.texts := by
  cases a with
  | set v => exact ⟨v, rfl, RValue.mem_texts_of_eval h⟩
  | increment => exact absurd h Store.stepped_ne_text
  | decrement => exact absurd h Store.stepped_ne_text
  | update op operand =>
    obtain ⟨v, -, h⟩ := bind_eq_ok_iff.1 h
    obtain ⟨x, -, h⟩ := bind_eq_ok_iff.1 h
    obtain ⟨y, -, h⟩ := bind_eq_ok_iff.1 h
    obtain ⟨z, -, h⟩ := bind_eq_ok_iff.1 h
    cases h
  | foreign symbol operand =>
    simp only [Action.eval] at h
    split at h
    · cases h
    · exact absurd h Store.stepped_ne_text
    · exact absurd h Store.stepped_ne_text
    · obtain ⟨v, -, h⟩ := bind_eq_ok_iff.1 h
      obtain ⟨x, -, h⟩ := bind_eq_ok_iff.1 h
      obtain ⟨y, -, h⟩ := bind_eq_ok_iff.1 h
      cases h

/-- A declarator without an initializer gives a number. -/
theorem Declarator.eq_some_of_eval {e : Declarator} {σ : Store} {type : TypeTag} {t : String}
    (h : e.eval σ type = .ok (.text t)) : ∃ v, e.initializer = some v ∧ t ∈ v.texts := by
  unfold Declarator.eval at h
  split at h
  · rename_i v hv
    exact ⟨v, hv, RValue.mem_texts_of_eval h⟩
  · cases h

namespace Piece

/-- The piece gives the name the value of the right-hand side, as the initializer of a declarator or
by a plain assignment. -/
def Sets (x : String) (v : RValue) : Piece → Prop
  | .declaration d => ∃ e ∈ d.declarators, e.name = x ∧ e.initializer = some v
  | .assignment a => a.target = x ∧ a.action = .set v
  | _ => False

theorem Sets.mem_values {p : Piece} {x : String} {v : RValue} (h : p.Sets x v) : v ∈ p.values := by
  cases p with
  | declaration d =>
    obtain ⟨e, he, -, hv⟩ := h
    exact List.mem_filterMap.2 ⟨e, he, hv⟩
  | assignment a =>
    obtain ⟨-, haction⟩ := h
    simp [values, haction, Action.value?]
  | condition c => cases h
  | expr e => cases h
  | value w => cases h

theorem eq_text_of_isNative {p : Piece} {v : RValue} {t : String} (hp : p.isNative = true)
    (hv : v ∈ p.values) (ht : t ∈ v.texts) : v = .text t := by
  simp only [isNative, Bool.and_eq_true, List.all_eq_true] at hp
  have hown := hp.1.2 v hv
  cases v with
  | arith e => cases ht
  | text s => rw [List.mem_singleton.1 ht]
  | relabelledText kind s => cases hown

/-- A piece that writes a text sets the variable to it. -/
theorem MakesIn.sets {p : Piece} {σ : Store} {scope : Scope} {w : Write} {t : String}
    (h : p.MakesIn σ scope w) (hw : w.value = .text t) : ∃ v, p.Sets w.name v ∧ t ∈ v.texts := by
  cases h with
  | @declare d e value he hvalue =>
    obtain rfl : value = .text t := hw
    obtain ⟨v, hv, ht⟩ := Declarator.eq_some_of_eval hvalue
    exact ⟨v, ⟨e, he, rfl, hv⟩, ht⟩
  | @assign a value hvalue =>
    obtain rfl : value = .text t := hw
    obtain ⟨v, haction, ht⟩ := Action.eq_set_of_eval hvalue
    exact ⟨v, ⟨rfl, haction⟩, ht⟩

end Piece

/-! ### Texts in the store -/

namespace Program

variable {tolerance : Double} {fuel : Nat} {p : Program}

/-- A text that a run writes to a variable is set for that variable by a piece of the program. -/
theorem sets_of_mem_history {w : Write} (hw : w ∈ p.history tolerance fuel) {t : String}
    (ht : w.value = .text t) : ∃ pc ∈ p.pieces, ∃ v, pc.Sets w.name v ∧ t ∈ v.texts := by
  rcases List.mem_append.1 hw with hw | hw
  · obtain ⟨σ, pc, hpc, hmakes⟩ := (p.globalHistory_traces tolerance fuel).exists_of_mem hw
    exact ⟨pc, List.mem_append_left _ hpc, hmakes.sets ht⟩
  · obtain ⟨σ, pc, hpc, hmakes⟩ := (p.entryHistory_traces tolerance fuel).exists_of_mem hw
    exact ⟨pc, List.mem_append_right _ hpc, hmakes.sets ht⟩

/-- A text that a run leaves in a variable is set for that variable by a piece of the program. -/
theorem text_of_run {m : Machine} (h : m ∈ (p.run tolerance fuel).machine?) {x : String}
    {v : Variable} (hv : m.store.find? x = some v) {t : String} (ht : v.value = .text t) :
    ∃ pc ∈ p.pieces, ∃ rhs, pc.Sets x rhs ∧ t ∈ rhs.texts := by
  rw [run_store h] at hv
  obtain ⟨w, hw, rfl, hvalue⟩ := Store.exists_write_of_find? hv
  exact sets_of_mem_history hw (hvalue.trans ht)

end Program

/-! ### The value of a statement -/

/-- The piece, executed or evaluated in the store, gives the value; a declaration does so at any of
its declarators. -/
def Piece.Gives (σ : Store) (value : Value) : Piece → Prop
  | .declaration d => ∃ e ∈ d.declarators, e.eval σ d.type = .ok value
  | .assignment a => a.action.eval σ a.target = .ok value
  | .condition _ => False
  | .expr e => ∃ x, e.eval σ = .ok x ∧ value = .number x
  | .value v => v.eval σ = .ok value

/-- A piece that gives a text sets a variable to it, or returns it. -/
theorem Piece.Gives.text {p : Piece} {σ : Store} {t : String} (h : p.Gives σ (.text t)) :
    ∃ v, ((∃ x, p.Sets x v) ∨ p = .value v) ∧ t ∈ v.texts := by
  cases p with
  | declaration d =>
    obtain ⟨e, he, hvalue⟩ := h
    obtain ⟨v, hv, ht⟩ := Declarator.eq_some_of_eval hvalue
    exact ⟨v, .inl ⟨e.name, e, he, rfl, hv⟩, ht⟩
  | assignment a =>
    obtain ⟨v, haction, ht⟩ := Action.eq_set_of_eval h
    exact ⟨v, .inl ⟨a.target, rfl, haction⟩, ht⟩
  | condition c => cases h
  | expr e =>
    obtain ⟨x, -, hx⟩ := h
    cases hx
  | value v => exact ⟨v, .inr rfl, RValue.mem_texts_of_eval h⟩

/-- The value of the outcome, if it is done with one, has the property. -/
def Outcome.ValueIn (T : Value → Prop) (o : Outcome (Option Value)) : Prop :=
  ∀ v m, o = .done v m → ∀ a ∈ v, T a

section ValueIn

variable {T : Value → Prop} {tolerance : Double} {fuel : Nat} {last : Option Value}

theorem Outcome.valueIn_failed (f : Fault) (m : Machine) : (failed f m).ValueIn T := by
  rintro v m' ⟨⟩

theorem Outcome.valueIn_done (h : ∀ a ∈ last, T a) (m : Machine) : (done last m).ValueIn T := by
  rintro v m' ⟨⟩
  exact h

theorem Outcome.valueIn_ofExcept {β : Type} {e : Except Fault β} {g : β → Value}
    (h : ∀ b, e = .ok b → T (g b)) (m : Machine) :
    (ofExcept m (e >>= fun b => pure (some (g b)))).ValueIn T := by
  intro v m' hdone a ha
  obtain ⟨he, -⟩ := ofExcept_eq_done_iff.1 hdone
  obtain ⟨b, hb, hv⟩ := bind_eq_ok_iff.1 he
  obtain rfl : some (g b) = v := Except.ok.inj hv
  obtain rfl := Option.some.inj ha
  exact h b hb

theorem Declarator.execAll_valueIn {type : TypeTag} {ds : List Declarator}
    (h : ∀ e ∈ ds, ∀ σ v, e.eval σ type = .ok v → T v) (hlast : ∀ a ∈ last, T a) (m : Machine) :
    (Declarator.execAll type ds last m).ValueIn T := by
  induction ds generalizing last m with
  | nil => exact valueIn_done hlast m
  | cons d ds ih =>
    obtain ⟨hd, hds⟩ := List.forall_mem_cons.1 h
    simp only [Declarator.execAll]
    cases hv : d.eval m.store type with
    | error f => exact valueIn_failed f m
    | ok v =>
      refine ih hds ?_ _
      rintro a ⟨⟩
      exact hd m.store v hv

/-- The value of a loop is that of its last body. -/
theorem iterate_valueIn {kind : LoopKind} {test : Store → Except Fault Bool}
    {body update : Machine → Outcome (Option Value)} (hbody : ∀ m, (body m).ValueIn T)
    (fuel count : Nat) (hlast : ∀ a ∈ last, T a) (m : Machine) :
    (iterate kind test body update fuel count last m).ValueIn T := by
  induction fuel generalizing count last m with
  | zero => rintro v m' ⟨⟩
  | succ fuel ih =>
    cases ht : test m.store with
    | error f =>
      rw [iterate_of_error ht]
      exact valueIn_failed f m
    | ok holds =>
      cases holds with
      | false =>
        rw [iterate_of_false ht]
        exact valueIn_done hlast _
      | true =>
        intro v m' h
        rw [iterate_of_true ht] at h
        obtain ⟨w, m₁, hround, hrest⟩ := andThen_eq_done_iff.1 h
        obtain ⟨u, m₂, hw, -⟩ := loopRound_eq_done hround
        exact ih (count + 1) (hbody m w m₂ hw) m₁ v m' hrest

theorem Stmt.execAll_valueIn {ss : List Stmt}
    (h : ∀ s ∈ ss, ∀ m, (s.exec tolerance fuel m).ValueIn T) (hlast : ∀ a ∈ last, T a)
    (m : Machine) : (Stmt.execAll tolerance fuel ss last m).ValueIn T := by
  induction ss generalizing last m with
  | nil => simp only [Stmt.execAll]; exact valueIn_done hlast m
  | cons s ss ih =>
    obtain ⟨hs, hss⟩ := List.forall_mem_cons.1 h
    intro v m' hdone
    rw [execAll_cons] at hdone
    obtain ⟨w, m₁, hw, hrest⟩ := andThen_eq_done_iff.1 hdone
    exact ih hss (hs m w m₁ hw) m₁ v m' hrest

/-- **The value of a statement is one that a piece of it gives.** -/
theorem Stmt.exec_valueIn {s : Stmt} (h : s.All fun p => ∀ σ v, p.Gives σ v → T v)
    (tolerance : Double) (fuel : Nat) (m : Machine) : (s.exec tolerance fuel m).ValueIn T := by
  have hnone : ∀ a ∈ (none : Option Value), T a := by simp
  induction h generalizing m with
  | declare hd =>
    simp only [Stmt.exec]
    exact Declarator.execAll_valueIn (fun e he σ v hv => hd σ v ⟨e, he, hv⟩) hnone m
  | @assign a ha =>
    simp only [Stmt.exec, Assignment.exec]
    cases hv : a.action.eval m.store a.target with
    | error f => exact valueIn_failed f m
    | ok v =>
      refine valueIn_done ?_ _
      rintro _ ⟨⟩
      exact ha m.store v hv
  | expression he =>
    simp only [Stmt.exec]
    exact valueIn_ofExcept (fun x hx => he m.store _ ⟨x, hx, rfl⟩) m
  | @branch c body alternative span _ _ _ ihBody ihAlternative =>
    simp only [Stmt.exec]
    cases c.test tolerance m.store with
    | error f => exact valueIn_failed f m
    | ok holds =>
      cases holds with
      | true => exact execAll_valueIn ihBody hnone m
      | false =>
        cases alternative with
        | none => exact valueIn_done hnone m
        | some body' => exact execAll_valueIn (ihAlternative body' rfl) hnone m
  | forLoop _ _ _ _ ih =>
    intro v m' hdone
    simp only [Stmt.exec] at hdone
    obtain ⟨u, m₀, -, hloop⟩ := andThen_eq_done_iff.1 hdone
    exact iterate_valueIn (execAll_valueIn ih hnone) fuel 0 hnone m₀ v m' hloop
  | whileLoop _ _ ih =>
    simp only [Stmt.exec]
    exact iterate_valueIn (execAll_valueIn ih hnone) fuel 0 hnone m
  | @ret v span hv =>
    cases v with
    | none => simp only [Stmt.exec]; exact valueIn_done hnone m
    | some v =>
      simp only [Stmt.exec]
      exact valueIn_ofExcept (g := id) (fun value hvalue => hv v rfl m.store value hvalue) m
  | call he =>
    simp only [Stmt.exec]
    exact valueIn_ofExcept (fun x hx => he m.store _ ⟨x, hx, rfl⟩) m
  | relabelled _ _ => simp only [Stmt.exec]; exact valueIn_failed _ m

end ValueIn

namespace Program

variable {tolerance : Double} {fuel : Nat} {p : Program}

/-- The value of a run is one that a piece of the program gives. -/
theorem run_valueIn (tolerance : Double) (fuel : Nat) (p : Program) :
    (p.run tolerance fuel).ValueIn fun a => ∃ pc ∈ p.pieces, ∃ σ, pc.Gives σ a := by
  have hstmts : ∀ scope, ∀ s ∈ p.stmts scope, ∀ m,
      (s.exec tolerance fuel m).ValueIn fun a => ∃ pc ∈ p.pieces, ∃ σ, pc.Gives σ a := by
    intro scope s hs m
    refine Stmt.exec_valueIn (Stmt.all_of_forall_mem s fun pc hpc σ v hv => ⟨pc, ?_, σ, hv⟩)
      tolerance fuel m
    have hmem : pc ∈ p.piecesIn scope := Stmt.mem_piecesAll hs hpc
    cases scope with
    | globals => exact List.mem_append_left _ hmem
    | main => exact List.mem_append_right _ hmem
  intro v m hdone
  rw [run_eq] at hdone
  obtain ⟨u, m₀, hglobals, hdone⟩ := andThen_eq_done_iff.1 hdone
  obtain ⟨w, m₁, hentry, hdone⟩ := andThen_eq_done_iff.1 hdone
  obtain ⟨rfl, -⟩ := done.inj hdone
  have hu := Stmt.execAll_valueIn (hstmts .globals) (by simp) p.start u m₀ hglobals
  exact Stmt.execAll_valueIn (hstmts .main) hu _ w m₁ hentry

/-- A text that is the value of a run is set for a variable by a piece of the program, or returned
by it. -/
theorem text_of_done {t : String} {m : Machine}
    (h : p.run tolerance fuel = .done (some (.text t)) m) :
    ∃ pc ∈ p.pieces, ∃ v, ((∃ x, pc.Sets x v) ∨ pc = .value v) ∧ t ∈ v.texts := by
  obtain ⟨pc, hpc, σ, hgives⟩ := run_valueIn tolerance fuel p _ m h _ rfl
  exact ⟨pc, hpc, hgives.text⟩

end Program

/-! ### The texts of a run -/

/-- **Every text of a run is a literal of the program.**  An expression never gives a text.  Each
text that a run of a native program writes to a variable, at any time, is the initializer of a
declarator of that variable or the right-hand side of a plain assignment to it, and so is each text
that a run leaves in a variable, also where it fails.  If the value of a program is a text, it is
such an initializer or right-hand side, or it is returned. -/
theorem Program.text_sources (tolerance : Double) (p : Program) (hp : p.isNative = true) :
    (∀ e σ t, (RValue.arith e).eval σ ≠ .ok (.text t)) ∧
    (∀ fuel, ∀ w ∈ p.history tolerance fuel, ∀ t, w.value = .text t →
      ∃ pc ∈ p.pieces, pc.Sets w.name (.text t)) ∧
    ∀ o, EndsWith (fun fuel => p.run tolerance fuel) o →
      (∀ m ∈ o.machine?, ∀ x v t, m.store.find? x = some v → v.value = .text t →
        ∃ pc ∈ p.pieces, pc.Sets x (.text t)) ∧
      ∀ t m, o = .done (some (.text t)) m →
        ∃ pc ∈ p.pieces, (∃ x, pc.Sets x (.text t)) ∨ pc = .value (.text t) := by
  obtain ⟨-, hnative⟩ := native_run hp
  have hset : ∀ {x t}, (∃ pc ∈ p.pieces, ∃ v, pc.Sets x v ∧ t ∈ v.texts) →
      ∃ pc ∈ p.pieces, pc.Sets x (.text t) := by
    rintro x t ⟨pc, hpc, v, hsets, ht⟩
    obtain rfl := Piece.eq_text_of_isNative (hnative pc hpc) hsets.mem_values ht
    exact ⟨pc, hpc, hsets⟩
  refine ⟨fun e σ t h => ?_, fun fuel w hw t ht => hset (sets_of_mem_history hw ht),
    fun o ho => ⟨fun m hm x v t hv ht => ?_, fun t m hdone => ?_⟩⟩
  · cases RValue.mem_texts_of_eval h
  · obtain ⟨fuel, rfl⟩ := ho.exists_fuel
    exact hset (text_of_run hm hv ht)
  · obtain ⟨fuel, hfuel⟩ := ho.exists_fuel
    obtain ⟨pc, hpc, v, hsource, ht⟩ := text_of_done (hfuel.trans hdone)
    have hv : v ∈ pc.values := by
      rcases hsource with ⟨x, hsets⟩ | rfl
      · exact hsets.mem_values
      · simp [Piece.values]
    obtain rfl := Piece.eq_text_of_isNative (hnative pc hpc) hv ht
    exact ⟨pc, hpc, hsource⟩

/-- `string s = "a", r = s;` and then `s += "1"; s = "b"; if (s == r) { return "c"; }`.  The text of
`s` is not handed on to `r`, which is zero, and it is lost in the sum; at the end `s` holds the text
that was assigned to it, and the value of the program is the text that it returns. -/
theorem Program.text_sources_of_return :
    let declare : Declaration := ⟨.string, [⟨"s", some (.text "a"), .unknown⟩,
      ⟨"r", some (.arith (.variable "s")), .unknown⟩], .unknown, by simp⟩
    let p : Program := {
      globals := [.declaration declare]
      entry := { body := [.assign ⟨"s", .update .add (.text "1"), .unknown⟩,
        .assign ⟨"s", .set (.text "b"), .unknown⟩,
        .branch (.comparison (.known .eq) (.variable "s") (.variable "r"))
          [.ret (some (.text "c")) .unknown] none .unknown] } }
    let b : Variable := ⟨.text "b", some .string, .globals⟩
    let m : Machine := {
      store := ⟨[("s", b), ("r", ⟨.number .zero, some .string, .globals⟩)]⟩
      scope := .main
      log := #[.started 1 3, .finished 2] }
    p.isNative = true ∧
      EndsWith (fun fuel => p.run Double.one fuel) (.done (some (.text "c")) m) ∧
      m.store.find? "s" = some b ∧ (∃ pc ∈ p.pieces, pc.Sets "s" (.text "b")) ∧
      ∃ pc ∈ p.pieces, (∃ x, pc.Sets x (.text "c")) ∨ pc = .value (.text "c") := by
  intro declare p b m
  have hnative : p.isNative = true := rfl
  have hrun : p.run Double.one 0 = .done (some (.text "c")) m := by decide +kernel
  have hends := (p.run_steady Double.one).endsWith_of_eq hrun (by simp)
  obtain ⟨-, -, hsources⟩ := text_sources Double.one p hnative
  obtain ⟨hstore, hvalue⟩ := hsources _ hends
  exact ⟨hnative, hends, rfl, hstore m rfl "s" b "b" rfl rfl, hvalue "c" m rfl⟩

end FlatScript
