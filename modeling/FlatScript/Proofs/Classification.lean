import FlatScript.Proofs.Cause
import FlatScript.Proofs.Host
import FlatScript.Proofs.Literals
import FlatScript.Proofs.Reading

/-!
# The faults of a native program

A native program fails only for a reason that can be pointed out in its global declarations or its
entry block.

* `Store.TextsIn` is an invariant of a run: **the variables hold texts of the program only**
  (`Program.textsIn_of_run`), since no evaluation makes a new text;
* `Program.accounts_of_run` : a fault is accounted for by the pieces of the program;
* `Program.fault_classification` : **the complete list of the ways in which a run of a native
  program can end.**
-/

namespace FlatScript

open Outcome

/-! ### Texts in the store -/

/-- **The variables hold texts of the program only.** -/
theorem Program.textsIn_of_run {tolerance : Double} {fuel : Nat} {p : Program} {m : Machine}
    (h : m ∈ (p.run tolerance fuel).machine?) :
    m.store.TextsIn (· ∈ p.pieces.flatMap Piece.texts) := by
  intro x v t hv ht
  obtain ⟨pc, hpc, rhs, hsets, ht⟩ := text_of_run h hv ht
  exact List.mem_flatMap.2 ⟨pc, hpc, List.mem_flatMap.2 ⟨rhs, hsets.mem_values, ht⟩⟩

/-! ### Native programs -/

section Native
variable {p : Program} (hp : p.isNative = true)
include hp

/-- A fault is accounted for by the global declarations and the entry block. -/
theorem Program.accounts_of_run {tolerance : Double} {fuel : Nat} {f : Fault} {m : Machine}
    (h : p.run tolerance fuel = .failed f m) :
    Accounts p.pieces (· ∈ p.pieces.flatMap Piece.texts) m.store f := by
  have hm : m ∈ (p.run tolerance fuel).machine? := by simp [h]
  rcases raisedBy_of_run h with ⟨pc, hpc, hraises⟩ | ⟨hfalse, -⟩
  · exact hraises.accounts hpc (fun _ ht => ht) (textsIn_of_run hm)
  · rw [(native_run hp).1] at hfalse
    cases hfalse

/-- An assignment of a native program has an operand exactly if its operator takes one. -/
theorem Program.operand_of_native {a : Assignment} (ha : .assignment a ∈ p.pieces) :
    ∃ op, a.action.op = .known op ∧ a.action.value?.isSome = op.takesValue := by
  have hnative := (native_run hp).2 _ ha
  cases haction : a.action with
  | foreign symbol operand =>
    simp [Piece.isNative, Piece.isOwn, haction, Action.op, Operator.isKnown] at hnative
  | _ => exact ⟨_, rfl, rfl⟩

end Native

theorem Accounts.ne_unsupported {ps : List Piece} {T : String → Prop} {σ : Store} {f : Fault}
    (h : Accounts ps T σ f) (hps : ∀ p ∈ ps, p.isNative = true) (lookup : Lookup)
    (symbol : String) : f ≠ .unsupported lookup symbol := by
  rintro rfl
  cases h with
  | foreign hp hforeign => simp [hps _ hp] at hforeign

/-- **The ways in which a run can end.**  Programs that are read from data are native.  Each
assignment of a native program has the operand that its operator takes, and a run of it that ends
succeeds or fails with a fault that its global declarations and its entry block account for: it is
never a foreign operator or kind name, nor an absent operand.  No host refuses the arguments of a
remainder or a built-in function behind their guards, and the guards of the strictest host make its
functions those of this library. -/
theorem Program.fault_classification (tolerance : Double) :
    (∀ j p, Schema.readProgram j = .ok p → p.isNative = true) ∧
    (∀ p : Program, p.isNative = true →
      (∀ a, .assignment a ∈ p.pieces →
        ∃ op, a.action.op = .known op ∧ a.action.value?.isSome = op.takesValue) ∧
      ∀ o, EndsWith (fun fuel => p.run tolerance fuel) o →
        (∃ v m, o = .done v m) ∨
          ∃ f m, o = .failed f m ∧ (∀ lookup symbol, f ≠ .unsupported lookup symbol) ∧
            Accounts p.pieces (· ∈ p.pieces.flatMap Piece.texts) m.store f) ∧
    (∀ host : Host, (∀ x y, host.rem? x y ≠ none) ∧ ∀ f x, host.call? f x ≠ none) ∧
    (∀ x y, Host.strict.rem? x y = some (x.rem y)) ∧
    ∀ f x, Host.strict.call? f x = some (f.apply x) := by
  refine ⟨fun j p => Schema.readProgram_yields_native j p, fun p hp => ⟨?_, fun o ho => ?_⟩,
    ?_, ?_, ?_⟩
  · intro a ha
    exact operand_of_native hp ha
  · obtain ⟨fuel, hfuel⟩ := ho.exists_fuel
    cases o with
    | done v m => exact .inl ⟨v, m, rfl⟩
    | failed f m =>
      have haccounts := accounts_of_run hp hfuel
      exact .inr ⟨f, m, rfl, haccounts.ne_unsupported (native_run hp).2, haccounts⟩
    | outOfFuel => exact absurd rfl ho.1
  · exact fun host => ⟨host.rem?_ne_none, host.call?_ne_none⟩
  · exact Host.strict_rem?
  · exact Host.strict_call?

/-- `int x = 5;` followed by `x /= sin(0);` is read from data, so it is native.  It fails with a
division by zero, which its assignment accounts for. -/
theorem Program.fault_classification_of_division :
    let five : Value := .number (.ofDecimal ⟨false, 5, 0⟩)
    let declare : Declaration :=
      ⟨.int, [⟨"x", some (.arith (.number "5")), .unknown⟩], .unknown, by simp⟩
    let divide : Assignment := ⟨"x", .update .div (.arith (.call "sin" [.number "0"])), .unknown⟩
    let p : Program := ⟨[.declaration declare], { body := [.assign divide] }⟩
    let m : Machine :=
      { p.start with store := ⟨[("x", ⟨five, some .int, .globals⟩)]⟩, scope := .main }
    Schema.readProgram p.toJson = .ok p ∧ p.isNative = true ∧
      EndsWith (fun fuel => p.run Double.one fuel) (.failed .divisionByZero m) ∧
      Accounts p.pieces (· ∈ p.pieces.flatMap Piece.texts) m.store .divisionByZero ∧
      Host.strict.call .sin (.infinite true) = none ∧
      Host.strict.call? .sin (.infinite true) ≠ none := by
  intro five declare divide p m
  obtain ⟨hread, hends, hhost, -⟩ := fault_classification Double.one
  have hdata : Schema.readProgram p.toJson = .ok p := rfl
  have hnative : p.isNative = true := hread p.toJson p hdata
  have hrun : p.run Double.one 0 = .failed .divisionByZero m := by decide +kernel
  have hfailed := (p.run_steady Double.one).endsWith_of_eq hrun (by simp)
  have hrefused : Host.strict.call .sin (.infinite true) = none := by
    simp [Host.strict, Builtin.excludes, Double.isInfinite]
  have hanswers : Host.strict.call? .sin (.infinite true) ≠ none := (hhost Host.strict).2 _ _
  refine ⟨hdata, hnative, hfailed, ?_, hrefused, hanswers⟩
  rcases (hends p hnative).2 _ hfailed with ⟨v, m', h⟩ | ⟨f, m', h, -, haccounts⟩
  · cases h
  · cases h
    exact haccounts

end FlatScript
