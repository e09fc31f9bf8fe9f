import FlatScript.Proofs.History
import Mathlib.Data.List.Induction

/-!
# What a list of writes leaves in a store

The variable of a name is put together from three different writes: its value is that of the last
write, its type and its scope are those of the last declaration, and without a declaration the
scope is that of the first assignment.

* `Write.summary` : the variable of a name, read off a list of writes;
* `Write.summary_concat` : what one more write does to it, whatever was written before;
* `Store.find?_writeAll_empty`, `Store.names_writeAll_empty` : the variables and the names after a
  list of writes, by induction on its length;
* `Store.writeAll_determined` : **the contents of a store are determined by the writes that led to
  it.**
-/

namespace FlatScript

/-! ### Reading a list of writes -/

namespace Write

/-- The value that the write gives the name. -/
def written? (x : String) (w : Write) : Option Value := if w.name = x then some w.value else none

/-- The type and the scope that the write declares the name with. -/
def declared? (x : String) : Write → Option (TypeTag × Scope)
  | .declare name _ type scope => if name = x then some (type, scope) else none
  | .assign _ _ _ => none

/-- The scope in which the write assigns to the name. -/
def assigned? (x : String) : Write → Option Scope
  | .declare _ _ _ _ => none
  | .assign name _ scope => if name = x then some scope else none

/-- The value of the last write of the name. -/
def lastValue? (x : String) (ws : List Write) : Option Value :=
  (ws.filterMap (written? x)).getLast?

/-- The type and the scope of the last declaration of the name. -/
def lastDeclaration? (x : String) (ws : List Write) : Option (TypeTag × Scope) :=
  (ws.filterMap (declared? x)).getLast?

/-- The scope of the first assignment to the name. -/
def firstAssignment? (x : String) (ws : List Write) : Option Scope :=
  (ws.filterMap (assigned? x)).head?

/-- The variable of the name after the writes, on a store without variables. -/
def summary (x : String) (ws : List Write) : Option Variable :=
  (lastValue? x ws).bind fun value =>
    match lastDeclaration? x ws with
    | some (type, scope) => some ⟨value, some type, scope⟩
    | none => (firstAssignment? x ws).map fun scope => ⟨value, none, scope⟩

/-! ### One more write -/

theorem lastValue?_concat (x : String) (ws : List Write) (w : Write) :
    lastValue? x (ws ++ [w]) = (w.written? x).or (lastValue? x ws) := by
  unfold lastValue?
  cases h : w.written? x <;> simp [h]

theorem lastDeclaration?_concat (x : String) (ws : List Write) (w : Write) :
    lastDeclaration? x (ws ++ [w]) = (w.declared? x).or (lastDeclaration? x ws) := by
  unfold lastDeclaration?
  cases h : w.declared? x <;> simp [h]

theorem firstAssignment?_concat (x : String) (ws : List Write) (w : Write) :
    firstAssignment? x (ws ++ [w]) = (firstAssignment? x ws).or (w.assigned? x) := by
  unfold firstAssignment?
  cases h : w.assigned? x <;> simp [h]

theorem written?_eq_none_iff {x : String} {w : Write} :
    w.written? x = none ↔ w.declared? x = none ∧ w.assigned? x = none := by
  cases w with
  | declare y value type scope =>
    by_cases h : y = x <;> simp [written?, declared?, assigned?, name, h]
  | assign y value scope =>
    by_cases h : y = x <;> simp [written?, declared?, assigned?, name, h]

/-- A name is written if it is declared or assigned to. -/
theorem lastValue?_eq_none_iff {x : String} {ws : List Write} :
    lastValue? x ws = none ↔ lastDeclaration? x ws = none ∧ firstAssignment? x ws = none := by
  simp only [lastValue?, lastDeclaration?, firstAssignment?, List.getLast?_eq_none_iff,
    List.head?_eq_none_iff, List.filterMap_eq_nil_iff, written?_eq_none_iff, forall_and]

/-- **One more write** changes the variable of its own name, from what the writes before it have
left, and no other. -/
theorem summary_concat (x : String) (ws : List Write) (w : Write) :
    summary x (ws ++ [w]) =
      if x = w.name then some (w.result (summary x ws)) else summary x ws := by
  simp only [summary, lastValue?_concat, lastDeclaration?_concat, firstAssignment?_concat]
  by_cases hname : x = w.name
  · rw [if_pos hname]
    have hvalue : w.written? x = some w.value := if_pos hname.symm
    cases w with
    | declare y value type scope =>
      obtain rfl : x = y := hname
      simp [hvalue, declared?, Write.value, Write.result]
    | assign y value scope =>
      obtain rfl : x = y := hname
      cases hold : lastValue? x ws with
      | none =>
        -- the assignment creates the variable, without a type
        obtain ⟨hdeclared, hassigned⟩ := lastValue?_eq_none_iff.1 hold
        simp [hvalue, hdeclared, hassigned, declared?, assigned?, Write.value, Write.result]
      | some old =>
        -- the name has a variable, of which the assignment replaces the value only
        cases hdeclared : lastDeclaration? x ws with
        | some d => simp [hvalue, declared?, Write.value, Write.result]
        | none =>
          cases hassigned : firstAssignment? x ws with
          | none => simp [lastValue?_eq_none_iff.2 ⟨hdeclared, hassigned⟩] at hold
          | some scope' => simp [hvalue, declared?, Write.value, Write.result]
  · rw [if_neg hname]
    have hvalue : w.written? x = none := if_neg (Ne.symm hname)
    obtain ⟨hdeclared, hassigned⟩ := written?_eq_none_iff.1 hvalue
    simp [hvalue, hdeclared, hassigned]

theorem value_summary (x : String) (ws : List Write) :
    (summary x ws).map Variable.value = lastValue? x ws := by
  unfold summary
  cases hvalue : lastValue? x ws with
  | none => rfl
  | some value =>
    cases hdeclared : lastDeclaration? x ws with
    | some d => rfl
    | none =>
      cases hassigned : firstAssignment? x ws with
      | none => simp [lastValue?_eq_none_iff.2 ⟨hdeclared, hassigned⟩] at hvalue
      | some scope => rfl

end Write

/-! ### The store after a list of writes -/

namespace Store

theorem find?_writeAll_empty (ws : List Write) (x : String) :
    (empty.writeAll ws).find? x = Write.summary x ws := by
  induction ws using List.reverseRecOn with
  | nil => rfl
  | append_singleton ws w ih =>
    rw [writeAll_append, writeAll_cons, writeAll_nil, find?_write, Write.summary_concat, ih]

/-- The value of a variable is that of a write of its name. -/
theorem exists_write_of_find? {ws : List Write} {x : String} {v : Variable}
    (h : (empty.writeAll ws).find? x = some v) : ∃ w ∈ ws, w.name = x ∧ w.value = v.value := by
  have hvalue := Write.value_summary x ws
  rw [← find?_writeAll_empty, h] at hvalue
  obtain ⟨w, hw, hwritten⟩ := List.mem_filterMap.1 (List.mem_of_getLast? hvalue.symm)
  unfold Write.written? at hwritten
  split at hwritten
  · rename_i hname
    exact ⟨w, hw, hname, Option.some.inj hwritten⟩
  · cases hwritten

/-- The names stand in the order of their first writing. -/
theorem names_writeAll_empty (ws : List Write) :
    (empty.writeAll ws).names = (ws.map Write.name).eraseDups := by
  induction ws using List.reverseRecOn with
  | nil => rfl
  | append_singleton ws w ih =>
    rw [writeAll_append, writeAll_cons, writeAll_nil, names_write, ih, List.map_append,
      List.eraseDups_append, List.map_singleton]
    by_cases hw : w.name ∈ ws.map Write.name
    · have hnew : [w.name].removeAll (ws.map Write.name) = [] := by
        simpa [List.removeAll] using hw
      rw [if_pos (List.mem_eraseDups.2 hw), hnew, List.eraseDups_nil, List.append_nil]
    · have hnew : [w.name].removeAll (ws.map Write.name) = [w.name] := by
        simpa [List.removeAll] using hw
      rw [if_neg (mt List.mem_eraseDups.1 hw), hnew]
      rfl

theorem size_eq_length_names (σ : Store) : σ.size = σ.names.length := by
  simp [size, names]

theorem get_eq_ok_iff {σ : Store} {x : String} {value : Value} :
    σ.get x = .ok value ↔ (σ.find? x).map Variable.value = some value := by
  unfold get
  cases σ.find? x <;> simp

theorem get_eq_error_iff {σ : Store} {x : String} :
    σ.get x = .error (.undefinedVariable x) ↔ (σ.find? x).map Variable.value = none := by
  unfold get
  cases σ.find? x <;> simp

/-- **The contents of a store are determined by the writes that led to it.**  The names are the
distinct names of the writes, in the order of first writing.  A name has the value of its last
write; its type and its scope are those of its last declaration, and if it was never declared it has
no type and the scope of its first assignment.  A name that was never written, and no other, is
undefined. -/
theorem writeAll_determined (ws : List Write) :
    (empty.writeAll ws).names = (ws.map Write.name).eraseDups ∧
    (empty.writeAll ws).size = (ws.map Write.name).eraseDups.length ∧
    ∀ x, (empty.writeAll ws).find? x = Write.summary x ws ∧
      (∀ value, (empty.writeAll ws).get x = .ok value ↔ Write.lastValue? x ws = some value) ∧
      ((empty.writeAll ws).get x = .error (.undefinedVariable x) ↔ ∀ w ∈ ws, w.name ≠ x) ∧
      ((empty.writeAll ws).contains x = true ↔ ∃ w ∈ ws, w.name = x) := by
  refine ⟨names_writeAll_empty ws, ?_, fun x => ?_⟩
  · rw [size_eq_length_names, names_writeAll_empty]
  · have hfind := find?_writeAll_empty ws x
    have hvalue : ((empty.writeAll ws).find? x).map Variable.value = Write.lastValue? x ws := by
      rw [hfind, Write.value_summary]
    have hunwritten : Write.lastValue? x ws = none ↔ ∀ w ∈ ws, w.name ≠ x := by
      simp [Write.lastValue?, Write.written?]
    refine ⟨hfind, fun value => ?_, ?_, ?_⟩
    · rw [get_eq_ok_iff, hvalue]
    · rw [get_eq_error_iff, hvalue, hunwritten]
    · rw [contains, ← Option.isSome_map, hvalue, Option.isSome_iff_ne_none, Ne, hunwritten]
      simp

/-- An assignment before the declaration leaves no trace but the place of the name, and one after it
the value alone. -/
example :
    empty.writeAll [.assign "x" (.text "a") .globals, .assign "y" (.text "b") .globals,
      .declare "x" (.text "c") .int .main, .assign "y" (.text "d") .main,
      .assign "x" (.text "e") .globals] =
    ⟨[("x", ⟨.text "e", some .int, .main⟩), ("y", ⟨.text "d", none, .globals⟩)]⟩ := by
  decide

end Store

end FlatScript
