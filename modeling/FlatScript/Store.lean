import FlatScript.Value

/-!
# The variable store

One flat store of variables, in the order of their first writing.  There is no shadowing: to
declare a name again replaces its variable, and to assign to it replaces its value only.
-/

namespace FlatScript

/-- Where a variable was created. -/
inductive Scope where
  | globals
  | main
  deriving DecidableEq

instance : Spelled Scope where
  all := [.globals, .main]
  spell
    | .globals => "global"
    | .main => "main"
  mem_all a := by cases a <;> decide
  spell_injective a b := by cases a <;> cases b <;> decide

/-- The scope that a word names. -/
def Scope.named (word : String) : Except Fault Scope := Spelled.named "Scope" word

/-- What the store knows about a name. -/
structure Variable where
  value : Value
  /-- The type of the last declaration; none if the name was never declared. -/
  declaredType : Option TypeTag
  scope : Scope
  deriving DecidableEq

/-- The variables in the order of their first writing. -/
structure Store where
  entries : List (String × Variable)
  deriving DecidableEq

namespace Store

/-- The store without variables. -/
def empty : Store := ⟨[]⟩

instance : Inhabited Store := ⟨empty⟩

/-- The names in the order of their first writing. -/
def names (σ : Store) : List String := σ.entries.map Prod.fst

/-- The number of variables. -/
def size (σ : Store) : Nat := σ.entries.length

/-- The variable of a name. -/
def find? (σ : Store) (name : String) : Option Variable := σ.entries.lookup name

/-- Whether the store has the name. -/
def contains (σ : Store) (name : String) : Bool := (σ.find? name).isSome

/-- The value of a name. -/
def get (σ : Store) (name : String) : Except Fault Value :=
  match σ.find? name with
  | some v => .ok v.value
  | none => .error (.undefinedVariable name)

/-- The entries with the variable of a name replaced, or added at the end. -/
def insertEntry (name : String) (v : Variable) : List (String × Variable) → List (String × Variable)
  | [] => [(name, v)]
  | (n, w) :: rest => if n = name then (n, v) :: rest else (n, w) :: insertEntry name v rest

/-- The store with the variable of a name replaced, or added at the end. -/
def insert (σ : Store) (name : String) (v : Variable) : Store := ⟨insertEntry name v σ.entries⟩

/-- Declare a variable, whether or not the name is taken. -/
def declare (σ : Store) (name : String) (value : Value) (type : TypeTag) (scope : Scope) : Store :=
  σ.insert name ⟨value, some type, scope⟩

/-- Assign to a variable.  A new one has no declared type, and an old one keeps its type and
scope. -/
def assign (σ : Store) (name : String) (value : Value) (scope : Scope) : Store :=
  match σ.find? name with
  | some v => σ.insert name { v with value := value }
  | none => σ.insert name ⟨value, none, scope⟩

end Store

/-! ### Changes -/

/-- One change of a store. -/
inductive Write where
  | declare (name : String) (value : Value) (type : TypeTag) (scope : Scope)
  | assign (name : String) (value : Value) (scope : Scope)

/-- The declaration whose type and scope are given as words, the type being looked at first. -/
def Write.declareNamed (name : String) (value : Value) (type scope : String) :
    Except Fault Write := do
  let type ← TypeTag.named type
  let scope ← Scope.named scope
  return .declare name value type scope

/-- The assignment whose scope is given as a word. -/
def Write.assignNamed (name : String) (value : Value) (scope : String) : Except Fault Write := do
  return .assign name value (← Scope.named scope)

namespace Store

/-- The store after a change. -/
def write (σ : Store) : Write → Store
  | .declare name value type scope => σ.declare name value type scope
  | .assign name value scope => σ.assign name value scope

/-- The store after changes in order. -/
def writeAll (σ : Store) (ws : List Write) : Store := ws.foldl write σ

/-! ### What a change does to the view of a store -/

theorem lookup_cons (n : String) (w : Variable) (es : List (String × Variable)) (x : String) :
    ((n, w) :: es).lookup x = if x = n then some w else es.lookup x := by
  by_cases h : x = n
  · simp [h]
  · rw [List.lookup_cons, beq_false_of_ne h, if_neg h]

theorem lookup_insertEntry (name : String) (v : Variable) (es : List (String × Variable))
    (x : String) :
    (insertEntry name v es).lookup x = if x = name then some v else es.lookup x := by
  induction es with
  | nil => simp [insertEntry, lookup_cons]
  | cons e es ih =>
    obtain ⟨n, w⟩ := e
    by_cases hn : n = name
    · subst hn
      simp only [insertEntry, if_true, lookup_cons]
      split <;> rfl
    · simp only [insertEntry, if_neg hn, lookup_cons, ih]
      by_cases hx : x = n
      · simp [hx, hn]
      · simp [hx]

@[simp] theorem find?_insert (σ : Store) (name : String) (v : Variable) (x : String) :
    (σ.insert name v).find? x = if x = name then some v else σ.find? x :=
  lookup_insertEntry name v σ.entries x

theorem map_fst_insertEntry (name : String) (v : Variable) (es : List (String × Variable)) :
    (insertEntry name v es).map Prod.fst =
      if name ∈ es.map Prod.fst then es.map Prod.fst else es.map Prod.fst ++ [name] := by
  induction es with
  | nil => simp [insertEntry]
  | cons e es ih =>
    obtain ⟨n, w⟩ := e
    by_cases hn : n = name
    · simp [insertEntry, hn]
    · have hn' : name ≠ n := fun h => hn h.symm
      simp only [insertEntry, if_neg hn, List.map_cons, ih, List.mem_cons, hn', false_or]
      split <;> simp

/-- The names only grow, at the end and by the name that is written. -/
@[simp] theorem names_insert (σ : Store) (name : String) (v : Variable) :
    (σ.insert name v).names = if name ∈ σ.names then σ.names else σ.names ++ [name] :=
  map_fst_insertEntry name v σ.entries

end Store

end FlatScript
