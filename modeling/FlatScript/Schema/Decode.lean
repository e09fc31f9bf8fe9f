import FlatScript.Json
import FlatScript.Schema.Issue
import FlatScript.Spelled

/-!
# Reading data

The readers of scalars, lists, objects and tagged alternatives, from which the readers of trees are
built.  Scalars are read leniently: whole numbers may come as text or as doubles without a
fraction, and truth values as words or as zero and one.  Fields of an object that its reader does
not ask for are ignored.
-/

namespace FlatScript.Schema

variable {α β : Type}

/-- A reader of data. -/
abbrev Reader (α : Type) := Json → Checked α

/-! ### Scalars -/

/-- Text. -/
def text : Reader String
  | .str s => .ok s
  | _ => .problem .notText

/-- The bound on the whole numbers of a machine word: they are at least `-wordBound` and below
`wordBound`. -/
def wordBound : Int := 9223372036854775808

/-- A whole number.  A double counts as one if it has no fraction and lies strictly between the
bounds of a machine word; other whole numbers may have any size. -/
def whole : Reader Int
  | .int n => .ok n
  | .bool b => .ok (if b then 1 else 0)
  | .real (.finite neg mag _) =>
    let n := Double.signed neg (mag / unitsPerOne)
    if mag % unitsPerOne ≠ 0 then .problem .hasFraction
    else if -wordBound < n ∧ n < wordBound then .ok n
    else .problem .oversizedWhole
  | .real _ => .problem .notFinite
  | .str s =>
    match Whole.read s with
    | .number n => .ok n
    | .overlong => .problem .oversizedWhole
    | .unreadable => .problem .unreadableWhole
  | _ => .problem .notWhole

/-- The words for the truth values. -/
def truthWords : List (String × Bool) :=
  [("1", true), ("on", true), ("t", true), ("true", true), ("y", true), ("yes", true),
    ("0", false), ("off", false), ("f", false), ("false", false), ("n", false), ("no", false)]

/-- A truth value from a whole number. -/
def truthOfInt (n : Int) : Checked Bool :=
  if n = 0 then .ok false else if n = 1 then .ok true else .problem .unreadableTruth

/-- A truth value.  A number outside a machine word is not even an unreadable one. -/
def truth : Reader Bool
  | .bool b => .ok b
  | .int n => if -wordBound ≤ n ∧ n < wordBound then truthOfInt n else .problem .notTruth
  | .real (.finite neg mag _) =>
    let n := Double.signed neg (mag / unitsPerOne)
    if mag % unitsPerOne = 0 ∧ -wordBound < n ∧ n < wordBound then truthOfInt n
    else .problem .notTruth
  | .str s =>
    match truthWords.lookup (String.ofList (s.toList.map Char.toLower)) with
    | some b => .ok b
    | none => .problem .unreadableTruth
  | _ => .problem .notTruth

/-- One of the listed alternatives, by its word. -/
def among [Spelled α] (options : List α) : Reader α := fun j =>
  let found := match j with
    | .str s => Spelled.among? options s
    | _ => none
  match found with
  | some a => .ok a
  | none => .problem (.notAmong (options.map Spelled.spell))

/-- Any alternative of a closed set, by its word. -/
def word [Spelled α] : Reader α := among Spelled.all

/-! ### Lists and absent data -/

/-- The items of a list, at their positions from `i` on. -/
def items (read : Reader α) (i : Nat) : List Json → Checked (List α)
  | [] => .ok []
  | j :: js => List.cons <$> (read j).under (.index i) <*> items read (i + 1) js

/-- A list. -/
def list (read : Reader α) : Reader (List α)
  | .arr js => items read 0 js
  | _ => .problem .notList

/-- A list of fixed members of a record. -/
def tuple (read : Reader α) : Reader (List α)
  | .arr js => items read 0 js
  | _ => .problem .notTuple

/-- Data that may be null. -/
def nullable (read : Reader α) : Reader (Option α)
  | .null => .ok none
  | j => some <$> read j

/-! ### Objects -/

/-- The fields of an object. -/
abbrev Fields := List (String × Json)

/-- A field that must be present. -/
def required (fields : Fields) (name : String) (read : Reader α) : Checked α :=
  match fields.lookup name with
  | some j => (read j).under (.key name)
  | none => (Checked.problem .missing).under (.key name)

/-- A field that may be absent. -/
def optional (fields : Fields) (name : String) (default : α) (read : Reader α) : Checked α :=
  match fields.lookup name with
  | some j => (read j).under (.key name)
  | none => .ok default

/-- An object of a class. -/
def object (className : String) (read : Fields → Checked α) : Reader α
  | .obj fields => read fields
  | _ => .problem (.notObject className)

/-- The kind name of an object of one class, which may be absent. -/
def kindIs (kind : String) : Reader Unit
  | .str s => if s = kind then .ok () else .problem (.otherKind kind)
  | _ => .problem (.otherKind kind)

/-- An object of a class that has a kind name. -/
def node (className kind : String) (read : Fields → Checked α) : Reader α :=
  object className fun fields =>
    (fun _ a => a) <$> optional fields "kind" () (kindIs kind) <*> read fields

/-! ### Alternatives -/

/-- The alternative that a kind name chooses, under that name. -/
def chosen? (options : List (String × Reader α)) : Json → Option (String × Reader α)
  | .str kind => (options.lookup kind).map fun read => (kind, read)
  | _ => none

theorem chosen?_eq_some_iff {options : List (String × Reader α)} {j : Json} {kind : String}
    {read : Reader α} :
    chosen? options j = some (kind, read) ↔ j = .str kind ∧ options.lookup kind = some read := by
  cases j with
  | str s =>
    simp only [chosen?, Option.map_eq_some_iff, Prod.mk.injEq, Json.str.injEq]
    constructor
    · rintro ⟨_, hread, rfl, rfl⟩
      exact ⟨rfl, hread⟩
    · rintro ⟨rfl, hread⟩
      exact ⟨read, hread, rfl, rfl⟩
  | _ => simp [chosen?]

theorem chosen?_eq_none_iff {options : List (String × Reader α)} {j : Json} :
    chosen? options j = none ↔ ∀ kind, j = .str kind → options.lookup kind = none := by
  cases j <;> simp [chosen?]

/-- One of several classes, chosen by the kind name, which is added to the path.  A kind that
chooses no class is shown, whatever data it is. -/
def union (options : List (String × Reader α)) : Reader α
  | .obj fields =>
    match fields.lookup "kind" with
    | none => .problem .noKind
    | some j =>
      match chosen? options j with
      | some (kind, read) => (read (.obj fields)).under (.key kind)
      | none => .problem (.unknownKind j.shown (options.map Prod.fst))
  | _ => .problem .notAnyObject

end FlatScript.Schema
