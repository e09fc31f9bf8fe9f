import FlatScript.Decimal.Shortest
import FlatScript.Decimal.Whole
import FlatScript.Text.Quoted

/-!
# Structured data

`Json` is the data that trees are read from and written to: scalars, arrays and objects.  Numbers
come in two forms, unbounded whole numbers and doubles.  The fields of an object have an order,
which shows only where the object is part of a message (`Json.shown`).
-/

namespace FlatScript

/-- Structured data. -/
inductive Json where
  | null
  | bool (value : Bool)
  | int (value : Int)
  | real (value : Double)
  | str (value : String)
  | arr (items : List Json)
  | obj (fields : List (String × Json))
  deriving Inhabited

namespace Json

mutual

/-- The number of levels of nesting, one for a scalar. -/
def depth : Json → Nat
  | .arr items => depthItems items + 1
  | .obj fields => depthFields fields + 1
  | _ => 1

/-- The largest depth of the items. -/
def depthItems : List Json → Nat
  | [] => 0
  | j :: rest => max j.depth (depthItems rest)

/-- The largest depth of the values of the fields. -/
def depthFields : List (String × Json) → Nat
  | [] => 0
  | (_, j) :: rest => max j.depth (depthFields rest)

end

mutual

/-- Whether two pieces of data are the same, the order of fields included. -/
def same : Json → Json → Bool
  | .null, .null => true
  | .bool a, .bool b => a == b
  | .int a, .int b => a == b
  | .real a, .real b => a == b
  | .str a, .str b => a == b
  | .arr as, .arr bs => sameItems as bs
  | .obj as, .obj bs => sameFields as bs
  | _, _ => false

/-- Whether two lists have the same items. -/
def sameItems : List Json → List Json → Bool
  | [], [] => true
  | a :: as, b :: bs => a.same b && sameItems as bs
  | _, _ => false

/-- Whether two lists have the same fields. -/
def sameFields : List (String × Json) → List (String × Json) → Bool
  | [], [] => true
  | (k, a) :: as, (l, b) :: bs => k == l && a.same b && sameFields as bs
  | _, _ => false

end

/-- Data that may be absent; null if it is. -/
def ofOption {α : Type} (f : α → Json) : Option α → Json
  | none => .null
  | some a => f a

/-! ### Data in messages -/

mutual

/-- The data as it is written inside other data, where text is quoted.  A whole number with too many
digits cannot be written, and neither can anything that holds one. -/
def written? : Json → Option String
  | .null => some "None"
  | .bool b => some (if b then "True" else "False")
  | .int n =>
    if (Nat.toDigits 10 n.natAbs).length ≤ Whole.maxDigits then some (toString n) else none
  | .real x => some x.numeral
  | .str s => some (Text.quoted s)
  | .arr items => (writtenItems? items).map fun ws => "[" ++ ", ".intercalate ws ++ "]"
  | .obj fields => (writtenFields? fields).map fun ws => "\x7b" ++ ", ".intercalate ws ++ "\x7d"

/-- The items of a list, each as it is written. -/
def writtenItems? : List Json → Option (List String)
  | [] => some []
  | j :: rest => do return (← j.written?) :: (← writtenItems? rest)

/-- The fields of an object, each as it is written. -/
def writtenFields? : List (String × Json) → Option (List String)
  | [] => some []
  | (k, j) :: rest => do
    return (Text.quoted k ++ ": " ++ (← j.written?)) :: (← writtenFields? rest)

end

/-- The name of the sort of data. -/
def sortName : Json → String
  | .null => "NoneType"
  | .bool _ => "bool"
  | .int _ => "int"
  | .real _ => "float"
  | .str _ => "str"
  | .arr _ => "list"
  | .obj _ => "dict"

/-- The data as it is shown in a message: text as it stands, and other data as it is written, or
as what it is if it cannot be written. -/
def shown : Json → String
  | .str s => s
  | j => j.written?.getD ("<unprintable " ++ j.sortName ++ " object>")

example : shown (.obj [("a", .arr [.null, .bool true, .str "it's"]), ("b", .int (-3))]) =
    "\x7b'a': [None, True, \"it's\"], 'b': -3\x7d" := by decide +kernel

end Json

end FlatScript
