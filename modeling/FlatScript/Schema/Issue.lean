/-!
# Issues found in data

An `Issue` is a problem with a piece of data and the path to it.  `Checked` is the result of
reading data: a value, or all the issues in the order of the fields.  Readings are combined so that
the issues of both parts are kept (`Checked.seq`), unlike in `Except`.
-/

namespace FlatScript

/-- One step of a path into data. -/
inductive Step where
  | key (name : String)
  | index (i : Nat)
  deriving DecidableEq

/-- What is wrong with a piece of data. -/
inductive Problem where
  | missing
  | notText
  | notWhole
  | hasFraction
  | notFinite
  | unreadableWhole
  /-- A whole number that is too large for the form it comes in. -/
  | oversizedWhole
  | notTruth
  | unreadableTruth
  | notList
  | notTuple
  /-- None of the listed words. -/
  | notAmong (options : List String)
  /-- A kind name other than the only one allowed. -/
  | otherKind (kind : String)
  /-- No object where an object of a class is expected. -/
  | notObject (className : String)
  /-- No object where one of several classes is expected. -/
  | notAnyObject
  /-- An object without a kind where the kind name chooses the class. -/
  | noKind
  /-- A kind that chooses no class, as it is shown. -/
  | unknownKind (kind : String) (options : List String)
  /-- The parts are fine and do not fit together. -/
  | inconsistent (message : String)
  deriving DecidableEq

/-- A problem and where it is. -/
structure Issue where
  problem : Problem
  path : List Step := []
  deriving DecidableEq

namespace Problem

/-- The name of the problem. -/
def code : Problem → String
  | .missing => "missing"
  | .notText => "string_type"
  | .notWhole => "int_type"
  | .hasFraction => "int_from_float"
  | .notFinite => "finite_number"
  | .unreadableWhole => "int_parsing"
  | .oversizedWhole => "int_parsing_size"
  | .notTruth => "bool_type"
  | .unreadableTruth => "bool_parsing"
  | .notList => "list_type"
  | .notTuple => "tuple_type"
  | .notAmong _ => "enum"
  | .otherKind _ => "literal_error"
  | .notObject _ => "model_type"
  | .notAnyObject => "model_attributes_type"
  | .noKind => "union_tag_not_found"
  | .unknownKind _ _ => "union_tag_invalid"
  | .inconsistent _ => "value_error"

/-- A word in plain quotes. -/
def quote (word : String) : String := "'" ++ word ++ "'"

/-- The words as alternatives: `'a', 'b' or 'c'`. -/
def alternatives : List String → String
  | [] => ""
  | [w] => quote w
  | [w, v] => quote w ++ " or " ++ quote v
  | w :: ws => quote w ++ ", " ++ alternatives ws

/-- The wording of the problem. -/
def message : Problem → String
  | .missing => "Field required"
  | .notText => "Input should be a valid string"
  | .notWhole => "Input should be a valid integer"
  | .hasFraction => "Input should be a valid integer, got a number with a fractional part"
  | .notFinite => "Input should be a finite number"
  | .unreadableWhole => "Input should be a valid integer, unable to parse string as an integer"
  | .oversizedWhole => "Unable to parse input string as an integer, exceeded maximum size"
  | .notTruth => "Input should be a valid boolean"
  | .unreadableTruth => "Input should be a valid boolean, unable to interpret input"
  | .notList => "Input should be a valid list"
  | .notTuple => "Input should be a valid tuple"
  | .notAmong options => "Input should be " ++ alternatives options
  | .otherKind kind => "Input should be " ++ quote kind
  | .notObject className => "Input should be a valid dictionary or instance of " ++ className
  | .notAnyObject => "Input should be a valid dictionary or object to extract fields from"
  | .noKind => "Unable to extract tag using discriminator 'kind'"
  | .unknownKind kind options =>
    "Input tag " ++ quote kind ++
      " found using 'kind' does not match any of the expected tags: " ++
      ", ".intercalate (options.map quote)
  | .inconsistent message => "Value error, " ++ message

end Problem

/-- The result of reading data: a value, or everything that is wrong. -/
inductive Checked (α : Type) where
  | ok (value : α)
  | bad (issues : List Issue)

namespace Checked

variable {α β : Type}

/-- A single problem with the data itself. -/
def problem (p : Problem) : Checked α := .bad [⟨p, []⟩]

/-- Change the value. -/
def map (f : α → β) : Checked α → Checked β
  | .ok a => .ok (f a)
  | .bad is => .bad is

/-- Combine two readings, keeping the issues of both. -/
def seq : Checked (α → β) → Checked α → Checked β
  | .ok f, .ok a => .ok (f a)
  | .ok _, .bad is => .bad is
  | .bad is, .ok _ => .bad is
  | .bad is, .bad js => .bad (is ++ js)

instance : Applicative Checked where
  pure := .ok
  map f x := x.map f
  seq f x := f.seq (x ())

/-- Check the value of a reading that has no issues. -/
def andThen (x : Checked α) (f : α → Checked β) : Checked β :=
  match x with
  | .ok a => f a
  | .bad is => .bad is

/-- A reading of data that is found at a step from here. -/
def under (step : Step) : Checked α → Checked α
  | .ok a => .ok a
  | .bad is => .bad (is.map fun i => { i with path := step :: i.path })

end Checked

end FlatScript
