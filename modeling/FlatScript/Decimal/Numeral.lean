import FlatScript.Decimal.Basic
import FlatScript.Text.Blank
import FlatScript.Text.Digit

/-!
# Numerals

A numeral is a sign, digits with an optional point among or around them, and an optional exponent.
One scanner reads it (`Numeral.scan`), given the rule for a run of digits:

* `asciiRun` takes ASCII digits only: the rule for *numeric text* (`isNumericText`);
* `groupedRun` allows a single underscore between two digits, and with the digits of all scripts
  it is the rule for *numerals* (`Double.read?`), which may also be a word for an infinity or for
  not-a-number.

The two differ in the white space they allow around them as well, see `FlatScript.Text.Blank`.
-/

namespace FlatScript

namespace Numeral

open Text

/-! ### Runs of digits -/

/-- The ASCII digits at the front, and the rest. -/
def asciiRun : List Char → List Nat × List Char
  | [] => ([], [])
  | c :: cs =>
    match asciiDigitValue? c with
    | some d => let (ds, rest) := asciiRun cs; (d :: ds, rest)
    | none => ([], c :: cs)

/-- The digits at the front, of the scripts that `value?` knows, and the rest.  After a digit, one
underscore is skipped if another digit follows it. -/
def groupedRun (value? : Char → Option Nat) (afterDigit : Bool) : List Char → List Nat × List Char
  | [] => ([], [])
  | c :: cs =>
    match value? c with
    | some d => let (ds, rest) := groupedRun value? true cs; (d :: ds, rest)
    | none =>
      if afterDigit && c == '_' && (cs.head?.bind value?).isSome then groupedRun value? false cs
      else ([], c :: cs)

/-! ### The scanner -/

/-- An optional sign at the front: whether it is a minus, and the rest. -/
def sign : List Char → Bool × List Char
  | '-' :: cs => (true, cs)
  | '+' :: cs => (false, cs)
  | cs => (false, cs)

/-- An optional point and the digits after it. -/
def fraction (run : List Char → List Nat × List Char) : List Char → List Nat × List Char
  | '.' :: cs => run cs
  | cs => ([], cs)

/-- An optional exponent, which ends the numeral. -/
def exponent? (run : List Char → List Nat × List Char) : List Char → Option Int
  | [] => some 0
  | c :: cs =>
    if c = 'e' ∨ c = 'E' then
      let (neg, cs) := sign cs
      match run cs with
      | (d :: ds, []) =>
        let n := ofDigits (d :: ds)
        some (if neg then -(n : Int) else n)
      | _ => none
    else none

/-- The decimal that the whole text writes, given the rule for a run of digits. -/
def scan (run : List Char → List Nat × List Char) (cs : List Char) : Option Decimal :=
  let (neg, cs) := sign cs
  let (whole, cs) := run cs
  let (part, cs) := fraction run cs
  if whole ++ part = [] then none
  else (exponent? run cs).map fun e => ⟨neg, ofDigits (whole ++ part), e - part.length⟩

/-- The words for the numbers that no digits write, in any case and with an optional sign. -/
def word? (cs : List Char) : Option Double :=
  let (neg, cs) := sign cs
  let name := String.ofList (cs.map Char.toLower)
  if name = "inf" ∨ name = "infinity" then some (.infinite neg)
  else if name = "nan" then some .nan
  else none

end Numeral

open Text

/-- Whether text, apart from blanks around it, is a numeral in ASCII digits without underscores. -/
def isNumericText (text : String) : Bool :=
  (Numeral.scan Numeral.asciiRun (trim isBlank text.toList)).isSome

/-- The number that a numeral stands for, rounded to the nearest double. -/
def Double.read? (text : String) : Option Double :=
  let cs := trim isWhiteSpace text.toList
  match Numeral.scan (Numeral.groupedRun digitValue? false) cs with
  | some d => some (Double.ofDecimal d)
  | none => Numeral.word? cs

end FlatScript
