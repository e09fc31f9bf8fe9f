import FlatScript.Decimal.Numeral

/-!
# Whole numbers in text

A *plain* whole number is an optional minus sign and digits without a leading zero (`plain?`).  Text
that is not plain is tidied first (`tidy?`): white space around it, a plus sign, leading zeros, a
fraction of zeros and underscores between digits are dropped, and what is left has to be plain.  A
minus sign may come after the leading zeros as well, so that `0-5` is read like `-5`.

A whole number has at most `maxDigits` digits.  Text that starts plain, as it stands, and goes on
with more digits than that is told apart from text that is no whole number (`Reading`).
-/

namespace FlatScript

namespace Whole

open Text

/-- The largest number of digits. -/
def maxDigits : Nat := 4300

/-! ### Plain whole numbers -/

/-- An optional minus sign at the front, and the rest. -/
def minus : List Char → Bool × List Char
  | '-' :: cs => (true, cs)
  | cs => (false, cs)

/-- Whether digits write a number without a leading zero. -/
def isCanonical : List Nat → Bool
  | [] => false
  | [_] => true
  | d :: _ => d != 0

/-- The number that a sign and digits write. -/
def signed (neg : Bool) (digits : List Nat) : Int :=
  if neg then -(ofDigits digits : Int) else ofDigits digits

/-- The number that plain text writes. -/
def plain? (cs : List Char) : Option Int :=
  let (neg, cs) := minus cs
  match Numeral.asciiRun cs with
  | (digits, []) =>
    if isCanonical digits && digits.length ≤ maxDigits then some (signed neg digits) else none
  | _ => none

/-- Whether text starts like a plain whole number that has too many digits. -/
def isOverlong (cs : List Char) : Bool :=
  let (digits, _) := Numeral.asciiRun (minus cs).2
  isCanonical digits && maxDigits < digits.length

/-! ### Tidying -/

/-- What follows leading zeros, of which `last` is the last character.  Underscores among the zeros
are dropped with them; a zero is kept where nothing or a point follows. -/
def afterZeros (last : Char) : List Char → Option (List Char)
  | [] => some [last]
  | c :: cs =>
    if c = '0' ∨ c = '_' then afterZeros c cs
    else if c = '.' then some (last :: c :: cs)
    else if c = '-' ∨ (asciiDigitValue? c).isSome then some (c :: cs)
    else none

/-- The text without leading zeros; it has to start with a digit. -/
def dropZeros : List Char → Option (List Char)
  | [] => none
  | c :: cs =>
    if c = '0' then afterZeros c cs
    else if (asciiDigitValue? c).isSome then some (c :: cs)
    else none

/-- The text without a point and zeros after it; there has to be a zero. -/
def dropZeroFraction (cs : List Char) : List Char :=
  match cs.span (· ≠ '.') with
  | (whole, '.' :: zero :: zeros) => if (zero :: zeros).all (· = '0') then whole else cs
  | _ => cs

/-- Whether two underscores stand next to each other. -/
def hasUnderscorePair : List Char → Bool
  | c :: d :: cs => (c == '_' && d == '_') || hasUnderscorePair (d :: cs)
  | _ => false

/-- The text without underscores, if all of them stand alone and inside. -/
def dropUnderscores (cs : List Char) : List Char :=
  if cs.head? = some '_' ∨ cs.getLast? = some '_' ∨ hasUnderscorePair cs then cs
  else cs.filter (· ≠ '_')

/-- The plain form of text, if it starts with digits after white space and a sign. -/
def tidy? (cs : List Char) : Option (List Char) :=
  let (neg, cs) := Numeral.sign (trim isWhiteSpace cs)
  (dropZeros cs).map fun cs =>
    let cs := dropUnderscores (dropZeroFraction cs)
    if neg then '-' :: cs else cs

/-! ### Reading -/

/-- What text is as a whole number. -/
inductive Reading where
  /-- A whole number. -/
  | number (value : Int)
  /-- The start of a whole number with too many digits. -/
  | overlong
  /-- No whole number. -/
  | unreadable
  deriving DecidableEq

/-- Read text as a whole number. -/
def read (text : String) : Reading :=
  let cs := text.toList
  match plain? cs with
  | some n => .number n
  | none =>
    if isOverlong cs then .overlong
    else
      match (tidy? cs).bind plain? with
      | some n => .number n
      | none => .unreadable

end Whole

end FlatScript
