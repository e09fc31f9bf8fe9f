import FlatScript.Decimal.Basic

/-!
# The text of a number

A number is written with the fewest decimal digits that read back as the same double, and of those
with the digits nearest to it (`shortest`).  The candidates with `n` digits are the two multiples
of the right power of ten on either side of the number, the nearer one first.

`Double.numeral` lays the digits out: with a point while the exponent is at least -4 and below 16,
and with an exponent otherwise.  `Double.display` writes a whole number as its digits, all of
them and nothing else, and any other number as its numeral.
-/

namespace FlatScript

-- Powers are those of `Nat` itself, whatever else is loaded.
attribute [local instance (2000)] instPowNat

/-! ### Shortest digits -/

/-- The exact decimal digits of a magnitude, scaled by `10 ^ 1074`. -/
def exactDigits (mag : Nat) : Nat := mag * 5 ^ unitExponent

/-- The two numbers of units of `10 ^ drop` on either side of `exact`, the nearer one first and the
even one first when they are equally near. -/
def neighbours (exact drop : Nat) : List Nat :=
  let p := 10 ^ drop
  let low := exact / p
  let r := exact % p
  if 2 * r < p ∨ (2 * r = p ∧ low % 2 = 0) then [low, low + 1] else [low + 1, low]

/-- The candidates that keep `n` of the `width` digits of `exact`. -/
def candidates (exact width n : Nat) : List Decimal :=
  (neighbours exact (width - n)).map fun d => ⟨false, d, (width - n : Nat) - (unitExponent : Int)⟩

/-- The largest number of digits that a double ever needs. -/
def maxDigits : Nat := 17

/-- The shortest decimal that reads back as the magnitude; the exact one if none of the candidates
does. -/
def shortest (mag : Nat) : Decimal :=
  let exact := exactDigits mag
  let width := (Nat.toDigits 10 exact).length
  let readsBack (d : Decimal) : Bool :=
    match Double.ofDecimal d with
    | .finite false m _ => m == mag
    | _ => false
  ((List.range maxDigits).findSome? fun n => (candidates exact width (n + 1)).find? readsBack).getD
    ⟨false, exact, -(unitExponent : Int)⟩

/-! ### Layout -/

/-- The digits with a point: `point` of them stand before it, and zeros fill the gaps. -/
def positional (digits : List Char) (point : Int) : List Char :=
  if point ≤ 0 then '0' :: '.' :: List.replicate (-point).toNat '0' ++ digits
  else if digits.length ≤ point then
    digits ++ List.replicate (point - digits.length).toNat '0' ++ ['.', '0']
  else digits.take point.toNat ++ '.' :: digits.drop point.toNat

/-- The digits with one of them before the point, and a signed exponent of at least two digits. -/
def scientific (digits : List Char) (exponent : Int) : List Char :=
  let size := Nat.toDigits 10 exponent.natAbs
  let fraction := match digits.tail with
    | [] => []
    | ds => '.' :: ds
  digits.take 1 ++ fraction ++ 'e' :: (if exponent < 0 then '-' else '+') ::
    (List.replicate (2 - size.length) '0' ++ size)

/-- The text of a positive decimal, without zeros at the end of its digits. -/
def Decimal.layout (d : Decimal) : List Char :=
  let all := Nat.toDigits 10 d.digits
  let point := all.length + d.exponent
  let digits := (all.reverse.dropWhile (· == '0')).reverse
  if -4 < point ∧ point ≤ 16 then positional digits point else scientific digits (point - 1)

/-- A minus sign for a negative number. -/
def signText (neg : Bool) : String := if neg then "-" else ""

/-- The shortest numeral that reads back as the number; it has a point or an exponent. -/
def Double.numeral : Double → String
  | .nan => "nan"
  | .infinite neg => signText neg ++ "inf"
  | .finite neg mag _ =>
    signText neg ++ if mag = 0 then "0.0" else String.ofList (shortest mag).layout

/-- The text of a number as a value: a whole number is written as its digits, without the sign of
a zero, and any other number as its numeral. -/
def Double.display (x : Double) : String :=
  match x with
  | .finite neg mag _ =>
    if mag = 0 then "0"
    else if mag % unitsPerOne = 0 then
      signText neg ++ String.ofList (Nat.toDigits 10 (mag / unitsPerOne))
    else x.numeral
  | _ => x.numeral

end FlatScript
