import FlatScript.Double.Basic

/-!
# Decimal numbers

A decimal is `digits * 10 ^ exponent` with a sign.  `Double.ofDecimal` is the double nearest to
it, for an exponent of any size: a decimal whose exponent alone puts it beyond the largest double,
or far below the smallest one, is answered without computing the power of ten.
-/

namespace FlatScript

-- Powers are those of `Nat` itself, whatever else is loaded.
attribute [local instance (2000)] instPowNat

/-- The number `digits * 10 ^ exponent`, negated if `neg`. -/
structure Decimal where
  neg : Bool
  digits : Nat
  exponent : Int
  deriving DecidableEq

/-- The number that a list of decimal digits writes, the first digit being the highest. -/
def ofDigits (ds : List Nat) : Nat := ds.foldl (fun n d => 10 * n + d) 0

/-- The double nearest to a decimal.  The first test holds for numbers of at least `10 ^ 309`, and
the second one for numbers below a quarter of the unit. -/
def Double.ofDecimal (d : Decimal) : Double :=
  match d.exponent with
  | .ofNat k =>
    if d.digits = 0 then zeroOf d.neg
    else if 308 < k then .infinite d.neg
    else ofRatio d.neg (d.digits * 10 ^ k * unitsPerOne) 1
  | .negSucc k =>
    if d.digits.log2 + unitExponent + 3 < 3 * k then zeroOf d.neg
    else ofRatio d.neg (d.digits * unitsPerOne) (10 ^ (k + 1))

end FlatScript
