import FlatScript.Double.Arithmetic

/-!
# Logarithm, sine and cosine

The elementary functions are computed in fixed point, as whole numbers of `2 ^ (-bits)`, together
with a bound on the truncations made on the way.  The result is an `Enclosure`, an interval that
holds the exact value.  When both of its ends round to the same double, that double is the
correctly rounded value; otherwise the computation is repeated with twice the bits
(`Enclosure.refine`).  Apart from the arguments zero and one, which are answered directly, the
exact values are irrational, so no enclosure stays undecided for ever, and the values of doubles
are decided long before the bound on the number of attempts.
-/

namespace FlatScript

-- Powers are those of `Nat` itself, whatever else is loaded.
attribute [local instance (2000)] instPowNat

/-- The real numbers between `lo * 2 ^ (-bits)` and `hi * 2 ^ (-bits)`. -/
structure Enclosure where
  bits : Nat
  lo : Int
  hi : Int

namespace Enclosure

/-- The enclosure of the reals within `radius` of `mid`, all in multiples of `2 ^ (-bits)`. -/
def around (bits : Nat) (mid : Int) (radius : Nat) : Enclosure :=
  ⟨bits, mid - radius, mid + radius⟩

/-- The double nearest to `n * 2 ^ (-bits)`. -/
def nearest (n : Int) (bits : Nat) : Double :=
  Double.ofRatio (n < 0) (n.natAbs * unitsPerOne) (2 ^ bits)

/-- The double that every real of the enclosure rounds to, if its ends agree on it. -/
def round? (e : Enclosure) : Option Double :=
  let low := nearest e.lo e.bits
  if low = nearest e.hi e.bits then some low else none

/-- Round the value that `compute` encloses, doubling the bits until the enclosure decides. -/
def refine (compute : Nat → Enclosure) : Nat → Nat → Double
  | 0, bits => let e := compute bits; nearest e.lo e.bits
  | attempts + 1, bits =>
    match (compute bits).round? with
    | some x => x
    | none => refine compute attempts (2 * bits)

/-- The number of attempts after the first. -/
def attempts : Nat := 8

end Enclosure

namespace FixedPoint

/-! ### Series -/

/-- The alternating series `power / odd - power / (square * (odd + 2)) + …`, which is the inverse
tangent of `1 / n` for `odd = 1`, `square = n * n` and `power = 2 ^ bits / n`. -/
def arctanSeries (square : Nat) : Nat → Nat → Nat → Int
  | 0, _, _ => 0
  | fuel + 1, odd, power =>
    if power = 0 then 0
    else (power / odd : Nat) - arctanSeries square fuel (odd + 2) (power / square)

/-- The inverse tangent of `1 / n`. -/
def arctanRecip (n bits : Nat) : Int := arctanSeries (n * n) bits 1 (2 ^ bits / n)

/-- The number of extra bits that make up for the truncations of a series. -/
def guardBits : Nat := 32

/-- Half of the circle constant, by Machin's formula. -/
def halfPi (bits : Nat) : Nat :=
  let wide := bits + guardBits
  (8 * arctanRecip 5 wide - 2 * arctanRecip 239 wide).toNat / 2 ^ guardBits

/-- The series `power / odd + power * square / (odd + 2) + …`, which is the inverse hyperbolic
tangent of `power` for `odd = 1` and `square` the square of `power`. -/
def artanhSeries (square bits : Nat) : Nat → Nat → Nat → Nat
  | 0, _, _ => 0
  | fuel + 1, odd, power =>
    if power = 0 then 0
    else power / odd + artanhSeries square bits fuel (odd + 2) (power * square / 2 ^ bits)

/-- The inverse hyperbolic tangent of `t`, for `t` at most one third. -/
def artanh (t bits : Nat) : Nat := artanhSeries (t * t / 2 ^ bits) bits bits 1 t

/-- The natural logarithm of two. -/
def logTwo (bits : Nat) : Nat := 2 * artanh (2 ^ bits / 3) bits

/-- The alternating series with the ratio `square / ((k + 1) * (k + 2))`: the sine of `x` for
`k = 1` and `term = x`, the cosine for `k = 0` and `term = 2 ^ bits`. -/
def angleSeries (square bits : Nat) : Nat → Nat → Nat → Int
  | 0, _, _ => 0
  | fuel + 1, k, term =>
    if term = 0 then 0
    else
      term -
        angleSeries square bits fuel (k + 2) (term * square / 2 ^ bits / ((k + 1) * (k + 2)))

/-! ### Sine and cosine -/

/-- The quarter turns nearest to a magnitude and the angle that is left, which is between minus
and plus an eighth of a turn.  The extra bits keep the error of the quarter turns below one. -/
def reduceAngle (mag bits : Nat) : Nat × Int :=
  let extra := mag.log2 - unitExponent + 2
  let angle := mag * 2 ^ (bits + extra) / unitsPerOne
  let quarter := halfPi (bits + extra)
  let turns := (2 * angle + quarter) / (2 * quarter)
  (turns, ((angle : Int) - turns * quarter) / (2 ^ extra : Nat))

/-- The sine of an angle of at most an eighth of a turn. -/
def sineSmall (angle : Int) (bits : Nat) : Int :=
  let size := angle.natAbs
  let value := angleSeries (size * size / 2 ^ bits) bits bits 1 size
  if angle < 0 then -value else value

/-- The cosine of an angle of at most an eighth of a turn. -/
def cosineSmall (angle : Int) (bits : Nat) : Int :=
  let size := angle.natAbs
  angleSeries (size * size / 2 ^ bits) bits bits 0 (2 ^ bits)

/-- The sine of a magnitude advanced by `shift` quarter turns.  The reduction and each term of the
series lose less than eight multiples of `2 ^ (-bits)`. -/
def sineAfter (shift : Nat) (neg : Bool) (mag bits : Nat) : Enclosure :=
  let (turns, angle) := reduceAngle mag bits
  let value :=
    match (turns + shift) % 4 with
    | 0 => sineSmall angle bits
    | 1 => cosineSmall angle bits
    | 2 => -sineSmall angle bits
    | _ => -cosineSmall angle bits
  .around bits (if neg then -value else value) (8 * bits + 64)

/-- The bits of the first attempt at a sine or cosine: 128 after the first bit of the angle. -/
def angleBits (mag : Nat) : Nat := (unitExponent - mag.log2) + 128

/-! ### Logarithm -/

/-- The natural logarithm of a positive magnitude: with `x = m * 2 ^ e` and `m` between two thirds
and four thirds it is `e * log 2 + 2 * artanh ((m - 1) / (m + 1))`.  Each of the two series loses
less than two multiples of `2 ^ (-bits)` a term, and `e` is below `2 ^ 11`. -/
def logarithm (mag bits : Nat) : Enclosure :=
  let low := mag.log2
  let exponent := if 4 * 2 ^ low ≤ 3 * mag then low + 1 else low
  let power := 2 ^ exponent
  let size := (if mag < power then power - mag else mag - power) * 2 ^ bits / (mag + power)
  let fraction : Int := 2 * artanh size bits
  let whole := (exponent : Int) - unitExponent
  .around bits (whole * logTwo bits + if mag < power then -fraction else fraction) (8192 * bits)

end FixedPoint

namespace Double

open FixedPoint

/-- The natural logarithm: minus infinity at zero, not a number below. -/
def log : Double → Double
  | .nan => .nan
  | .infinite n => if n then .nan else .infinite false
  | .finite n mag _ =>
    if mag = 0 then .infinite true
    else if n then .nan
    else if mag = unitsPerOne then zero
    else Enclosure.refine (logarithm mag) Enclosure.attempts 192

/-- The sine; not a number at the infinities. -/
def sin : Double → Double
  | .nan => .nan
  | .infinite _ => .nan
  | .finite n mag h =>
    if mag = 0 then .finite n mag h
    else Enclosure.refine (sineAfter 0 n mag) Enclosure.attempts (angleBits mag)

/-- The cosine; not a number at the infinities. -/
def cos : Double → Double
  | .nan => .nan
  | .infinite _ => .nan
  | .finite _ mag _ =>
    if mag = 0 then one
    else Enclosure.refine (sineAfter 1 false mag) Enclosure.attempts (angleBits mag)

end Double

end FlatScript
