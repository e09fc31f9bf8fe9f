/-!
# Double-precision numbers

A double is not-a-number, an infinity, or a finite number.  A finite number is a sign and a
magnitude, and the magnitude counts units of `2 ^ (-1074)`, the smallest positive double.  Every
finite double is a whole number of such units, so arithmetic on magnitudes is arithmetic on `Nat`:

* `Representable m` says which magnitudes a double can hold: at most 53 significant bits, and
  below the magnitude `2 ^ 1024`, that is `2 ^ 2098` units;
* `Double.ofRatio` is the only rounding of the library: the double nearest to an exact ratio of
  units, with a tie going to the even significand and too large a result to an infinity;
* `Double.lt` and `Double.le` are the ordering, in which not-a-number is unordered and the two
  zeros are equal.

There is one not-a-number, since nothing can tell two of them apart.
-/

namespace FlatScript

-- Powers are those of `Nat` itself, whatever else is loaded.
attribute [local instance (2000)] instPowNat

/-- A unit is two to minus this power. -/
def unitExponent : Nat := 1074

/-- The number of units in one. -/
def unitsPerOne : Nat := 2 ^ unitExponent

/-- The first magnitude too large for a double is two to this power, in units. -/
def overflowExponent : Nat := 2098

/-- The number of units in the first magnitude that is too large for a double. -/
def overflowUnits : Nat := 2 ^ overflowExponent

/-- The number of bits of a significand. -/
def precision : Nat := 53

/-- A magnitude, in units, that a double holds exactly: a significand of 53 bits times a power of
two, below the overflow threshold. -/
def Representable (m : Nat) : Prop :=
  m < overflowUnits ∧ ∃ c s : Nat, c < 2 ^ precision ∧ m = c * 2 ^ s

/-- A double-precision number. -/
inductive Double where
  /-- Not a number. -/
  | nan
  /-- Positive or negative infinity. -/
  | infinite (neg : Bool)
  /-- The number of magnitude `mag` units, negated if `neg`. -/
  | finite (neg : Bool) (mag : Nat) (representable : Representable mag)
  deriving DecidableEq

/-! ### Rounding -/

/-- The number of low bits of `n` that a significand has no room for. -/
def excessBits (n : Nat) : Nat := n.log2 + 1 - precision

/-- The quotient `num / den` rounded to a whole number, a tie going to the even one. -/
def nearestQuotient (num den : Nat) : Nat :=
  let q := num / den
  let r := num % den
  if den < 2 * r ∨ (den = 2 * r ∧ q % 2 = 1) then q + 1 else q

/-- The magnitude with at most 53 significant bits nearest to `num / den`, a tie going to the even
significand. -/
def nearestMagnitude (num den : Nat) : Nat :=
  let s := excessBits (num / den)
  nearestQuotient num (den * 2 ^ s) * 2 ^ s

theorem div_two_pow_excessBits_lt (n : Nat) : n / 2 ^ excessBits n < 2 ^ precision := by
  have hlt : n < 2 ^ (n.log2 + 1) := Nat.lt_log2_self
  have hle : 2 ^ (n.log2 + 1) ≤ 2 ^ (precision + excessBits n) :=
    Nat.pow_le_pow_right (by decide) (by simp only [excessBits]; omega)
  rw [Nat.div_lt_iff_lt_mul (Nat.two_pow_pos _), ← Nat.pow_add]
  exact Nat.lt_of_lt_of_le hlt hle

theorem nearestQuotient_le (num den : Nat) : nearestQuotient num den ≤ num / den + 1 := by
  simp only [nearestQuotient]
  split <;> omega

/-- A significand that rounds up to a power of two is half of it with one bit more. -/
theorem representable_of_le {c : Nat} (s : Nat) (hc : c ≤ 2 ^ precision)
    (h : c * 2 ^ s < overflowUnits) : Representable (c * 2 ^ s) := by
  refine ⟨h, ?_⟩
  rcases Nat.lt_or_ge c (2 ^ precision) with hlt | hge
  · exact ⟨c, s, hlt, rfl⟩
  · refine ⟨2 ^ (precision - 1), s + 1, Nat.pow_lt_pow_right (by decide) (by decide), ?_⟩
    have hc' : c = 2 ^ precision := Nat.le_antisymm hc hge
    rw [hc', ← Nat.pow_add, ← Nat.pow_add]
    congr 1
    have : 0 < precision := by decide
    omega

theorem representable_nearestMagnitude {num den : Nat}
    (h : nearestMagnitude num den < overflowUnits) : Representable (nearestMagnitude num den) := by
  refine representable_of_le _ ?_ h
  have hq := nearestQuotient_le num (den * 2 ^ excessBits (num / den))
  have hlt := div_two_pow_excessBits_lt (num / den)
  rw [Nat.div_div_eq_div_mul] at hlt
  omega

namespace Double

/-- The double nearest to `num / den` units, negated if `neg`. -/
def ofRatio (neg : Bool) (num den : Nat) : Double :=
  if h : nearestMagnitude num den < overflowUnits then
    .finite neg _ (representable_nearestMagnitude h)
  else
    .infinite neg

theorem representable_zero : Representable 0 :=
  ⟨by unfold overflowUnits; exact Nat.two_pow_pos _, 0, 0, Nat.two_pow_pos _, rfl⟩

/-- The zero of the given sign. -/
def zeroOf (neg : Bool) : Double := .finite neg 0 representable_zero

/-- The positive zero. -/
def zero : Double := zeroOf false

/-- The double nearest to a whole number. -/
def ofInt (n : Int) : Double := ofRatio (n < 0) (n.natAbs * unitsPerOne) 1

/-- The number one. -/
def one : Double := ofInt 1

instance : Inhabited Double := ⟨zero⟩

/-! ### Sign and order -/

/-- A finite double as a signed number of units. -/
def signed (neg : Bool) (mag : Nat) : Int := if neg then -(mag : Int) else mag

/-- Whether the number is one of the two zeros. -/
def isZero : Double → Bool
  | .finite _ mag _ => mag == 0
  | _ => false

/-- The number with the opposite sign. -/
def neg : Double → Double
  | .nan => .nan
  | .infinite n => .infinite !n
  | .finite n mag h => .finite (!n) mag h

/-- The absolute value. -/
def abs : Double → Double
  | .nan => .nan
  | .infinite _ => .infinite false
  | .finite _ mag h => .finite false mag h

/-- Strict order; false as soon as one side is not a number. -/
def lt : Double → Double → Bool
  | .nan, _ => false
  | _, .nan => false
  | .infinite n, .infinite n' => n && !n'
  | .infinite n, .finite _ _ _ => n
  | .finite _ _ _, .infinite n' => !n'
  | .finite n mag _, .finite n' mag' _ => decide (signed n mag < signed n' mag')

/-- Weak order; false as soon as one side is not a number. -/
def le : Double → Double → Bool
  | .nan, _ => false
  | _, .nan => false
  | .infinite n, .infinite n' => n || !n'
  | .infinite n, .finite _ _ _ => n
  | .finite _ _ _, .infinite n' => !n'
  | .finite n mag _, .finite n' mag' _ => decide (signed n mag ≤ signed n' mag')

/-! ### Bit patterns -/

/-- The low 63 bits of the interchange format: the biased exponent followed by the significand
without its leading bit.  The leading bit of a normal number carries into the exponent field. -/
def magnitudeBits (mag : Nat) : Nat :=
  excessBits mag * 2 ^ (precision - 1) + mag / 2 ^ excessBits mag

/-- The position of the sign in the interchange format. -/
def signPosition : Nat := 63

/-- The biased exponent of the infinities. -/
def infinityExponent : Nat := 2047

/-- The bit of the sign. -/
def signBit (neg : Bool) : Nat := if neg then 2 ^ signPosition else 0

/-- The 64 bits of the interchange format, or nothing for not-a-number, which has many. -/
def toBits? : Double → Option Nat
  | .nan => none
  | .infinite n => some (signBit n + infinityExponent * 2 ^ (precision - 1))
  | .finite n mag _ => some (signBit n + magnitudeBits mag)

end Double

end FlatScript
