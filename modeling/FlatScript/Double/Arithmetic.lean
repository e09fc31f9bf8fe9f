import FlatScript.Double.Basic

/-!
# Arithmetic on doubles

Each operation computes the exact result on magnitudes and rounds once with `Double.ofRatio`:

* `Double.add`, `Double.sub`, `Double.mul` and `Double.div` are the four operations, infinities,
  zeros and not-a-number included;
* `Double.rem` is the remainder of the division truncated towards zero; it needs no rounding,
  since the remainder of two magnitudes is representable (`representable_mod`);
* `Double.sqrt` is the square root;
* `Double.approxEq` is equality up to a tolerance.
-/

namespace FlatScript

-- Powers are those of `Nat` itself, whatever else is loaded.
attribute [local instance (2000)] instPowNat

/-! ### The remainder of two magnitudes -/

theorem exists_eq_mul_of_dvd_of_lt {r b k : Nat} (hd : 2 ^ k ∣ r) {c : Nat} (hc : c < 2 ^ precision)
    (hr : r ≤ b) (hb : b = c * 2 ^ k) : ∃ c' s : Nat, c' < 2 ^ precision ∧ r = c' * 2 ^ s := by
  obtain ⟨q, rfl⟩ := hd
  refine ⟨q, k, ?_, Nat.mul_comm _ _⟩
  rw [hb, Nat.mul_comm c] at hr
  exact Nat.lt_of_le_of_lt (Nat.le_of_mul_le_mul_left hr (Nat.two_pow_pos k)) hc

/-- The remainder of two representable magnitudes is representable: it is a multiple of the
coarser of the two grids' common unit and not larger than the operand on that grid. -/
theorem representable_mod {a b : Nat} (ha : Representable a) (hb : Representable b) :
    Representable (a % b) := by
  refine ⟨Nat.lt_of_le_of_lt (Nat.mod_le a b) ha.1, ?_⟩
  obtain ⟨_, c, s, hc, has⟩ := ha
  obtain ⟨_, d, t, hd, hbt⟩ := hb
  rcases Nat.eq_zero_or_pos b with h0 | hpos
  · subst h0
    rw [Nat.mod_zero]
    exact ⟨c, s, hc, has⟩
  rcases Nat.le_total s t with hst | hts
  · have hb' : 2 ^ s ∣ b := hbt ▸ Nat.dvd_mul_left_of_dvd (Nat.pow_dvd_pow 2 hst) d
    have ha' : 2 ^ s ∣ a := has ▸ Nat.dvd_mul_left _ _
    exact exists_eq_mul_of_dvd_of_lt ((Nat.dvd_mod_iff hb').2 ha') hc (Nat.mod_le a b) has
  · have hb' : 2 ^ t ∣ b := hbt ▸ Nat.dvd_mul_left _ _
    have ha' : 2 ^ t ∣ a := has ▸ Nat.dvd_mul_left_of_dvd (Nat.pow_dvd_pow 2 hts) c
    exact exists_eq_mul_of_dvd_of_lt ((Nat.dvd_mod_iff hb').2 ha') hd
      (Nat.le_of_lt (Nat.mod_lt a hpos)) hbt

namespace Double

/-! ### The four operations -/

/-- The sum.  Two numbers that cancel give the positive zero, two negative zeros the negative
one. -/
def add : Double → Double → Double
  | .nan, _ => .nan
  | _, .nan => .nan
  | .infinite n, .infinite n' => if n = n' then .infinite n else .nan
  | .infinite n, .finite _ _ _ => .infinite n
  | .finite _ _ _, .infinite n' => .infinite n'
  | .finite n mag _, .finite n' mag' _ =>
    let total := signed n mag + signed n' mag'
    if total = 0 then zeroOf (n && n') else ofRatio (total < 0) total.natAbs 1

/-- The difference. -/
def sub (x y : Double) : Double := x.add y.neg

/-- The product; a zero times an infinity is not a number. -/
def mul : Double → Double → Double
  | .nan, _ => .nan
  | _, .nan => .nan
  | .infinite n, .infinite n' => .infinite (n != n')
  | .infinite n, .finite n' mag _ => if mag = 0 then .nan else .infinite (n != n')
  | .finite n mag _, .infinite n' => if mag = 0 then .nan else .infinite (n != n')
  | .finite n mag _, .finite n' mag' _ => ofRatio (n != n') (mag * mag') unitsPerOne

/-- The quotient; a number over a zero is an infinity, and a zero over a zero is not a number. -/
def div : Double → Double → Double
  | .nan, _ => .nan
  | _, .nan => .nan
  | .infinite _, .infinite _ => .nan
  | .infinite n, .finite n' _ _ => .infinite (n != n')
  | .finite n _ _, .infinite n' => zeroOf (n != n')
  | .finite n mag _, .finite n' mag' _ =>
    if mag' = 0 then
      if mag = 0 then .nan else .infinite (n != n')
    else
      ofRatio (n != n') (mag * unitsPerOne) mag'

/-! ### Remainder, square root and approximate equality -/

/-- The remainder of the division truncated towards zero: exact, with the sign of the dividend.
It is not a number for an infinite dividend and for a zero divisor, and the dividend itself for an
infinite divisor. -/
def rem : Double → Double → Double
  | .nan, _ => .nan
  | _, .nan => .nan
  | .infinite _, _ => .nan
  | .finite n mag h, .infinite _ => .finite n mag h
  | .finite n mag h, .finite _ mag' h' =>
    if mag' = 0 then .nan else .finite n (mag % mag') (representable_mod h h')

/-- One descent of Newton's iteration towards the square root of `n`, from a guess above it. -/
def sqrtDescent (n : Nat) : Nat → Nat → Nat
  | 0, guess => guess
  | fuel + 1, guess =>
    let next := (guess + n / guess) / 2
    if next < guess then sqrtDescent n fuel next else guess

/-- The square root rounded down.  The first guess is a power of two above the root and less than
twice it, so the iteration halves its error at least and ends within the bits of `n`. -/
def natSqrt (n : Nat) : Nat := sqrtDescent n (n.log2 + 2) (2 ^ (n.log2 / 2 + 1))

/-- The square root; not a number below zero.  The root of a magnitude has far more bits than a
significand, so a root that is not whole rounds like the whole root and one half more. -/
def sqrt : Double → Double
  | .nan => .nan
  | .infinite n => if n then .nan else .infinite false
  | .finite n mag h =>
    if mag = 0 then .finite n mag h
    else if n then .nan
    else
      let square := mag * unitsPerOne
      let root := natSqrt square
      if root * root = square then ofRatio false root 1 else ofRatio false (2 * root + 1) 2

/-- Whether two numbers differ by less than the tolerance.  An infinity differs from itself by
something that is not a number. -/
def approxEq (x y tolerance : Double) : Bool := ((x.sub y).abs).lt tolerance

end Double

end FlatScript
