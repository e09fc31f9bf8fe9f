import FlatScript.Eval.Expr
import FlatScript.Proofs.Host
import Mathlib.Data.Rat.Floor

/-!
# The exact remainder

`Double.rem` works on magnitudes, which are whole numbers of units.  Here its result is read as a
rational number and compared with the division of rationals: nothing is ever rounded, however far
apart the exponents of the operands are.

* `Double.toRat` : the exact value of a finite double;
* `truncated` : a rational truncated towards zero;
* `Double.toRat_rem` : **the remainder of `x` by `y` is exactly `x - y * truncated (x / y)`**;
* `Double.rem_eq_nan_iff` : when it is not a number;
* `Double.rem_exact` : the two together with the size and the sign of the result, and that no host
  refuses to compute it.
-/

namespace FlatScript

-- Powers are those of `Nat` itself, whatever else is loaded.
attribute [local instance (2000)] instPowNat

/-! ### Truncation -/

/-- The rational without its fraction: the next whole number towards zero. -/
def truncated (q : ℚ) : ℤ := if 0 ≤ q then ⌊q⌋ else ⌈q⌉

theorem truncated_neg (q : ℚ) : truncated (-q) = -truncated q := by
  rcases lt_trichotomy q 0 with h | rfl | h
  · rw [truncated, if_pos (by simpa using h.le), truncated, if_neg h.not_ge, Int.floor_neg]
  · simp [truncated]
  · rw [truncated, if_neg (by simpa using h), truncated, if_pos h.le, Int.ceil_neg]

theorem truncated_intCast (k : ℤ) : truncated k = k := by
  simp [truncated]

theorem truncated_natCast_div (a b : Nat) : truncated ((a : ℚ) / b) = (a / b : Nat) := by
  rw [truncated, if_pos (by positivity), Rat.floor_natCast_div_natCast, Int.natCast_div]

namespace Double

/-! ### Values -/

/-- Whether the number is finite. -/
def isFinite : Double → Bool
  | .finite _ _ _ => true
  | _ => false

/-- Whether the number has a negative sign, which a zero can have as well. -/
def isNegative : Double → Bool
  | .nan => false
  | .infinite neg => neg
  | .finite neg _ _ => neg

/-- The exact value of a finite number. -/
def toRat : Double → ℚ
  | .finite neg mag _ => (signed neg mag : ℚ) / unitsPerOne
  | _ => 0

theorem unitsPerOne_pos : (0 : ℚ) < unitsPerOne := by
  have : 0 < unitsPerOne := Nat.two_pow_pos unitExponent
  exact_mod_cast this

theorem abs_signed (neg : Bool) (mag : Nat) : |(signed neg mag : ℚ)| = mag := by
  cases neg <;> simp [signed]

theorem abs_toRat_finite (neg : Bool) {mag : Nat} (h : Representable mag) :
    |(finite neg mag h).toRat| = mag / unitsPerOne := by
  rw [toRat, abs_div, abs_signed, abs_of_pos unitsPerOne_pos]

theorem eq_zeroOf_of_toRat {x : Double} (hx : x.isFinite = true) (h : x.toRat = 0) :
    x = zeroOf x.isNegative := by
  cases x with
  | finite neg mag hrep =>
    have habs : (mag : ℚ) / unitsPerOne = 0 := by
      rw [← abs_toRat_finite neg hrep, h, abs_zero]
    have hmag : (mag : ℚ) = 0 := (div_eq_zero_iff.1 habs).resolve_right unitsPerOne_pos.ne'
    obtain rfl : mag = 0 := Nat.cast_eq_zero.1 hmag
    rfl
  | _ => cases hx

/-! ### The remainder -/

/-- The quotient of two magnitudes with signs, truncated. -/
theorem truncated_signed_div (neg neg' : Bool) (a b : Nat) :
    truncated ((signed neg a : ℚ) / signed neg' b) = signed (neg != neg') (a / b) := by
  have hquotient := truncated_natCast_div a b
  cases neg <;> cases neg' <;>
    simp only [signed, Int.cast_neg, Int.cast_natCast, neg_div, div_neg, neg_neg, truncated_neg,
      hquotient, bne_self_eq_false, Bool.false_eq_true, if_true, if_false, Bool.true_bne,
      Bool.false_bne, Bool.not_false]

theorem signed_mod (neg neg' : Bool) (a b : Nat) :
    signed neg (a % b) = signed neg a - signed neg' b * signed (neg != neg') (a / b) := by
  have hdivision : (a % b : ℤ) = a - b * (a / b) := Int.emod_def a b
  cases neg <;> cases neg' <;> simp [signed, hdivision] <;> ring

section Finite

variable {x y : Double} (hx : x.isFinite = true) (hy : y.isFinite = true)
  (hzero : y.isZero = false)

include hx hy hzero

/-- What the remainder of finite numbers is made of. -/
theorem rem_cases : ∃ neg a ha neg' b hb, x = finite neg a ha ∧ y = finite neg' b hb ∧ b ≠ 0 ∧
    x.rem y = finite neg (a % b) (representable_mod ha hb) := by
  cases x with
  | finite neg a ha =>
    cases y with
    | finite neg' b hb =>
      have hb0 : b ≠ 0 := by simpa [isZero] using hzero
      exact ⟨neg, a, ha, neg', b, hb, rfl, rfl, hb0, if_neg hb0⟩
    | _ => cases hy
  | _ => cases hx

theorem toRat_rem : (x.rem y).toRat = x.toRat - y.toRat * truncated (x.toRat / y.toRat) := by
  obtain ⟨neg, a, ha, neg', b, hb, rfl, rfl, hb0, hrem⟩ := rem_cases hx hy hzero
  have hquotient : (finite neg a ha).toRat / (finite neg' b hb).toRat =
      (signed neg a : ℚ) / signed neg' b := by
    rw [toRat, toRat, div_div_div_cancel_right₀ unitsPerOne_pos.ne']
  rw [hquotient, truncated_signed_div, hrem, toRat, toRat, toRat, signed_mod neg neg']
  push_cast
  ring

theorem abs_toRat_rem : |(x.rem y).toRat| < |y.toRat| ∧ |(x.rem y).toRat| ≤ |x.toRat| := by
  obtain ⟨neg, a, ha, neg', b, hb, rfl, rfl, hb0, hrem⟩ := rem_cases hx hy hzero
  have hlt : a % b < b := Nat.mod_lt a (Nat.pos_of_ne_zero hb0)
  have hle : a % b ≤ a := Nat.mod_le a b
  rw [hrem, abs_toRat_finite, abs_toRat_finite, abs_toRat_finite,
    div_lt_div_iff_of_pos_right unitsPerOne_pos, div_le_div_iff_of_pos_right unitsPerOne_pos]
  exact ⟨by exact_mod_cast hlt, by exact_mod_cast hle⟩

/-- The remainder of finite numbers is finite and has the sign of the dividend. -/
theorem isNegative_rem : (x.rem y).isFinite = true ∧ (x.rem y).isNegative = x.isNegative := by
  obtain ⟨neg, a, ha, neg', b, hb, rfl, rfl, hb0, hrem⟩ := rem_cases hx hy hzero
  rw [hrem]
  exact ⟨rfl, rfl⟩

/-- A dividend that is divided evenly leaves a zero of its own sign. -/
theorem rem_eq_zeroOf {k : ℤ} (hk : x.toRat = k * y.toRat) : x.rem y = zeroOf x.isNegative := by
  obtain ⟨hfinite, hsign⟩ := isNegative_rem hx hy hzero
  have hy0 : y.toRat ≠ 0 := by
    -- the divisor is larger than the remainder
    have hlt := (abs_toRat_rem hx hy hzero).1
    exact abs_pos.1 ((abs_nonneg _).trans_lt hlt)
  have hrem : (x.rem y).toRat = 0 := by
    rw [toRat_rem hx hy hzero, hk, mul_div_cancel_right₀ _ hy0, truncated_intCast]
    ring
  rw [eq_zeroOf_of_toRat hfinite hrem, hsign]

end Finite

theorem rem_eq_nan_iff {x y : Double} :
    x.rem y = .nan ↔ x = .nan ∨ x.isInfinite = true ∨ y = .nan ∨ y.isZero = true := by
  cases x with
  | nan => simp [rem]
  | infinite neg => cases y <;> simp [rem, isInfinite]
  | finite neg a ha =>
    cases y with
    | nan => simp [rem]
    | infinite neg' => simp [rem, isInfinite, isZero]
    | finite neg' b hb =>
      by_cases hb0 : b = 0
      · simp [rem, isZero, hb0]
      · simp [rem, isZero, isInfinite, hb0]

theorem rem_of_isInfinite {x y : Double} (hx : x.isFinite = true) (hy : y.isInfinite = true) :
    x.rem y = x := by
  cases x with
  | finite neg a ha =>
    cases y with
    | infinite neg' => rfl
    | _ => cases hy
  | _ => cases hx

/-- **The remainder is exact.**  It is computed for every two numbers, also by a host that refuses
an infinite dividend and a zero divisor; it is not a number exactly for those two and where an
operand is not a number; and on finite numbers it is what the division of rationals, truncated
towards zero, leaves of the dividend, with the dividend's sign even if that is a zero. -/
theorem rem_exact (x y : Double) :
    (∀ host : Host, host.rem? x y ≠ none) ∧ Host.strict.rem? x y = some (x.rem y) ∧
    ArithOp.rem.apply x y = .ok (x.rem y) ∧
    (x.rem y = .nan ↔ x = .nan ∨ x.isInfinite = true ∨ y = .nan ∨ y.isZero = true) ∧
    (x.isFinite = true → y.isFinite = true → y.isZero = false →
      (x.rem y).isFinite = true ∧
      (x.rem y).toRat = x.toRat - y.toRat * truncated (x.toRat / y.toRat) ∧
      |(x.rem y).toRat| < |y.toRat| ∧ |(x.rem y).toRat| ≤ |x.toRat| ∧
      (x.rem y).isNegative = x.isNegative ∧
      ((∃ k : ℤ, x.toRat = k * y.toRat) → x.rem y = zeroOf x.isNegative)) ∧
    (x.isFinite = true → y.isInfinite = true → x.rem y = x) := by
  refine ⟨fun host => host.rem?_ne_none x y, Host.strict_rem? x y, rfl, rem_eq_nan_iff, ?_,
    rem_of_isInfinite⟩
  intro hx hy hzero
  obtain ⟨hfinite, hsign⟩ := isNegative_rem hx hy hzero
  obtain ⟨hlt, hle⟩ := abs_toRat_rem hx hy hzero
  exact ⟨hfinite, toRat_rem hx hy hzero, hlt, hle, hsign,
    fun ⟨_, hk⟩ => rem_eq_zeroOf hx hy hzero hk⟩

/-- The magnitude of the largest double. -/
def largestMagnitude : Nat := (2 ^ precision - 1) * 2 ^ (overflowExponent - precision)

theorem representable_largestMagnitude : Representable largestMagnitude :=
  representable_of_le _ (Nat.sub_le _ 1) (by decide +kernel)

theorem representable_of_lt {n : Nat} (h : n < 2 ^ precision) : Representable n := by
  have hoverflow : 2 ^ precision ≤ overflowUnits := by decide +kernel
  exact ⟨h.trans_le hoverflow, n, 0, h, by simp⟩

/-- The largest double, negated, by three units of the smallest: more than two thousand binary
places apart, with a subnormal result; and by one unit, which divides it evenly. -/
theorem rem_exact_of_extremes :
    let x := finite true largestMagnitude representable_largestMagnitude
    let units (n : Nat) (h : n < 2 ^ precision) := finite false n (representable_of_lt h)
    x.rem (units 3 (by decide)) = (units 2 (by decide)).neg ∧
    (units 2 (by decide)).neg.toRat =
      x.toRat - (units 3 (by decide)).toRat * truncated (x.toRat / (units 3 (by decide)).toRat) ∧
    x.rem (units 1 (by decide)) = zeroOf true := by
  intro x units
  have hrem : x.rem (units 3 (by decide)) = (units 2 (by decide)).neg := by
    have hmod : largestMagnitude % 3 = 2 := by decide +kernel
    simp only [x, units, rem, neg, hmod]
    exact if_neg (by decide)
  obtain ⟨-, -, -, -, hthree, -⟩ := rem_exact x (units 3 (by decide))
  obtain ⟨-, -, -, -, hone, -⟩ := rem_exact x (units 1 (by decide))
  obtain ⟨-, hvalue, -⟩ := hthree rfl rfl rfl
  obtain ⟨-, -, -, -, -, heven⟩ := hone rfl rfl rfl
  rw [hrem] at hvalue
  refine ⟨hrem, hvalue, heven ⟨-largestMagnitude, ?_⟩⟩
  simp only [x, units, toRat, signed]
  push_cast
  ring

end Double

end FlatScript
