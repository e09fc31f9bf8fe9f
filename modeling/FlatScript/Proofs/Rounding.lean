import FlatScript.Decimal.Basic
import Mathlib.Algebra.Order.Field.Rat
import Mathlib.Tactic.Ring

/-!
# Rounding depends on the value alone

`Double.ofRatio` rounds a ratio of whole numbers, and `Double.ofDecimal` answers decimals of extreme
exponents without computing a power of ten.  Neither choice can be seen in the result.

* `nearestMagnitude_congr`, `Double.ofRatio_congr` : ratios of the same value round alike;
* `Double.ofRatio_of_representable` : a representable magnitude rounds to itself;
* `Decimal.magnitude` : the exact value of a decimal, without its sign;
* `Double.ofDecimal_eq_ofRatio` : **a decimal is rounded like every ratio of its value**, the
  shortcuts for large and for small decimals included.
-/

namespace FlatScript

-- Powers are those of `Nat` itself, whatever else is loaded.
attribute [local instance (2000)] instPowNat

/-! ### Ratios of the same value -/

theorem nearestQuotient_mul {c : Nat} (hc : 0 < c) (num den : Nat) :
    nearestQuotient (num * c) (den * c) = nearestQuotient num den := by
  have hdouble : 2 * (num % den * c) = 2 * (num % den) * c := (Nat.mul_assoc _ _ _).symm
  simp only [nearestQuotient, Nat.mul_div_mul_right num den hc, Nat.mul_mod_mul_right, hdouble,
    Nat.mul_lt_mul_right hc, Nat.mul_left_inj hc.ne']

theorem nearestMagnitude_mul {c : Nat} (hc : 0 < c) (num den : Nat) :
    nearestMagnitude (num * c) (den * c) = nearestMagnitude num den := by
  simp only [nearestMagnitude, Nat.mul_div_mul_right num den hc]
  rw [Nat.mul_right_comm den c, nearestQuotient_mul hc]

theorem nearestMagnitude_congr {a b c d : Nat} (hb : 0 < b) (hd : 0 < d) (h : a * d = c * b) :
    nearestMagnitude a b = nearestMagnitude c d :=
  calc nearestMagnitude a b
      = nearestMagnitude (a * d) (b * d) := (nearestMagnitude_mul hd a b).symm
    _ = nearestMagnitude (c * b) (d * b) := by rw [h, Nat.mul_comm b d]
    _ = nearestMagnitude c d := nearestMagnitude_mul hb c d

/-! ### Magnitudes that need no rounding -/

theorem excessBits_le_of_lt {m t : Nat} (h : m < 2 ^ (precision + t)) : excessBits m ≤ t := by
  rcases Nat.eq_zero_or_pos m with rfl | hpos
  · exact Nat.zero_le t
  · have hlog : m.log2 < precision + t := (Nat.log2_lt hpos.ne').2 h
    unfold excessBits
    omega

/-- The bits that a significand has no room for are zeros. -/
theorem two_pow_excessBits_dvd {m : Nat} (h : Representable m) : 2 ^ excessBits m ∣ m := by
  obtain ⟨-, c, t, hc, rfl⟩ := h
  have hlt : c * 2 ^ t < 2 ^ (precision + t) := by
    rw [Nat.pow_add]
    exact Nat.mul_lt_mul_of_pos_right hc (Nat.two_pow_pos t)
  exact Nat.dvd_mul_left_of_dvd (Nat.pow_dvd_pow 2 (excessBits_le_of_lt hlt)) c

theorem nearestQuotient_of_dvd {num den : Nat} (h : den ∣ num) :
    nearestQuotient num den = num / den := by
  have hmod : num % den = 0 := Nat.mod_eq_zero_of_dvd h
  simp only [nearestQuotient, hmod]
  refine if_neg ?_
  rintro (hlt | ⟨rfl, hodd⟩)
  · omega
  · simp at hodd

theorem nearestMagnitude_of_representable {m : Nat} (h : Representable m) :
    nearestMagnitude m 1 = m := by
  have hdvd := two_pow_excessBits_dvd h
  simp only [nearestMagnitude, Nat.div_one, Nat.one_mul]
  rw [nearestQuotient_of_dvd hdvd, Nat.div_mul_cancel hdvd]

/-! ### Magnitudes that are very large or very small -/

/-- Rounding does not go below a power of two. -/
theorem two_pow_le_nearestMagnitude {n p : Nat} (h : 2 ^ p ≤ n) : 2 ^ p ≤ nearestMagnitude n 1 := by
  have hpos : n ≠ 0 := (Nat.lt_of_lt_of_le (Nat.two_pow_pos p) h).ne'
  have hp : p ≤ n.log2 := (Nat.le_log2 hpos).2 h
  have hbits : excessBits n ≤ n.log2 := by
    have : 0 < precision := by decide
    unfold excessBits
    omega
  have hquotient : 2 ^ (n.log2 - excessBits n) ≤ nearestQuotient n (2 ^ excessBits n) := by
    have hfloor : 2 ^ (n.log2 - excessBits n) ≤ n / 2 ^ excessBits n := by
      rw [Nat.le_div_iff_mul_le (Nat.two_pow_pos _), ← Nat.pow_add, Nat.sub_add_cancel hbits]
      exact Nat.log2_self_le hpos
    refine hfloor.trans ?_
    simp only [nearestQuotient]
    split <;> omega
  simp only [nearestMagnitude, Nat.div_one, Nat.one_mul]
  calc 2 ^ p ≤ 2 ^ n.log2 := Nat.pow_le_pow_right (by decide) hp
    _ = 2 ^ (n.log2 - excessBits n) * 2 ^ excessBits n := by
      rw [← Nat.pow_add, Nat.sub_add_cancel hbits]
    _ ≤ nearestQuotient n (2 ^ excessBits n) * 2 ^ excessBits n :=
      Nat.mul_le_mul_right _ hquotient

theorem nearestMagnitude_of_lt_half {num den : Nat} (h : 2 * num < den) :
    nearestMagnitude num den = 0 := by
  have hdiv : num / den = 0 := Nat.div_eq_of_lt (by omega)
  have hbits : excessBits 0 = 0 := by decide
  have hmod : num % den = num := Nat.mod_eq_of_lt (by omega)
  simp only [nearestMagnitude, hdiv, hbits, Nat.pow_zero, Nat.mul_one, nearestQuotient, hmod]
  refine if_neg ?_
  omega

namespace Double

variable {neg : Bool}

theorem ofRatio_congr {a b c d : Nat} (hb : 0 < b) (hd : 0 < d) (h : a * d = c * b) :
    ofRatio neg a b = ofRatio neg c d := by
  simp only [ofRatio, nearestMagnitude_congr hb hd h]

theorem ofRatio_of_representable {m : Nat} (h : Representable m) :
    ofRatio neg m 1 = finite neg m h := by
  simp only [ofRatio, nearestMagnitude_of_representable h]
  exact dif_pos h.1

/-- The sign takes no part in rounding. -/
theorem ofRatio_eq_finite {neg neg' : Bool} {num den mag : Nat} {h : Representable mag}
    (hratio : ofRatio neg num den = .finite neg' mag h) (sign : Bool) :
    ofRatio sign num den = .finite sign mag h := by
  unfold ofRatio at hratio ⊢
  split_ifs at hratio ⊢ with hlt
  rw [finite.injEq] at hratio ⊢
  exact ⟨rfl, hratio.2⟩

theorem ofRatio_of_le {n : Nat} (h : overflowUnits ≤ n) : ofRatio neg n 1 = infinite neg := by
  unfold ofRatio
  refine dif_neg (Nat.not_lt.2 ?_)
  exact two_pow_le_nearestMagnitude h

theorem ofRatio_of_lt_half {num den : Nat} (h : 2 * num < den) :
    ofRatio neg num den = zeroOf neg := by
  simp only [ofRatio, nearestMagnitude_of_lt_half h]
  exact dif_pos representable_zero.1

end Double

/-! ### Decimals -/

namespace Decimal

/-- The exact value of a decimal, without its sign. -/
def magnitude (d : Decimal) : ℚ := d.digits * 10 ^ d.exponent

/-- The units in a decimal, over its denominator. -/
def numerator (d : Decimal) : Nat := d.digits * 10 ^ d.exponent.toNat * unitsPerOne

/-- The power of ten that a decimal is divided by. -/
def denominator (d : Decimal) : Nat := 10 ^ (-d.exponent).toNat

theorem denominator_pos (d : Decimal) : 0 < d.denominator := Nat.pow_pos (by decide)

theorem numerator_div_denominator (d : Decimal) :
    (d.numerator : ℚ) / d.denominator = d.magnitude * unitsPerOne := by
  have hpower : (10 : ℚ) ^ d.exponent = 10 ^ d.exponent.toNat / 10 ^ (-d.exponent).toNat := by
    rw [← zpow_natCast, ← zpow_natCast, ← zpow_sub₀ (by norm_num)]
    congr 1
    omega
  rw [numerator, denominator, magnitude, hpower]
  push_cast
  ring

end Decimal

namespace Double

/-- The first shortcut of `ofDecimal`: a power of ten beyond the largest double. -/
theorem overflowUnits_le {digits k : Nat} (hdigits : digits ≠ 0) (hk : 308 < k) :
    overflowUnits ≤ digits * 10 ^ k * unitsPerOne := by
  -- the exponent gets a name, so that only the kernel computes the power
  obtain ⟨e, he, htens⟩ : ∃ e, e = 309 ∧ overflowUnits ≤ 10 ^ e * unitsPerOne :=
    ⟨309, rfl, by decide +kernel⟩
  have hpower : 10 ^ e ≤ digits * 10 ^ k :=
    (Nat.pow_le_pow_right (by decide) (by omega)).trans
      (Nat.le_mul_of_pos_left _ (Nat.pos_of_ne_zero hdigits))
  exact htens.trans (Nat.mul_le_mul_right _ hpower)

/-- The second shortcut of `ofDecimal`: less than half a unit. -/
theorem two_mul_lt_ten_pow {digits k : Nat} (h : digits.log2 + unitExponent + 3 < 3 * k) :
    2 * (digits * unitsPerOne) < 10 ^ (k + 1) := by
  have hdigits : digits < 2 ^ (digits.log2 + 1) := Nat.lt_log2_self
  calc 2 * (digits * unitsPerOne)
      < 2 * (2 ^ (digits.log2 + 1) * unitsPerOne) := by
        have hpos : 0 < unitsPerOne := Nat.two_pow_pos unitExponent
        exact Nat.mul_lt_mul_of_pos_left (Nat.mul_lt_mul_of_pos_right hdigits hpos) (by decide)
    _ = 2 ^ (digits.log2 + unitExponent + 2) := by
        rw [unitsPerOne, ← Nat.pow_add, ← Nat.pow_succ']
        exact congrArg (2 ^ ·) (by omega)
    _ ≤ 2 ^ (3 * (k + 1)) := Nat.pow_le_pow_right (by decide) (by omega)
    _ = 8 ^ (k + 1) := Nat.pow_mul 2 3 (k + 1)
    _ ≤ 10 ^ (k + 1) := Nat.pow_le_pow_left (by decide) _

theorem ofDecimal_eq (d : Decimal) : ofDecimal d = ofRatio d.neg d.numerator d.denominator := by
  obtain ⟨neg, digits, exponent⟩ := d
  cases exponent with
  | ofNat k =>
    have hnumerator : Decimal.numerator ⟨neg, digits, .ofNat k⟩ = digits * 10 ^ k * unitsPerOne :=
      rfl
    have hdenominator : Decimal.denominator ⟨neg, digits, .ofNat k⟩ = 1 := by
      simp [Decimal.denominator]
    rw [hnumerator, hdenominator]
    simp only [ofDecimal]
    split_ifs with hzero hlarge
    · subst hzero
      exact (ofRatio_of_lt_half (by simp)).symm
    · exact (ofRatio_of_le (overflowUnits_le hzero hlarge)).symm
    · rfl
  | negSucc k =>
    have hnumerator : Decimal.numerator ⟨neg, digits, .negSucc k⟩ = digits * unitsPerOne := by
      simp [Decimal.numerator]
    have hdenominator : Decimal.denominator ⟨neg, digits, .negSucc k⟩ = 10 ^ (k + 1) := rfl
    rw [hnumerator, hdenominator]
    simp only [ofDecimal]
    split_ifs with hsmall
    · exact (ofRatio_of_lt_half (two_mul_lt_ten_pow hsmall)).symm
    · rfl

theorem digits_ne_zero_of_ofDecimal {d : Decimal} {neg : Bool} {mag : Nat} {h : Representable mag}
    (hd : ofDecimal d = .finite neg mag h) (hmag : mag ≠ 0) : d.digits ≠ 0 := by
  intro hzero
  have hnumerator : d.numerator = 0 := by simp [Decimal.numerator, hzero]
  rw [ofDecimal_eq, hnumerator, ofRatio_of_lt_half d.denominator_pos] at hd
  cases hd
  exact hmag rfl

/-- **A decimal is rounded like every ratio of its value.** -/
theorem ofDecimal_eq_ofRatio {d : Decimal} {num den : Nat} (hden : 0 < den)
    (h : (num : ℚ) / den = d.magnitude * unitsPerOne) : ofDecimal d = ofRatio d.neg num den := by
  rw [ofDecimal_eq]
  refine ofRatio_congr d.denominator_pos hden ?_
  rw [← d.numerator_div_denominator, div_eq_div_iff (by exact_mod_cast hden.ne')
    (by exact_mod_cast d.denominator_pos.ne')] at h
  exact_mod_cast h.symm

end Double

end FlatScript
