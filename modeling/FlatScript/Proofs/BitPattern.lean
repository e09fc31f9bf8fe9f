import FlatScript.Proofs.Rounding

/-!
# Doubles as bit patterns

A double is kept as a sign and a number of units.  The interchange format spells it in 64 bits: a
sign, a biased exponent of 11 bits and a fraction of 52 bits.

* `Double.magnitudeOf` : the units that an exponent and a fraction stand for;
* `Double.ofBits` : the double of a bit pattern, with an infinity or not-a-number for the largest
  exponent;
* `Double.toBits?_ofBits` : **the bits of the double of a pattern are the pattern**, so no two
  patterns are the same double, those of not-a-number apart.
-/

namespace FlatScript

-- Powers are those of `Nat` itself, whatever else is loaded.
attribute [local instance (2000)] instPowNat

namespace Double

/-! ### The fields of a pattern -/

/-- The biased exponent of a bit pattern. -/
def exponentField (bits : BitVec 64) : Nat := bits.toNat / 2 ^ (precision - 1) % 2 ^ 11

/-- The fraction of a bit pattern. -/
def fractionField (bits : BitVec 64) : Nat := bits.toNat % 2 ^ (precision - 1)

/-- Whether the sign of a bit pattern is negative. -/
def signField (bits : BitVec 64) : Bool := 2 ^ signPosition ≤ bits.toNat

theorem exponentField_le (bits : BitVec 64) : exponentField bits ≤ infinityExponent :=
  Nat.le_of_lt_succ (Nat.mod_lt _ (by decide))

theorem fractionField_lt (bits : BitVec 64) : fractionField bits < 2 ^ (precision - 1) :=
  Nat.mod_lt _ (by decide)

/-- The three fields make up the pattern. -/
theorem toNat_eq_fields (bits : BitVec 64) :
    bits.toNat = signBit (signField bits) +
      (exponentField bits * 2 ^ (precision - 1) + fractionField bits) := by
  have hlt : bits.toNat < 2 ^ 64 := bits.isLt
  unfold signBit signField exponentField fractionField precision signPosition
  by_cases hsign : 2 ^ 63 ≤ bits.toNat
  · rw [decide_eq_true hsign, if_pos rfl]
    omega
  · rw [decide_eq_false hsign, if_neg Bool.false_ne_true]
    omega

/-! ### Magnitudes -/

/-- The units that an exponent and a fraction stand for.  From the second exponent on there is a
leading bit in front of the fraction, and each exponent doubles the value of the bits. -/
def magnitudeOf (exponent fraction : Nat) : Nat :=
  if exponent = 0 then fraction else (2 ^ (precision - 1) + fraction) * 2 ^ (exponent - 1)

theorem log2_mul_two_pow {c p : Nat} (hlow : 2 ^ p ≤ c) (hhigh : c < 2 ^ (p + 1)) (k : Nat) :
    (c * 2 ^ k).log2 = p + k := by
  have hpos : 0 < c := Nat.lt_of_lt_of_le (Nat.two_pow_pos p) hlow
  rw [Nat.log2_eq_iff (Nat.mul_pos hpos (Nat.two_pow_pos k)).ne', Nat.add_right_comm, Nat.pow_add,
    Nat.pow_add _ _ k]
  exact ⟨Nat.mul_le_mul_right _ hlow, Nat.mul_lt_mul_of_pos_right hhigh (Nat.two_pow_pos k)⟩

section Magnitude

variable {exponent fraction : Nat} (hfraction : fraction < 2 ^ (precision - 1))
include hfraction

theorem representable_magnitudeOf (hexponent : exponent < infinityExponent) :
    Representable (magnitudeOf exponent fraction) := by
  have hleading : 2 ^ (precision - 1) + 2 ^ (precision - 1) = 2 ^ precision := by decide
  unfold magnitudeOf
  split_ifs with hzero
  · have hsmall : 2 ^ (precision - 1) ≤ overflowUnits := by decide +kernel
    exact ⟨by omega, fraction, 0, by omega, by simp⟩
  · have hsignificand : 2 ^ (precision - 1) + fraction < 2 ^ precision := by omega
    refine ⟨?_, _, _, hsignificand, rfl⟩
    have hlargest : overflowUnits = 2 ^ precision * 2 ^ (infinityExponent - 2) := by decide +kernel
    have hpower : 2 ^ (exponent - 1) ≤ 2 ^ (infinityExponent - 2) :=
      Nat.pow_le_pow_right (by decide) (by omega)
    rw [hlargest]
    exact Nat.mul_lt_mul_of_lt_of_le hsignificand hpower (Nat.two_pow_pos _)

/-- The exponent says how many bits are beyond the significand. -/
theorem excessBits_magnitudeOf : excessBits (magnitudeOf exponent fraction) = exponent - 1 := by
  have hleading : 2 ^ (precision - 1) + 2 ^ (precision - 1) = 2 ^ (precision - 1 + 1) := by decide
  unfold magnitudeOf
  split_ifs with hzero
  · have hbits : excessBits fraction ≤ 0 := excessBits_le_of_lt (hfraction.trans (by decide))
    omega
  · rw [excessBits, log2_mul_two_pow (Nat.le_add_right _ _) (by omega)]
    unfold precision
    omega

theorem magnitudeBits_magnitudeOf :
    magnitudeBits (magnitudeOf exponent fraction) = exponent * 2 ^ (precision - 1) + fraction := by
  rw [magnitudeBits, excessBits_magnitudeOf hfraction]
  unfold magnitudeOf
  split_ifs with hzero
  · subst hzero
    simp
  · obtain ⟨k, rfl⟩ := Nat.exists_eq_succ_of_ne_zero hzero
    rw [Nat.succ_sub_one, Nat.mul_div_cancel _ (Nat.two_pow_pos k), Nat.succ_mul, Nat.add_assoc]

end Magnitude

/-! ### Patterns -/

/-- The double of a bit pattern. -/
def ofBits (bits : BitVec 64) : Double :=
  if h : exponentField bits < infinityExponent then
    .finite (signField bits) (magnitudeOf (exponentField bits) (fractionField bits))
      (representable_magnitudeOf (fractionField_lt bits) h)
  else if fractionField bits = 0 then .infinite (signField bits)
  else .nan

/-- **The bits of the double of a pattern are the pattern**, unless it is not a number. -/
theorem toBits?_ofBits {bits : BitVec 64} (h : ofBits bits ≠ .nan) :
    (ofBits bits).toBits? = some bits.toNat := by
  unfold ofBits at h ⊢
  split_ifs at h ⊢ with hfinite hinfinite
  · rw [toBits?, magnitudeBits_magnitudeOf (fractionField_lt bits), ← toNat_eq_fields]
  · have hexponent : exponentField bits = infinityExponent :=
      Nat.le_antisymm (exponentField_le bits) (Nat.not_lt.1 hfinite)
    rw [toBits?, toNat_eq_fields bits, hexponent, hinfinite, Nat.add_zero]
  · exact absurd rfl h

end Double

end FlatScript
