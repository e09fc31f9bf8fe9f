import FlatScript.Proofs.BitPattern
import FlatScript.Proofs.NumericForm
import FlatScript.Proofs.Remainder
import Mathlib.Tactic.FieldSimp

/-!
# Numbers read back from their text

A number is written in one of three layouts: all its digits if it is whole, and otherwise the
shortest digits with a point or with an exponent.  All of them are numeric text, and the reader,
which knows nothing of layouts, finds the number again.

* `Numeral.scan_append` : what the scanner makes of digits, a point, more digits and an exponent;
* `Numeral.Writes` : a text stands for an exact value, after either sign;
* `Numeral.writes_positional`, `Numeral.writes_scientific`, `Decimal.writes_layout` : **each layout
  of a decimal stands for its value**, although zeros are added and dropped;
* `ofDecimal_shortest` : the shortest decimal of a magnitude rounds to the magnitude;
* `Double.display_of_toRat` : a whole number is written as its digits;
* `Double.display_reads_back` : **the text of a double, given by its bits, reads back as the double,
  bit for bit** but for the sign of a zero.
-/

namespace FlatScript

open Text

-- Powers are those of `Nat` itself, whatever else is loaded.
attribute [local instance (2000)] instPowNat

/-! ### Digits -/

theorem areDigits_toDigits (n : Nat) : AreDigits (Nat.toDigits 10 n) :=
  fun _ hc => Nat.isDigit_of_mem_toDigits (by decide) (by decide) hc

theorem areDigits_replicate (k : Nat) : AreDigits (List.replicate k '0') := by
  intro c hc
  rw [List.eq_of_mem_replicate hc]
  decide

theorem AreDigits.append {cs ds : List Char} (hcs : AreDigits cs) (hds : AreDigits ds) :
    AreDigits (cs ++ ds) :=
  List.forall_mem_append.2 ⟨hcs, hds⟩

theorem ofDigits_map_value (cs : List Char) :
    ofDigits (cs.map fun c => c.toNat - '0'.toNat) = Nat.ofDigitChars 10 cs 0 := by
  rw [ofDigits, List.foldl_map, Nat.ofDigitChars_eq_foldl]

theorem ofDigitChars_append_replicate (cs : List Char) (k : Nat) :
    Nat.ofDigitChars 10 (cs ++ List.replicate k '0') 0 = Nat.ofDigitChars 10 cs 0 * 10 ^ k := by
  rw [Nat.ofDigitChars_append, Nat.ofDigitChars_replicate_zero, Nat.mul_comm]

theorem ofDigitChars_replicate_append (k : Nat) (cs : List Char) :
    Nat.ofDigitChars 10 (List.replicate k '0' ++ cs) 0 = Nat.ofDigitChars 10 cs 0 := by
  rw [Nat.ofDigitChars_append, Nat.ofDigitChars_replicate_zero, Nat.mul_zero]

theorem toString_eq_digits (n : Int) :
    toString n = signText (n < 0) ++ String.ofList (Nat.toDigits 10 n.natAbs) := by
  rw [← Nat.repr_eq_ofList_toDigits, Int.toString_eq_repr, Int.repr_eq_if]
  split_ifs with hn
  · have hsign : signText (n < 0) = "" := if_neg (by simpa using hn)
    have habs : n.toNat = n.natAbs := by omega
    rw [hsign, habs, String.empty_append]
  · have hsign : signText (n < 0) = "-" := if_pos (by simpa using hn)
    have habs : (-n).toNat = n.natAbs := by omega
    rw [hsign, habs]

/-! ### The scanner on written numerals -/

namespace Numeral

/-- The characters of a sign. -/
def signChars (neg : Bool) : List Char := if neg then ['-'] else []

theorem toList_signText (neg : Bool) : (signText neg).toList = signChars neg := by
  cases neg <;> rfl

theorem sign_signChars (neg : Bool) {rest : List Char}
    (hrest : ∀ c ∈ rest.head?, c ≠ '+' ∧ c ≠ '-') : sign (signChars neg ++ rest) = (neg, rest) := by
  cases neg with
  | true => rfl
  | false =>
    change sign rest = _
    unfold sign
    split
    · exact absurd rfl (hrest _ rfl).2
    · exact absurd rfl (hrest _ rfl).1
    · rfl

/-- The scanner on an exponent with a sign. -/
theorem exponent?_eq (neg : Bool) {ds : List Char} (hne : ds ≠ []) (hds : AreDigits ds) :
    exponent? asciiRun ('e' :: (if neg then '-' else '+') :: ds) =
      some (if neg then -(Nat.ofDigitChars 10 ds 0 : Int) else Nat.ofDigitChars 10 ds 0) := by
  have hsign : sign ((if neg then '-' else '+') :: ds) = (neg, ds) := by cases neg <;> rfl
  have hrun : asciiRun (ds ++ []) = _ := asciiRun_append hds (by simp)
  rw [List.append_nil] at hrun
  cases ds with
  | nil => exact absurd rfl hne
  | cons d ds =>
    rw [← ofDigits_map_value]
    simp only [exponent?, true_or, if_true, hsign, hrun, List.map_cons]

/-- The digits of the size of an exponent, filled up with zeros. -/
theorem exponent?_natAbs (exponent : Int) (k : Nat) :
    exponent? asciiRun ('e' :: (if exponent < 0 then '-' else '+') ::
      (List.replicate k '0' ++ Nat.toDigits 10 exponent.natAbs)) = some exponent := by
  have hdigits : AreDigits (List.replicate k '0' ++ Nat.toDigits 10 exponent.natAbs) :=
    (areDigits_replicate k).append (areDigits_toDigits _)
  have h := exponent?_eq (exponent < 0) (by simp) hdigits
  rw [ofDigitChars_replicate_append, Nat.ofDigitChars_ten_toDigits] at h
  simp only [decide_eq_true_eq] at h
  rw [h]
  congr 1
  split <;> omega

/-- The scanner on a sign, digits, an optional point with more digits, and an exponent. -/
theorem scan_append (neg : Bool) {whole part point exponent : List Char} {e : Int}
    (hne : whole ≠ []) (hwhole : AreDigits whole) (hpart : AreDigits part)
    (hpoint : point = '.' :: part ∨ point = [] ∧ part = [])
    (he : exponent? asciiRun exponent = some e) :
    scan asciiRun (signChars neg ++ (whole ++ (point ++ exponent))) =
      some ⟨neg, Nat.ofDigitChars 10 (whole ++ part) 0, e - part.length⟩ := by
  have hexponent : IsExponent exponent :=
    exponent?_asciiRun_isSome_iff.1 (Option.isSome_iff_exists.2 ⟨e, he⟩)
  have hstop : ∀ c ∈ exponent.head?, c.isDigit = false := fun c hc => (hexponent.head c hc).1
  have hfraction : fraction asciiRun (point ++ exponent) =
      (part.map fun c => c.toNat - '0'.toNat, exponent) := by
    rcases hpoint with rfl | ⟨rfl, rfl⟩
    · exact asciiRun_append hpart hstop
    · rw [List.nil_append]
      unfold fraction
      split
      · exact absurd rfl (hexponent.head _ rfl).2
      · rfl
  have hrun : asciiRun (whole ++ (point ++ exponent)) = _ := asciiRun_append hwhole (by
    rcases hpoint with rfl | ⟨rfl, rfl⟩
    · rintro _ ⟨⟩
      rfl
    · exact hstop)
  have hsign := sign_signChars neg ((IsMantissa.whole hne hwhole).head (point ++ exponent))
  simp only [scan, hsign, hrun, hfraction, ← List.map_append, ofDigits_map_value, he,
    List.map_eq_nil_iff, List.append_eq_nil_iff, hne, false_and, if_false, Option.map_some,
    List.length_map]

/-! ### Texts of exact values -/

/-- After either sign, the text is read as a decimal of the value. -/
def Writes (cs : List Char) (value : ℚ) : Prop :=
  ∀ neg, ∃ d : Decimal, scan asciiRun (signChars neg ++ cs) = some d ∧ d.neg = neg ∧
    d.magnitude = value

theorem writes_append (whole part point exponent : List Char) {cs : List Char} {e : Int}
    {value : ℚ} (hne : whole ≠ []) (hwhole : AreDigits whole) (hpart : AreDigits part)
    (hpoint : point = '.' :: part ∨ point = [] ∧ part = [])
    (he : exponent? asciiRun exponent = some e) (hcs : cs = whole ++ (point ++ exponent))
    (hvalue : value = Nat.ofDigitChars 10 (whole ++ part) 0 * 10 ^ (e - part.length)) :
    Writes cs value := by
  subst hcs hvalue
  exact fun neg => ⟨_, scan_append neg hne hwhole hpart hpoint he, rfl, rfl⟩

theorem writes_toDigits (n : Nat) : Writes (Nat.toDigits 10 n) n :=
  writes_append (Nat.toDigits 10 n) [] [] [] Nat.toDigits_ne_nil (areDigits_toDigits n) nofun
    (.inr ⟨rfl, rfl⟩) rfl (by simp) (by simp)

section Layout

variable {digits : List Char} (hne : digits ≠ []) (hdigits : AreDigits digits)
include hne hdigits

theorem writes_positional (point : Int) :
    Writes (positional digits point)
      (Nat.ofDigitChars 10 digits 0 * 10 ^ (point - digits.length)) := by
  have hzero : AreDigits ['0'] := areDigits_replicate 1
  unfold positional
  split_ifs with hsmall hlarge
  · -- all digits come after the point, behind zeros
    refine writes_append ['0'] (List.replicate (-point).toNat '0' ++ digits) _ [] (by simp) hzero
      ((areDigits_replicate _).append hdigits) (.inl rfl) rfl (by simp) ?_
    rw [← List.replicate_one, ofDigitChars_replicate_append, ofDigitChars_replicate_append,
      List.length_append, List.length_replicate]
    congr 2
    omega
  · -- all digits come before the point, ahead of zeros
    refine writes_append (digits ++ List.replicate (point - digits.length).toNat '0') ['0'] _ []
      (by simp [hne]) (hdigits.append (areDigits_replicate _)) hzero (.inl rfl) rfl (by simp) ?_
    rw [List.append_assoc, ← List.replicate_one, List.replicate_append_replicate,
      ofDigitChars_append_replicate, Nat.cast_mul, mul_assoc, Nat.cast_pow, ← zpow_natCast]
    push_cast
    rw [← zpow_add₀ (by norm_num), List.length_singleton]
    congr 2
    omega
  · -- the point is among the digits
    have hwhole : digits.take point.toNat ≠ [] := by
      rw [ne_eq, List.take_eq_nil_iff, not_or]
      exact ⟨by omega, hne⟩
    refine writes_append (digits.take point.toNat) (digits.drop point.toNat) _ []
      hwhole (fun c hc => hdigits c (List.mem_of_mem_take hc))
      (fun c hc => hdigits c (List.mem_of_mem_drop hc)) (.inl rfl) rfl (by simp) ?_
    rw [List.take_append_drop, List.length_drop]
    congr 2
    omega

theorem writes_scientific (exponent : Int) :
    Writes (scientific digits exponent)
      (Nat.ofDigitChars 10 digits 0 * 10 ^ (exponent + 1 - digits.length)) := by
  cases digits with
  | nil => exact absurd rfl hne
  | cons d ds =>
    have hd : AreDigits [d] := List.forall_mem_singleton.2 (hdigits d List.mem_cons_self)
    have hds : AreDigits ds := fun c hc => hdigits c (List.mem_cons_of_mem d hc)
    refine writes_append [d] ds (if ds = [] then [] else '.' :: ds) _ (by simp) hd hds ?_
      (exponent?_natAbs exponent (2 - (Nat.toDigits 10 exponent.natAbs).length)) ?_ ?_
    · split_ifs with h
      · exact .inr ⟨rfl, h⟩
      · exact .inl rfl
    · cases ds <;> simp [scientific]
    · congr 2
      rw [List.length_cons]
      omega

end Layout

/-- Numeric text without blanks is read as the decimal that the scanner finds. -/
theorem read?_of_scan {t : String} {d : Decimal} (h : scan asciiRun t.toList = some d) :
    isNumericText t = true ∧ Double.read? t = some (Double.ofDecimal d) := by
  obtain ⟨s, m, e, ht, hs, hm, he⟩ :=
    scan_asciiRun_isSome_iff.1 (Option.isSome_iff_exists.2 ⟨d, h⟩)
  have hblank : ∀ c ∈ t.toList, isBlank c = false := fun c hc =>
    isBlank_of_isNumeric (isNumeric_of_parts hs hm he c (ht ▸ hc))
  have hspace : ∀ c ∈ t.toList, isWhiteSpace c = false := fun c hc =>
    Bool.eq_false_of_not_eq_true fun h => by simpa [hblank c hc] using isBlank_of_isWhiteSpace h
  have hne : t.toList ≠ [] := by
    obtain ⟨c, hc, -⟩ := hm.exists_digit
    rw [ht]
    exact List.ne_nil_of_mem (List.mem_append_left e (List.mem_append_right s hc))
  have htrim {p : Char → Bool} (hp : ∀ c ∈ t.toList, p c = false) : trim p t.toList = t.toList := by
    have hself : trim p ([] ++ t.toList ++ []) = t.toList := trim_append nofun hne hp nofun
    rwa [List.nil_append, List.append_nil] at hself
  refine ⟨?_, ?_⟩
  · rw [isNumericText, htrim hblank, h]
    rfl
  · simp only [Double.read?, htrim hspace, scan_groupedRun h]

/-- A text of a value is numeric and read as the value, rounded. -/
theorem Writes.read? {cs : List Char} {value : ℚ} (h : Writes cs value) (neg : Bool)
    {num den : Nat} (hden : 0 < den) (hvalue : (num : ℚ) / den = value * unitsPerOne) :
    isNumericText (signText neg ++ String.ofList cs) = true ∧
      Double.read? (signText neg ++ String.ofList cs) = some (Double.ofRatio neg num den) := by
  obtain ⟨d, hd, rfl, rfl⟩ := h neg
  rw [← Double.ofDecimal_eq_ofRatio hden hvalue]
  apply read?_of_scan
  rw [String.toList_append, String.toList_ofList, toList_signText, hd]

end Numeral

/-! ### The layout of a decimal -/

/-- Characters are what is left without the zeros at their end, and the zeros. -/
theorem exists_append_replicate (cs : List Char) :
    ∃ k, cs = (cs.reverse.dropWhile (· == '0')).reverse ++ List.replicate k '0' := by
  refine ⟨(cs.reverse.takeWhile (· == '0')).length, ?_⟩
  have hzeros : List.replicate (cs.reverse.takeWhile (· == '0')).length '0' =
      (cs.reverse.takeWhile (· == '0')).reverse := by
    symm
    rw [List.eq_replicate_iff, List.length_reverse]
    exact ⟨rfl, fun c hc => by simpa using List.mem_takeWhile_imp (List.mem_reverse.1 hc)⟩
  rw [hzeros, ← List.reverse_append, List.takeWhile_append_dropWhile, List.reverse_reverse]

/-- **The layout of a decimal stands for its value.** -/
theorem Decimal.writes_layout {d : Decimal} (h : d.digits ≠ 0) :
    Numeral.Writes d.layout d.magnitude := by
  obtain ⟨k, hk⟩ := exists_append_replicate (Nat.toDigits 10 d.digits)
  have hall : AreDigits (Nat.toDigits 10 d.digits) := areDigits_toDigits d.digits
  have hvalue : Nat.ofDigitChars 10 (Nat.toDigits 10 d.digits) 0 = d.digits :=
    Nat.ofDigitChars_ten_toDigits
  simp only [Decimal.layout]
  generalize Nat.toDigits 10 d.digits = all at *
  generalize (all.reverse.dropWhile (· == '0')).reverse = digits at *
  subst hk
  rw [ofDigitChars_append_replicate] at hvalue
  have hdigits : AreDigits digits := (List.forall_mem_append.1 hall).1
  have hne : digits ≠ [] := by
    rintro rfl
    exact h (by simp [← hvalue])
  rw [List.length_append, List.length_replicate]
  generalize hpoint : ((digits.length + k : Nat) : Int) + d.exponent = point
  -- the zeros that are dropped are made up for by the point
  have hmagnitude : d.magnitude = Nat.ofDigitChars 10 digits 0 * 10 ^ (point - digits.length) := by
    rw [Decimal.magnitude, ← hvalue]
    push_cast
    rw [mul_assoc, ← zpow_natCast, ← zpow_add₀ (by norm_num)]
    congr 2
    omega
  rw [hmagnitude]
  split_ifs
  · exact Numeral.writes_positional hne hdigits point
  · have hscientific := Numeral.writes_scientific hne hdigits (point - 1)
    rwa [Int.sub_add_cancel] at hscientific

/-! ### The shortest decimal -/

theorem ofDecimal_shortest {mag : Nat} (h : Representable mag) :
    Double.ofDecimal (shortest mag) = .finite false mag h := by
  unfold shortest
  dsimp only
  generalize hfound : List.findSome? _ (List.range maxDigits) = found
  cases found with
  | some d =>
    obtain ⟨n, -, hn⟩ := List.exists_of_findSome?_eq_some hfound
    have hback := List.find?_some hn
    rw [Option.getD_some]
    split at hback
    · rename_i m hm heq
      obtain rfl : m = mag := by simpa using hback
      exact heq
    · cases hback
  | none =>
    -- the exact decimal has the value of the magnitude itself
    have hvalue : (mag : ℚ) / (1 : Nat) =
        (Decimal.mk false (exactDigits mag) (-(unitExponent : Int))).magnitude * unitsPerOne := by
      rw [Decimal.magnitude, exactDigits, unitsPerOne]
      generalize unitExponent = k
      push_cast
      rw [zpow_neg, zpow_natCast, show (10 : ℚ) = 5 * 2 by norm_num, mul_pow]
      field_simp
    rw [Option.getD_none, Double.ofDecimal_eq_ofRatio Nat.one_pos hvalue]
    exact Double.ofRatio_of_representable h

/-! ### The text of a number -/

namespace Double

/-- What is written is numeric text and reads back as the number; a zero loses its sign. -/
theorem read?_display {x : Double} (hx : x.isFinite = true) :
    isNumericText x.display = true ∧
      Double.read? x.display = some (if x.isZero then zero else x) := by
  cases x with
  | finite neg mag h =>
    have hzero : (finite neg mag h).isZero = decide (mag = 0) := rfl
    simp only [display, hzero, decide_eq_true_eq]
    split_ifs with hmag hwhole
    · decide +kernel
    · -- a whole number: its digits stand for its units over the units in one
      have hvalue : (mag : ℚ) / (1 : Nat) = (mag / unitsPerOne : Nat) * unitsPerOne := by
        rw [Nat.cast_one, div_one, ← Nat.cast_mul,
          Nat.div_mul_cancel (Nat.dvd_of_mod_eq_zero hwhole)]
      rw [← ofRatio_of_representable h]
      exact (Numeral.writes_toDigits _).read? neg Nat.one_pos hvalue
    · have hshortest := ofDecimal_shortest h
      have hlayout := Decimal.writes_layout (digits_ne_zero_of_ofDecimal hshortest hmag)
      rw [ofDecimal_eq] at hshortest
      rw [numeral, if_neg hmag, ← ofRatio_eq_finite hshortest neg]
      exact hlayout.read? neg (Decimal.denominator_pos _) (Decimal.numerator_div_denominator _)
  | _ => cases hx

/-- The text of an infinity or of not-a-number is no numeric text. -/
theorem isNumericText_display {x : Double} (hx : x.isFinite = false) :
    isNumericText x.display = false := by
  cases x with
  | nan => decide +kernel
  | infinite neg => cases neg <;> decide +kernel
  | finite neg mag h => cases hx

/-- **A whole number is written as its digits**, with a minus sign if it is negative. -/
theorem display_of_toRat {x : Double} (hx : x.isFinite = true) {n : Int} (hn : x.toRat = n) :
    x.display = toString n := by
  cases x with
  | finite neg mag h =>
    have hpos : 0 < unitsPerOne := Nat.two_pow_pos unitExponent
    have hsigned : signed neg mag = n * unitsPerOne := by
      rw [toRat, div_eq_iff unitsPerOne_pos.ne'] at hn
      exact_mod_cast hn
    have hmag : mag = n.natAbs * unitsPerOne := by
      have habs : (signed neg mag).natAbs = mag := by cases neg <;> simp [signed]
      rw [← habs, hsigned, Int.natAbs_mul, Int.natAbs_natCast]
    have hwhole : mag % unitsPerOne = 0 := by rw [hmag, Nat.mul_mod_left]
    have hdigits : mag / unitsPerOne = n.natAbs := by rw [hmag, Nat.mul_div_cancel _ hpos]
    simp only [display, if_pos hwhole, hdigits]
    split_ifs with hzero
    · obtain rfl : n = 0 := by
        rw [hzero, Nat.zero_div] at hdigits
        exact Int.natAbs_eq_zero.1 hdigits.symm
      rfl
    · have hneg : neg = decide (n < 0) := by
        have hunits : (0 : ℤ) < unitsPerOne := by exact_mod_cast hpos
        rw [Bool.eq_iff_iff, decide_eq_true_iff, ← not_le, ← mul_nonneg_iff_of_pos_right hunits,
          ← hsigned]
        cases neg with
        | false => simp [signed]
        | true => simp [signed, hzero]
      rw [toString_eq_digits, hneg]
  | _ => cases hx

/-! ### Bit patterns -/

theorem isFinite_ofBits {bits : BitVec 64} :
    (ofBits bits).isFinite = true ↔ exponentField bits ≠ infinityExponent := by
  have hle := exponentField_le bits
  unfold ofBits
  split_ifs with hlt hzero
  · simp only [isFinite, true_iff]
    omega
  · simp only [isFinite, Bool.false_eq_true, false_iff]
    omega
  · simp only [isFinite, Bool.false_eq_true, false_iff]
    omega

theorem eq_zeroOf_of_isZero {x : Double} (h : x.isZero = true) : x = zeroOf x.isNegative := by
  cases x with
  | finite neg mag hmag =>
    obtain rfl : mag = 0 := by simpa [isZero] using h
    rfl
  | _ => cases h

/-- The bits of a number after a zero has lost its sign. -/
theorem toBits?_unsigned {bits : BitVec 64} (h : (ofBits bits).toBits? = some bits.toNat) :
    (if (ofBits bits).isZero then zero else ofBits bits).toBits? =
      some (if bits = 0x8000000000000000#64 then 0 else bits.toNat) := by
  by_cases hzero : (ofBits bits).isZero = true
  · rw [if_pos hzero]
    rw [eq_zeroOf_of_isZero hzero] at h
    cases hneg : (ofBits bits).isNegative with
    | false =>
      rw [hneg] at h
      have hbits : bits.toNat = 0 := (Option.some.inj h).symm
      rw [hbits, ite_self]
      rfl
    | true =>
      rw [hneg] at h
      have hbits : bits.toNat = 2 ^ signPosition := (Option.some.inj h).symm
      rw [if_pos (BitVec.eq_of_toNat_eq hbits)]
      rfl
  · have hbits : bits ≠ 0x8000000000000000#64 := by
      rintro rfl
      exact hzero (by decide +kernel)
    rw [if_neg hzero, if_neg hbits, h]

/-- **The text of a double reads back as the double.**  For every finite bit pattern the text is
numeric, and as a value and as a numeral it is read as a number of the same bits, except that the
negative zero comes back as the positive one.  A whole number is written as its digits.  The text of
an infinity and of not-a-number is not numeric, and counts as zero. -/
theorem display_reads_back (bits : BitVec 64) :
    let x : Double := ofBits bits
    let s : String := (Value.number x).display
    (exponentField bits ≠ infinityExponent →
      x.toBits? = some bits.toNat ∧ isNumericText s = true ∧
      (∃ y, (Value.text s).asNumber = .ok y ∧ readNumeral s = .ok y ∧
        y.toBits? = some (if bits = 0x8000000000000000#64 then 0 else bits.toNat)) ∧
      ∀ n : ℤ, x.toRat = n → s = toString n ∧ ∀ c ∈ s.toList, c = '-' ∨ c.isDigit = true) ∧
    (exponentField bits = infinityExponent →
      isNumericText s = false ∧ (Value.text s).asNumber = .ok zero) := by
  intro x s
  refine ⟨fun h => ?_, fun h => ?_⟩
  · have hfinite : x.isFinite = true := isFinite_ofBits.2 h
    have hbits : x.toBits? = some bits.toNat :=
      toBits?_ofBits fun hnan => by simp [x, hnan, isFinite] at hfinite
    obtain ⟨hnumeric, hread⟩ : isNumericText s = true ∧ Double.read? s = _ := read?_display hfinite
    have hnumeral : readNumeral s = .ok (if x.isZero then zero else x) := by
      rw [readNumeral, hread]
    refine ⟨hbits, hnumeric, ⟨_, ?_, hnumeral, toBits?_unsigned hbits⟩, fun n hn => ?_⟩
    · rw [Value.asNumber, if_pos hnumeric, hnumeral]
    · have hs : s = toString n := display_of_toRat hfinite hn
      refine ⟨hs, ?_⟩
      rw [hs, toString_eq_digits, String.toList_append, String.toList_ofList,
        List.forall_mem_append]
      refine ⟨?_, fun c hc => .inr (areDigits_toDigits _ c hc)⟩
      cases decide (n < 0) <;> simp [signText]
  · have hfinite : x.isFinite = false :=
      Bool.eq_false_of_not_eq_true fun hfinite => isFinite_ofBits.1 hfinite h
    have hnumeric : isNumericText s = false := isNumericText_display hfinite
    exact ⟨hnumeric, by simp [Value.asNumber, hnumeric]⟩

/-- The smallest double has one digit and an exponent; the double nearest to minus `10 ^ 23`, far
beyond the whole numbers that doubles can count, has 23 digits; a zero comes back without its sign;
and an infinity and not-a-number count as zero. -/
theorem display_reads_back_of_extremes :
    let s (bits : BitVec 64) : String := (Value.number (ofBits bits)).display
    let ReadsAs (t : String) (bits : Nat) : Prop :=
      ∃ y, (Value.text t).asNumber = .ok y ∧ readNumeral t = .ok y ∧ y.toBits? = some bits
    let large : BitVec 64 := 0xc4b52d02c7e14af6#64
    (s 1#64 = "5e-324" ∧ isNumericText "5e-324" = true ∧ ReadsAs "5e-324" 1) ∧
    ((ofBits large).toRat = (-99999999999999991611392 : ℤ) ∧
      s large = toString (-99999999999999991611392 : ℤ) ∧ ReadsAs (s large) 0xc4b52d02c7e14af6) ∧
    (s 0x8000000000000000#64 = "0" ∧ ReadsAs "0" 0) ∧
    (s 0xfff0000000000000#64 = "-inf" ∧ (Value.text "-inf").asNumber = .ok zero) ∧
    (s 0x7ff8000000000000#64 = "nan" ∧ (Value.text "nan").asNumber = .ok zero) := by
  intro s ReadsAs large
  have hsmallest : s 1#64 = "5e-324" := by decide +kernel
  have hzero : s 0x8000000000000000#64 = "0" := by decide +kernel
  have hinfinity : s 0xfff0000000000000#64 = "-inf" := by decide +kernel
  have hnan : s 0x7ff8000000000000#64 = "nan" := by decide +kernel
  have hvalue : (ofBits large).toRat = (-99999999999999991611392 : ℤ) := by
    have hmag : magnitudeOf (exponentField large) (fractionField large) =
        99999999999999991611392 * unitsPerOne := by decide +kernel
    have hsign : signField large = true := by decide
    rw [ofBits, dif_pos (by decide), toRat, hmag, hsign, signed, if_pos rfl]
    push_cast
    rw [neg_div, mul_div_cancel_right₀ _ unitsPerOne_pos.ne']
  obtain ⟨-, hnumeric, hreads, -⟩ := (display_reads_back 1#64).1 (by decide)
  obtain ⟨-, -, hreads', hdigits⟩ := (display_reads_back large).1 (by decide)
  obtain ⟨-, -, hreads'', -⟩ := (display_reads_back 0x8000000000000000#64).1 (by decide)
  have hword := ((display_reads_back 0xfff0000000000000#64).2 (by decide)).2
  have hword' := ((display_reads_back 0x7ff8000000000000#64).2 (by decide)).2
  exact ⟨⟨hsmallest, hsmallest ▸ hnumeric, hsmallest ▸ hreads⟩,
    ⟨hvalue, (hdigits _ hvalue).1, hreads'⟩, ⟨hzero, hzero ▸ hreads''⟩,
    ⟨hinfinity, hinfinity ▸ hword⟩, ⟨hnan, hnan ▸ hword'⟩⟩

end Double

end FlatScript
