import FlatScript.Proofs.NumericText

/-!
# The form of numeric text

Numeric text is recognised by a scanner that goes over it once: a sign, a run of digits, a point and
a second run, and an exponent that has to end the text.  Here the scanner is compared with a
grammar, which says what a sign, a mantissa and an exponent are and nothing of how to find them.

* `IsSign`, `IsMantissa`, `IsExponent` : the parts of numeric text;
* `HasNumericForm` : blanks, a sign, a mantissa, an exponent and blanks;
* `Numeral.scan_asciiRun_isSome_iff` : the scanner accepts exactly a sign, a mantissa and an
  exponent;
* `isNumericText_exact` : **numeric text is text of the numeric form**, and so it has no blank
  inside it, no underscore, no digit of another script, and is no word for an infinity or for
  not-a-number.

The parts share characters: a sign may begin the text and the exponent, and a mantissa may begin
with digits or with the point.  What makes the scanner find the right ends is that no exponent
begins with a digit or a point (`IsExponent.head`) and no mantissa with a sign
(`IsMantissa.head`).
-/

namespace FlatScript

open Text

/-! ### The grammar -/

/-- Digits from `0` to `9` only, or no character at all. -/
def AreDigits (cs : List Char) : Prop := ∀ c ∈ cs, c.isDigit = true

/-- An optional sign. -/
inductive IsSign : List Char → Prop
  | none : IsSign []
  | plus : IsSign ['+']
  | minus : IsSign ['-']

/-- Digits with an optional point after or among them, or a point and digits after it. -/
inductive IsMantissa : List Char → Prop
  | whole {ds : List Char} (hne : ds ≠ []) (hds : AreDigits ds) : IsMantissa ds
  | point {ds fs : List Char} (hne : ds ≠ []) (hds : AreDigits ds) (hfs : AreDigits fs) :
      IsMantissa (ds ++ '.' :: fs)
  | bare {fs : List Char} (hne : fs ≠ []) (hfs : AreDigits fs) : IsMantissa ('.' :: fs)

/-- An optional exponent: its mark, an optional sign and digits. -/
inductive IsExponent : List Char → Prop
  | none : IsExponent []
  | some {mark : Char} {s ds : List Char} (hmark : mark = 'e' ∨ mark = 'E') (hs : IsSign s)
      (hne : ds ≠ []) (hds : AreDigits ds) : IsExponent (mark :: (s ++ ds))

/-- Text of the numeric form: a sign, a mantissa and an exponent, with blanks around them. -/
def HasNumericForm (t : String) : Prop :=
  ∃ w₁ s m e w₂, t.toList = w₁ ++ s ++ m ++ e ++ w₂ ∧ (∀ c ∈ w₁, isBlank c = true) ∧
    (∀ c ∈ w₂, isBlank c = true) ∧ IsSign s ∧ IsMantissa m ∧ IsExponent e

/-! ### Where a part ends -/

theorem AreDigits.head {ds : List Char} (hds : AreDigits ds) (hne : ds ≠ []) (rest : List Char) :
    ∀ c ∈ (ds ++ rest).head?, c.isDigit = true := by
  cases ds with
  | nil => exact absurd rfl hne
  | cons d ds =>
    rintro _ ⟨⟩
    exact hds d List.mem_cons_self

/-- A mantissa does not begin with a sign, whatever follows it. -/
theorem IsMantissa.head {m : List Char} (hm : IsMantissa m) (rest : List Char) :
    ∀ c ∈ (m ++ rest).head?, c ≠ '+' ∧ c ≠ '-' := by
  have hdigit : ∀ c : Char, c.isDigit = true → c ≠ '+' ∧ c ≠ '-' := by
    intro c hc
    constructor <;> rintro rfl <;> simp at hc
  intro c hc
  cases hm with
  | whole hne hds => exact hdigit c (hds.head hne rest c hc)
  | point hne hds _ =>
    rw [List.append_assoc] at hc
    exact hdigit c (hds.head hne _ c hc)
  | bare _ _ =>
    cases hc
    decide

/-- An exponent does not begin with a digit or a point. -/
theorem IsExponent.head {e : List Char} (he : IsExponent e) :
    ∀ c ∈ e.head?, c.isDigit = false ∧ c ≠ '.' := by
  intro c hc
  cases he with
  | none => cases hc
  | some hmark _ _ _ =>
    cases hc
    rcases hmark with rfl | rfl <;> decide

/-! ### The scanner on each part -/

namespace Numeral

theorem asciiDigitValue?_eq (c : Char) :
    asciiDigitValue? c = if c.isDigit then some (c.toNat - '0'.toNat) else none := by
  have hrange : ('0' ≤ c ∧ c ≤ '9') ↔ c.isDigit = true := by
    simp [Char.isDigit, Char.le_def]
  simp only [asciiDigitValue?, hrange]

/-- A run takes the digits at the front and leaves the rest. -/
theorem asciiRun_eq (cs : List Char) :
    asciiRun cs = ((cs.takeWhile Char.isDigit).map fun c => c.toNat - '0'.toNat,
      cs.dropWhile Char.isDigit) := by
  induction cs with
  | nil => rfl
  | cons c cs ih =>
    cases hc : c.isDigit with
    | true => simp [asciiRun, asciiDigitValue?_eq, hc, ih]
    | false => simp [asciiRun, asciiDigitValue?_eq, hc]

/-- A run takes given digits and stops at the character after them. -/
theorem asciiRun_append {ds rest : List Char} (hds : AreDigits ds)
    (hrest : ∀ c ∈ rest.head?, c.isDigit = false) :
    asciiRun (ds ++ rest) = (ds.map fun c => c.toNat - '0'.toNat, rest) := by
  have hstop : rest.takeWhile Char.isDigit = [] ∧ rest.dropWhile Char.isDigit = rest := by
    cases rest with
    | nil => exact ⟨rfl, rfl⟩
    | cons c rest => simp [hrest c rfl]
  rw [asciiRun_eq, List.takeWhile_append_of_pos hds, List.dropWhile_append_of_pos hds, hstop.1,
    hstop.2, List.append_nil]

theorem exists_asciiRun (cs : List Char) :
    ∃ ds, AreDigits ds ∧ ((asciiRun cs).1 = [] ↔ ds = []) ∧ cs = ds ++ (asciiRun cs).2 := by
  refine ⟨cs.takeWhile Char.isDigit, fun c hc => List.mem_takeWhile_imp hc, ?_, ?_⟩
  · rw [asciiRun_eq, List.map_eq_nil_iff]
  · rw [asciiRun_eq, List.takeWhile_append_dropWhile]

theorem exists_sign (cs : List Char) : ∃ s, IsSign s ∧ cs = s ++ (sign cs).2 := by
  unfold sign
  split
  · exact ⟨_, .minus, rfl⟩
  · exact ⟨_, .plus, rfl⟩
  · exact ⟨_, .none, rfl⟩

theorem sign_append {s rest : List Char} (hs : IsSign s)
    (hrest : ∀ c ∈ rest.head?, c ≠ '+' ∧ c ≠ '-') : (sign (s ++ rest)).2 = rest := by
  cases hs with
  | none =>
    rw [List.nil_append]
    unfold sign
    split
    · exact absurd rfl (hrest _ rfl).2
    · exact absurd rfl (hrest _ rfl).1
    · rfl
  | plus => rfl
  | minus => rfl

theorem mem_sign_of_isDigit {c : Char} (hc : c.isDigit = true) {cs : List Char} (h : c ∈ cs) :
    c ∈ (sign cs).2 := by
  obtain ⟨s, hs, hcs⟩ := exists_sign cs
  rw [hcs, List.mem_append] at h
  refine h.resolve_left fun hmem => ?_
  cases hs with
  | none => cases hmem
  | plus => simp [List.mem_singleton.1 hmem] at hc
  | minus => simp [List.mem_singleton.1 hmem] at hc

/-- The scanner of exponents accepts exactly the exponents. -/
theorem exponent?_asciiRun_isSome_iff {cs : List Char} :
    (exponent? asciiRun cs).isSome = true ↔ IsExponent cs := by
  constructor
  · intro h
    cases cs with
    | nil => exact .none
    | cons mark cs =>
      simp only [exponent?] at h
      split at h
      · rename_i hmark
        split at h
        · rename_i d vs hrun
          obtain ⟨s, hs, hcs⟩ := exists_sign cs
          obtain ⟨ds, hds, hempty, hrest⟩ := exists_asciiRun (sign cs).2
          rw [hrun] at hempty hrest
          rw [hcs, hrest, List.append_nil]
          exact .some hmark hs (fun hnil => by simp [hnil] at hempty) hds
        · cases h
      · cases h
  · intro h
    cases h with
    | none => rfl
    | @some mark s ds hmark hs hne hds =>
      have hsign : (sign (s ++ ds)).2 = ds := by
        refine sign_append hs fun c hc => ?_
        exact (IsMantissa.whole hne hds).head [] c (by rwa [List.append_nil])
      have hrun : asciiRun (ds ++ []) = _ := asciiRun_append hds (by simp)
      rw [List.append_nil] at hrun
      cases ds with
      | nil => exact absurd rfl hne
      | cons d ds => simp [exponent?, hmark, hsign, hrun]

/-- A mantissa is what the two runs take off the front, if they take a digit at all. -/
theorem exists_mantissa {cs : List Char}
    (h : (asciiRun cs).1 ++ (fraction asciiRun (asciiRun cs).2).1 ≠ []) :
    ∃ m, IsMantissa m ∧ cs = m ++ (fraction asciiRun (asciiRun cs).2).2 := by
  obtain ⟨ds, hds, hempty, hcs⟩ := exists_asciiRun cs
  generalize (asciiRun cs).1 = whole at h hempty
  generalize (asciiRun cs).2 = rest at h hcs
  unfold fraction at h ⊢
  split at h
  · rename_i rest
    obtain ⟨fs, hfs, hempty', hrest⟩ := exists_asciiRun rest
    -- without a digit before the point there has to be one after it
    by_cases hne : ds = []
    · have hfne : fs ≠ [] := by
        rintro rfl
        simp [hempty.2 hne, hempty'.2 rfl] at h
      refine ⟨'.' :: fs, .bare hfne hfs, ?_⟩
      rw [hcs, hne, List.nil_append, List.cons_append, ← hrest]
    · refine ⟨ds ++ '.' :: fs, .point hne hds hfs, ?_⟩
      rw [hcs, List.append_assoc, List.cons_append, ← hrest]
  · have hne : ds ≠ [] := by
      rintro rfl
      simp [hempty.2 rfl] at h
    exact ⟨ds, .whole hne hds, hcs⟩

/-- The two runs take exactly a given mantissa off the front, if an exponent follows it. -/
theorem fraction_asciiRun_append {m e : List Char} (hm : IsMantissa m) (he : IsExponent e) :
    (asciiRun (m ++ e)).1 ++ (fraction asciiRun (asciiRun (m ++ e)).2).1 ≠ [] ∧
      (fraction asciiRun (asciiRun (m ++ e)).2).2 = e := by
  have hstop : ∀ c ∈ e.head?, c.isDigit = false := fun c hc => (he.head c hc).1
  have hpoint : ∀ rest : List Char, ∀ c ∈ ('.' :: rest).head?, c.isDigit = false := by
    rintro rest _ ⟨⟩
    rfl
  cases hm with
  | whole hne hds =>
    rw [asciiRun_append hds hstop]
    have hfraction : fraction asciiRun e = ([], e) := by
      unfold fraction
      split
      · exact absurd rfl (he.head _ rfl).2
      · rfl
    simp [hfraction, hne]
  | @point ds fs hne hds hfs =>
    rw [List.append_assoc, List.cons_append, asciiRun_append hds (hpoint _)]
    simp [fraction, asciiRun_append hfs hstop, hne]
  | @bare fs hne hfs =>
    -- the first run is empty and stops at the point
    have hwhole : asciiRun ([] ++ '.' :: (fs ++ e)) = _ :=
      asciiRun_append (by simp [AreDigits]) (hpoint (fs ++ e))
    rw [List.nil_append] at hwhole
    rw [List.cons_append, hwhole]
    simp [fraction, asciiRun_append hfs hstop, hne]

/-- **The scanner accepts exactly a sign, a mantissa and an exponent.** -/
theorem scan_asciiRun_isSome_iff {cs : List Char} :
    (scan asciiRun cs).isSome = true ↔
      ∃ s m e, cs = s ++ m ++ e ∧ IsSign s ∧ IsMantissa m ∧ IsExponent e := by
  constructor
  · intro h
    simp only [scan] at h
    split at h
    · cases h
    · rename_i hdigits
      rw [Option.isSome_map, exponent?_asciiRun_isSome_iff] at h
      obtain ⟨s, hs, hcs⟩ := exists_sign cs
      obtain ⟨m, hm, hrest⟩ := exists_mantissa hdigits
      refine ⟨s, m, _, ?_, hs, hm, h⟩
      rw [List.append_assoc, ← hrest, ← hcs]
  · rintro ⟨s, m, e, rfl, hs, hm, he⟩
    have hsign : (sign (s ++ m ++ e)).2 = m ++ e := by
      rw [List.append_assoc]
      exact sign_append hs (hm.head e)
    obtain ⟨hdigits, hrest⟩ := fraction_asciiRun_append hm he
    simp only [scan, hsign, if_neg hdigits, hrest, Option.isSome_map]
    exact exponent?_asciiRun_isSome_iff.2 he

end Numeral

/-! ### The characters of numeric text -/

/-- A digit, a sign, a point or the mark of an exponent. -/
def isNumeric (c : Char) : Bool := c.isDigit || ['+', '-', '.', 'e', 'E'].contains c

theorem isNumeric_of_isDigit {c : Char} (h : c.isDigit = true) : isNumeric c = true := by
  rw [isNumeric, h, Bool.true_or]

theorem toNat_of_isDigit {c : Char} (h : c.isDigit = true) : 0x30 ≤ c.toNat ∧ c.toNat ≤ 0x39 := by
  simpa [Char.isDigit, UInt32.le_iff_toNat_le] using h

theorem isNumeric_iff {c : Char} :
    isNumeric c = true ↔
      c.isDigit = true ∨ c = '+' ∨ c = '-' ∨ c = '.' ∨ c = 'e' ∨ c = 'E' := by
  simp [isNumeric]

theorem isBlank_of_isNumeric {c : Char} (h : isNumeric c = true) : isBlank c = false := by
  rcases isNumeric_iff.1 h with hdigit | rfl | rfl | rfl | rfl | rfl
  · have hcode := toNat_of_isDigit hdigit
    simp only [isBlank, isWhiteSpace, Bool.or_eq_false_iff, Bool.and_eq_false_iff,
      decide_eq_false_iff_not, beq_eq_false_iff_ne]
    omega
  all_goals decide

theorem IsSign.isNumeric {s : List Char} (hs : IsSign s) : ∀ c ∈ s, isNumeric c = true := by
  cases hs <;> simp [FlatScript.isNumeric]

theorem IsMantissa.isNumeric {m : List Char} (hm : IsMantissa m) :
    ∀ c ∈ m, isNumeric c = true := by
  have hdigits : ∀ ds, AreDigits ds → ∀ c ∈ ds, FlatScript.isNumeric c = true :=
    fun ds hds c hc => isNumeric_of_isDigit (hds c hc)
  cases hm with
  | whole _ hds => exact hdigits _ hds
  | point _ hds hfs =>
    rw [List.forall_mem_append, List.forall_mem_cons]
    exact ⟨hdigits _ hds, rfl, hdigits _ hfs⟩
  | bare _ hfs => exact List.forall_mem_cons.2 ⟨rfl, hdigits _ hfs⟩

theorem IsExponent.isNumeric {e : List Char} (he : IsExponent e) :
    ∀ c ∈ e, isNumeric c = true := by
  cases he with
  | none => simp
  | some hmark hs _ hds =>
    rw [List.forall_mem_cons, List.forall_mem_append]
    refine ⟨?_, hs.isNumeric, fun c hc => isNumeric_of_isDigit (hds c hc)⟩
    rcases hmark with rfl | rfl <;> rfl

/-- There is a digit in every mantissa. -/
theorem IsMantissa.exists_digit {m : List Char} (hm : IsMantissa m) :
    ∃ c ∈ m, c.isDigit = true := by
  cases hm with
  | whole hne hds =>
    obtain ⟨c, hc⟩ := List.exists_mem_of_ne_nil _ hne
    exact ⟨c, hc, hds c hc⟩
  | point hne hds _ =>
    obtain ⟨c, hc⟩ := List.exists_mem_of_ne_nil _ hne
    exact ⟨c, List.mem_append_left _ hc, hds c hc⟩
  | bare hne hfs =>
    obtain ⟨c, hc⟩ := List.exists_mem_of_ne_nil _ hne
    exact ⟨c, List.mem_cons_of_mem _ hc, hfs c hc⟩

theorem isNumeric_of_parts {s m e : List Char} (hs : IsSign s) (hm : IsMantissa m)
    (he : IsExponent e) : ∀ c ∈ s ++ m ++ e, isNumeric c = true := by
  simp only [List.forall_mem_append]
  exact ⟨⟨hs.isNumeric, hm.isNumeric⟩, he.isNumeric⟩

/-- No digit of any script is a blank. -/
theorem isBlank_of_digitValue? {c : Char} (h : digitValue? c ≠ none) : isBlank c = false := by
  have htable : ∀ z ∈ digitZeros, ∀ k < 10, isBlank (Char.ofNat (z + k)) = false := by
    decide +kernel
  rw [digitValue?, ne_eq, Option.map_eq_none_iff] at h
  obtain ⟨z, hz⟩ := Option.ne_none_iff_exists'.1 h
  have hrange : z ≤ c.toNat ∧ c.toNat < z + 10 := by simpa using List.find?_some hz
  have hcode : z + (c.toNat - z) = c.toNat := by omega
  have hblank := htable z (List.mem_of_find?_eq_some hz) (c.toNat - z) (by omega)
  rwa [hcode, Char.ofNat_toNat] at hblank

/-! ### Blanks at either end -/

namespace Text

variable {p : Char → Bool}

theorem dropWhile_append_of_exists {cs : List Char} (h : ∃ c ∈ cs, p c = false)
    (rest : List Char) : (cs ++ rest).dropWhile p = cs.dropWhile p ++ rest := by
  obtain ⟨c, hc, hp⟩ := h
  rw [List.dropWhile_append, if_neg]
  intro hempty
  simp [List.dropWhile_eq_nil_iff.1 (List.isEmpty_iff.1 hempty) c hc] at hp

theorem exists_trim (p : Char → Bool) (cs : List Char) :
    ∃ w₁ w₂, cs = w₁ ++ trim p cs ++ w₂ ∧ (∀ c ∈ w₁, p c = true) ∧ ∀ c ∈ w₂, p c = true := by
  refine ⟨cs.takeWhile p, ((cs.dropWhile p).reverse.takeWhile p).reverse, ?_, ?_, ?_⟩
  · rw [trim, List.append_assoc, ← List.reverse_append, List.takeWhile_append_dropWhile,
      List.reverse_reverse, List.takeWhile_append_dropWhile]
  · exact fun c hc => List.mem_takeWhile_imp hc
  · exact fun c hc => List.mem_takeWhile_imp (List.mem_reverse.1 hc)

/-- Trimming leaves what it should not touch, and takes off all of the class around it. -/
theorem trim_append {w₁ cs w₂ : List Char} (h₁ : ∀ c ∈ w₁, p c = true) (hne : cs ≠ [])
    (h : ∀ c ∈ cs, p c = false) (h₂ : ∀ c ∈ w₂, p c = true) : trim p (w₁ ++ cs ++ w₂) = cs := by
  have hself : ∀ ds : List Char, (∀ c ∈ ds, p c = false) → ds.dropWhile p = ds := by
    intro ds hds
    cases ds with
    | nil => rfl
    | cons d ds => simp [hds d]
  obtain ⟨c, hc⟩ := List.exists_mem_of_ne_nil cs hne
  have hfront : (w₁ ++ cs ++ w₂).dropWhile p = cs ++ w₂ := by
    rw [List.append_assoc, List.dropWhile_append_of_pos h₁,
      dropWhile_append_of_exists ⟨c, hc, h c hc⟩, hself cs h]
  have hback : (w₂.reverse ++ cs.reverse).dropWhile p = cs.reverse := by
    rw [List.dropWhile_append_of_pos (by simpa using h₂), hself cs.reverse (by simpa using h)]
  rw [trim, hfront, List.reverse_append, hback, List.reverse_reverse]

/-- Trimming keeps a character between two that are not of the class. -/
theorem mem_trim_of_between {a b : List Char} (ha : ∃ x ∈ a, p x = false)
    (hb : ∃ x ∈ b, p x = false) (c : Char) : c ∈ trim p (a ++ c :: b) := by
  have hb' : ∃ x ∈ b.reverse, p x = false := by simpa using hb
  rw [trim, dropWhile_append_of_exists ha, List.reverse_append, List.reverse_cons,
    List.append_assoc, dropWhile_append_of_exists hb']
  simp

end Text

/-! ### Numeric text -/

theorem isNumericText_iff {t : String} : isNumericText t = true ↔ HasNumericForm t := by
  rw [isNumericText, Numeral.scan_asciiRun_isSome_iff]
  constructor
  · rintro ⟨s, m, e, htrim, hs, hm, he⟩
    obtain ⟨w₁, w₂, ht, h₁, h₂⟩ := exists_trim isBlank t.toList
    refine ⟨w₁, s, m, e, w₂, ?_, h₁, h₂, hs, hm, he⟩
    rw [ht, htrim]
    simp only [List.append_assoc]
  · rintro ⟨w₁, s, m, e, w₂, ht, h₁, h₂, hs, hm, he⟩
    refine ⟨s, m, e, ?_, hs, hm, he⟩
    have hne : s ++ m ++ e ≠ [] := by
      obtain ⟨c, hc, -⟩ := hm.exists_digit
      exact List.ne_nil_of_mem (List.mem_append_left e (List.mem_append_right s hc))
    have hplain : ∀ c ∈ s ++ m ++ e, isBlank c = false := fun c hc =>
      isBlank_of_isNumeric (isNumeric_of_parts hs hm he c hc)
    rw [← trim_append h₁ hne hplain h₂, ht]
    simp only [List.append_assoc]

/-- What is left of numeric text without the blanks around it is made of numeric characters, among
them a digit. -/
theorem trim_of_isNumericText {t : String} (h : isNumericText t = true) :
    (∀ c ∈ trim isBlank t.toList, isNumeric c = true) ∧
      ∃ c ∈ trim isBlank t.toList, c.isDigit = true := by
  obtain ⟨s, m, e, htrim, hs, hm, he⟩ := Numeral.scan_asciiRun_isSome_iff.1 h
  rw [htrim]
  obtain ⟨c, hc, hdigit⟩ := hm.exists_digit
  exact ⟨isNumeric_of_parts hs hm he, c, List.mem_append_left e (List.mem_append_right s hc),
    hdigit⟩

/-- **Numeric text is text of the numeric form.**  So a blank in numeric text has nothing but blanks
before it or nothing but blanks after it, there is no underscore and no digit of another script in
it, and it is neither empty nor a word for an infinity or for not-a-number. -/
theorem isNumericText_exact (t : String) :
    (isNumericText t = true ↔ HasNumericForm t) ∧
    (isNumericText t = true →
      (∀ a c b, t.toList = a ++ c :: b → isBlank c = true →
        (∀ x ∈ a, isBlank x = true) ∨ ∀ x ∈ b, isBlank x = true) ∧
      '_' ∉ t.toList ∧
      (∀ c ∈ t.toList, digitValue? c ≠ none → c.isDigit = true) ∧
      Numeral.word? (trim isBlank t.toList) = none ∧ t ≠ "") := by
  refine ⟨isNumericText_iff, fun h => ?_⟩
  obtain ⟨hnumeric, d, hd, hdigit⟩ := trim_of_isNumericText h
  refine ⟨fun a c b ht hc => ?_, fun hmem => ?_, fun c hmem hvalue => ?_, ?_, ?_⟩
  · -- a blank between two other characters is not taken off, and is no numeric character
    by_contra hno
    rw [not_or] at hno
    have hmem : c ∈ trim isBlank t.toList := by
      rw [ht]
      exact mem_trim_of_between (by simpa using hno.1) (by simpa using hno.2) c
    simp [isBlank_of_isNumeric (hnumeric c hmem)] at hc
  · have hunderscore := hnumeric '_' (mem_trim hmem (by decide))
    revert hunderscore
    decide
  · have hc := hnumeric c (mem_trim hmem (isBlank_of_digitValue? hvalue))
    rcases isNumeric_iff.1 hc with hdigit | rfl | rfl | rfl | rfl | rfl
    · exact hdigit
    all_goals exact absurd (by decide) hvalue
  · -- a word has letters only, and the digit stays when a sign is taken off
    have hcode := toNat_of_isDigit hdigit
    exact Numeral.word?_eq_none_of_lt (by omega) (Numeral.mem_sign_of_isDigit hdigit hd)
  · rintro rfl
    cases hd

/-- A separator, `-.5E+30` and a tab: a blank on both sides, a mantissa without a whole part and an
exponent with a sign of its own. -/
theorem isNumericText_exact_of_exponent :
    let t := "\x1f-.5E+30\t"
    HasNumericForm t ∧ isNumericText t = true ∧
      (∀ a c b, t.toList = a ++ c :: b → isBlank c = true →
        (∀ x ∈ a, isBlank x = true) ∨ ∀ x ∈ b, isBlank x = true) ∧
      (∀ c ∈ t.toList, digitValue? c ≠ none → c.isDigit = true) := by
  intro t
  have hform : HasNumericForm t :=
    ⟨['\x1f'], ['-'], ['.', '5'], ['E', '+', '3', '0'], ['\t'], by decide,
      List.forall_mem_singleton.2 (by decide), List.forall_mem_singleton.2 (by decide),
      .minus, .bare (by simp) (by simp [AreDigits]),
      .some (s := ['+']) (.inr rfl) .plus (by simp) (by simp [AreDigits])⟩
  obtain ⟨hiff, hshape⟩ := isNumericText_exact t
  have hnumeric := hiff.2 hform
  obtain ⟨hinner, -, hdigits, -⟩ := hshape hnumeric
  exact ⟨hform, hnumeric, hinner, hdigits⟩

end FlatScript
