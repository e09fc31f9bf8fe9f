import FlatScript.Proofs.Classification
import Mathlib.Data.List.TakeWhile

/-!
# Numeric text as a number

Text counts as a number if it is numeric, and it is then read as a numeral.  The two readers agree
on the characters of a numeral, but not on the blanks around it: the four information separators may
stand around numeric text and not around a numeral.  So numeric text is read without a fault exactly
if it holds no separator.

* `Numeral.scan_groupedRun` : what reads as numeric text reads as a numeral, with the same value;
* `Double.read?_of_isNumericText` : **numeric text without separators is a numeral**, and not the
  word for not-a-number;
* `Numeral.Foreign.scan_eq_none`, `Double.read?_of_hasSeparator` : a character that is no part of a
  numeral is never passed over, and so text with a separator is no numeral;
* `Value.text_coercion` : **when text has a number, and when a run fails for the lack of one.**
-/

namespace FlatScript

open Outcome Text

/-! ### Blanks around text -/

namespace Text

/-- An information separator: a blank that is not white space. -/
def isSeparator (c : Char) : Bool := 0x1C ≤ c.toNat && c.toNat ≤ 0x1F

theorem isSeparator_iff {c : Char} :
    isSeparator c = true ↔ 0x1C ≤ c.toNat ∧ c.toNat ≤ 0x1F := by
  simp [isSeparator]

theorem isBlank_of_not_isSeparator {c : Char} (h : isSeparator c = false) :
    isBlank c = isWhiteSpace c := by
  have hsplit : isBlank c = (isWhiteSpace c || isSeparator c) := rfl
  rw [hsplit, h, Bool.or_false]

theorem isWhiteSpace_of_isSeparator {c : Char} (h : isSeparator c = true) :
    isWhiteSpace c = false := by
  have hcode := isSeparator_iff.1 h
  simp [isWhiteSpace]
  omega

theorem dropWhile_congr {p q : Char → Bool} {cs : List Char} (h : ∀ c ∈ cs, p c = q c) :
    cs.dropWhile p = cs.dropWhile q := by
  induction cs with
  | nil => rfl
  | cons c cs ih =>
    obtain ⟨hc, hcs⟩ := List.forall_mem_cons.1 h
    rw [List.dropWhile_cons, List.dropWhile_cons, hc, ih hcs]

theorem trim_congr {p q : Char → Bool} {cs : List Char} (h : ∀ c ∈ cs, p c = q c) :
    trim p cs = trim q cs := by
  have hfront : cs.dropWhile p = cs.dropWhile q := dropWhile_congr h
  have hback : ∀ c ∈ (cs.dropWhile q).reverse, p c = q c := fun c hc =>
    h c ((List.dropWhile_suffix q).subset (List.mem_reverse.1 hc))
  rw [trim, trim, hfront, dropWhile_congr hback]

theorem mem_dropWhile {p : Char → Bool} {c : Char} {cs : List Char} (h : c ∈ cs)
    (hc : p c = false) : c ∈ cs.dropWhile p := by
  rw [← List.takeWhile_append_dropWhile (p := p) (l := cs), List.mem_append] at h
  refine h.resolve_left fun htake => ?_
  simp [List.mem_takeWhile_imp htake] at hc

/-- Trimming keeps the characters that are not of the class. -/
theorem mem_trim {p : Char → Bool} {c : Char} {cs : List Char} (h : c ∈ cs) (hc : p c = false) :
    c ∈ trim p cs :=
  List.mem_reverse.2 (mem_dropWhile (List.mem_reverse.2 (mem_dropWhile h hc)) hc)

end Text

/-! ### Runs of digits -/

namespace Numeral

theorem digitValue?_of_ascii {c : Char} {d : Nat} (h : asciiDigitValue? c = some d) :
    digitValue? c = some d := by
  unfold asciiDigitValue? at h
  split at h
  · rename_i hc
    obtain ⟨hlow, hhigh⟩ := hc
    have hlow : 0x30 ≤ c.toNat := hlow
    have hhigh : c.toNat ≤ 0x39 := hhigh
    rw [digitValue?, digitZeros, List.find?_cons_of_pos (by simp; omega)]
    exact h
  · cases h

/-- The text does not go on with a digit of any script or with an underscore. -/
def EndsRun (cs : List Char) : Prop := ∀ c ∈ cs.head?, digitValue? c = none ∧ c ≠ '_'

theorem groupedRun_eq_asciiRun {cs : List Char} (h : EndsRun (asciiRun cs).2) (afterDigit : Bool) :
    groupedRun digitValue? afterDigit cs = asciiRun cs := by
  induction cs generalizing afterDigit with
  | nil => rfl
  | cons c cs ih =>
    cases hc : asciiDigitValue? c with
    | some d =>
      simp only [asciiRun, hc] at h ⊢
      simp only [groupedRun, digitValue?_of_ascii hc, ih h true]
    | none =>
      simp only [asciiRun, hc] at h ⊢
      obtain ⟨hvalue, hunderscore⟩ := h c rfl
      simp [groupedRun, hvalue, hunderscore]

/-! ### One scanner under two rules -/

theorem endsRun_of_fraction {cs : List Char} (h : EndsRun (fraction asciiRun cs).2) :
    EndsRun cs := by
  unfold fraction at h
  split at h
  · rintro c ⟨⟩
    decide
  · exact h

theorem fraction_groupedRun {cs : List Char} (h : EndsRun (fraction asciiRun cs).2) :
    fraction (groupedRun digitValue? false) cs = fraction asciiRun cs := by
  unfold fraction at h ⊢
  split at h
  · exact groupedRun_eq_asciiRun h false
  · rfl

/-- An exponent reads the same under both rules: it goes on to the end of the text, so no digit of
another script and no underscore comes after it. -/
theorem exponent?_groupedRun {cs : List Char} {e : Int} (h : exponent? asciiRun cs = some e) :
    exponent? (groupedRun digitValue? false) cs = some e ∧ EndsRun cs := by
  cases cs with
  | nil => exact ⟨h, by rintro c ⟨⟩⟩
  | cons c cs =>
    simp only [exponent?] at h ⊢
    split at h
    · rename_i hc
      have hends : EndsRun (c :: cs) := by
        rintro _ ⟨⟩
        rcases hc with rfl | rfl <;> decide
      have hrest : EndsRun (asciiRun (sign cs).2).2 := by
        split at h
        · rename_i hrun
          rw [hrun]
          rintro _ ⟨⟩
        · cases h
      rw [if_pos hc, groupedRun_eq_asciiRun hrest]
      exact ⟨h, hends⟩
    · cases h

/-- **What reads as numeric text reads as a numeral**, with the same value. -/
theorem scan_groupedRun {cs : List Char} {d : Decimal} (h : scan asciiRun cs = some d) :
    scan (groupedRun digitValue? false) cs = some d := by
  simp only [scan] at h ⊢
  split at h
  · cases h
  · rename_i hdigits
    obtain ⟨e, he, rfl⟩ := Option.map_eq_some_iff.1 h
    -- Read backwards: the exponent ends the fraction's run, and the fraction ends the whole part's.
    obtain ⟨hexponent, hends⟩ := exponent?_groupedRun he
    have hfraction := fraction_groupedRun hends
    have hwhole := groupedRun_eq_asciiRun (endsRun_of_fraction hends) false
    rw [hwhole, hfraction, if_neg hdigits, hexponent]
    rfl

/-! ### The characters of a numeral -/

/-- The character is no part of a numeral: no digit, underscore, sign, point or exponent mark. -/
def Foreign (c : Char) : Prop :=
  digitValue? c = none ∧ c ∉ ['_', '+', '-', '.', 'e', 'E']

section Foreign
variable {c : Char} (hc : Foreign c)
include hc

theorem Foreign.mem_groupedRun (afterDigit : Bool) {cs : List Char} (h : c ∈ cs) :
    c ∈ (groupedRun digitValue? afterDigit cs).2 := by
  fun_induction groupedRun digitValue? afterDigit cs with
  | case1 => exact h
  | case2 _ b bs d hd ds rest hrun ih =>
    rcases List.mem_cons.1 h with rfl | h
    · simp [hc.1] at hd
    · simpa [hrun] using ih h
  | case3 _ b bs _ hskip ih =>
    rcases List.mem_cons.1 h with rfl | h
    · have hmarks := hc.2
      simp_all
    · exact ih h
  | case4 => exact h

theorem Foreign.mem_sign {cs : List Char} (h : c ∈ cs) : c ∈ (sign cs).2 := by
  have hmarks := hc.2
  unfold sign
  split <;> simp_all

theorem Foreign.mem_fraction {cs : List Char} (h : c ∈ cs) :
    c ∈ (fraction (groupedRun digitValue? false) cs).2 := by
  have hmarks := hc.2
  unfold fraction
  split
  · exact hc.mem_groupedRun false (by simp_all)
  · exact h

theorem Foreign.exponent?_eq_none {cs : List Char} (h : c ∈ cs) :
    exponent? (groupedRun digitValue? false) cs = none := by
  have hmarks := hc.2
  cases cs with
  | nil => cases h
  | cons b bs =>
    simp only [exponent?]
    split
    · rename_i hmark
      have hbs : c ∈ bs := by
        rcases List.mem_cons.1 h with rfl | h
        · rcases hmark with rfl | rfl <;> simp at hmarks
        · exact h
      have hrest := hc.mem_groupedRun false (hc.mem_sign hbs)
      split
      · rename_i hrun
        rw [hrun] at hrest
        cases hrest
      · rfl
    · rfl

/-- No numeral in digits holds a foreign character: it stays in the text that is left to read. -/
theorem Foreign.scan_eq_none {cs : List Char} (h : c ∈ cs) :
    scan (groupedRun digitValue? false) cs = none := by
  have hrest := hc.mem_fraction (hc.mem_groupedRun false (hc.mem_sign h))
  simp only [scan, hc.exponent?_eq_none hrest, Option.map_none, ite_self]

end Foreign

theorem foreign_of_isSeparator {c : Char} (h : isSeparator c = true) : Foreign c := by
  have hcode := isSeparator_iff.1 h
  refine ⟨?_, ?_⟩
  · have hzeros : ∀ z ∈ digitZeros, 0x30 ≤ z := by decide
    have hnone : digitZeros.find? (fun z => z ≤ c.toNat && c.toNat < z + 10) = none := by
      refine List.find?_eq_none.2 fun z hz => ?_
      have := hzeros z hz
      simp
      omega
    simp [digitValue?, hnone]
  · intro hmem
    have hmarks : ∀ b ∈ ['_', '+', '-', '.', 'e', 'E'], 0x1F < b.toNat := by simp
    have := hmarks c hmem
    omega

/-- No word holds a character below the letters, its sign apart. -/
theorem word?_eq_none_of_lt {c : Char} (hc : c.toNat < 0x41) {cs : List Char}
    (h : c ∈ (sign cs).2) : word? cs = none := by
  -- lower case changes letters only, so the character is still there when the words are compared
  have hlower : c.toLower = c := by
    refine dif_neg ?_
    rintro ⟨hlow, -⟩
    have hlow : 0x41 ≤ c.toNat := hlow
    omega
  have hname : c ∈ (sign cs).2.map Char.toLower := List.mem_map.2 ⟨c, h, hlower⟩
  have hne : ∀ word ∈ ["inf", "infinity", "nan"],
      String.ofList ((sign cs).2.map Char.toLower) ≠ word := by
    intro word hword heq
    have hmem : c ∈ word.toList := by simpa [← heq] using hname
    have hletters : ∀ w ∈ ["inf", "infinity", "nan"], ∀ b ∈ w.toList, 0x41 ≤ b.toNat := by simp
    have := hletters word hword c hmem
    omega
  simp [word?, hne]

theorem word?_eq_none_of_isSeparator {c : Char} (hc : isSeparator c = true) {cs : List Char}
    (h : c ∈ cs) : word? cs = none := by
  have hcode := isSeparator_iff.1 hc
  exact word?_eq_none_of_lt (by omega) ((foreign_of_isSeparator hc).mem_sign h)

end Numeral

/-! ### Numeric text and numerals -/

/-- Whether there is an information separator in the text. -/
def hasSeparator (t : String) : Bool := t.toList.any isSeparator

theorem Double.ofRatio_ne_nan (neg : Bool) (num den : Nat) : ofRatio neg num den ≠ .nan := by
  unfold ofRatio
  split <;> simp

theorem Double.ofDecimal_ne_nan (d : Decimal) : ofDecimal d ≠ .nan := by
  unfold ofDecimal
  split
  · split_ifs
    · simp [zeroOf]
    · simp
    · apply ofRatio_ne_nan
  · split_ifs
    · simp [zeroOf]
    · apply ofRatio_ne_nan

/-- **Numeric text without separators is a numeral**, and not the word for not-a-number. -/
theorem Double.read?_of_isNumericText {t : String} (h : isNumericText t = true)
    (hplain : hasSeparator t = false) : ∃ x, x ≠ .nan ∧ Double.read? t = some x := by
  obtain ⟨d, hd⟩ := Option.isSome_iff_exists.1 h
  have hsame : ∀ c ∈ t.toList, isBlank c = isWhiteSpace c := fun c hc =>
    isBlank_of_not_isSeparator (by simpa using List.any_eq_false.1 hplain c hc)
  rw [trim_congr hsame] at hd
  refine ⟨Double.ofDecimal d, Double.ofDecimal_ne_nan d, ?_⟩
  simp only [Double.read?, Numeral.scan_groupedRun hd]

/-- Text with a separator is no numeral, wherever the separator stands. -/
theorem Double.read?_of_hasSeparator {t : String} (h : hasSeparator t = true) :
    Double.read? t = none := by
  obtain ⟨c, hc, hsep⟩ := List.any_eq_true.1 h
  have hmem : c ∈ trim isWhiteSpace t.toList := mem_trim hc (isWhiteSpace_of_isSeparator hsep)
  simp only [Double.read?, (Numeral.foreign_of_isSeparator hsep).scan_eq_none hmem,
    Numeral.word?_eq_none_of_isSeparator hsep hmem]

theorem hasSeparator_of_read?_eq_none {t : String} (h : isNumericText t = true)
    (hnone : Double.read? t = none) : hasSeparator t = true := by
  by_contra hplain
  obtain ⟨x, -, hx⟩ := Double.read?_of_isNumericText h (by simpa using hplain)
  simp [hnone] at hx

/-- Text has no number exactly if it passes for numeric and holds a separator. -/
theorem Value.asNumber_text_eq_error_iff {t : String} {f : Fault} :
    (Value.text t).asNumber = .error f ↔
      isNumericText t = true ∧ hasSeparator t = true ∧ f = .badNumeral t := by
  simp only [asNumber]
  split
  · rename_i hnumeric
    constructor
    · intro h
      obtain ⟨hnone, hf⟩ := readNumeral_eq_error h
      exact ⟨hnumeric, hasSeparator_of_read?_eq_none hnumeric hnone, hf⟩
    · rintro ⟨-, hsep, rfl⟩
      simp only [readNumeral, Double.read?_of_hasSeparator hsep]
  · rename_i hnumeric
    simp [hnumeric]

/-! ### Runs -/

/-- Where the numbers are numerals, a fault without a category is that of a text that passes for
numeric and holds a separator. -/
theorem Accounts.category? {ps : List Piece} {T : String → Prop} {σ : Store} {f : Fault}
    (h : Accounts ps T σ f) (hps : ∀ p ∈ ps, p.isNative = true)
    (hnumbers : ∀ t, .number t ∈ ps.flatMap Piece.nodes → Double.read? t ≠ none) :
    f.category? ≠ none ∨
      ∃ t, T t ∧ isNumericText t = true ∧ hasSeparator t = true ∧ f = .badNumeral t := by
  cases h with
  | numeral hmem hnone => exact absurd hnone (hnumbers _ hmem)
  | text ht hnumeric hnone =>
    exact .inr ⟨_, ht, hnumeric, hasSeparator_of_read?_eq_none hnumeric hnone, rfl⟩
  | foreign hp hforeign => simp [hps _ hp] at hforeign
  | _ => exact .inl nofun

/-- **When text has a number.**  Text that is not numeric is zero.  Numeric text without separators
is read as a numeral, and what it stands for is a number.  The coercion fails on the rest, and only
there: on text that passes for numeric with a separator around it.  Hence a run of a native program
whose numbers are all numerals ends in a fault without a category only through such a text among its
own. -/
theorem Value.text_coercion (tolerance : Double) :
    (∀ t, isNumericText t = false → (Value.text t).asNumber = .ok .zero) ∧
    (∀ t, isNumericText t = true → hasSeparator t = false →
      ∃ x, x ≠ .nan ∧ readNumeral t = .ok x ∧ (Value.text t).asNumber = .ok x) ∧
    (∀ t f, (Value.text t).asNumber = .error f ↔
      isNumericText t = true ∧ hasSeparator t = true ∧ f = .badNumeral t) ∧
    ∀ p : Program, p.isNative = true →
      (∀ t, .number t ∈ p.pieces.flatMap Piece.nodes → Double.read? t ≠ none) →
      ∀ o, EndsWith (fun fuel => p.run tolerance fuel) o →
        (∃ v m, o = .done v m) ∨
          ∃ f m, o = .failed f m ∧ (f.category? ≠ none ∨
            ∃ t ∈ p.pieces.flatMap Piece.texts,
              isNumericText t = true ∧ hasSeparator t = true ∧ f = .badNumeral t) := by
  refine ⟨fun t h => ?_, fun t h hplain => ?_, fun t f => asNumber_text_eq_error_iff,
    fun p hp hnumbers o ho => ?_⟩
  · simp [asNumber, h]
  · obtain ⟨x, hx, hread⟩ := Double.read?_of_isNumericText h hplain
    have hnumeral : readNumeral t = .ok x := by simp only [readNumeral, hread]
    refine ⟨x, hx, hnumeral, ?_⟩
    simp only [asNumber, h, if_true, hnumeral]
  · obtain ⟨fuel, hfuel⟩ := ho.exists_fuel
    cases o with
    | done v m => exact .inl ⟨v, m, rfl⟩
    | failed f m =>
      have haccounts := Program.accounts_of_run hp hfuel
      exact .inr ⟨f, m, rfl, haccounts.category? (Program.native_run hp).2 hnumbers⟩
    | outOfFuel => exact absurd rfl ho.1

/-- `s = " -2.5e1\t"; s += 1; s /= 0;`, with white space around the text.  The text is read as minus
25, and the run fails with an error of the language. -/
theorem Value.text_coercion_of_blanks :
    let t := " -2.5e1\t"
    let p : Program := {
      globals := []
      entry := { body := [.assign ⟨"s", .set (.text t), .unknown⟩,
        .assign ⟨"s", .update .add (.arith (.number "1")), .unknown⟩,
        .assign ⟨"s", .update .div (.arith (.number "0")), .unknown⟩] } }
    let m : Machine :=
      { p.start with store := ⟨[("s", ⟨.number (.ofInt (-24)), none, .main⟩)]⟩, scope := .main }
    isNumericText "12abc" = false ∧ (Value.text "12abc").asNumber = .ok .zero ∧
      isNumericText t = true ∧ hasSeparator t = false ∧
      (∃ x, x ≠ .nan ∧ readNumeral t = .ok x ∧ (Value.text t).asNumber = .ok x) ∧
      p.isNative = true ∧
      (∀ n, .number n ∈ p.pieces.flatMap Piece.nodes → Double.read? n ≠ none) ∧
      EndsWith (fun fuel => p.run Double.one fuel) (.failed .divisionByZero m) ∧
      Fault.divisionByZero.category? ≠ none := by
  intro t p m
  obtain ⟨hother, hnumeric, -, hruns⟩ := text_coercion Double.one
  have hword : isNumericText "12abc" = false := by decide +kernel
  have ht : isNumericText t = true := by decide +kernel
  have hplain : hasSeparator t = false := by decide +kernel
  have hnative : p.isNative = true := rfl
  have hnumbers : ∀ n, .number n ∈ p.pieces.flatMap Piece.nodes → Double.read? n ≠ none := by
    have hnodes : p.pieces.flatMap Piece.nodes = [.number "1", .number "0"] := rfl
    intro n hn
    rw [hnodes, List.mem_cons, List.mem_singleton] at hn
    rcases hn with ⟨⟨⟩⟩ | ⟨⟨⟩⟩ <;> decide +kernel
  have hrun : p.run Double.one 0 = .failed .divisionByZero m := by decide +kernel
  have hends := (p.run_steady Double.one).endsWith_of_eq hrun (by simp)
  refine ⟨hword, hother _ hword, ht, hplain, hnumeric t ht hplain, hnative, hnumbers, hends, ?_⟩
  rcases hruns p hnative hnumbers _ hends with ⟨v, m', h⟩ | ⟨f, m', h, hcategory⟩
  · cases h
  · cases h
    refine hcategory.resolve_right ?_
    rintro ⟨_, -, -, -, h⟩
    cases h

/-- **Numeric text can fail to be a number**: a separator before the digit is a blank of numeric
text, and so the text is not zero, but it is no numeral either.  `s = "5"; s++;` with the separator
before the digit ends in a fault of no category, without a number in the program. -/
theorem Value.text_coercion_fails_at_separator :
    let t := "\x1c5"
    let p : Program := {
      globals := []
      entry := { body := [.assign ⟨"s", .set (.text t), .unknown⟩,
        .assign ⟨"s", .increment, .unknown⟩] } }
    let m : Machine := { p.start with store := ⟨[("s", ⟨.text t, none, .main⟩)]⟩, scope := .main }
    isNumericText t = true ∧ (Value.text t).asNumber = .error (.badNumeral t) ∧
      (∀ n, .number n ∉ p.pieces.flatMap Piece.nodes) ∧
      EndsWith (fun fuel => p.run Double.one fuel) (.failed (.badNumeral t) m) ∧
      (Fault.badNumeral t).category? = none := by
  intro t p m
  have ht : isNumericText t = true := by decide +kernel
  have hsep : hasSeparator t = true := by decide +kernel
  have hrun : p.run Double.one 0 = .failed (.badNumeral t) m := by decide +kernel
  have hends := (p.run_steady Double.one).endsWith_of_eq hrun (by simp)
  have hnodes : p.pieces.flatMap Piece.nodes = [] := rfl
  refine ⟨ht, asNumber_text_eq_error_iff.2 ⟨ht, hsep, rfl⟩, ?_, hends, rfl⟩
  simp [hnodes]

end FlatScript
