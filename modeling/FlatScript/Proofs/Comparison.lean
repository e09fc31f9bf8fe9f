import FlatScript.Eval.Condition
import FlatScript.Proofs.Host

/-!
# Comparisons that agree with each other

Four of the six comparisons are the order of doubles itself.  The other two go through a
difference, which is rounded and may overflow, and compare its size with the tolerance.

* `Double.le_eq_not_lt`, `Double.not_lt_of_lt` : the order of numbers is total;
* `Double.approxEq_of_le_of_le` : numbers that are neither below nor above each other are equal
  within every tolerance, unless they are infinite;
* `Double.approxEq_infinite` : an infinity is not equal to itself, since it differs from itself by
  something that is not a number;
* `Condition.comparisons_consistent` : **so the six comparisons agree with each other, on all
  numbers except an infinity and itself.**
-/

namespace FlatScript

namespace Double

/-! ### The order of numbers -/

section Order

variable {x y : Double}

/-- Not below is above or equal: every two numbers can be compared. -/
theorem le_eq_not_lt (hx : x ≠ .nan) (hy : y ≠ .nan) : x.le y = !y.lt x := by
  cases x with
  | nan => exact absurd rfl hx
  | infinite neg =>
    cases y with
    | nan => exact absurd rfl hy
    | infinite neg' => cases neg <;> cases neg' <;> rfl
    | finite neg' mag' h' => cases neg <;> rfl
  | finite neg mag h =>
    cases y with
    | nan => exact absurd rfl hy
    | infinite neg' => cases neg' <;> rfl
    | finite neg' mag' h' =>
      simp only [le, lt, ← decide_not]
      exact decide_eq_decide.2 Int.not_lt.symm

theorem not_lt_of_lt (h : x.lt y = true) : y.lt x = false := by
  cases x with
  | nan => cases h
  | infinite neg =>
    cases y with
    | nan => cases h
    | infinite neg' => simp_all [lt]
    | finite neg' mag' h' => simpa [lt] using h
  | finite neg mag hmag =>
    cases y with
    | nan => cases h
    | infinite neg' => simpa [lt] using h
    | finite neg' mag' hmag' =>
      simp only [lt, decide_eq_true_eq, decide_eq_false_iff_not] at h ⊢
      omega

theorem not_lt_self (x : Double) : x.lt x = false := by
  cases h : x.lt x with
  | false => rfl
  | true => exact h.symm.trans (not_lt_of_lt h)

theorem le_self (hx : x ≠ .nan) : x.le x = true := by
  rw [le_eq_not_lt hx hx, not_lt_self]
  rfl

/-- Of two numbers the one is below, above or, both ways round, at most the other. -/
theorem lt_trichotomy (hx : x ≠ .nan) (hy : y ≠ .nan) :
    (x.lt y = true ∧ y.lt x = false) ∨ (x.lt y = false ∧ y.lt x = true) ∨
      (x.le y = true ∧ y.le x = true) := by
  rw [le_eq_not_lt hx hy, le_eq_not_lt hy hx]
  cases hlt : x.lt y with
  | true => exact .inl ⟨rfl, not_lt_of_lt hlt⟩
  | false =>
    cases hgt : y.lt x with
    | true => exact .inr (.inl ⟨rfl, rfl⟩)
    | false => exact .inr (.inr ⟨rfl, rfl⟩)

/-! ### Equality within a tolerance -/

theorem signed_not (neg : Bool) (mag : Nat) : signed (!neg) mag = -signed neg mag := by
  cases neg <;> simp [signed]

/-- Numbers that are neither below nor above each other differ by a zero, unless they are
infinite. -/
theorem sub_of_le_of_le (hle : x.le y = true) (hge : y.le x = true)
    (hsame : ¬(x = y ∧ x.isInfinite = true)) : ∃ neg, x.sub y = zeroOf neg := by
  cases x with
  | nan => cases hle
  | infinite neg =>
    cases y with
    | nan => cases hle
    | infinite neg' => cases neg <;> cases neg' <;> simp_all [le, isInfinite]
    | finite neg' mag' h' => cases neg <;> simp_all [le]
  | finite neg mag h =>
    cases y with
    | nan => cases hle
    | infinite neg' => cases neg' <;> simp_all [le]
    | finite neg' mag' h' =>
      simp only [le, decide_eq_true_eq] at hle hge
      refine ⟨neg && !neg', if_pos ?_⟩
      rw [signed_not]
      omega

theorem approxEq_of_le_of_le {tolerance : Double} (htolerance : zero.lt tolerance = true)
    (hle : x.le y = true) (hge : y.le x = true) (hsame : ¬(x = y ∧ x.isInfinite = true)) :
    x.approxEq y tolerance = true := by
  obtain ⟨neg, hsub⟩ := sub_of_le_of_le hle hge hsame
  rw [approxEq, hsub]
  exact htolerance

/-- An infinity is not equal to itself, whatever the tolerance. -/
theorem approxEq_infinite (neg : Bool) (tolerance : Double) :
    (infinite neg).approxEq (infinite neg) tolerance = false := by
  cases neg <;> rfl

end Order

end Double

/-! ### The comparisons of the language -/

section Comparison

variable {tolerance : Double} {σ : Store} {left right : Expr} {a b : Double}

theorem Expr.eval_number {t : String} {x : Double} (h : Double.read? t = some x) :
    (Expr.number t).eval σ = .ok x := by
  simp only [Expr.eval, readNumeral, h]

theorem Condition.test_comparison (ha : left.eval σ = .ok a) (hb : right.eval σ = .ok b)
    (op : CompareOp) :
    (Condition.comparison (.known op) left right).test tolerance σ =
      .ok (op.test tolerance a b) := by
  rw [Condition.test, ha, hb]
  rfl

/-- **The comparisons agree with each other**, for every positive tolerance, on the values of any
two expressions that are numbers, an infinity and itself excepted.  What is at most and at least the
other is equal to it and not unequal; so a value is equal to itself; and of two values that are not
equal one is below the other.  An infinity is at most and at least itself, and yet unequal to
itself. -/
theorem Condition.comparisons_consistent (tolerance : Tolerance) (σ : Store) (left right : Expr)
    (a b : Double) (ha : left.eval σ = .ok a) (hb : right.eval σ = .ok b) (hna : a ≠ .nan)
    (hnb : b ≠ .nan) :
    let test (op : CompareOp) (l r : Expr) : Except Fault Bool :=
      (Condition.comparison (.known op) l r).test tolerance.value σ
    (¬(a = b ∧ a.isInfinite = true) →
      (test .le left right = .ok true → test .ge left right = .ok true →
        test .eq left right = .ok true ∧ test .ne left right = .ok false) ∧
      (test .eq left right = .ok false →
        (test .lt left right = .ok true ∧ test .gt left right = .ok false) ∨
        (test .lt left right = .ok false ∧ test .gt left right = .ok true))) ∧
    (a.isInfinite = false →
      test .eq left left = .ok true ∧ test .ne left left = .ok false) ∧
    (a = b ∧ a.isInfinite = true →
      test .le left right = .ok true ∧ test .ge left right = .ok true ∧
      test .lt left right = .ok false ∧ test .gt left right = .ok false ∧
      test .eq left right = .ok false ∧ test .ne left right = .ok true) := by
  intro test
  have hpair (op : CompareOp) : test op left right = .ok (op.test tolerance.value a b) :=
    test_comparison ha hb op
  have hself (op : CompareOp) : test op left left = .ok (op.test tolerance.value a a) :=
    test_comparison ha ha op
  simp only [hpair, hself, CompareOp.test, Except.ok.injEq]
  refine ⟨fun hsame => ⟨fun hle hge => ?_, fun hne => ?_⟩, fun hfinite => ?_, ?_⟩
  · have heq := Double.approxEq_of_le_of_le tolerance.positive hle hge hsame
    exact ⟨heq, by rw [heq]; rfl⟩
  · obtain h | h | ⟨hle, hge⟩ := Double.lt_trichotomy hna hnb
    · exact .inl h
    · exact .inr h
    · have heq := Double.approxEq_of_le_of_le tolerance.positive hle hge hsame
      simp [heq] at hne
  · have hle := Double.le_self hna
    have heq := Double.approxEq_of_le_of_le tolerance.positive hle hle (by simp [hfinite])
    exact ⟨heq, by rw [heq]; rfl⟩
  · rintro ⟨rfl, hinfinite⟩
    obtain ⟨neg, rfl⟩ : ∃ neg, a = .infinite neg := by
      cases a with
      | infinite neg => exact ⟨neg, rfl⟩
      | _ => cases hinfinite
    have hle := Double.le_self hna
    have hlt := Double.not_lt_self (.infinite neg)
    have hne := Double.approxEq_infinite neg tolerance.value
    exact ⟨hle, hle, hlt, hlt, hne, by rw [hne]; rfl⟩

/-- The two zeros, which are different doubles, within the smallest tolerance; and the largest power
of ten with its negation, whose difference overflows, within an infinite one. -/
theorem Condition.comparisons_consistent_of_extremes :
    let test (tolerance : Tolerance) (op : CompareOp) (l r : String) : Except Fault Bool :=
      (Condition.comparison (.known op) (.number l) (.number r)).test tolerance.value .empty
    let smallest : Tolerance := ⟨.ofDecimal ⟨false, 5, -324⟩, by decide +kernel⟩
    let infinite : Tolerance := ⟨.infinite false, rfl⟩
    test smallest .le "0" "-0" = .ok true ∧ test smallest .ge "0" "-0" = .ok true ∧
      test smallest .eq "0" "-0" = .ok true ∧ test smallest .ne "0" "-0" = .ok false ∧
      test infinite .eq "-1e308" "1e308" = .ok false ∧
      test infinite .lt "-1e308" "1e308" = .ok true := by
  intro test smallest infinite
  have hzero : (Expr.number "0").eval .empty = .ok (.zeroOf false) :=
    Expr.eval_number (by decide +kernel)
  have hzero' : (Expr.number "-0").eval .empty = .ok (.zeroOf true) :=
    Expr.eval_number (by decide +kernel)
  have hpower : (Expr.number "1e308").eval .empty = .ok (.ofDecimal ⟨false, 1, 308⟩) :=
    Expr.eval_number (by decide +kernel)
  have hpower' : (Expr.number "-1e308").eval .empty = .ok (.ofDecimal ⟨true, 1, 308⟩) :=
    Expr.eval_number (by decide +kernel)
  have hle : test smallest .le "0" "-0" = .ok true := test_comparison hzero hzero' .le
  have hge : test smallest .ge "0" "-0" = .ok true := test_comparison hzero hzero' .ge
  have hne : test infinite .eq "-1e308" "1e308" = .ok false :=
    (test_comparison hpower' hpower .eq).trans (congrArg _ (by decide +kernel))
  have hgt : test infinite .gt "-1e308" "1e308" = .ok false :=
    (test_comparison hpower' hpower .gt).trans (congrArg _ (by decide +kernel))
  obtain ⟨hzeros, -, -⟩ := comparisons_consistent smallest .empty (.number "0") (.number "-0")
    (.zeroOf false) (.zeroOf true) hzero hzero' nofun nofun
  obtain ⟨hpowers, -, -⟩ := comparisons_consistent infinite .empty (.number "-1e308")
    (.number "1e308") _ _ hpower' hpower (by decide +kernel) (by decide +kernel)
  obtain ⟨heq, hne'⟩ := (hzeros nofun).1 hle hge
  refine ⟨hle, hge, heq, hne', hne, ?_⟩
  rcases (hpowers (by decide +kernel)).2 hne with ⟨hlt, -⟩ | ⟨-, hgt'⟩
  · exact hlt
  · cases hgt.symm.trans hgt'

/-- **An infinity is unequal to itself**, as a literal and as a result of arithmetic:
`1e999 <= 1e999` and `1e999 >= 1e999` hold and `1e999 == 1e999` does not, and neither `<` nor `>`
holds.  The same is so for `1e308 * 10`. -/
theorem Condition.comparisons_inconsistent_at_infinity :
    let test (op : CompareOp) (e : Expr) : Except Fault Bool :=
      (Condition.comparison (.known op) e e).test Tolerance.standard.value .empty
    ∀ e ∈ [Expr.number "1e999", .binary (.known .mul) (.number "1e308") (.number "10")],
      e.eval .empty = .ok (.infinite false) ∧
      test .le e = .ok true ∧ test .ge e = .ok true ∧ test .eq e = .ok false ∧
      test .ne e = .ok true ∧ test .lt e = .ok false ∧ test .gt e = .ok false := by
  intro test e he
  have hinfinite : e.eval .empty = .ok (.infinite false) := by
    rw [List.mem_cons, List.mem_singleton] at he
    rcases he with rfl | rfl
    · exact Expr.eval_number (by decide +kernel)
    · have hpower : (Expr.number "1e308").eval .empty = .ok (.ofDecimal ⟨false, 1, 308⟩) :=
        Expr.eval_number (by decide +kernel)
      have hten : (Expr.number "10").eval .empty = .ok (.ofInt 10) :=
        Expr.eval_number (by decide +kernel)
      have hproduct : (Double.ofDecimal ⟨false, 1, 308⟩).mul (.ofInt 10) = .infinite false := by
        decide +kernel
      rw [Expr.eval, hpower, hten, ← hproduct]
      rfl
  have htest (op : CompareOp) : test op e = _ := test_comparison hinfinite hinfinite op
  exact ⟨hinfinite, htest .le, htest .ge, htest .eq, htest .ne, htest .lt, htest .gt⟩

end Comparison

end FlatScript
