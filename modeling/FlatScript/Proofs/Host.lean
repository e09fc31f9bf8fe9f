import FlatScript.Builtin

/-!
# Functions of a host

A host that computes remainders and elementary functions may refuse an argument outside the domain
of a function, where `Double.rem` and `Builtin.apply` have a result: not-a-number or an infinity.
A guard in front of the host's function gives this result itself.

* `Host` : the functions of a host, which refuse arguments only outside their domains;
* `Double.remGuard`, `Builtin.guard` : the guards, which give the results of `Double.rem` and
  `Builtin.apply`;
* `Host.rem?_ne_none`, `Host.call?_ne_none` : **no host refuses an argument that passes the
  guard**;
* `Host.strict_rem?`, `Host.strict_call?` : behind the guards, the host with the functions of this
  library that refuses whatever it may is as good as the functions themselves.
-/

namespace FlatScript

namespace Double

/-- Whether the number is an infinity. -/
def isInfinite : Double → Bool
  | .infinite _ => true
  | _ => false

/-- Whether the number is not a number. -/
def isNan : Double → Bool
  | .nan => true
  | _ => false

theorem finite_lt_zero {neg : Bool} {mag : Nat} {h : Representable mag} :
    (finite neg mag h).lt zero = true ↔ neg = true ∧ mag ≠ 0 := by
  cases neg with
  | false => simp [lt, zero, zeroOf, signed]
  | true => simp [lt, zero, zeroOf, signed, Nat.pos_iff_ne_zero]

theorem lt_or_isZero_of_le_zero {x : Double} (h : x.le zero = true) :
    x.lt zero = true ∨ x.isZero = true := by
  cases x with
  | nan => cases h
  | infinite neg => exact .inl h
  | finite neg mag hmag =>
    by_cases hzero : mag = 0
    · exact .inr (by simp [isZero, hzero])
    · refine .inl (finite_lt_zero.2 ⟨?_, hzero⟩)
      cases neg with
      | false => exact absurd (by simpa [le, zero, zeroOf, signed] using h) hzero
      | true => rfl

theorem eq_nan_of_isNan {x : Double} (h : x.isNan = true) : x = .nan := by
  cases x with
  | nan => rfl
  | _ => cases h

theorem sqrt_of_lt_zero {x : Double} (h : x.lt zero = true) : x.sqrt = .nan := by
  cases x with
  | nan => cases h
  | infinite neg =>
    obtain rfl : neg = true := h
    rfl
  | finite neg mag hmag =>
    obtain ⟨rfl, hne⟩ := finite_lt_zero.1 h
    simp [sqrt, hne]

theorem log_of_lt_zero {x : Double} (h : x.lt zero = true) : x.log = .nan := by
  cases x with
  | nan => cases h
  | infinite neg =>
    obtain rfl : neg = true := h
    rfl
  | finite neg mag hmag =>
    obtain ⟨rfl, hne⟩ := finite_lt_zero.1 h
    simp [log, hne]

theorem log_of_isZero {x : Double} (h : x.isZero = true) : x.log = .infinite true := by
  cases x with
  | finite neg mag hmag =>
    obtain rfl : mag = 0 := by simpa [isZero] using h
    simp [log]
  | _ => cases h

/-! ### Guards -/

/-- The remainder where it is not left to the host. -/
def remGuard (x y : Double) : Option Double :=
  if y.isZero || x.isInfinite || y.isNan then some .nan else none

theorem remGuard_eq_none {x y : Double} (h : remGuard x y = none) :
    x.isInfinite = false ∧ y.isZero = false := by
  unfold remGuard at h
  split at h
  · cases h
  · simp_all

theorem remGuard_eq_some {x y r : Double} (h : remGuard x y = some r) : r = x.rem y := by
  unfold remGuard at h
  split at h
  · obtain rfl := Option.some.inj h
    cases x <;> cases y <;> simp_all [isZero, isInfinite, isNan, rem]
  · cases h

end Double

namespace Builtin

/-- Whether the argument is outside the domain of the function. -/
def excludes : Builtin → Double → Bool
  | .sqrt, x => x.lt .zero
  | .log, x => x.le .zero
  | .sin, x => x.isInfinite
  | .cos, x => x.isInfinite

/-- The result of the function where it is not left to the host. -/
def guard : Builtin → Double → Option Double
  | .sqrt, x => if x.isNan || x.lt .zero then some .nan else none
  | .log, x =>
    if x.isNan || x.lt .zero then some .nan
    else if x.isZero then some (.infinite true)
    else none
  | .sin, x => if x.isInfinite then some .nan else none
  | .cos, x => if x.isInfinite then some .nan else none

theorem guard_eq_none {f : Builtin} {x : Double} (h : f.guard x = none) :
    f.excludes x = false := by
  cases f with
  | log =>
    refine Bool.eq_false_iff.2 fun hle => ?_
    simp only [guard] at h
    split at h
    · cases h
    · split at h
      · cases h
      · rcases Double.lt_or_isZero_of_le_zero hle with hlt | hzero <;> simp_all
  | _ => simp_all [guard, excludes]

theorem guard_eq_some {f : Builtin} {x r : Double} (h : f.guard x = some r) : r = f.apply x := by
  cases f with
  | sqrt =>
    simp only [guard, Option.ite_none_right_eq_some, Bool.or_eq_true, Option.some.injEq] at h
    obtain ⟨hnan | hlt, rfl⟩ := h
    · rw [Double.eq_nan_of_isNan hnan]
      rfl
    · exact (Double.sqrt_of_lt_zero hlt).symm
  | log =>
    simp only [guard] at h
    split at h
    · rename_i hguard
      obtain rfl := Option.some.inj h
      rcases Bool.or_eq_true_iff.1 hguard with hnan | hlt
      · rw [Double.eq_nan_of_isNan hnan]
        rfl
      · exact (Double.log_of_lt_zero hlt).symm
    · simp only [Option.ite_none_right_eq_some, Option.some.injEq] at h
      obtain ⟨hzero, rfl⟩ := h
      exact (Double.log_of_isZero hzero).symm
  | sin => cases x <;> simp_all [guard, Double.isInfinite, apply, Double.sin]
  | cos => cases x <;> simp_all [guard, Double.isInfinite, apply, Double.cos]

end Builtin

/-! ### Hosts -/

/-- The functions of a host.  Each gives no result only outside its domain: a remainder for an
infinite dividend or a zero divisor, a built-in function for an argument that it excludes. -/
structure Host where
  rem : Double → Double → Option Double
  call : Builtin → Double → Option Double
  rem_eq_none : ∀ x y, rem x y = none → x.isInfinite = true ∨ y.isZero = true
  call_eq_none : ∀ f x, call f x = none → f.excludes x = true

namespace Host

/-- The remainder that a host gives behind the guard. -/
def rem? (host : Host) (x y : Double) : Option Double := (x.remGuard y).or (host.rem x y)

/-- The value of a built-in function that a host gives behind the guard. -/
def call? (host : Host) (f : Builtin) (x : Double) : Option Double :=
  (f.guard x).or (host.call f x)

theorem rem?_ne_none (host : Host) (x y : Double) : host.rem? x y ≠ none := by
  intro h
  obtain ⟨hguard, hnone⟩ := Option.or_eq_none_iff.1 h
  obtain ⟨hx, hy⟩ := Double.remGuard_eq_none hguard
  rcases host.rem_eq_none x y hnone with hx' | hy'
  · simp [hx] at hx'
  · simp [hy] at hy'

theorem call?_ne_none (host : Host) (f : Builtin) (x : Double) : host.call? f x ≠ none := by
  intro h
  obtain ⟨hguard, hnone⟩ := Option.or_eq_none_iff.1 h
  have hx := host.call_eq_none f x hnone
  simp [Builtin.guard_eq_none hguard] at hx

/-- The host with the functions of this library that refuses whatever it may. -/
def strict : Host where
  rem x y := if x.isInfinite || y.isZero then none else some (x.rem y)
  call f x := if f.excludes x then none else some (f.apply x)
  rem_eq_none x y h := by
    cases hx : x.isInfinite
    · exact .inr (by simpa [hx] using h)
    · exact .inl rfl
  call_eq_none f x h := by simpa using h

theorem strict_rem? (x y : Double) : strict.rem? x y = some (x.rem y) := by
  unfold rem?
  cases hguard : x.remGuard y with
  | some r => rw [Double.remGuard_eq_some hguard, Option.some_or]
  | none =>
    obtain ⟨hx, hy⟩ := Double.remGuard_eq_none hguard
    simp [strict, hx, hy]

theorem strict_call? (f : Builtin) (x : Double) : strict.call? f x = some (f.apply x) := by
  unfold call?
  cases hguard : f.guard x with
  | some r => rw [Builtin.guard_eq_some hguard, Option.some_or]
  | none => simp [strict, Builtin.guard_eq_none hguard]

end Host

end FlatScript
