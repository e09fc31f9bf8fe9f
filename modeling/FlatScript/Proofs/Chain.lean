import FlatScript.Eval.Condition
import FlatScript.Proofs.Native

/-!
# The meaning of a logical chain

A chain `head op term op term …` is combined from left to right, and neither of its operators binds
stronger than the other.  So an `or` whose term is true makes the chain true up to that point,
whatever came before, and from there on every `and` has to hold.

* `Link.Restarts` : one of the links is such an `or`, and every `and` after it holds;
* `Link.testAll_eq_true_iff` : what the links make of the result so far;
* `Condition.test_chain_chain` : a chain at the head of a chain can be written out;
* `Condition.chain_meaning` : **the meaning of a chain in terms of the positions of its terms.**
-/

namespace FlatScript

/-- The operator of a link. -/
def Link.op : Link → Operator LogicalOp
  | .mk op _ => op

/-- The link at a position of a chain.  The head is at position zero, and is no link. -/
def Link.at? (links : List Link) : Nat → Option Link
  | 0 => none
  | k + 1 => links[k]?

section Links

variable {tolerance : Double} {σ : Store} {links : List Link}

/-- The term of every `and` among the links is true. -/
def Link.AndsHold (tolerance : Double) (σ : Store) (links : List Link) : Prop :=
  ∀ term, .mk (.known .and) term ∈ links → term.test tolerance σ = .ok true

/-- The term of some `or` among the links is true, and so is that of every `and` after it. -/
def Link.Restarts (tolerance : Double) (σ : Store) (links : List Link) : Prop :=
  ∃ k term, links[k]? = some (.mk (.known .or) term) ∧ term.test tolerance σ = .ok true ∧
    Link.AndsHold tolerance σ (links.drop (k + 1))

namespace Link

theorem andsHold_and {term : Condition} :
    AndsHold tolerance σ (.mk (.known .and) term :: links) ↔
      term.test tolerance σ = .ok true ∧ AndsHold tolerance σ links := by
  simp [AndsHold]

theorem andsHold_or {term : Condition} :
    AndsHold tolerance σ (.mk (.known .or) term :: links) ↔ AndsHold tolerance σ links := by
  simp [AndsHold]

theorem restarts_cons {l : Link} :
    Restarts tolerance σ (l :: links) ↔
      (∃ term, l = .mk (.known .or) term ∧ term.test tolerance σ = .ok true ∧
        AndsHold tolerance σ links) ∨ Restarts tolerance σ links := by
  constructor
  · rintro ⟨k, term, hk, hterm, hands⟩
    cases k with
    | zero => exact .inl ⟨term, Option.some.inj hk, hterm, hands⟩
    | succ k => exact .inr ⟨k, term, hk, hterm, hands⟩
  · rintro (⟨term, rfl, hterm, hands⟩ | ⟨k, term, hk, hterm, hands⟩)
    · exact ⟨0, term, rfl, hterm, hands⟩
    · exact ⟨k + 1, term, hk, hterm, hands⟩

theorem restarts_and {term : Condition} :
    Restarts tolerance σ (.mk (.known .and) term :: links) ↔ Restarts tolerance σ links := by
  simp [restarts_cons]

theorem restarts_or {term : Condition} :
    Restarts tolerance σ (.mk (.known .or) term :: links) ↔
      term.test tolerance σ = .ok true ∧ AndsHold tolerance σ links ∨
        Restarts tolerance σ links := by
  simp [restarts_cons]

/-- The links after a position are those at the positions after it. -/
theorem andsHold_drop_iff {k : Nat} :
    AndsHold tolerance σ (links.drop k) ↔ ∀ j > k, ∀ term,
      at? links j = some (.mk (.known .and) term) → term.test tolerance σ = .ok true := by
  simp only [AndsHold, List.mem_iff_getElem?, List.getElem?_drop]
  constructor
  · intro h j hj term hterm
    obtain ⟨i, rfl⟩ : ∃ i, j = k + i + 1 := ⟨j - k - 1, by omega⟩
    exact h term ⟨i, hterm⟩
  · rintro h term ⟨i, hi⟩
    exact h (k + i + 1) (by omega) term hi

/-- Links whose operators are of this language and whose terms have truth values: they make a chain
true if it is true so far and every `and` holds, or if one of them makes it true anew. -/
theorem testAll_eq_true_iff (hops : ∀ l ∈ links, l.op.isKnown = true)
    (hterms : ∀ l ∈ links, ∃ b, l.term.test tolerance σ = .ok b) (soFar : Bool) :
    (∃ b, testAll tolerance σ soFar links = .ok b) ∧
      (testAll tolerance σ soFar links = .ok true ↔
        soFar = true ∧ AndsHold tolerance σ links ∨ Restarts tolerance σ links) := by
  induction links generalizing soFar with
  | nil => simp [testAll, AndsHold, Restarts]
  | cons l links ih =>
    obtain ⟨op, term⟩ := l
    obtain ⟨hop, hops'⟩ := List.forall_mem_cons.1 hops
    obtain ⟨⟨b, hb⟩, hterms'⟩ := List.forall_mem_cons.1 hterms
    simp only [Link.term] at hb
    cases op with
    | foreign symbol => cases hop
    | known op =>
      cases op with
      | and =>
        have hnext : testAll tolerance σ soFar (.mk (.known .and) term :: links) =
            testAll tolerance σ (soFar && b) links := by
          rw [testAll, hb]
          rfl
        rw [hnext, andsHold_and, restarts_and, hb]
        simpa [and_assoc] using ih hops' hterms' (soFar && b)
      | or =>
        have hnext : testAll tolerance σ soFar (.mk (.known .or) term :: links) =
            testAll tolerance σ (soFar || b) links := by
          rw [testAll, hb]
          rfl
        rw [hnext, andsHold_or, restarts_or, hb]
        simpa [or_and_right, or_assoc] using ih hops' hterms' (soFar || b)

theorem testAll_append (tolerance : Double) (σ : Store) (inner outer : List Link) (soFar : Bool) :
    testAll tolerance σ soFar (inner ++ outer) =
      testAll tolerance σ soFar inner >>= fun b => testAll tolerance σ b outer := by
  induction inner generalizing soFar with
  | nil => rfl
  | cons l inner ih =>
    obtain ⟨op, term⟩ := l
    simp only [List.cons_append, testAll, ih, bind_assoc]

end Link

end Links

namespace Condition

/-- A chain at the head of a chain can be written out, whatever its terms give. -/
theorem test_chain_chain (tolerance : Double) (σ : Store) (head : Condition)
    (inner outer : List Link) :
    (chain (chain head inner) outer).test tolerance σ =
      (chain head (inner ++ outer)).test tolerance σ := by
  simp only [test, Link.testAll_append, bind_assoc]

theorem test_chain_nil (tolerance : Double) (σ : Store) (head : Condition) :
    (chain head []).test tolerance σ = head.test tolerance σ := by
  simp only [test, Link.testAll]
  cases head.test tolerance σ <;> rfl

/-- **The meaning of a chain.**  A chain of this language all of whose terms have truth values has
one as well.  It is true exactly if there is a position such that the head stands there and is
true, or an `or` whose term is true, and the term of every `and` after that position is true.  A
chain at the head of a chain can be written out, and a chain without links is its head. -/
theorem chain_meaning (tolerance : Double) (σ : Store) :
    (∀ head links, (∀ l ∈ links, l.op.isKnown = true) →
      (∀ c ∈ head :: links.map Link.term, ∃ b, c.test tolerance σ = .ok b) →
      (∃ b, (chain head links).test tolerance σ = .ok b) ∧
      ((chain head links).test tolerance σ = .ok true ↔
        ∃ k, (k = 0 ∧ head.test tolerance σ = .ok true ∨
            ∃ term, Link.at? links k = some (.mk (.known .or) term) ∧
              term.test tolerance σ = .ok true) ∧
          ∀ j > k, ∀ term, Link.at? links j = some (.mk (.known .and) term) →
            term.test tolerance σ = .ok true)) ∧
    (∀ head inner outer, (chain (chain head inner) outer).test tolerance σ =
      (chain head (inner ++ outer)).test tolerance σ) ∧
    ∀ head, (chain head []).test tolerance σ = head.test tolerance σ := by
  refine ⟨fun head links hops hterms => ?_, test_chain_chain tolerance σ,
    test_chain_nil tolerance σ⟩
  obtain ⟨⟨first, hfirst⟩, hlinks⟩ := List.forall_mem_cons.1 hterms
  rw [List.forall_mem_map] at hlinks
  have htest : (chain head links).test tolerance σ = Link.testAll tolerance σ first links := by
    simp only [test, hfirst]
    rfl
  obtain ⟨hok, htrue⟩ := Link.testAll_eq_true_iff hops hlinks first
  refine ⟨htest ▸ hok, ?_⟩
  simp only [htest, htrue, hfirst, ← Link.andsHold_drop_iff]
  constructor
  · rintro (⟨rfl, hands⟩ | ⟨k, term, hk, hterm, hands⟩)
    · exact ⟨0, .inl ⟨rfl, rfl⟩, hands⟩
    · exact ⟨k + 1, .inr ⟨term, hk, hterm⟩, hands⟩
  · rintro ⟨k, ⟨rfl, hhead⟩ | ⟨term, hk, hterm⟩, hands⟩
    · exact .inl ⟨Except.ok.inj hhead, hands⟩
    · cases k with
      | zero => cases hk
      | succ k => exact .inr ⟨k, term, hk, hterm, hands⟩

/-- `true || false && false` is false, because the `and` comes after both the head and the `or`.
`false && false || true` is true from its last term on. -/
theorem chain_meaning_of_mixed :
    let and (b : Bool) : Link := .mk (.known .and) (.bool b)
    let or (b : Bool) : Link := .mk (.known .or) (.bool b)
    (chain (.bool true) [or false, and false]).test Double.one .empty ≠ .ok true ∧
      (chain (.bool false) [and false, or true]).test Double.one .empty = .ok true ∧
      (chain (chain (.bool true) [or false]) [and false]).test Double.one .empty ≠ .ok true := by
  intro and or
  obtain ⟨hmeaning, hflat, -⟩ := chain_meaning Double.one .empty
  have hfirst : (chain (.bool true) [or false, and false]).test Double.one .empty ≠ .ok true := by
    intro h
    obtain ⟨-, htrue⟩ := hmeaning (.bool true) [or false, and false] (by
      simp [or, and, Link.op, Operator.isKnown]) (by simp [or, and, Link.term, test])
    obtain ⟨k, hk, hands⟩ := htrue.1 h
    have hlt : k < 2 := by
      rcases hk with ⟨rfl, -⟩ | ⟨term, hor, -⟩
      · decide
      · rcases k with _ | _ | _ | k
        · cases hor
        · decide
        · cases hor
        · cases hor
    cases hands 2 hlt (.bool false) rfl
  obtain ⟨-, htrue⟩ := hmeaning (.bool false) [and false, or true] (by
    simp [or, and, Link.op, Operator.isKnown]) (by simp [or, and, Link.term, test])
  refine ⟨hfirst, htrue.2 ⟨2, .inr ⟨_, rfl, rfl⟩, ?_⟩, hflat _ _ _ ▸ hfirst⟩
  intro j hj term hterm
  rcases j with _ | _ | _ | j
  · omega
  · omega
  · omega
  · cases hterm

end Condition

end FlatScript
