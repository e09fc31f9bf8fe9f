import FlatScript.Eval.Exec
import FlatScript.Flat
import Mathlib.Data.List.Chain

/-!
# Trees recovered from flat sequences

A front end that knows the parts of a construct only as sequences leaves it to their places how
they belong together.  Here the places decide: where they are as in a text, the construct that was
written is the one that is built.  The parts are those of `Flat.branch` and `Flat.declaration`,
which are native.

* `Flat.Ordered`, `Flat.InWindow` : names in the order of the text, and the window of a name, from
  its end to the start of the next name;
* `Flat.Ordered.inWindow_unique` : the windows of different names have no offset in common;
* `Flat.getElem?_declarators` : each name gets the first initializer in its window;
* `Flat.declaration_recovered` : **a declaration is rebuilt from its names and its initializers,
  whatever the order of the initializers**, and no initializer is given to two names;
* `Flat.splitBranches_cons` : the statements of the first branch are those that start before the end
  of the first brace;
* `Flat.branch_recovered` : **a branch is rebuilt from the statements of both of its bodies**, and
  runs the body that its condition chooses.
-/

namespace FlatScript

namespace Flat

/-! ### Windows -/

/-- Each name ends before the next one starts. -/
def Ordered (names : List Span) : Prop := names.IsChain fun a b => a.stop < b.start

/-- The offset is behind the name at place `i` and, unless the name is the last one, before the
next name. -/
def InWindow (names : List Span) (i : Nat) (offset : Int) : Prop :=
  ∃ name ∈ names[i]?, name.stop < offset ∧ ∀ next ∈ names[i + 1]?, offset < next.start

instance (names : List Span) (i : Nat) (offset : Int) : Decidable (InWindow names i offset) :=
  inferInstanceAs (Decidable (∃ name ∈ names[i]?, _))

namespace Ordered

variable {names : List Span}

theorem stop_lt_start (h : Ordered names) {i j : Nat} {a b : Span} (hij : i < j)
    (ha : names[i]? = some a) (hb : names[j]? = some b) : a.stop < b.start := by
  have : IsTrans Span fun a b => a.stop < b.start := by
    refine ⟨fun a b c hab hbc => ?_⟩
    have := b.start_le_stop
    omega
  obtain ⟨hi, rfl⟩ := List.getElem?_eq_some_iff.1 ha
  obtain ⟨hj, rfl⟩ := List.getElem?_eq_some_iff.1 hb
  exact List.pairwise_iff_getElem.1 (List.isChain_iff_pairwise.1 h) i j hi hj hij

/-- A window ends where the next name starts, so no offset of it is behind a later name. -/
theorem le_of_inWindow (h : Ordered names) {i j : Nat} {offset : Int}
    (hi : InWindow names i offset) (hj : InWindow names j offset) : j ≤ i := by
  obtain ⟨-, -, -, hnext⟩ := hi
  obtain ⟨b, hb, hlt, -⟩ := hj
  by_contra hij
  obtain ⟨hlen, -⟩ := List.getElem?_eq_some_iff.1 hb
  obtain ⟨c, hc⟩ : ∃ c, names[i + 1]? = some c :=
    ⟨_, List.getElem?_eq_getElem (by omega : i + 1 < names.length)⟩
  have hoffset := hnext c hc
  have hcb : c.start ≤ b.stop := by
    by_cases heq : i + 1 = j
    · obtain rfl : c = b := Option.some.inj (hc.symm.trans (heq ▸ hb))
      exact c.start_le_stop
    · have := h.stop_lt_start (by omega : i + 1 < j) hc hb
      have := c.start_le_stop
      have := b.start_le_stop
      omega
  omega

theorem inWindow_unique (h : Ordered names) {i j : Nat} {offset : Int}
    (hi : InWindow names i offset) (hj : InWindow names j offset) : i = j :=
  Nat.le_antisymm (h.le_of_inWindow hj hi) (h.le_of_inWindow hi hj)

end Ordered

/-! ### Initializers -/

/-- The first initializer in the window of the name at place `i`, with its offset. -/
def firstIn (names : List Span) (initializers : List (Int × RValue)) (i : Nat) :
    Option (Int × RValue) :=
  initializers.find? fun entry => decide (InWindow names i entry.1)

theorem firstBetween_eq {names : List Span} {i : Nat} {name : Span} (hname : names[i]? = some name)
    (initializers : List (Int × RValue)) :
    firstBetween name.stop (names[i + 1]?.map Span.start) initializers =
      (firstIn names initializers i).map Prod.snd := by
  unfold firstBetween firstIn
  congr 2
  funext entry
  cases hnext : names[i + 1]? <;> simp [InWindow, hname, hnext]

theorem getElem?_pairInitializers (initializers : List (Int × RValue)) (names : List Span)
    (i : Nat) :
    (pairInitializers initializers names)[i]? =
      names[i]?.map fun _ => (firstIn names initializers i).map Prod.snd := by
  have hindex : (pairInitializers initializers names)[i]? = names[i]?.map fun name =>
      firstBetween name.stop (names[i + 1]?.map Span.start) initializers := by
    induction names generalizing i with
    | nil => rfl
    | cons name rest ih =>
      cases i with
      | zero => simp [pairInitializers, List.head?_eq_getElem?]
      | succ i => simp [pairInitializers, ih]
  rw [hindex]
  cases hname : names[i]? with
  | none => rfl
  | some name => simp only [Option.map_some, firstBetween_eq hname]

theorem length_pairInitializers (initializers : List (Int × RValue)) (names : List Span) :
    (pairInitializers initializers names).length = names.length := by
  induction names with
  | nil => rfl
  | cons name rest ih => simp [pairInitializers, ih]

theorem length_declarators (names : List (String × Span)) (initializers : List (Int × RValue)) :
    (declarators names initializers).length = names.length := by
  simp [declarators, length_pairInitializers]

/-- **Each name gets the first initializer in its window**, if there is one. -/
theorem getElem?_declarators (names : List (String × Span)) (initializers : List (Int × RValue))
    (i : Nat) :
    (declarators names initializers)[i]? = names[i]?.map fun (name, span) =>
      ⟨name, (firstIn (names.map Prod.snd) initializers i).map Prod.snd, span⟩ := by
  unfold declarators List.zip
  rw [List.getElem?_map, List.getElem?_zipWith, getElem?_pairInitializers, List.getElem?_map]
  cases names[i]? <;> rfl

/-- The initializer at place `k` of the list is the first one in the window of the name at
place `i`. -/
structure Takes (names : List Span) (initializers : List (Int × RValue)) (i k : Nat) : Prop where
  inWindow : ∃ entry ∈ initializers[k]?, InWindow names i entry.1
  first : ∀ j < k, ∀ entry ∈ initializers[j]?, ¬ InWindow names i entry.1

theorem Ordered.takes_unique {names : List Span} (h : Ordered names)
    {initializers : List (Int × RValue)} {i j k : Nat} (hi : Takes names initializers i k)
    (hj : Takes names initializers j k) : i = j := by
  obtain ⟨entry, hentry, hwindow⟩ := hi.inWindow
  obtain ⟨entry', hentry', hwindow'⟩ := hj.inWindow
  obtain rfl : entry = entry' := Option.mem_unique hentry hentry'
  exact h.inWindow_unique hwindow hwindow'

theorem firstIn_eq_some {names : List Span} {initializers : List (Int × RValue)} {i : Nat}
    {entry : Int × RValue} (h : firstIn names initializers i = some entry) :
    ∃ k, Takes names initializers i k ∧ initializers[k]? = some entry := by
  obtain ⟨hwindow, k, hk, hentry, hfirst⟩ := List.find?_eq_some_iff_getElem.1 h
  have hget : initializers[k]? = some entry := by rw [List.getElem?_eq_getElem hk, hentry]
  refine ⟨k, ⟨⟨entry, hget, of_decide_eq_true hwindow⟩, fun j hj entry' hentry' => ?_⟩, hget⟩
  obtain ⟨hlen, rfl⟩ := List.getElem?_eq_some_iff.1 hentry'
  simpa using hfirst j hj

theorem firstIn_eq_none_iff {names : List Span} {initializers : List (Int × RValue)} {i : Nat} :
    firstIn names initializers i = none ↔ ∀ entry ∈ initializers, ¬ InWindow names i entry.1 := by
  simp [firstIn]

/-! ### Declarations -/

/-- A name of a declaration with its place, and its initializer with the offset where it starts. -/
structure Item where
  name : String
  span : Span
  initializer : Option (Int × RValue) := none

/-- The declarator of an item. -/
def Item.declarator (item : Item) : Declarator :=
  ⟨item.name, item.initializer.map Prod.snd, item.span⟩

/-- The items are in the order of the text, and each initializer starts in the window of its
name. -/
structure Laid (items : List Item) : Prop where
  ordered : Ordered (items.map Item.span)
  inWindow : ∀ i, ∀ item ∈ items[i]?, ∀ entry ∈ item.initializer,
    InWindow (items.map Item.span) i entry.1

namespace Laid

variable {items : List Item} {initializers : List (Int × RValue)}

/-- An initializer in the window of an item is the item's own. -/
theorem initializer_eq (h : Laid items)
    (hperm : initializers.Perm (items.filterMap Item.initializer)) {i : Nat} {item : Item}
    (hitem : items[i]? = some item) {entry : Int × RValue} (hentry : entry ∈ initializers)
    (hwindow : InWindow (items.map Item.span) i entry.1) : item.initializer = some entry := by
  obtain ⟨other, hother, heq⟩ := List.mem_filterMap.1 (hperm.mem_iff.1 hentry)
  obtain ⟨j, hj⟩ := List.getElem?_of_mem hother
  obtain rfl : i = j := h.ordered.inWindow_unique hwindow (h.inWindow j other hj entry heq)
  rwa [Option.some.inj (hitem.symm.trans hj)]

theorem firstIn_eq (h : Laid items)
    (hperm : initializers.Perm (items.filterMap Item.initializer)) {i : Nat} {item : Item}
    (hitem : items[i]? = some item) :
    firstIn (items.map Item.span) initializers i = item.initializer := by
  cases hfirst : firstIn (items.map Item.span) initializers i with
  | some entry =>
    have hwindow : InWindow (items.map Item.span) i entry.1 := by
      simpa using List.find?_some hfirst
    exact (h.initializer_eq hperm hitem (List.mem_of_find?_eq_some hfirst) hwindow).symm
  | none =>
    cases hinit : item.initializer with
    | none => rfl
    | some entry =>
      -- the initializer of the item is in the list and in the window
      have hmem : entry ∈ initializers :=
        hperm.mem_iff.2 (List.mem_filterMap.2 ⟨item, List.mem_of_getElem? hitem, hinit⟩)
      exact absurd (h.inWindow i item hitem entry hinit) (firstIn_eq_none_iff.1 hfirst entry hmem)

theorem declarators_eq (h : Laid items)
    (hperm : initializers.Perm (items.filterMap Item.initializer)) :
    declarators (items.map fun item => (item.name, item.span)) initializers =
      items.map Item.declarator := by
  refine List.ext_getElem? fun i => ?_
  rw [getElem?_declarators, List.map_map, List.getElem?_map, List.getElem?_map]
  cases hitem : items[i]? with
  | none => rfl
  | some item =>
    have hfirst := h.firstIn_eq hperm hitem
    simp only [Option.map_some, Option.some.injEq]
    exact congrArg (fun entry => Declarator.mk item.name (entry.map Prod.snd) item.span) hfirst

end Laid

theorem declaration_eq_ok (type : TypeTag) {names : List (String × Span)} (hne : names ≠ [])
    (initializers : List (Int × RValue)) (span : Span) :
    ∃ d, declaration type names initializers span = .ok d ∧ d.type = type ∧
      d.declarators = declarators names initializers ∧ d.span = span := by
  have hlength : 0 < (declarators names initializers).length := by
    rw [length_declarators]
    exact List.length_pos_iff.2 hne
  unfold declaration Schema.declarationOf
  rw [dif_pos (by simpa [List.length_pos_iff] using hlength)]
  exact ⟨_, rfl, rfl, rfl, rfl⟩

/-- **A declaration is rebuilt from its names and its initializers, in whatever order the
initializers are listed.**  Where the names are in order, no initializer of any list is given to
two names, and each name gets the first one in its window. -/
theorem declaration_recovered (type : TypeTag) (span : Span) :
    (∀ (items : List Item) (initializers : List (Int × RValue)), items ≠ [] → Laid items →
      initializers.Perm (items.filterMap Item.initializer) →
      ∃ d, declaration type (items.map fun item => (item.name, item.span)) initializers span =
          .ok d ∧
        d.type = type ∧ d.declarators = items.map Item.declarator ∧ d.span = span) ∧
    ∀ (names : List (String × Span)) (initializers : List (Int × RValue)), names ≠ [] →
      Ordered (names.map Prod.snd) →
      (∀ i j k, Takes (names.map Prod.snd) initializers i k →
        Takes (names.map Prod.snd) initializers j k → i = j) ∧
      ∃ d, declaration type names initializers span = .ok d ∧
        d.declarators.length = names.length ∧
        ∀ i name place, names[i]? = some (name, place) →
          (∃ k entry, Takes (names.map Prod.snd) initializers i k ∧
            initializers[k]? = some entry ∧
            d.declarators[i]? = some ⟨name, some entry.2, place⟩) ∨
          ((∀ entry ∈ initializers, ¬ InWindow (names.map Prod.snd) i entry.1) ∧
            d.declarators[i]? = some ⟨name, none, place⟩) := by
  constructor
  · intro items initializers hne hlaid hperm
    have hnames : (items.map fun item => (item.name, item.span)) ≠ [] := by simpa using hne
    obtain ⟨d, hd, htype, hdeclarators, hspan⟩ := declaration_eq_ok type hnames initializers span
    exact ⟨d, hd, htype, hdeclarators.trans (hlaid.declarators_eq hperm), hspan⟩
  · intro names initializers hne hordered
    obtain ⟨d, hd, -, hdeclarators, -⟩ := declaration_eq_ok type hne initializers span
    refine ⟨fun i j k => hordered.takes_unique, d, hd, ?_, fun i name place hname => ?_⟩
    · rw [hdeclarators, length_declarators]
    · rw [hdeclarators, getElem?_declarators, hname]
      cases hfirst : firstIn (names.map Prod.snd) initializers i with
      | some entry =>
        obtain ⟨k, htakes, hentry⟩ := firstIn_eq_some hfirst
        exact .inl ⟨k, entry, htakes, hentry, rfl⟩
      | none => exact .inr ⟨firstIn_eq_none_iff.1 hfirst, rfl⟩

/-- `int a = 1, b, c = "x"` with its two initializers listed the other way round: the name without
an initializer stands between the two that have one.  Of two initializers in one window, the name
gets the one that is listed first. -/
theorem declaration_recovered_of_gap :
    let place (start : Int) : Span := ⟨1, none, start, start, by simp, Int.le_refl start⟩
    let one := RValue.arith (.number "1")
    let items : List Item :=
      [⟨"a", place 4, some (8, one)⟩, ⟨"b", place 11, none⟩, ⟨"c", place 14, some (18, .text "x")⟩]
    Laid items ∧
      (∃ d, declaration .int [("a", place 4), ("b", place 11), ("c", place 14)]
          [(18, .text "x"), (8, one)] .unknown = .ok d ∧
        d.type = .int ∧ d.declarators = [⟨"a", some one, place 4⟩, ⟨"b", none, place 11⟩,
          ⟨"c", some (.text "x"), place 14⟩] ∧ d.span = .unknown) ∧
      ∃ d, declaration .int [("a", place 4), ("b", place 11)] [(18, .text "x"), (13, one)]
          .unknown = .ok d ∧ d.declarators[1]? = some ⟨"b", some (.text "x"), place 11⟩ := by
  intro place one items
  have hlaid : Laid items := by
    refine ⟨?_, ?_⟩
    · simp [Ordered, items, place]
    · intro i item hitem entry hentry
      match i with
      | 0 | 2 =>
        cases hitem
        cases hentry
        decide
      | 1 =>
        cases hitem
        cases hentry
      | i + 3 => cases hitem
  obtain ⟨hrebuild, hpairs⟩ := declaration_recovered .int .unknown
  refine ⟨hlaid, hrebuild items _ (by simp [items]) hlaid (List.Perm.swap _ _ _), ?_⟩
  have hordered : Ordered [place 4, place 11] := by simp [Ordered, place]
  have hwindow : InWindow [place 4, place 11] 1 18 := by decide
  obtain ⟨-, d, hd, -, hgiven⟩ := hpairs [("a", place 4), ("b", place 11)]
    [(18, .text "x"), (13, one)] (by simp) hordered
  refine ⟨d, hd, ?_⟩
  rcases hgiven 1 "b" (place 11) rfl with ⟨k, entry, htakes, hentry, hdeclarator⟩ | ⟨hnone, -⟩
  · obtain rfl : k = 0 := by
      by_contra hk
      exact htakes.first 0 (by omega) _ rfl hwindow
    cases hentry
    exact hdeclarator
  · exact absurd hwindow (hnone (18, .text "x") (by simp))

/-! ### Branches -/

theorem splitBranches_cons (statements : List Stmt) (brace : Span) (braces : List Span) :
    splitBranches statements (brace :: braces) =
      (statements.filter fun s => decide (s.span.start < brace.stop),
        statements.filter fun s => decide (brace.stop ≤ s.span.start)) := by
  have hnot : (not ∘ fun s : Stmt => decide (s.span.start < brace.stop)) =
      fun s => decide (brace.stop ≤ s.span.start) := by
    funext s
    simp [← decide_not]
  rw [splitBranches, List.partition_eq_filter_filter, hnot]

theorem splitBranches_perm (statements : List Stmt) (braces : List Span) :
    ((splitBranches statements braces).1 ++ (splitBranches statements braces).2).Perm
      statements := by
  cases braces with
  | nil => simp [splitBranches]
  | cons brace braces =>
    rw [splitBranches, List.partition_eq_filter_filter]
    exact List.filter_append_perm _ statements

/-- In the order of the text no statement of the first branch is behind one of the second. -/
theorem splitBranches_append_of_sorted {statements : List Stmt}
    (h : statements.Pairwise fun s t => s.span.start ≤ t.span.start) (braces : List Span) :
    (splitBranches statements braces).1 ++ (splitBranches statements braces).2 = statements := by
  cases braces with
  | nil => simp [splitBranches]
  | cons brace braces =>
    rw [splitBranches_cons]
    induction h with
    | nil => rfl
    | @cons s rest hs _ ih =>
      by_cases hlt : s.span.start < brace.stop
      · have hle : ¬ brace.stop ≤ s.span.start := by omega
        simpa [hlt, hle] using ih
      · -- once a statement is behind the brace, all later ones are
        have hbehind : ∀ t ∈ s :: rest, brace.stop ≤ t.span.start := by
          rintro t (_ | ⟨_, ht⟩)
          · omega
          · have := hs t ht
            omega
        rw [List.filter_eq_nil_iff.2 fun t ht => by simpa using hbehind t ht,
          List.filter_eq_self.2 fun t ht => by simpa using hbehind t ht, List.nil_append]

theorem splitBranches_append {body alternative : List Stmt} {brace : Span}
    (hbody : ∀ s ∈ body, s.span.start < brace.stop)
    (halternative : ∀ s ∈ alternative, brace.stop ≤ s.span.start) (braces : List Span) :
    splitBranches (body ++ alternative) (brace :: braces) = (body, alternative) := by
  rw [splitBranches_cons, List.filter_append, List.filter_append,
    List.filter_eq_self.2 fun s hs => decide_eq_true (hbody s hs),
    List.filter_eq_nil_iff.2 fun s hs => by simpa using halternative s hs,
    List.filter_eq_nil_iff.2 fun s hs => by simpa using hbody s hs,
    List.filter_eq_self.2 fun s hs => decide_eq_true (halternative s hs), List.append_nil,
    List.nil_append]

/-- **A branch is rebuilt from the statements of both of its bodies.**  The first brace divides any
statements, in any order, into those that start before its end and the others, and nothing is lost
or moved; where a brace stands between the bodies, the branch that is built is the one that was
written, and a run of it executes the body that the condition chooses. -/
theorem branch_recovered :
    (∀ statements : List Stmt, splitBranches statements [] = (statements, [])) ∧
    (∀ (statements : List Stmt) (brace : Span) (braces : List Span),
      splitBranches statements (brace :: braces) =
        (statements.filter fun s => decide (s.span.start < brace.stop),
          statements.filter fun s => decide (brace.stop ≤ s.span.start))) ∧
    (∀ (statements : List Stmt) (braces : List Span),
      ((splitBranches statements braces).1 ++ (splitBranches statements braces).2).Perm statements ∧
      (statements.Pairwise (fun s t => s.span.start ≤ t.span.start) →
        (splitBranches statements braces).1 ++ (splitBranches statements braces).2 =
          statements)) ∧
    (∀ (condition : Condition) (body alternative : List Stmt) (span brace : Span)
      (braces : List Span), (∀ s ∈ body, s.span.start < brace.stop) →
      (∀ s ∈ alternative, brace.stop ≤ s.span.start) →
      branch condition (body ++ alternative) (brace :: braces) true span =
        .branch condition body (some alternative) span ∧
      ∀ (tolerance : Double) (fuel : Nat) (m : Machine),
        (branch condition (body ++ alternative) (brace :: braces) true span).exec tolerance fuel m =
          match condition.test tolerance m.store with
          | .error f => .failed f m
          | .ok true => Stmt.execAll tolerance fuel body none m
          | .ok false => Stmt.execAll tolerance fuel alternative none m) ∧
    ∀ (condition : Condition) (statements : List Stmt) (braces : List Span) (span : Span),
      branch condition statements braces false span = .branch condition statements none span := by
  refine ⟨fun _ => rfl, splitBranches_cons, fun statements braces => ?_, ?_, fun _ _ _ _ => rfl⟩
  · exact ⟨splitBranches_perm statements braces, fun h => splitBranches_append_of_sorted h braces⟩
  · intro condition body alternative span brace braces hbody halternative
    have hbranch : branch condition (body ++ alternative) (brace :: braces) true span =
        .branch condition body (some alternative) span := by
      simp only [branch, if_true, splitBranches_append hbody halternative]
    refine ⟨hbranch, fun tolerance fuel m => ?_⟩
    rw [hbranch, Stmt.exec]
    rfl

/-- `if (false) { y = 1; } else { y = 2; y = 3; }` with the statements of the second body listed the
other way round: it is rebuilt as listed, and the second body runs. -/
theorem branch_recovered_of_alternative :
    let place (start : Int) : Span := ⟨1, none, start, start, by simp, Int.le_refl start⟩
    let write (numeral : String) (start : Int) : Stmt :=
      .assign ⟨"y", .set (.arith (.number numeral)), place start⟩
    let rebuilt := branch (.bool false) [write "1" 13, write "3" 36, write "2" 29]
      [place 20, place 43] true .unknown
    rebuilt = .branch (.bool false) [write "1" 13] (some [write "3" 36, write "2" 29]) .unknown ∧
      rebuilt.exec .one 0 .fresh =
        Stmt.execAll .one 0 [write "3" 36, write "2" 29] none .fresh ∧
      (splitBranches [write "1" 13, write "2" 29] [place 20]).1 ++
        (splitBranches [write "1" 13, write "2" 29] [place 20]).2 =
          [write "1" 13, write "2" 29] := by
  intro place write rebuilt
  obtain ⟨-, -, hsplit, hrebuild, -⟩ := branch_recovered
  have hbody : ∀ s ∈ [write "1" 13], s.span.start < (place 20).stop := by
    simp [write, place, Stmt.span]
  have halternative : ∀ s ∈ [write "3" 36, write "2" 29], (place 20).stop ≤ s.span.start := by
    simp [write, place, Stmt.span]
  obtain ⟨hbranch, hexec⟩ :=
    hrebuild (.bool false) _ _ .unknown (place 20) [place 43] hbody halternative
  refine ⟨hbranch, (hexec .one 0 .fresh).trans rfl, (hsplit _ [place 20]).2 ?_⟩
  simp [write, place, Stmt.span]

end Flat

end FlatScript
