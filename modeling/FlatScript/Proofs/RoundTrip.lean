import FlatScript.Proofs.Reading

/-!
# Reading written trees

A tree that was read from data is written with all of its fields, and what is written can be read
again.  Here the second reading is shown to succeed and to give the first tree back, for every
class of nodes and every set of alternatives.

* `Json.objects` : the objects that occur in data at any depth, and `Schema.Consistent`, what the
  fields of a declaration, an assignment or a span promise one another;
* `Schema.Faithful` : the data is read back as the value that it was written from, and its objects
  are consistent.  Every class of nodes has a lemma that its reader yields values with this
  property, given that the readers of its parts do;
* `Model.read_toJson` : **a tree that was read from data survives being written and read again**,
  and what is written is consistent at every depth.

Readers take a bound on the nesting.  A reader of alternatives counts the node itself against the
bound and the reader of a class counts the parts of the node only, which is the *slack* of
`Faithful`.
-/

namespace FlatScript

/-! ### The objects in data -/

namespace Json

mutual

/-- The objects that occur in data, at any depth. -/
def objects : Json → List Schema.Fields
  | .arr items => objectsOfItems items
  | .obj fields => fields :: objectsOfFields fields
  | _ => []

/-- The objects that occur in the items of a list. -/
def objectsOfItems : List Json → List Schema.Fields
  | [] => []
  | j :: rest => j.objects ++ objectsOfItems rest

/-- The objects that occur in the values of fields. -/
def objectsOfFields : List (String × Json) → List Schema.Fields
  | [] => []
  | (_, j) :: rest => j.objects ++ objectsOfFields rest

end

end Json

/-- The parts of an object fit together.  Declarations and assignments are known by their kind
names, and spans by their field `start`. -/
structure Schema.Consistent (f : Schema.Fields) : Prop where
  /-- A declaration has a declarator. -/
  declaration : f.lookup "kind" = some (.str "declaration") →
    ∃ d ds, f.lookup "declarators" = some (.arr (d :: ds))
  /-- An assignment has a value unless its operator is `++` or `--`. -/
  assignment : f.lookup "kind" = some (.str "assignment") →
    ∃ op v, f.lookup "op" = some (.str op) ∧ f.lookup "value" = some v ∧
      (v = .null ↔ op = "++" ∨ op = "--")
  /-- A span does not end before it starts. -/
  span : (f.lookup "start").isSome = true →
    ∃ line endLine start stop, f.lookup "line" = some (.int line) ∧
      f.lookup "end_line" = some (.ofOption .int endLine) ∧ f.lookup "start" = some (.int start) ∧
      f.lookup "stop" = some (.int stop) ∧ start ≤ stop ∧ ∀ e ∈ endLine, line ≤ e

open Schema

namespace Json

/-- Every object in the data is consistent. -/
def IsConsistent (j : Json) : Prop := ∀ f ∈ j.objects, Consistent f

@[simp] theorem isConsistent_null : null.IsConsistent := by
  simp [IsConsistent, objects]

@[simp] theorem isConsistent_bool (b : Bool) : (bool b).IsConsistent := by
  simp [IsConsistent, objects]

@[simp] theorem isConsistent_int (n : Int) : (int n).IsConsistent := by
  simp [IsConsistent, objects]

@[simp] theorem isConsistent_str (s : String) : (str s).IsConsistent := by
  simp [IsConsistent, objects]

@[simp] theorem isConsistent_spelled {α : Type} [Spelled α] (a : α) :
    (Spelled.toJson a).IsConsistent := isConsistent_str _

theorem objectsOfItems_eq_flatMap (js : List Json) : objectsOfItems js = js.flatMap objects := by
  induction js with
  | nil => rfl
  | cons j js ih => rw [objectsOfItems, ih, List.flatMap_cons]

theorem objectsOfFields_eq_flatMap (fields : Fields) :
    objectsOfFields fields = fields.flatMap fun e => e.2.objects := by
  induction fields with
  | nil => rfl
  | cons e fields ih => rw [objectsOfFields, ih, List.flatMap_cons]

theorem isConsistent_arr {js : List Json} (h : ∀ j ∈ js, j.IsConsistent) :
    (arr js).IsConsistent := by
  intro f hf
  rw [objects, objectsOfItems_eq_flatMap] at hf
  obtain ⟨j, hj, hf⟩ := List.mem_flatMap.1 hf
  exact h j hj f hf

theorem isConsistent_obj {fields : Fields} (hself : Consistent fields)
    (h : ∀ e ∈ fields, e.2.IsConsistent) : (obj fields).IsConsistent := by
  intro f hf
  rw [objects, objectsOfFields_eq_flatMap] at hf
  rcases List.mem_cons.1 hf with rfl | hf
  · exact hself
  · obtain ⟨e, he, hf⟩ := List.mem_flatMap.1 hf
    exact h e he f hf

theorem isConsistent_ofOption {α : Type} {f : α → Json} {o : Option α}
    (h : ∀ a ∈ o, (f a).IsConsistent) : (ofOption f o).IsConsistent := by
  cases o with
  | none => exact isConsistent_null
  | some a => exact h a rfl

/-- An object that is neither a declaration nor an assignment nor a span has nothing to promise. -/
theorem isConsistent_of_plain {fields : Fields}
    (hkind : fields.lookup "kind" ≠ some (.str "declaration") ∧
      fields.lookup "kind" ≠ some (.str "assignment") ∧ fields.lookup "start" = none)
    (h : ∀ e ∈ fields, e.2.IsConsistent) : (obj fields).IsConsistent := by
  obtain ⟨hdeclaration, hassignment, hspan⟩ := hkind
  refine isConsistent_obj ⟨?_, ?_, ?_⟩ h
  · intro hd
    exact absurd hd hdeclaration
  · intro ha
    exact absurd ha hassignment
  · intro hs
    simp [hspan] at hs

/-! ### Depth -/

theorem depth_pos (j : Json) : 0 < j.depth := by
  cases j <;> simp [depth]

theorem depth_le_depthItems {j : Json} {js : List Json} (h : j ∈ js) :
    j.depth ≤ depthItems js := by
  induction js with
  | nil => cases h
  | cons i js ih =>
    rw [depthItems]
    rcases List.mem_cons.1 h with rfl | h
    · omega
    · have := ih h
      omega

end Json

/-! ### Reading what is written -/

namespace Checked

variable {α β : Type}

@[simp] theorem map_ok (f : α → β) (a : α) : f <$> ok a = .ok (f a) := rfl
@[simp] theorem ok_seq_ok (f : α → β) (a : α) : ok f <*> ok a = .ok (f a) := rfl
@[simp] theorem andThen_ok (a : α) (f : α → Checked β) : (ok a).andThen f = f a := rfl
@[simp] theorem under_ok (step : Step) (a : α) : (ok a).under step = .ok a := rfl

end Checked

namespace Schema

variable {α β : Type}

@[simp] theorem object_obj (className : String) (read : Fields → Checked α) (fields : Fields) :
    object className read (.obj fields) = read fields := rfl

@[simp] theorem node_node (className kind : String) (read : Fields → Checked α) (fields : Fields) :
    node className kind read (.node kind fields) = read (("kind", .str kind) :: fields) := by
  simp only [node, Json.node, object_obj, optional, List.lookup_cons_self, kindIs, if_true,
    Checked.under_ok, Checked.map_ok]
  cases read (("kind", .str kind) :: fields) <;> rfl

@[simp] theorem required_cons (key name : String) (j : Json) (fields : Fields) (read : Reader α) :
    required ((key, j) :: fields) name read =
      if name = key then (read j).under (.key name) else required fields name read := by
  unfold required
  by_cases h : name = key
  · simp [h]
  · rw [List.lookup_cons, beq_false_of_ne h, if_neg h]

@[simp] theorem optional_cons (key name : String) (j : Json) (fields : Fields) (default : α)
    (read : Reader α) :
    optional ((key, j) :: fields) name default read =
      if name = key then (read j).under (.key name) else optional fields name default read := by
  unfold optional
  by_cases h : name = key
  · simp [h]
  · rw [List.lookup_cons, beq_false_of_ne h, if_neg h]

@[simp] theorem text_str (s : String) : text (.str s) = .ok s := rfl

theorem among_toJson [Spelled α] {options : List α} {a : α} (h : a ∈ options) :
    among options (Spelled.toJson a) = .ok a := by
  simp only [among, Spelled.toJson, Spelled.among?_spell h]

@[simp] theorem word_toJson [Spelled α] (a : α) : word (Spelled.toJson a) = .ok a :=
  among_toJson (Spelled.mem_all a)

theorem among_yields [Spelled α] (options : List α) (j : Json) :
    (among options j).Yields fun a => a ∈ options := by
  simp only [among]
  split
  · rename_i a ha
    refine Checked.yields_ok ?_
    cases j with
    | str s => exact List.mem_of_find?_eq_some ha
    | _ => cases ha
  · exact Checked.yields_bad _

theorem items_map {read : Reader α} {toJson : α → Json} {as : List α}
    (h : ∀ a ∈ as, read (toJson a) = .ok a) (i : Nat) :
    items read i (as.map toJson) = .ok as := by
  induction as generalizing i with
  | nil => rfl
  | cons a as ih =>
    obtain ⟨ha, has⟩ := List.forall_mem_cons.1 h
    simp [items, ha, ih has]

/-- Under every bound that the data fits in, up to the slack, it is read back as the value, and its
objects are consistent. -/
structure Faithful (slack : Nat) (read : Nat → Reader α) (j : Json) (a : α) : Prop where
  readsBack : ∀ depth, j.depth ≤ depth + slack → read depth j = .ok a
  consistent : j.IsConsistent
  ne_null : j ≠ .null

/-- Data that is read back by the reader of a class and has the kind name of that class. -/
structure FaithfulNode (kind : String) (read : Nat → Reader α) (j : Json) (a : α) : Prop extends
    Faithful 1 read j a where
  hasKind : ∃ fields, j = .node kind fields

section Faithful

variable {slack : Nat} {read : Nat → Reader α} {j : Json} {a : α}

theorem Faithful.tight (h : Faithful slack read j a) : Faithful 0 read j a := by
  refine ⟨fun depth hd => h.readsBack depth ?_, h.consistent, h.ne_null⟩
  omega

theorem Faithful.map (h : Faithful slack read j a) (f : α → β) :
    Faithful slack (fun depth j => f <$> read depth j) j (f a) := by
  refine ⟨fun depth hd => ?_, h.consistent, h.ne_null⟩
  simp only [h.readsBack depth hd, Checked.map_ok]

/-- The bound of a reader of alternatives counts the node itself. -/
theorem Faithful.of_succ (h : Faithful 1 (fun depth => read (depth + 1)) j a) :
    Faithful 0 read j a := by
  refine ⟨fun depth hd => ?_, h.consistent, h.ne_null⟩
  have hpos := j.depth_pos
  obtain ⟨d, rfl⟩ : ∃ d, depth = d + 1 := ⟨depth - 1, by omega⟩
  exact h.readsBack d (by omega)

theorem FaithfulNode.map {kind : String} (h : FaithfulNode kind read j a) (f : α → β) :
    FaithfulNode kind (fun depth j => f <$> read depth j) j (f a) :=
  ⟨h.toFaithful.map f, h.hasKind⟩

/-- The kind name chooses the reader among the alternatives. -/
theorem FaithfulNode.union {kind : String} {options : Nat → List (String × Reader α)}
    (h : FaithfulNode kind read j a)
    (hkind : ∀ depth, (options depth).lookup kind = some (read depth)) :
    Faithful 1 (fun depth => union (options depth)) j a := by
  refine ⟨fun depth hd => ?_, h.consistent, h.ne_null⟩
  have hread := h.readsBack depth hd
  obtain ⟨fields, rfl⟩ := h.hasKind
  simp only [Json.node] at hread
  simp [Schema.union, Json.node, chosen?, hkind, hread]

/-- The rule for an object without a kind name: the bound is for its fields. -/
theorem Faithful.of_plain {fields : Fields}
    (hkind : fields.lookup "kind" ≠ some (.str "declaration") ∧
      fields.lookup "kind" ≠ some (.str "assignment") ∧ fields.lookup "start" = none)
    (hfields : ∀ e ∈ fields, e.2.IsConsistent)
    (hback : ∀ depth, Json.depthFields fields ≤ depth → read depth (.obj fields) = .ok a) :
    Faithful 1 read (.obj fields) a := by
  refine ⟨fun depth hd => hback depth ?_, Json.isConsistent_of_plain hkind hfields, by simp⟩
  rw [Json.depth] at hd
  omega

/-- The rule for an object with a kind name. -/
theorem FaithfulNode.of_plain {kind : String} {fields : Fields}
    (hkind : kind ≠ "declaration" ∧ kind ≠ "assignment" ∧ fields.lookup "start" = none)
    (hfields : ∀ e ∈ fields, e.2.IsConsistent)
    (hback : ∀ depth, Json.depthFields fields ≤ depth → read depth (.node kind fields) = .ok a) :
    FaithfulNode kind read (.node kind fields) a := by
  refine ⟨.of_plain (by simpa [List.lookup_cons] using hkind) (by simpa using hfields) ?_, _, rfl⟩
  intro depth hd
  rw [Json.depthFields] at hd
  exact hback depth (by omega)

theorem list_faithful {toJson : α → Json} {as : List α}
    (h : ∀ a ∈ as, Faithful slack read (toJson a) a) :
    Faithful slack (fun depth => list (read depth)) (.arr (as.map toJson)) as := by
  refine ⟨fun depth hd => ?_, ?_, by simp⟩
  · rw [Json.depth] at hd
    refine items_map (fun a ha => (h a ha).readsBack depth ?_) 0
    have := Json.depth_le_depthItems (List.mem_map_of_mem (f := toJson) ha)
    omega
  · refine Json.isConsistent_arr fun j hj => ?_
    obtain ⟨a, ha, rfl⟩ := List.mem_map.1 hj
    exact (h a ha).consistent

theorem nullable_ofOption {toJson : α → Json} {o : Option α}
    (h : ∀ a ∈ o, Faithful slack read (toJson a) a) (depth : Nat)
    (hd : (Json.ofOption toJson o).depth ≤ depth + slack) :
    nullable (read depth) (.ofOption toJson o) = .ok o := by
  cases o with
  | none => rfl
  | some a =>
    have ha := h a rfl
    have hread := ha.readsBack depth hd
    have hnull := ha.ne_null
    simp only [Json.ofOption]
    generalize toJson a = j at hread hnull
    cases j with
    | null => exact absurd rfl hnull
    | _ => simp [nullable, hread]

end Faithful

/-! ### Places -/

@[simp] theorem span_toJson (s : Span) : span s.toJson = .ok s := by
  have hnull : ∀ o : Option Int, nullable whole (.ofOption .int o) = .ok o := by
    intro o
    cases o <;> rfl
  have hfields : spanFields s.toJson = .ok (s.line, s.endLine, s.start, s.stop) := by
    simp [spanFields, Span.toJson, hnull, whole]
  rw [span, hfields, Checked.andThen_ok]
  show spanOf s.line s.endLine s.start s.stop = .ok s
  rw [spanOf, dif_pos s.line_le_endLine, dif_pos s.start_le_stop]

@[simp] theorem isConsistent_span (s : Span) : s.toJson.IsConsistent := by
  refine Json.isConsistent_obj
    ⟨by simp [List.lookup_cons], by simp [List.lookup_cons], fun _ => ?_⟩ ?_
  · exact ⟨s.line, s.endLine, s.start, s.stop, rfl, rfl, rfl, rfl, s.start_le_stop,
      s.line_le_endLine⟩
  · have hnull : (Json.ofOption .int s.endLine).IsConsistent :=
      Json.isConsistent_ofOption fun e _ => Json.isConsistent_int e
    simp [hnull]

theorem span_faithful (s : Span) : Faithful 1 (fun _ => span) s.toJson s :=
  ⟨fun _ _ => span_toJson s, isConsistent_span s, by simp [Span.toJson]⟩

/-! ### Expressions -/

theorem listToJson_eq_map (es : List Expr) : Expr.listToJson es = es.map Expr.toJson := by
  induction es with
  | nil => rfl
  | cons e es ih => rw [Expr.listToJson, ih, List.map_cons]

theorem number_yields_faithful (j : Json) :
    (number j).Yields fun e => FaithfulNode "number" (fun _ => number) e.toJson e := by
  refine node_yields (fun f => .map (Checked.yields_true _) fun numeral _ => ?_) _ _ j
  simp only [Expr.toJson]
  refine .of_plain (by simp [List.lookup_cons]) (by simp) fun depth _ => ?_
  simp [number]

theorem variableRef_yields_faithful (j : Json) :
    (variableRef j).Yields fun e =>
      FaithfulNode "variable_ref" (fun _ => variableRef) e.toJson e := by
  refine node_yields (fun f => .map (Checked.yields_true _) fun name _ => ?_) _ _ j
  simp only [Expr.toJson]
  refine .of_plain (by simp [List.lookup_cons]) (by simp) fun depth _ => ?_
  simp [variableRef]

section Expressions
variable {sub : Reader Expr} (hsub : ∀ j, (sub j).Yields fun e => Faithful 0 expression e.toJson e)
include hsub

theorem operation_yields_faithful (className : String) {kind : String} {ops : List ArithOp}
    (hkind : ∀ op ∈ ops, (Operator.known op).exprKind = kind)
    (hplain : kind ≠ "declaration" ∧ kind ≠ "assignment") (j : Json) :
    (operation sub className kind ops j).Yields fun e =>
      FaithfulNode kind (fun depth => operation (expression depth) className kind ops)
        e.toJson e := by
  refine node_yields (fun f => ?_) className kind j
  refine .seq (.seq (.map (required_yields (among_yields ops) f _) ?_) (required_yields hsub f _))
    (required_yields hsub f _)
  intro op hop left hleft right hright
  have hjson : (Expr.binary (.known op) left right).toJson = .node kind
      [("op", Spelled.toJson op), ("left", left.toJson), ("right", right.toJson)] := by
    rw [Expr.toJson, hkind op hop, Operator.toJson]
  rw [hjson]
  refine .of_plain (by simp [List.lookup_cons, hplain])
    (by simp [hleft.consistent, hright.consistent]) fun depth hd => ?_
  simp only [Json.depthFields] at hd
  have hleft' := hleft.readsBack depth (by omega)
  have hright' := hright.readsBack depth (by omega)
  simp [operation, among_toJson hop, hleft', hright']

theorem paren_yields_faithful (j : Json) :
    (paren sub j).Yields fun e =>
      FaithfulNode "paren" (fun depth => paren (expression depth)) e.toJson e := by
  refine node_yields (fun f => (required_yields hsub f _).map fun inner hinner => ?_) _ _ j
  simp only [Expr.toJson]
  refine .of_plain (by simp [List.lookup_cons]) (by simp [hinner.consistent]) fun depth hd => ?_
  simp only [Json.depthFields] at hd
  have hinner' := hinner.readsBack depth (by omega)
  simp [paren, hinner']

theorem callParts_yields_faithful (j : Json) :
    (callParts sub j).Yields fun call =>
      FaithfulNode "call" (fun depth => callParts (expression depth))
        (Expr.call call.1 call.2).toJson call := by
  refine node_yields (fun f => ?_) _ _ j
  refine .seq (.map (Checked.yields_true _) ?_)
    (optional_yields (list_yields hsub) f _ (by simp))
  intro name _ args hargs
  have hlist := list_faithful hargs
  simp only [Expr.toJson, listToJson_eq_map]
  refine .of_plain (by simp [List.lookup_cons]) (by simp [hlist.consistent]) fun depth hd => ?_
  simp only [Json.depthFields] at hd
  have hargs' := hlist.readsBack depth (by omega)
  simp [callParts, hargs']

theorem call_yields_faithful (j : Json) :
    (call sub j).Yields fun e =>
      FaithfulNode "call" (fun depth => call (expression depth)) e.toJson e := by
  refine (callParts_yields_faithful hsub j).map ?_
  rintro ⟨name, args⟩ h
  exact h.map _

/-- The kind name of a written expression chooses the reader that it came from. -/
theorem exprOptions_yield_faithful :
    ∀ o ∈ exprOptions sub, ∀ j, (o.2 j).Yields fun e => ∃ read,
      FaithfulNode o.1 read e.toJson e ∧
        ∀ depth, (exprOptions (expression depth)).lookup o.1 = some (read depth) := by
  simp only [exprOptions, List.forall_mem_cons]
  refine ⟨?_, ?_, ?_, ?_, ?_, ?_, by simp⟩
  · intro j e he
    exact ⟨_, number_yields_faithful j e he, fun _ => rfl⟩
  · intro j e he
    exact ⟨_, variableRef_yields_faithful j e he, fun _ => rfl⟩
  · intro j e he
    exact ⟨_, operation_yields_faithful hsub _ (by decide) (by decide) j e he, fun _ => rfl⟩
  · intro j e he
    exact ⟨_, operation_yields_faithful hsub _ (by decide) (by decide) j e he, fun _ => rfl⟩
  · intro j e he
    exact ⟨_, paren_yields_faithful hsub j e he, fun _ => rfl⟩
  · intro j e he
    exact ⟨_, call_yields_faithful hsub j e he, fun _ => rfl⟩

end Expressions

theorem expression_yields_faithful (depth : Nat) (j : Json) :
    (expression depth j).Yields fun e => Faithful 0 expression e.toJson e := by
  induction depth generalizing j with
  | zero => exact Checked.yields_bad _
  | succ depth ih =>
    refine union_yields (fun o ho j e he => ?_) j
    obtain ⟨read, hread, hkind⟩ := exprOptions_yield_faithful ih o ho j e he
    exact .of_succ (hread.union hkind)

theorem textLiteral_yields_faithful (j : Json) :
    (textLiteral j).Yields fun v => FaithfulNode "text" (fun _ => textLiteral) v.toJson v := by
  refine node_yields (fun f => .map (Checked.yields_true _) fun s _ => ?_) _ _ j
  simp only [RValue.toJson]
  refine .of_plain (by simp [List.lookup_cons]) (by simp) fun depth _ => ?_
  simp [textLiteral]

theorem lookup_map_append {γ : Type} {options : List (String × α)} {kind : String} {a : α}
    (h : options.lookup kind = some a) (f : α → γ) (rest : List (String × γ)) :
    (options.map (fun o => (o.1, f o.2)) ++ rest).lookup kind = some (f a) := by
  induction options with
  | nil => cases h
  | cons o options ih =>
    obtain ⟨k, b⟩ := o
    simp only [List.map_cons, List.cons_append, List.lookup_cons] at h ⊢
    cases hk : kind == k with
    | true =>
      simp only [hk] at h ⊢
      rw [Option.some.inj h]
    | false =>
      simp only [hk] at h ⊢
      exact ih h

theorem value_yields_faithful (depth : Nat) (j : Json) :
    (value depth j).Yields fun v => Faithful 0 value v.toJson v := by
  cases depth with
  | zero => exact Checked.yields_bad _
  | succ depth =>
    refine union_yields ?_ j
    simp only [valueOptions, List.forall_mem_append, List.forall_mem_map,
      List.forall_mem_singleton]
    constructor
    · intro o ho j
      refine .map (exprOptions_yield_faithful (expression_yields_faithful depth) o ho j) ?_
      rintro e ⟨read, hread, hkind⟩
      refine .of_succ ((hread.map RValue.arith).union fun d => ?_)
      exact lookup_map_append (hkind d) (fun read j => RValue.arith <$> read j) _
    · intro j v hv
      exact .of_succ ((textLiteral_yields_faithful j v hv).union fun _ => rfl)

/-! ### Conditions -/

theorem linksToJson_eq_map (links : List Link) : Link.listToJson links = links.map Link.toJson := by
  induction links with
  | nil => rfl
  | cons l links ih =>
    obtain ⟨op, term⟩ := l
    rw [Link.listToJson, ih, List.map_cons, Link.toJson]

theorem boolLiteral_yields_faithful (j : Json) :
    (boolLiteral j).Yields fun c => FaithfulNode "bool" (fun _ => boolLiteral) c.toJson c := by
  refine node_yields (fun f => .map (Checked.yields_true _) fun b _ => ?_) _ _ j
  simp only [Condition.toJson]
  refine .of_plain (by simp [List.lookup_cons]) (by simp) fun depth _ => ?_
  simp [boolLiteral, truth]

theorem nullLiteral_yields_faithful (j : Json) :
    (nullLiteral j).Yields fun c => FaithfulNode "null" (fun _ => nullLiteral) c.toJson c := by
  refine node_yields (fun f => Checked.yields_ok ?_) _ _ j
  simp only [Condition.toJson]
  refine .of_plain (by simp) (by simp) fun depth _ => ?_
  simp [nullLiteral]

section Conditions
variable {expr : Reader Expr}
  (hexpr : ∀ j, (expr j).Yields fun e => Faithful 0 expression e.toJson e)
  {sub : Reader Condition}
  (hsub : ∀ j, (sub j).Yields fun c => Faithful 0 condition c.toJson c)

include hexpr in
theorem comparison_yields_faithful (j : Json) :
    (comparison expr j).Yields fun c =>
      FaithfulNode "comparison" (fun depth => comparison (expression depth)) c.toJson c := by
  refine node_yields (fun f => ?_) _ _ j
  refine .seq (.seq (.map (Checked.yields_true _) ?_) (required_yields hexpr f _))
    (required_yields hexpr f _)
  intro op _ left hleft right hright
  simp only [Condition.toJson]
  refine .of_plain (by simp [List.lookup_cons])
    (by simp [Operator.toJson, hleft.consistent, hright.consistent]) fun depth hd => ?_
  simp only [Json.depthFields] at hd
  have hleft' := hleft.readsBack depth (by omega)
  have hright' := hright.readsBack depth (by omega)
  simp [comparison, Operator.toJson, hleft', hright']

include hexpr in
theorem arithmeticTerm_yields_faithful (j : Json) :
    (arithmeticTerm expr j).Yields fun c =>
      FaithfulNode "arith_term" (fun depth => arithmeticTerm (expression depth)) c.toJson c := by
  refine node_yields (fun f => (required_yields hexpr f _).map fun e he => ?_) _ _ j
  simp only [Condition.toJson]
  refine .of_plain (by simp [List.lookup_cons]) (by simp [he.consistent]) fun depth hd => ?_
  simp only [Json.depthFields] at hd
  have he' := he.readsBack depth (by omega)
  simp [arithmeticTerm, he']

include hsub in
theorem notTerm_yields_faithful (j : Json) :
    (notTerm sub j).Yields fun c =>
      FaithfulNode "not" (fun depth => notTerm (condition depth)) c.toJson c := by
  refine node_yields (fun f => (required_yields hsub f _).map fun operand h => ?_) _ _ j
  simp only [Condition.toJson]
  refine .of_plain (by simp [List.lookup_cons]) (by simp [h.consistent]) fun depth hd => ?_
  simp only [Json.depthFields] at hd
  have h' := h.readsBack depth (by omega)
  simp [notTerm, h']

include hsub in
theorem parenCondition_yields_faithful (j : Json) :
    (parenCondition sub j).Yields fun c =>
      FaithfulNode "paren_condition" (fun depth => parenCondition (condition depth))
        c.toJson c := by
  refine node_yields (fun f => (required_yields hsub f _).map fun inner h => ?_) _ _ j
  simp only [Condition.toJson]
  refine .of_plain (by simp [List.lookup_cons]) (by simp [h.consistent]) fun depth hd => ?_
  simp only [Json.depthFields] at hd
  have h' := h.readsBack depth (by omega)
  simp [parenCondition, h']

include hsub in
theorem chainLink_yields_faithful (j : Json) :
    (chainLink sub j).Yields fun l =>
      Faithful 1 (fun depth => chainLink (condition depth)) l.toJson l := by
  refine object_yields (fun f => ?_) _ j
  refine .seq (.map (Checked.yields_true _) ?_) (required_yields hsub f _)
  intro op _ term hterm
  simp only [Link.toJson]
  refine .of_plain (by simp [List.lookup_cons]) (by simp [Operator.toJson, hterm.consistent])
    fun depth hd => ?_
  simp only [Json.depthFields] at hd
  have hterm' := hterm.readsBack depth (by omega)
  simp [chainLink, Operator.toJson, hterm']

include hsub in
theorem logicalChain_yields_faithful (j : Json) :
    (logicalChain sub j).Yields fun c =>
      FaithfulNode "chain" (fun depth => logicalChain (condition depth)) c.toJson c := by
  refine node_yields (fun f => ?_) _ _ j
  refine .seq (.map (required_yields hsub f _) ?_)
    (optional_yields (list_yields (chainLink_yields_faithful hsub)) f _ (by simp))
  intro head hhead links hlinks
  have hlist := list_faithful hlinks
  simp only [Condition.toJson, linksToJson_eq_map]
  refine .of_plain (by simp [List.lookup_cons]) (by simp [hhead.consistent, hlist.consistent])
    fun depth hd => ?_
  simp only [Json.depthFields] at hd
  have hhead' := hhead.readsBack depth (by omega)
  have hlinks' := hlist.readsBack depth (by omega)
  simp [logicalChain, hhead', hlinks']

include hexpr hsub in
theorem conditionOptions_yield_faithful :
    ∀ o ∈ conditionOptions expr sub, ∀ j, (o.2 j).Yields fun c =>
      Faithful 1 (fun depth => union (conditionOptions (expression depth) (condition depth)))
        c.toJson c := by
  simp only [conditionOptions, List.forall_mem_cons]
  refine ⟨?_, ?_, ?_, ?_, ?_, ?_, ?_, by simp⟩
  · intro j c hc
    exact (comparison_yields_faithful hexpr j c hc).union fun _ => rfl
  · intro j c hc
    exact (arithmeticTerm_yields_faithful hexpr j c hc).union fun _ => rfl
  · intro j c hc
    exact (notTerm_yields_faithful hsub j c hc).union fun _ => rfl
  · intro j c hc
    exact (parenCondition_yields_faithful hsub j c hc).union fun _ => rfl
  · intro j c hc
    exact (boolLiteral_yields_faithful j c hc).union fun _ => rfl
  · intro j c hc
    exact (nullLiteral_yields_faithful j c hc).union fun _ => rfl
  · intro j c hc
    exact (logicalChain_yields_faithful hsub j c hc).union fun _ => rfl

end Conditions

theorem condition_yields_faithful (depth : Nat) (j : Json) :
    (condition depth j).Yields fun c => Faithful 0 condition c.toJson c := by
  induction depth generalizing j with
  | zero => exact Checked.yields_bad _
  | succ depth ih =>
    refine union_yields (fun o ho j c hc => .of_succ ?_) j
    exact conditionOptions_yield_faithful (expression_yields_faithful depth) ih o ho j c hc

/-! ### Statements -/

theorem stmtsToJson_eq_map (ss : List Stmt) : Stmt.listToJson ss = ss.map Stmt.toJson := by
  induction ss with
  | nil => rfl
  | cons s ss ih => rw [Stmt.listToJson, ih, List.map_cons]

theorem alternativeToJson_eq_ofOption (alternative : Option (List Stmt)) :
    Stmt.alternativeToJson alternative =
      .ofOption (fun body => .arr (body.map Stmt.toJson)) alternative := by
  cases alternative with
  | none => rfl
  | some body => rw [Stmt.alternativeToJson, stmtsToJson_eq_map, Json.ofOption]

/-- An action is written without a value exactly if it adds or subtracts one. -/
theorem value?_toJson_eq_null_iff {a : Action} {op : AssignOp} (h : a.op = .known op)
    (hvalue : ∀ v ∈ a.value?, v.toJson ≠ .null) :
    Json.ofOption RValue.toJson a.value? = .null ↔
      Spelled.spell op = "++" ∨ Spelled.spell op = "--" := by
  cases a with
  | set v =>
    cases h
    simp [Action.value?, Json.ofOption, hvalue v rfl, Spelled.spell]
  | increment =>
    cases h
    simp [Action.value?, Json.ofOption, Spelled.spell]
  | decrement =>
    cases h
    simp [Action.value?, Json.ofOption, Spelled.spell]
  | update op v =>
    cases h
    cases op <;> simp [Action.value?, Json.ofOption, hvalue v rfl, Spelled.spell]
  | foreign symbol v => cases h

section Statements
variable {expr : Reader Expr}
  (hexpr : ∀ j, (expr j).Yields fun e => Faithful 0 expression e.toJson e)
  {val : Reader RValue} (hval : ∀ j, (val j).Yields fun v => Faithful 0 value v.toJson v)
  {cond : Reader Condition}
  (hcond : ∀ j, (cond j).Yields fun c => Faithful 0 condition c.toJson c)
  {sub : Reader Stmt} (hsub : ∀ j, (sub j).Yields fun s => Faithful 0 statement s.toJson s)

include hval in
theorem declarator_yields_faithful (j : Json) :
    (declarator val j).Yields fun d =>
      Faithful 1 (fun depth => declarator (value depth)) d.toJson d := by
  refine object_yields (fun f => ?_) _ j
  refine .seq (.seq (.map (Checked.yields_true _) ?_)
    (optional_yields (nullable_yields hval) f _ (by simp))) (Checked.yields_true _)
  intro name _ initializer hinitializer span _
  simp only [Declarator.toJson]
  have hconsistent := Json.isConsistent_ofOption fun v hv => (hinitializer v hv).consistent
  refine .of_plain (by simp [List.lookup_cons]) (by simp [hconsistent]) fun depth hd => ?_
  simp only [Json.depthFields] at hd
  have hinitializer' := nullable_ofOption hinitializer depth (by omega)
  simp [declarator, hinitializer', spanField]

include hval in
theorem declaration_yields_faithful (j : Json) :
    (declaration val j).Yields fun d =>
      FaithfulNode "declaration" (fun depth => declaration (value depth)) d.toJson d := by
  have hfields : (declarationFields val j).Yields fun d => ∀ e ∈ d.2.1,
      Faithful 1 (fun depth => declarator (value depth)) e.toJson e := by
    refine node_yields (fun f => ?_) _ _ j
    refine .seq (.seq (.map (Checked.yields_true _) ?_)
      (required_yields (list_yields (declarator_yields_faithful hval)) f _))
      (Checked.yields_true _)
    intro type _ declarators hdeclarators span _
    exact hdeclarators
  refine hfields.andThen ?_
  rintro ⟨type, declarators, span⟩ hdeclarators d hd
  have hdeclared : ∀ e ∈ d.declarators,
      Faithful 1 (fun depth => declarator (value depth)) e.toJson e := by
    rw [declarationOf_yields type declarators span d hd]
    exact hdeclarators
  have hlist := list_faithful hdeclared
  refine ⟨⟨fun depth hd => ?_, ?_, by simp [Declaration.toJson, Json.node]⟩, _, rfl⟩
  · simp only [Declaration.toJson, Json.node, Json.depth, Json.depthFields] at hd
    have hlist' := hlist.readsBack depth (by simp only [Json.depth]; omega)
    have hback : declarationFields (value depth) d.toJson =
        .ok (d.type, d.declarators, d.span) := by
      simp [declarationFields, Declaration.toJson, hlist', spanField]
    rw [declaration, hback, Checked.andThen_ok]
    show declarationOf d.type d.declarators d.span = .ok d
    rw [declarationOf, dif_pos d.nonempty]
  · refine Json.isConsistent_obj ⟨fun _ => ?_, by simp, by simp [List.lookup_cons]⟩ ?_
    · obtain ⟨e, es, hes⟩ := List.exists_cons_of_ne_nil d.nonempty
      exact ⟨e.toJson, es.map Declarator.toJson, by simp [List.lookup_cons, hes]⟩
    · simp [hlist.consistent]

include hval in
theorem assignment_yields_faithful (j : Json) :
    (assignment val j).Yields fun a =>
      FaithfulNode "assignment" (fun depth => assignment (value depth)) a.toJson a := by
  have hfields : (assignmentFields val j).Yields fun a => ∀ v ∈ a.2.2.1,
      Faithful 0 value v.toJson v := by
    refine node_yields (fun f => ?_) _ _ j
    refine .seq (.seq (.seq (.map (Checked.yields_true _) ?_) (Checked.yields_true _))
      (optional_yields (nullable_yields hval) f _ (by simp))) (Checked.yields_true _)
    intro target _ op _ operand hoperand span _
    exact hoperand
  refine hfields.andThen ?_
  rintro ⟨target, op, operand, span⟩ hoperand
  refine (actionOf_yields op operand).map ?_
  rintro action ⟨hknown, rfl⟩
  have hoperand : ∀ v ∈ action.value?, Faithful 0 value v.toJson v := hoperand
  obtain ⟨op, hop⟩ : ∃ op, action.op = .known op := by
    cases h : action.op with
    | known op => exact ⟨op, rfl⟩
    | foreign symbol => simp [h, Operator.isKnown] at hknown
  have hjson : (Assignment.mk target action span).toJson = .node "assignment"
      [("target", .str target), ("op", Spelled.toJson op),
        ("value", .ofOption RValue.toJson action.value?), ("span", span.toJson)] := by
    simp only [Assignment.toJson, hop, Operator.toJson]
  rw [hjson]
  refine ⟨⟨fun depth hd => ?_, ?_, by simp [Json.node]⟩, _, rfl⟩
  · simp only [Json.node, Json.depth, Json.depthFields] at hd
    have hvalue := nullable_ofOption hoperand depth (by omega)
    have haction : actionOf op action.value? = .ok action := by
      simp only [actionOf, Action.of?_value? hop]
    simp [assignment, assignmentFields, hvalue, spanField, haction]
  · refine Json.isConsistent_obj ⟨by simp, fun _ => ?_, by simp [List.lookup_cons]⟩ ?_
    · refine ⟨Spelled.spell op, _, rfl, rfl, ?_⟩
      exact value?_toJson_eq_null_iff hop fun v hv => (hoperand v hv).ne_null
    · have hconsistent := Json.isConsistent_ofOption fun v hv => (hoperand v hv).consistent
      simp [hconsistent]

include hexpr in
theorem expressionStatement_yields_faithful (j : Json) :
    (expressionStatement expr j).Yields fun s =>
      FaithfulNode "expression" (fun depth => expressionStatement (expression depth))
        s.toJson s := by
  refine node_yields (fun f => ?_) _ _ j
  refine .seq (.map (required_yields hexpr f _) ?_) (Checked.yields_true _)
  intro e he span _
  simp only [Stmt.toJson]
  refine .of_plain (by simp [List.lookup_cons]) (by simp [he.consistent]) fun depth hd => ?_
  simp only [Json.depthFields] at hd
  have he' := he.readsBack depth (by omega)
  simp [expressionStatement, he', spanField]

include hcond hsub in
theorem ifStatement_yields_faithful (j : Json) :
    (ifStatement cond sub j).Yields fun s =>
      FaithfulNode "if" (fun depth => ifStatement (condition depth) (statement depth))
        s.toJson s := by
  refine node_yields (fun f => ?_) _ _ j
  refine .seq (.seq (.seq (.map (required_yields hcond f _) ?_)
    (optional_yields (list_yields hsub) f _ (by simp)))
    (optional_yields (nullable_yields (list_yields hsub)) f _ (by simp))) (Checked.yields_true _)
  intro c hc body hbody alternative halternative span _
  have hlist := list_faithful hbody
  have hlists : ∀ b ∈ alternative, Faithful 0 (fun depth => list (statement depth))
      (.arr (b.map Stmt.toJson)) b := fun b hb => list_faithful (halternative b hb)
  simp only [Stmt.toJson, stmtsToJson_eq_map, alternativeToJson_eq_ofOption]
  have hconsistent := Json.isConsistent_ofOption fun b hb => (hlists b hb).consistent
  refine .of_plain (by simp [List.lookup_cons])
    (by simp [hc.consistent, hlist.consistent, hconsistent])
    fun depth hd => ?_
  simp only [Json.depthFields] at hd
  have hc' := hc.readsBack depth (by omega)
  have hbody' := hlist.readsBack depth (by omega)
  have halternative' := nullable_ofOption hlists depth (by omega)
  simp [ifStatement, hc', hbody', halternative', spanField]

include hval hcond hsub in
theorem forStatement_yields_faithful (j : Json) :
    (forStatement val cond sub j).Yields fun s =>
      FaithfulNode "for"
        (fun depth => forStatement (value depth) (condition depth) (statement depth))
        s.toJson s := by
  refine node_yields (fun f => ?_) _ _ j
  refine .seq (.seq (.seq (.seq
    (.map (optional_yields (nullable_yields (declaration_yields_faithful hval)) f _ (by simp)) ?_)
    (optional_yields (nullable_yields hcond) f _ (by simp)))
    (optional_yields (nullable_yields (assignment_yields_faithful hval)) f _ (by simp)))
    (optional_yields (list_yields hsub) f _ (by simp))) (Checked.yields_true _)
  intro init hinit c hc update hupdate body hbody span _
  have hlist := list_faithful hbody
  simp only [Stmt.toJson, stmtsToJson_eq_map]
  have hinit' := Json.isConsistent_ofOption fun d hd => (hinit d hd).consistent
  have hc' := Json.isConsistent_ofOption fun c' hc' => (hc c' hc').consistent
  have hupdate' := Json.isConsistent_ofOption fun a ha => (hupdate a ha).consistent
  refine .of_plain (by simp [List.lookup_cons]) (by simp [hinit', hc', hupdate', hlist.consistent])
    fun depth hd => ?_
  simp only [Json.depthFields] at hd
  have hinit' := nullable_ofOption (fun d hd => (hinit d hd).toFaithful) depth (by omega)
  have hc' := nullable_ofOption hc depth (by omega)
  have hupdate' := nullable_ofOption (fun a ha => (hupdate a ha).toFaithful) depth (by omega)
  have hbody' := hlist.readsBack depth (by omega)
  simp [forStatement, hinit', hc', hupdate', hbody', spanField]

include hcond hsub in
theorem whileStatement_yields_faithful (j : Json) :
    (whileStatement cond sub j).Yields fun s =>
      FaithfulNode "while" (fun depth => whileStatement (condition depth) (statement depth))
        s.toJson s := by
  refine node_yields (fun f => ?_) _ _ j
  refine .seq (.seq (.map (optional_yields (nullable_yields hcond) f _ (by simp)) ?_)
    (optional_yields (list_yields hsub) f _ (by simp))) (Checked.yields_true _)
  intro c hc body hbody span _
  have hlist := list_faithful hbody
  simp only [Stmt.toJson, stmtsToJson_eq_map]
  have hc' := Json.isConsistent_ofOption fun c' hc' => (hc c' hc').consistent
  refine .of_plain (by simp [List.lookup_cons]) (by simp [hc', hlist.consistent]) fun depth hd => ?_
  simp only [Json.depthFields] at hd
  have hc' := nullable_ofOption hc depth (by omega)
  have hbody' := hlist.readsBack depth (by omega)
  simp [whileStatement, hc', hbody', spanField]

include hval in
theorem returnStatement_yields_faithful (j : Json) :
    (returnStatement val j).Yields fun s =>
      FaithfulNode "return" (fun depth => returnStatement (value depth)) s.toJson s := by
  refine node_yields (fun f => ?_) _ _ j
  refine .seq (.map (optional_yields (nullable_yields hval) f _ (by simp)) ?_)
    (Checked.yields_true _)
  intro v hv span _
  simp only [Stmt.toJson]
  have hv' := Json.isConsistent_ofOption fun v' hv' => (hv v' hv').consistent
  refine .of_plain (by simp [List.lookup_cons]) (by simp [hv']) fun depth hd => ?_
  simp only [Json.depthFields] at hd
  have hv' := nullable_ofOption hv depth (by omega)
  simp [returnStatement, hv', spanField]

include hexpr in
theorem callStatement_yields_faithful (j : Json) :
    (callStatement expr j).Yields fun s =>
      FaithfulNode "call_stmt" (fun depth => callStatement (expression depth)) s.toJson s := by
  refine node_yields (fun f => ?_) _ _ j
  refine .seq (.map (required_yields (callParts_yields_faithful hexpr) f _) ?_)
    (Checked.yields_true _)
  rintro ⟨name, args⟩ hcall span _
  have hcall : FaithfulNode "call" (fun depth => callParts (expression depth))
      (Expr.call name args).toJson (name, args) := hcall
  simp only [Stmt.toJson]
  refine .of_plain (by simp [List.lookup_cons]) (by simp [hcall.consistent]) fun depth hd => ?_
  simp only [Json.depthFields] at hd
  have hcall' := hcall.readsBack depth (by omega)
  simp [callStatement, hcall', spanField]

include hexpr hval hcond hsub in
theorem stmtOptions_yield_faithful :
    ∀ o ∈ stmtOptions expr val cond sub, ∀ j, (o.2 j).Yields fun s =>
      Faithful 1 (fun depth => union (stmtOptions (expression depth) (value depth)
        (condition depth) (statement depth))) s.toJson s := by
  simp only [stmtOptions, List.forall_mem_cons]
  refine ⟨?_, ?_, ?_, ?_, ?_, ?_, ?_, ?_, by simp⟩
  · intro j
    refine (declaration_yields_faithful hval j).map fun d hd => ?_
    exact (hd.map Stmt.declare).union fun _ => rfl
  · intro j
    refine (assignment_yields_faithful hval j).map fun a ha => ?_
    exact (ha.map Stmt.assign).union fun _ => rfl
  · intro j s hs
    exact (expressionStatement_yields_faithful hexpr j s hs).union fun _ => rfl
  · intro j s hs
    exact (ifStatement_yields_faithful hcond hsub j s hs).union fun _ => rfl
  · intro j s hs
    exact (forStatement_yields_faithful hval hcond hsub j s hs).union fun _ => rfl
  · intro j s hs
    exact (whileStatement_yields_faithful hcond hsub j s hs).union fun _ => rfl
  · intro j s hs
    exact (returnStatement_yields_faithful hval j s hs).union fun _ => rfl
  · intro j s hs
    exact (callStatement_yields_faithful hexpr j s hs).union fun _ => rfl

end Statements

theorem statement_yields_faithful (depth : Nat) (j : Json) :
    (statement depth j).Yields fun s => Faithful 0 statement s.toJson s := by
  induction depth generalizing j with
  | zero => exact Checked.yields_bad _
  | succ depth ih =>
    refine union_yields (fun o ho j s hs => .of_succ ?_) j
    exact stmtOptions_yield_faithful (expression_yields_faithful depth)
      (value_yields_faithful depth) (condition_yields_faithful depth) ih o ho j s hs

/-! ### Programs -/

theorem parameter_faithful (p : Parameter) : Faithful 1 (fun _ => parameter) p.toJson p := by
  simp only [Parameter.toJson]
  refine .of_plain (by simp [List.lookup_cons]) (by simp) fun depth _ => ?_
  simp [parameter]

section Programs
variable {val : Reader RValue} (hval : ∀ j, (val j).Yields fun v => Faithful 0 value v.toJson v)
  {sub : Reader Stmt} (hsub : ∀ j, (sub j).Yields fun s => Faithful 0 statement s.toJson s)

include hsub in
theorem function_yields_faithful (j : Json) :
    (function sub j).Yields fun g =>
      FaithfulNode "function" (fun depth => function (statement depth)) g.toJson g := by
  refine node_yields (fun f => ?_) _ _ j
  refine .seq (.seq (.seq (.seq (.map (Checked.yields_true _) ?_) (Checked.yields_true _))
    (Checked.yields_true _)) (optional_yields (list_yields hsub) f _ (by simp)))
    (Checked.yields_true _)
  intro name _ type _ parameters _ body hbody span _
  have hlist := list_faithful hbody
  have hparameters : Faithful 1 (fun _ => list parameter)
      (.arr (parameters.map Parameter.toJson)) parameters :=
    list_faithful fun p _ => parameter_faithful p
  simp only [Function.toJson, stmtsToJson_eq_map]
  refine .of_plain (by simp [List.lookup_cons]) (by simp [hlist.consistent, hparameters.consistent])
    fun depth hd => ?_
  simp only [Json.depthFields] at hd
  have hbody' := hlist.readsBack depth (by omega)
  have hparameters' := hparameters.readsBack depth (by omega)
  simp [function, hbody', hparameters', spanField]

include hsub in
theorem entry_yields_faithful (j : Json) :
    (entry sub j).Yields fun e =>
      Faithful 1 (fun depth => entry (statement depth)) e.toJson e := by
  refine object_yields (fun f => ?_) _ j
  refine .seq (.seq (.seq (.map (Checked.yields_true _) ?_) (Checked.yields_true _))
    (optional_yields (list_yields hsub) f _ (by simp))) (Checked.yields_true _)
  intro name _ type _ body hbody span _
  have hlist := list_faithful hbody
  simp only [Entry.toJson, stmtsToJson_eq_map]
  refine .of_plain (by simp [List.lookup_cons]) (by simp [hlist.consistent]) fun depth hd => ?_
  simp only [Json.depthFields] at hd
  have hbody' := hlist.readsBack depth (by omega)
  simp [entry, hbody', spanField]

include hval hsub in
theorem global_yields_faithful (j : Json) :
    (global val sub j).Yields fun g =>
      Faithful 1 (fun depth => global (value depth) (statement depth)) g.toJson g := by
  refine union_yields ?_ j
  simp only [globalOptions, List.forall_mem_cons]
  refine ⟨?_, ?_, by simp⟩
  · intro j
    refine (declaration_yields_faithful hval j).map fun d hd => ?_
    exact (hd.map Global.declaration).union fun _ => rfl
  · intro j
    refine (function_yields_faithful hsub j).map fun g hg => ?_
    exact (hg.map Global.function).union fun _ => rfl

include hval hsub in
theorem program_yields_faithful (j : Json) :
    (program val sub j).Yields fun p =>
      Faithful 1 (fun depth => program (value depth) (statement depth)) p.toJson p := by
  have hdefault : Faithful 1 (fun depth => entry (statement depth)) (Entry.toJson {}) {} :=
    entry_yields_faithful (statement_yields_faithful 0) (.obj []) _ rfl
  refine object_yields (fun f => ?_) _ j
  refine .seq (.map (optional_yields (list_yields (global_yields_faithful hval hsub)) f _
    (by simp)) ?_) (optional_yields (entry_yields_faithful hsub) f _ hdefault)
  intro globals hglobals entry hentry
  have hlist := list_faithful hglobals
  simp only [Program.toJson]
  refine .of_plain (by simp [List.lookup_cons]) (by simp [hlist.consistent, hentry.consistent])
    fun depth hd => ?_
  simp only [Json.depthFields] at hd
  have hglobals' := hlist.readsBack depth (by omega)
  have hentry' := hentry.readsBack depth (by omega)
  simp [program, hglobals', hentry']

end Programs

end Schema

/-! ### Models -/

namespace Model

theorem readWithin_yields_faithful (m : Model) (depth : Nat) (j : Json) :
    (m.readWithin depth j).Yields fun n =>
      Faithful 0 (fun depth => m.readWithin depth) n.toJson n := by
  have hexpr := expression_yields_faithful depth
  have hval := value_yields_faithful depth
  have hcond := condition_yields_faithful depth
  have hstmt := statement_yields_faithful depth
  cases m with
  | sourceSpan => exact (Checked.yields_true _).map fun s _ => ((span_faithful s).map _).tight
  | numberLiteral => exact (number_yields_faithful j).map fun e he => (he.map _).tight
  | textLiteral => exact (textLiteral_yields_faithful j).map fun v hv => (hv.map _).tight
  | variableRef => exact (variableRef_yields_faithful j).map fun e he => (he.map _).tight
  | additiveExpr =>
    exact (operation_yields_faithful hexpr _ (by decide) (by decide) j).map
      fun e he => (he.map _).tight
  | multiplicativeExpr =>
    exact (operation_yields_faithful hexpr _ (by decide) (by decide) j).map
      fun e he => (he.map _).tight
  | parenExpr => exact (paren_yields_faithful hexpr j).map fun e he => (he.map _).tight
  | callExpr => exact (call_yields_faithful hexpr j).map fun e he => (he.map _).tight
  | comparison => exact (comparison_yields_faithful hexpr j).map fun c hc => (hc.map _).tight
  | arithmeticTerm =>
    exact (arithmeticTerm_yields_faithful hexpr j).map fun c hc => (hc.map _).tight
  | notTerm => exact (notTerm_yields_faithful hcond j).map fun c hc => (hc.map _).tight
  | parenCondition =>
    exact (parenCondition_yields_faithful hcond j).map fun c hc => (hc.map _).tight
  | boolLiteral => exact (boolLiteral_yields_faithful j).map fun c hc => (hc.map _).tight
  | nullLiteral => exact (nullLiteral_yields_faithful j).map fun c hc => (hc.map _).tight
  | chainLink => exact (chainLink_yields_faithful hcond j).map fun l hl => (hl.map _).tight
  | logicalChain => exact (logicalChain_yields_faithful hcond j).map fun c hc => (hc.map _).tight
  | declarator => exact (declarator_yields_faithful hval j).map fun d hd => (hd.map _).tight
  | declaration => exact (declaration_yields_faithful hval j).map fun d hd => (hd.map _).tight
  | assignment => exact (assignment_yields_faithful hval j).map fun a ha => (ha.map _).tight
  | expressionStatement =>
    exact (expressionStatement_yields_faithful hexpr j).map fun s hs => (hs.map _).tight
  | ifStatement =>
    exact (ifStatement_yields_faithful hcond hstmt j).map fun s hs => (hs.map _).tight
  | forStatement =>
    exact (forStatement_yields_faithful hval hcond hstmt j).map fun s hs => (hs.map _).tight
  | whileStatement =>
    exact (whileStatement_yields_faithful hcond hstmt j).map fun s hs => (hs.map _).tight
  | returnStatement =>
    exact (returnStatement_yields_faithful hval j).map fun s hs => (hs.map _).tight
  | callStatement =>
    exact (callStatement_yields_faithful hexpr j).map fun s hs => (hs.map _).tight
  | parameter =>
    exact (Checked.yields_true _).map fun p _ => ((parameter_faithful p).map _).tight
  | functionDeclaration =>
    exact (function_yields_faithful hstmt j).map fun f hf => (hf.map _).tight
  | entryFunction => exact (entry_yields_faithful hstmt j).map fun e he => (he.map _).tight
  | program => exact (program_yields_faithful hval hstmt j).map fun p hp => (hp.map _).tight
  | expression => exact (hexpr j).map fun e he => he.map _
  | valueExpression => exact (hval j).map fun v hv => hv.map _
  | condition => exact (hcond j).map fun c hc => hc.map _
  | statement => exact (hstmt j).map fun s hs => hs.map _
  | globalDeclaration =>
    exact (global_yields_faithful hval hstmt j).map fun g hg => (hg.map _).tight

/-- **A tree that was read from data survives being written and read again**, whatever class or set
of alternatives it was read as: what is written is read back as the same tree, and so is written
the same once more.  In what is written, each declaration has a declarator, each assignment has a
value unless its operator is `++` or `--`, and no span ends before it starts. -/
theorem read_toJson (m : Model) (j : Json) (n : Node) (h : m.read j = .ok n) :
    m.read n.toJson = .ok n ∧ Node.toJson <$> m.read n.toJson = .ok n.toJson ∧
      ∀ f ∈ n.toJson.objects, Consistent f := by
  have hn := readWithin_yields_faithful m j.depth j n h
  have hback : m.read n.toJson = .ok n := hn.readsBack n.toJson.depth (Nat.le_refl _)
  exact ⟨hback, by rw [hback]; rfl, hn.consistent⟩

/-- A loop whose data leaves fields out, has fields that no class knows and gives numbers in other
forms. -/
theorem read_toJson_of_loop :
    let j : Json := .obj [("colour", .str "red"), ("kind", .str "for"),
      ("update", .obj [("op", .str "++"), ("target", .str "i")]),
      ("body", .arr [.obj [("kind", .str "declaration"), ("type_tag", .str "int"),
        ("declarators", .arr [.obj [("kind", .null), ("name", .str "x")]])]]),
      ("span", .obj [("line", .bool true), ("stop", .str " 07.0")])]
    let n : Node := .stmt (.forLoop none none (some ⟨"i", .increment, .unknown⟩)
      [.declare ⟨.int, [⟨"x", none, .unknown⟩], .unknown, by simp⟩] { line := 1, stop := 7 })
    statement.read j = .ok n ∧ statement.read n.toJson = .ok n ∧
      ∀ f ∈ n.toJson.objects, Consistent f := by
  intro j n
  have h : statement.read j = .ok n := rfl
  obtain ⟨hback, -, hconsistent⟩ := read_toJson .statement j n h
  exact ⟨h, hback, hconsistent⟩

end Model

end FlatScript
