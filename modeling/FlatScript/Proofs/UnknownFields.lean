import FlatScript.Proofs.RoundTrip

/-!
# Fields that no class knows

An object may have fields that its class does not have.  Here the readers are shown not to look at
them: two pieces of data that agree on what a model asks for are read as the same tree, or are
refused with the same issues in the same order.

* `Model.form` : the fields of each class and the classes of each set of alternatives;
* `Json.SameFor` : two pieces of data agree on what is asked of them.  The objects in them may
  differ in fields that are not of the class that the object is read as, and in the order of all
  fields.  The field `kind` is asked for like any other by the classes that have it, chooses the
  class of an alternative, and is a field like `colour` for the rest.  A kind that chooses no class
  is quoted by the refusal, so what it holds is not free to differ;
* `Schema.Respects` : a reader under one bound and a reader under another give the same result on
  data that agrees;
* `Model.read_eq_of_sameFor` : **fields that no class knows never matter**, in data of any shape.
-/

namespace FlatScript

/-! ### What is asked of data -/

/-- What is asked of a piece of data. -/
inductive Shape where
  /-- A number, a word or a truth value. -/
  | scalar
  | nullable (shape : Shape)
  | list (shape : Shape)
  | model (m : Model)

/-- A class with the fields that it has, or the classes that a kind name chooses from. -/
inductive Form where
  | record (fields : List (String × Shape))
  | union (options : List (String × Model))

namespace Model

/-- The kinds of arithmetic expressions. -/
def expressionKinds : List (String × Model) :=
  [("number", .numberLiteral), ("variable_ref", .variableRef), ("additive", .additiveExpr),
    ("multiplicative", .multiplicativeExpr), ("paren", .parenExpr), ("call", .callExpr)]

/-- The fields of a class, or the classes of a set of alternatives. -/
def form : Model → Form
  | .sourceSpan => .record [("line", .scalar), ("end_line", .nullable .scalar),
      ("start", .scalar), ("stop", .scalar)]
  | .numberLiteral => .record [("kind", .scalar), ("value", .scalar)]
  | .textLiteral => .record [("kind", .scalar), ("value", .scalar)]
  | .variableRef => .record [("kind", .scalar), ("name", .scalar)]
  | .additiveExpr => .record [("kind", .scalar), ("op", .scalar), ("left", .model .expression),
      ("right", .model .expression)]
  | .multiplicativeExpr => .record [("kind", .scalar), ("op", .scalar),
      ("left", .model .expression), ("right", .model .expression)]
  | .parenExpr => .record [("kind", .scalar), ("inner", .model .expression)]
  | .callExpr => .record [("kind", .scalar), ("name", .scalar),
      ("args", .list (.model .expression))]
  | .comparison => .record [("kind", .scalar), ("op", .scalar), ("left", .model .expression),
      ("right", .model .expression)]
  | .arithmeticTerm => .record [("kind", .scalar), ("expr", .model .expression)]
  | .notTerm => .record [("kind", .scalar), ("operand", .model .condition)]
  | .parenCondition => .record [("kind", .scalar), ("inner", .model .condition)]
  | .boolLiteral => .record [("kind", .scalar), ("value", .scalar)]
  | .nullLiteral => .record [("kind", .scalar)]
  | .chainLink => .record [("op", .scalar), ("term", .model .condition)]
  | .logicalChain => .record [("kind", .scalar), ("head", .model .condition),
      ("links", .list (.model .chainLink))]
  | .declarator => .record [("name", .scalar),
      ("initializer", .nullable (.model .valueExpression)), ("span", .model .sourceSpan)]
  | .declaration => .record [("kind", .scalar), ("type_tag", .scalar),
      ("declarators", .list (.model .declarator)), ("span", .model .sourceSpan)]
  | .assignment => .record [("kind", .scalar), ("target", .scalar), ("op", .scalar),
      ("value", .nullable (.model .valueExpression)), ("span", .model .sourceSpan)]
  | .expressionStatement => .record [("kind", .scalar), ("expr", .model .expression),
      ("span", .model .sourceSpan)]
  | .ifStatement => .record [("kind", .scalar), ("condition", .model .condition),
      ("body", .list (.model .statement)), ("else_body", .nullable (.list (.model .statement))),
      ("span", .model .sourceSpan)]
  | .forStatement => .record [("kind", .scalar), ("init", .nullable (.model .declaration)),
      ("condition", .nullable (.model .condition)), ("update", .nullable (.model .assignment)),
      ("body", .list (.model .statement)), ("span", .model .sourceSpan)]
  | .whileStatement => .record [("kind", .scalar), ("condition", .nullable (.model .condition)),
      ("body", .list (.model .statement)), ("span", .model .sourceSpan)]
  | .returnStatement => .record [("kind", .scalar),
      ("value", .nullable (.model .valueExpression)), ("span", .model .sourceSpan)]
  | .callStatement => .record [("kind", .scalar), ("call", .model .callExpr),
      ("span", .model .sourceSpan)]
  | .parameter => .record [("type_tag", .scalar), ("name", .scalar)]
  | .functionDeclaration => .record [("kind", .scalar), ("name", .scalar),
      ("return_type", .scalar), ("parameters", .list (.model .parameter)),
      ("body", .list (.model .statement)), ("span", .model .sourceSpan)]
  | .entryFunction => .record [("name", .scalar), ("return_type", .scalar),
      ("body", .list (.model .statement)), ("span", .model .sourceSpan)]
  | .program => .record [("globals", .list (.model .globalDeclaration)),
      ("entry", .model .entryFunction)]
  | .expression => .union expressionKinds
  | .valueExpression => .union (expressionKinds ++ [("text", .textLiteral)])
  | .condition => .union [("comparison", .comparison), ("arith_term", .arithmeticTerm),
      ("not", .notTerm), ("paren_condition", .parenCondition), ("bool", .boolLiteral),
      ("null", .nullLiteral), ("chain", .logicalChain)]
  | .statement => .union [("declaration", .declaration), ("assignment", .assignment),
      ("expression", .expressionStatement), ("if", .ifStatement), ("for", .forStatement),
      ("while", .whileStatement), ("return", .returnStatement), ("call_stmt", .callStatement)]
  | .globalDeclaration => .union [("declaration", .declaration),
      ("function", .functionDeclaration)]

/-- An alternative is a class and no set of alternatives of its own. -/
theorem exists_record_of_option {m m' : Model} {options : List (String × Model)} {kind : String}
    (hform : m.form = .union options) (hm : options.lookup kind = some m') :
    ∃ fields, m'.form = .record fields := by
  have hmem : ∀ o ∈ options, ∃ fields, o.2.form = .record fields := by
    cases m <;> cases hform <;> simp [form, expressionKinds]
  obtain ⟨before, after, rfl, -⟩ := List.lookup_eq_some_iff.1 hm
  exact hmem (kind, m') (by simp)

end Model

/-! ### Data that agrees -/

namespace Json

/-- A scalar is itself; of a list or an object only that it is one is kept. -/
def outline : Json → Json
  | .arr _ => .arr []
  | .obj _ => .obj []
  | j => j

theorem outline_eq_null_iff {j : Json} : j.outline = .null ↔ j = .null := by
  cases j <;> simp [outline]

/-- Two pieces of data agree on what is asked of them. -/
inductive SameFor : Shape → Json → Json → Prop where
  /-- What is inside a list or an object does not matter where a scalar is asked for. -/
  | scalar {j j' : Json} (h : j.outline = j'.outline) : SameFor .scalar j j'
  | null (t : Shape) : SameFor (.nullable t) .null .null
  | present {t : Shape} {j j' : Json} (h : SameFor t j j') : SameFor (.nullable t) j j'
  | list {t : Shape} {js js' : List Json} (hlength : js.length = js'.length)
      (hitems : ∀ (i : Nat) (v v' : Json), js[i]? = some v → js'[i]? = some v' → SameFor t v v') :
      SameFor (.list t) (.arr js) (.arr js')
  | noList {t : Shape} {j j' : Json} (h : j.outline = j'.outline) (hj : ∀ js, j ≠ .arr js) :
      SameFor (.list t) j j'
  /-- Objects of a class have the same fields of that class, with values that agree. -/
  | record {m : Model} {fields : List (String × Shape)} {f f' : Schema.Fields}
      (hform : m.form = .record fields)
      (hpresent : ∀ (k : String) (t : Shape), (k, t) ∈ fields →
        (f.lookup k).isSome = (f'.lookup k).isSome)
      (hvalues : ∀ (k : String) (t : Shape) (v v' : Json), (k, t) ∈ fields →
        f.lookup k = some v → f'.lookup k = some v' → SameFor t v v') :
      SameFor (.model m) (.obj f) (.obj f')
  /-- The kind name chooses a class, and the objects agree on what that class asks for. -/
  | chosen {m m' : Model} {options : List (String × Model)} {kind : String} {f f' : Schema.Fields}
      (hform : m.form = .union options) (hkind : f.lookup "kind" = some (.str kind))
      (hkind' : f'.lookup "kind" = some (.str kind)) (hm : options.lookup kind = some m')
      (h : SameFor (.model m') (.obj f) (.obj f')) : SameFor (.model m) (.obj f) (.obj f')
  /-- The kind chooses no class, so nothing but the kind matters.  It is read as no class either,
  and all of it is shown in the message: it is the same data in both. -/
  | unchosen {m : Model} {options : List (String × Model)} {f f' : Schema.Fields}
      (hform : m.form = .union options) (hkind : f.lookup "kind" = f'.lookup "kind")
      (hnone : ∀ kind, f.lookup "kind" = some (.str kind) → options.lookup kind = none) :
      SameFor (.model m) (.obj f) (.obj f')
  | noObject {m : Model} {j j' : Json} (h : j.outline = j'.outline) (hj : ∀ f, j ≠ .obj f) :
      SameFor (.model m) j j'

theorem SameFor.outline_eq {t : Shape} {j j' : Json} (h : SameFor t j j') :
    j.outline = j'.outline := by
  induction h with
  | scalar h => exact h
  | present _ ih => exact ih
  | noList h _ => exact h
  | noObject h _ => exact h
  | _ => rfl

/-- Objects of a class agree if each field of the class is absent from both or agrees in them. -/
theorem SameFor.of_fields {m : Model} {fields : List (String × Shape)} {f f' : Schema.Fields}
    (hform : m.form = .record fields)
    (h : ∀ e ∈ fields, (f.lookup e.1 = none ∧ f'.lookup e.1 = none) ∨
      ∃ v v', f.lookup e.1 = some v ∧ f'.lookup e.1 = some v' ∧ SameFor e.2 v v') :
    SameFor (.model m) (.obj f) (.obj f') := by
  refine .record hform (fun k t hk => ?_) fun k t v v' hk hv hv' => ?_
  · rcases h (k, t) hk with ⟨hv, hv'⟩ | ⟨v, v', hv, hv', -⟩
    · rw [hv, hv']
    · rw [hv, hv', Option.isSome_some, Option.isSome_some]
  · rcases h (k, t) hk with ⟨hv₀, -⟩ | ⟨w, w', hw, hw', hsame⟩
    · cases hv₀.symm.trans hv
    · obtain rfl : w = v := Option.some.inj (hw.symm.trans hv)
      obtain rfl : w' = v' := Option.some.inj (hw'.symm.trans hv')
      exact hsame

theorem depth_le_depthFields {f : Schema.Fields} {k : String} {v : Json}
    (h : f.lookup k = some v) : v.depth ≤ depthFields f := by
  induction f with
  | nil => cases h
  | cons e f ih =>
    rw [depthFields]
    rw [List.lookup_cons] at h
    split at h
    · cases h
      omega
    · have := ih h
      omega

/-- Data agrees with itself.  The induction is on the depth, since a class asks for the fields of
an object and not for the object with a smaller shape. -/
theorem SameFor.refl (t : Shape) (j : Json) : SameFor t j j := by
  induction hd : j.depth using Nat.strongRecOn generalizing t j with
  | ind d ih =>
  subst hd
  have hrecord : ∀ {m fields f}, m.form = .record fields → j = .obj f →
      SameFor (.model m) (.obj f) (.obj f) := by
    rintro m fields f hform rfl
    refine .record hform (fun _ _ _ => rfl) fun k t v v' _ hv hv' => ?_
    obtain rfl : v = v' := Option.some.inj (hv.symm.trans hv')
    have := depth_le_depthFields hv
    exact ih v.depth (by rw [depth]; omega) t v rfl
  induction t with
  | scalar => exact .scalar rfl
  | nullable t iht => exact .present iht
  | list t iht =>
    by_cases hj : ∃ js, j = .arr js
    · obtain ⟨js, rfl⟩ := hj
      refine .list rfl fun i v v' hv hv' => ?_
      obtain rfl : v = v' := Option.some.inj (hv.symm.trans hv')
      have := depth_le_depthItems (List.mem_of_getElem? hv)
      exact ih v.depth (by rw [depth]; omega) t v rfl
    · exact .noList rfl fun js h => hj ⟨js, h⟩
  | model m =>
    by_cases hj : ∃ f, j = .obj f
    · obtain ⟨f, rfl⟩ := hj
      cases hform : m.form with
      | record fields => exact hrecord hform rfl
      | union options =>
        by_cases hm : ∃ kind m', f.lookup "kind" = some (.str kind) ∧
            options.lookup kind = some m'
        · obtain ⟨kind, m', hkind, hm⟩ := hm
          obtain ⟨fields, hform'⟩ := Model.exists_record_of_option hform hm
          exact .chosen hform hkind hkind hm (hrecord hform' rfl)
        · refine .unchosen hform rfl fun kind hkind => ?_
          cases hm' : options.lookup kind with
          | none => rfl
          | some m' => exact absurd ⟨kind, m', hkind, hm'⟩ hm
    · exact .noObject rfl fun f h => hj ⟨f, h⟩

end Json

/-! ### Readers that respect agreement -/

namespace Schema

variable {α β : Type}

/-- Data that agrees is read the same by two readers, each under the bound that it has on the
nesting. -/
def Respects (t : Shape) (d d' : Nat) (read read' : Reader α) : Prop :=
  ∀ j j', j.SameFor t j' → j.depth ≤ d → j'.depth ≤ d' → read j = read' j'

/-- The fields of two objects agree on what is asked of them, and fit in the bounds. -/
structure FieldsAgree (fields : List (String × Shape)) (d d' : Nat) (f f' : Fields) : Prop where
  present : ∀ k t, (k, t) ∈ fields → (f.lookup k).isSome = (f'.lookup k).isSome
  values : ∀ k t v v', (k, t) ∈ fields → f.lookup k = some v → f'.lookup k = some v' →
    v.SameFor t v'
  depth_le : Json.depthFields f ≤ d
  depth_le' : Json.depthFields f' ≤ d'

/-- The readers of the alternatives respect agreement on what their classes ask for. -/
inductive OptionsRespect (d d' : Nat) :
    List (String × Model) → List (String × Reader α) → List (String × Reader α) → Prop where
  | nil : OptionsRespect d d' [] [] []
  | cons {kind : String} {m : Model} {read read' : Reader α} {options : List (String × Model)}
      {readers readers' : List (String × Reader α)} (h : Respects (.model m) d d' read read')
      (hrest : OptionsRespect d d' options readers readers') :
      OptionsRespect d d' ((kind, m) :: options) ((kind, read) :: readers)
        ((kind, read') :: readers')

section Readers
variable {t : Shape} {d d' : Nat} {read read' : Reader α}

theorem Respects.mono {e e' : Nat} (h : Respects t e e' read read') (hd : d ≤ e) (hd' : d' ≤ e') :
    Respects t d d' read read' := by
  intro j j' hj hjd hjd'
  exact h j j' hj (by omega) (by omega)

theorem Respects.map (h : Respects t d d' read read') (g : α → β) :
    Respects t d d' (fun j => g <$> read j) (fun j => g <$> read' j) := by
  intro j j' hj hd hd'
  show g <$> read j = g <$> read' j'
  rw [h j j' hj hd hd']

theorem Respects.andThen (h : Respects t d d' read read') (g : α → Checked β) :
    Respects t d d' (fun j => (read j).andThen g) (fun j => (read' j).andThen g) := by
  intro j j' hj hd hd'
  show (read j).andThen g = (read' j').andThen g
  rw [h j j' hj hd hd']

/-- Data is never without depth. -/
theorem respects_zero_left : Respects t 0 d' read read' := by
  intro j j' _ hd
  have := j.depth_pos
  omega

theorem respects_zero_right : Respects t d 0 read read' := by
  intro j j' _ _ hd'
  have := j'.depth_pos
  omega

theorem scalar_respects (hread : ∀ j, read j.outline = read j) (d d' : Nat) :
    Respects .scalar d d' read read := by
  rintro j j' ⟨h⟩ - -
  rw [← hread j, h, hread j']

theorem text_respects (d d' : Nat) : Respects .scalar d d' text text :=
  scalar_respects (fun j => by cases j <;> rfl) d d'

theorem whole_respects (d d' : Nat) : Respects .scalar d d' whole whole :=
  scalar_respects (fun j => by cases j <;> rfl) d d'

theorem truth_respects (d d' : Nat) : Respects .scalar d d' truth truth :=
  scalar_respects (fun j => by cases j <;> rfl) d d'

theorem among_respects [Spelled α] (options : List α) (d d' : Nat) :
    Respects .scalar d d' (among options) (among options) :=
  scalar_respects (fun j => by cases j <;> rfl) d d'

theorem word_respects [Spelled α] (d d' : Nat) :
    Respects .scalar d d' (word : Reader α) word := among_respects _ d d'

theorem kindIs_respects (kind : String) (d d' : Nat) :
    Respects .scalar d d' (kindIs kind) (kindIs kind) :=
  scalar_respects (fun j => by cases j <;> rfl) d d'

theorem items_eq_of_forall {js js' : List Json} (hlength : js.length = js'.length)
    (h : ∀ (i : Nat) (v v' : Json), js[i]? = some v → js'[i]? = some v' → read v = read' v')
    (i : Nat) : items read i js = items read' i js' := by
  induction js generalizing js' i with
  | nil =>
    cases js' with
    | nil => rfl
    | cons j' js' => cases hlength
  | cons j js ih =>
    cases js' with
    | nil => cases hlength
    | cons j' js' =>
      have hhead : read j = read' j' := h 0 j j' rfl rfl
      have htail := ih (Nat.succ.inj hlength) (fun n v v' hv hv' => h (n + 1) v v' hv hv') (i + 1)
      rw [items, items, hhead, htail]

theorem list_respects (h : Respects t d d' read read') :
    Respects (.list t) d d' (list read) (list read') := by
  intro j j' hj hd hd'
  cases hj with
  | list hlength hitems =>
    refine items_eq_of_forall hlength (fun i v v' hv hv' => ?_) 0
    have hle := Json.depth_le_depthItems (List.mem_of_getElem? hv)
    have hle' := Json.depth_le_depthItems (List.mem_of_getElem? hv')
    rw [Json.depth] at hd hd'
    exact h v v' (hitems i v v' hv hv') (by omega) (by omega)
  | noList houtline hj =>
    cases j with
    | arr js => exact absurd rfl (hj js)
    | _ => cases j' <;> first | rfl | cases houtline

theorem nullable_respects (h : Respects t d d' read read') :
    Respects (.nullable t) d d' (nullable read) (nullable read') := by
  intro j j' hj hd hd'
  cases hj with
  | null => rfl
  | present hj =>
    have hnull : j = .null ↔ j' = .null := by
      rw [← Json.outline_eq_null_iff, hj.outline_eq, Json.outline_eq_null_iff]
    have hread := h j j' hj hd hd'
    by_cases hj' : j' = .null
    · rw [hnull.2 hj', hj']
      rfl
    · have hsome : ∀ {r : Reader α} {i : Json}, i ≠ .null → nullable r i = some <$> r i := by
        intro r i hi
        cases i <;> first | rfl | exact absurd rfl hi
      rw [hsome hj', hsome (fun h => hj' (hnull.1 h)), hread]

end Readers

section Objects
variable {m : Model} {fields : List (String × Shape)} {d d' : Nat} {f f' : Fields}

theorem FieldsAgree.required (h : FieldsAgree fields d d' f f') (k : String) {t : Shape}
    (hk : (k, t) ∈ fields) {read read' : Reader α} (hread : Respects t d d' read read') :
    required f k read = required f' k read' := by
  have hpresent := h.present k t hk
  unfold Schema.required
  cases hv : f.lookup k with
  | none =>
    cases hv' : f'.lookup k with
    | none => rfl
    | some v' => simp [hv, hv'] at hpresent
  | some v =>
    cases hv' : f'.lookup k with
    | none => simp [hv, hv'] at hpresent
    | some v' =>
      have hd := Nat.le_trans (Json.depth_le_depthFields hv) h.depth_le
      have hd' := Nat.le_trans (Json.depth_le_depthFields hv') h.depth_le'
      show (read v).under _ = (read' v').under _
      rw [hread v v' (h.values k t v v' hk hv hv') hd hd']

/-- A field that may be absent is read like a required one where it is present. -/
theorem FieldsAgree.optional (h : FieldsAgree fields d d' f f') (k : String) {t : Shape}
    (hk : (k, t) ∈ fields) (default : α) {read read' : Reader α}
    (hread : Respects t d d' read read') :
    optional f k default read = optional f' k default read' := by
  have hpresent := h.present k t hk
  have hrequired := h.required k hk hread
  unfold Schema.required at hrequired
  unfold Schema.optional
  cases hv : f.lookup k with
  | none =>
    cases hv' : f'.lookup k with
    | none => rfl
    | some v' => simp [hv, hv'] at hpresent
  | some v =>
    cases hv' : f'.lookup k with
    | none => simp [hv, hv'] at hpresent
    | some v' => simpa only [hv, hv'] using hrequired

theorem object_respects {read read' : Fields → Checked α} (hform : m.form = .record fields)
    (className : String) (h : ∀ f f', FieldsAgree fields d d' f f' → read f = read' f') :
    Respects (.model m) (d + 1) (d' + 1) (object className read) (object className read') := by
  intro j j' hj hd hd'
  cases hj with
  | record hform' hpresent hvalues =>
    obtain rfl : fields = _ := Form.record.inj (hform.symm.trans hform')
    rw [Json.depth] at hd hd'
    exact h _ _ ⟨hpresent, hvalues, by omega, by omega⟩
  | chosen hform' => cases hform.symm.trans hform'
  | unchosen hform' => cases hform.symm.trans hform'
  | noObject houtline hj =>
    cases j with
    | obj f => exact absurd rfl (hj f)
    | _ => cases j' <;> first | rfl | cases houtline

theorem node_respects {read read' : Fields → Checked α} (hform : m.form = .record fields)
    (className kind : String) (hkind : ("kind", .scalar) ∈ fields)
    (h : ∀ f f', FieldsAgree fields d d' f f' → read f = read' f') :
    Respects (.model m) (d + 1) (d' + 1) (node className kind read)
      (node className kind read') := by
  refine object_respects hform className fun f f' hf => ?_
  rw [hf.optional "kind" hkind () (kindIs_respects kind d d'), h f f' hf]

end Objects

/-! ### Alternatives -/

section Alternatives
variable {d d' : Nat} {options : List (String × Model)}
  {readers readers' : List (String × Reader α)}

theorem OptionsRespect.names_eq (h : OptionsRespect d d' options readers readers') :
    readers.map Prod.fst = readers'.map Prod.fst := by
  induction h with
  | nil => rfl
  | cons _ _ ih => rw [List.map_cons, List.map_cons, ih]

theorem OptionsRespect.lookup_of_some (h : OptionsRespect d d' options readers readers')
    {kind : String} {m : Model} (hm : options.lookup kind = some m) :
    ∃ read read', readers.lookup kind = some read ∧ readers'.lookup kind = some read' ∧
      Respects (.model m) d d' read read' := by
  induction h with
  | nil => cases hm
  | @cons k _ read read' _ _ _ hread _ ih =>
    simp only [List.lookup_cons] at hm ⊢
    cases hk : kind == k with
    | true =>
      simp only [hk, Option.some.injEq] at hm
      subst hm
      exact ⟨read, read', rfl, rfl, hread⟩
    | false =>
      simp only [hk] at hm
      exact ih hm

theorem OptionsRespect.lookup_of_none (h : OptionsRespect d d' options readers readers')
    {kind : String} (hm : options.lookup kind = none) :
    readers.lookup kind = none ∧ readers'.lookup kind = none := by
  induction h with
  | nil => exact ⟨rfl, rfl⟩
  | @cons k _ _ _ _ _ _ _ _ ih =>
    simp only [List.lookup_cons] at hm ⊢
    cases hk : kind == k with
    | true => simp [hk] at hm
    | false =>
      simp only [hk] at hm
      exact ih hm

theorem OptionsRespect.append {options₂ : List (String × Model)}
    {readers₂ readers₂' : List (String × Reader α)}
    (h : OptionsRespect d d' options readers readers')
    (h₂ : OptionsRespect d d' options₂ readers₂ readers₂') :
    OptionsRespect d d' (options ++ options₂) (readers ++ readers₂) (readers' ++ readers₂') := by
  induction h with
  | nil => exact h₂
  | cons hread _ ih => exact .cons hread ih

theorem OptionsRespect.map (h : OptionsRespect d d' options readers readers') (g : α → β) :
    OptionsRespect d d' options
      (readers.map fun (kind, read) => (kind, fun j => g <$> read j))
      (readers'.map fun (kind, read) => (kind, fun j => g <$> read j)) := by
  induction h with
  | nil => exact .nil
  | cons hread _ ih => exact .cons (hread.map g) ih

/-- A kind that chooses no alternative is shown, beside the names of all alternatives. -/
theorem union_eq_of_unchosen {f f' : Fields} (h : OptionsRespect d d' options readers readers')
    (hkind : f.lookup "kind" = f'.lookup "kind")
    (hnone : ∀ kind, f.lookup "kind" = some (.str kind) → options.lookup kind = none) :
    union readers (.obj f) = union readers' (.obj f') := by
  cases hv : f.lookup "kind" with
  | none => simp only [union, ← hkind, hv]
  | some v =>
    have hlookup : ∀ kind, v = .str kind →
        readers.lookup kind = none ∧ readers'.lookup kind = none :=
      fun kind hk => h.lookup_of_none (hnone kind (hk ▸ hv))
    have hchosen : chosen? readers v = none :=
      chosen?_eq_none_iff.2 fun kind hk => (hlookup kind hk).1
    have hchosen' : chosen? readers' v = none :=
      chosen?_eq_none_iff.2 fun kind hk => (hlookup kind hk).2
    simp only [union, ← hkind, hv, hchosen, hchosen', h.names_eq]

theorem union_respects {m : Model} (hform : m.form = .union options)
    (h : OptionsRespect d d' options readers readers') :
    Respects (.model m) d d' (union readers) (union readers') := by
  intro j j' hj hd hd'
  cases hj with
  | record hform' => cases hform.symm.trans hform'
  | chosen hform' hkind hkind' hm hj =>
    -- the object itself is read once more, as the class that was chosen
    obtain rfl : options = _ := Form.union.inj (hform.symm.trans hform')
    obtain ⟨read, read', hread, hread', hrespects⟩ := h.lookup_of_some hm
    have hchosen := chosen?_eq_some_iff.2 ⟨rfl, hread⟩
    have hchosen' := chosen?_eq_some_iff.2 ⟨rfl, hread'⟩
    simp only [union, hkind, hkind', hchosen, hchosen']
    rw [hrespects _ _ hj hd hd']
  | unchosen hform' hkind hnone =>
    obtain rfl : options = _ := Form.union.inj (hform.symm.trans hform')
    exact union_eq_of_unchosen h hkind hnone
  | noObject houtline hj =>
    cases j with
    | obj f => exact absurd rfl (hj f)
    | _ => cases j' <;> first | rfl | cases houtline

end Alternatives

/-! ### Places -/

theorem span_respects (d d' : Nat) : Respects (.model .sourceSpan) d d' span span := by
  have hfields : Respects (.model .sourceSpan) (d + 1) (d' + 1) spanFields spanFields := by
    refine object_respects rfl _ fun f f' h => ?_
    rw [h.optional "line" (by simp) 0 (whole_respects d d'),
      h.optional "end_line" (by simp) none (nullable_respects (whole_respects d d')),
      h.optional "start" (by simp) (-1) (whole_respects d d'),
      h.optional "stop" (by simp) (-1) (whole_respects d d')]
  exact (hfields.andThen _).mono (Nat.le_succ d) (Nat.le_succ d')

theorem FieldsAgree.spanField {fields : List (String × Shape)} {d d' : Nat} {f f' : Fields}
    (h : FieldsAgree fields d d' f f') (hk : ("span", .model .sourceSpan) ∈ fields) :
    spanField f = spanField f' :=
  h.optional "span" hk _ (span_respects d d')

/-! ### Expressions -/

section Expressions
variable {d d' : Nat}

theorem number_respects : Respects (.model .numberLiteral) (d + 1) (d' + 1) number number := by
  refine node_respects rfl _ _ (by simp) fun f f' h => ?_
  rw [h.required "value" (by simp) (text_respects d d')]

theorem variableRef_respects :
    Respects (.model .variableRef) (d + 1) (d' + 1) variableRef variableRef := by
  refine node_respects rfl _ _ (by simp) fun f f' h => ?_
  rw [h.required "name" (by simp) (text_respects d d')]

theorem textLiteral_respects :
    Respects (.model .textLiteral) (d + 1) (d' + 1) textLiteral textLiteral := by
  refine node_respects rfl _ _ (by simp) fun f f' h => ?_
  rw [h.required "value" (by simp) (text_respects d d')]

variable {sub sub' : Reader Expr} (hsub : Respects (.model .expression) d d' sub sub')
include hsub

theorem operation_respects {m : Model} (hform : m.form = .record [("kind", .scalar),
      ("op", .scalar), ("left", .model .expression), ("right", .model .expression)])
    (className kind : String) (ops : List ArithOp) :
    Respects (.model m) (d + 1) (d' + 1) (operation sub className kind ops)
      (operation sub' className kind ops) := by
  refine node_respects hform _ _ (by simp) fun f f' h => ?_
  rw [h.required "op" (by simp) (among_respects ops d d'), h.required "left" (by simp) hsub,
    h.required "right" (by simp) hsub]

theorem paren_respects :
    Respects (.model .parenExpr) (d + 1) (d' + 1) (paren sub) (paren sub') := by
  refine node_respects rfl _ _ (by simp) fun f f' h => ?_
  rw [h.required "inner" (by simp) hsub]

theorem callParts_respects :
    Respects (.model .callExpr) (d + 1) (d' + 1) (callParts sub) (callParts sub') := by
  refine node_respects rfl _ _ (by simp) fun f f' h => ?_
  rw [h.required "name" (by simp) (text_respects d d'),
    h.optional "args" (by simp) [] (list_respects hsub)]

theorem exprOptions_respect : OptionsRespect (d + 1) (d' + 1) Model.expressionKinds
    (exprOptions sub) (exprOptions sub') :=
  .cons number_respects <| .cons variableRef_respects <|
    .cons (operation_respects hsub rfl _ _ _) <| .cons (operation_respects hsub rfl _ _ _) <|
    .cons (paren_respects hsub) <| .cons ((callParts_respects hsub).map _) .nil

end Expressions

theorem expression_respects (d d' : Nat) :
    Respects (.model .expression) d d' (expression d) (expression d') := by
  induction d generalizing d' with
  | zero => exact respects_zero_left
  | succ d ih =>
    cases d' with
    | zero => exact respects_zero_right
    | succ d' => exact union_respects rfl (exprOptions_respect (ih d'))

theorem value_respects (d d' : Nat) :
    Respects (.model .valueExpression) d d' (value d) (value d') := by
  cases d with
  | zero => exact respects_zero_left
  | succ d =>
    cases d' with
    | zero => exact respects_zero_right
    | succ d' =>
      have hexprs := (exprOptions_respect (expression_respects d d')).map RValue.arith
      exact union_respects rfl (hexprs.append (.cons textLiteral_respects .nil))

/-! ### Conditions -/

section Conditions
variable {d d' : Nat} {expr expr' : Reader Expr}
  (hexpr : Respects (.model .expression) d d' expr expr')
  {sub sub' : Reader Condition} (hsub : Respects (.model .condition) d d' sub sub')

include hexpr in
theorem comparison_respects :
    Respects (.model .comparison) (d + 1) (d' + 1) (comparison expr) (comparison expr') := by
  refine node_respects rfl _ _ (by simp) fun f f' h => ?_
  rw [h.required "op" (by simp) (word_respects d d'),
    h.required "left" (by simp) hexpr, h.required "right" (by simp) hexpr]

include hexpr in
theorem arithmeticTerm_respects :
    Respects (.model .arithmeticTerm) (d + 1) (d' + 1) (arithmeticTerm expr)
      (arithmeticTerm expr') := by
  refine node_respects rfl _ _ (by simp) fun f f' h => ?_
  rw [h.required "expr" (by simp) hexpr]

include hsub in
theorem notTerm_respects :
    Respects (.model .notTerm) (d + 1) (d' + 1) (notTerm sub) (notTerm sub') := by
  refine node_respects rfl _ _ (by simp) fun f f' h => ?_
  rw [h.required "operand" (by simp) hsub]

include hsub in
theorem parenCondition_respects :
    Respects (.model .parenCondition) (d + 1) (d' + 1) (parenCondition sub)
      (parenCondition sub') := by
  refine node_respects rfl _ _ (by simp) fun f f' h => ?_
  rw [h.required "inner" (by simp) hsub]

theorem boolLiteral_respects :
    Respects (.model .boolLiteral) (d + 1) (d' + 1) boolLiteral boolLiteral := by
  refine node_respects rfl _ _ (by simp) fun f f' h => ?_
  rw [h.required "value" (by simp) (truth_respects d d')]

theorem nullLiteral_respects :
    Respects (.model .nullLiteral) (d + 1) (d' + 1) nullLiteral nullLiteral :=
  node_respects rfl _ _ (by simp) fun _ _ _ => rfl

include hsub in
theorem chainLink_respects :
    Respects (.model .chainLink) (d + 1) (d' + 1) (chainLink sub) (chainLink sub') := by
  refine object_respects rfl _ fun f f' h => ?_
  rw [h.required "op" (by simp) (word_respects d d'),
    h.required "term" (by simp) hsub]

include hsub in
theorem logicalChain_respects :
    Respects (.model .logicalChain) (d + 1) (d' + 1) (logicalChain sub) (logicalChain sub') := by
  have hlink := (chainLink_respects hsub).mono (Nat.le_succ d) (Nat.le_succ d')
  refine node_respects rfl _ _ (by simp) fun f f' h => ?_
  rw [h.required "head" (by simp) hsub, h.optional "links" (by simp) [] (list_respects hlink)]

include hexpr hsub in
theorem conditionOptions_respect :
    Respects (.model .condition) (d + 1) (d' + 1) (union (conditionOptions expr sub))
      (union (conditionOptions expr' sub')) :=
  union_respects rfl <|
    .cons (comparison_respects hexpr) <| .cons (arithmeticTerm_respects hexpr) <|
    .cons (notTerm_respects hsub) <| .cons (parenCondition_respects hsub) <|
    .cons boolLiteral_respects <| .cons nullLiteral_respects <|
    .cons (logicalChain_respects hsub) .nil

end Conditions

theorem condition_respects (d d' : Nat) :
    Respects (.model .condition) d d' (condition d) (condition d') := by
  induction d generalizing d' with
  | zero => exact respects_zero_left
  | succ d ih =>
    cases d' with
    | zero => exact respects_zero_right
    | succ d' =>
      exact conditionOptions_respect (expression_respects d d') (ih d')

/-! ### Statements -/

section Statements
variable {d d' : Nat} {expr expr' : Reader Expr}
  (hexpr : Respects (.model .expression) d d' expr expr')
  {val val' : Reader RValue} (hval : Respects (.model .valueExpression) d d' val val')
  {cond cond' : Reader Condition} (hcond : Respects (.model .condition) d d' cond cond')
  {sub sub' : Reader Stmt} (hsub : Respects (.model .statement) d d' sub sub')

include hval in
theorem declarator_respects :
    Respects (.model .declarator) (d + 1) (d' + 1) (declarator val) (declarator val') := by
  refine object_respects rfl _ fun f f' h => ?_
  rw [h.required "name" (by simp) (text_respects d d'),
    h.optional "initializer" (by simp) none (nullable_respects hval), h.spanField (by simp)]

include hval in
theorem declaration_respects :
    Respects (.model .declaration) (d + 1) (d' + 1) (declaration val) (declaration val') := by
  have hdeclarator := (declarator_respects hval).mono (Nat.le_succ d) (Nat.le_succ d')
  have hfields : Respects (.model .declaration) (d + 1) (d' + 1) (declarationFields val)
      (declarationFields val') := by
    refine node_respects rfl _ _ (by simp) fun f f' h => ?_
    rw [h.required "type_tag" (by simp) (word_respects d d'),
      h.required "declarators" (by simp) (list_respects hdeclarator), h.spanField (by simp)]
  exact hfields.andThen _

include hval in
theorem assignment_respects :
    Respects (.model .assignment) (d + 1) (d' + 1) (assignment val) (assignment val') := by
  have hfields : Respects (.model .assignment) (d + 1) (d' + 1) (assignmentFields val)
      (assignmentFields val') := by
    refine node_respects rfl _ _ (by simp) fun f f' h => ?_
    rw [h.required "target" (by simp) (text_respects d d'),
      h.optional "op" (by simp) _ (word_respects d d'),
      h.optional "value" (by simp) none (nullable_respects hval), h.spanField (by simp)]
  exact hfields.andThen _

include hexpr in
theorem expressionStatement_respects :
    Respects (.model .expressionStatement) (d + 1) (d' + 1) (expressionStatement expr)
      (expressionStatement expr') := by
  refine node_respects rfl _ _ (by simp) fun f f' h => ?_
  rw [h.required "expr" (by simp) hexpr, h.spanField (by simp)]

include hcond hsub in
theorem ifStatement_respects :
    Respects (.model .ifStatement) (d + 1) (d' + 1) (ifStatement cond sub)
      (ifStatement cond' sub') := by
  refine node_respects rfl _ _ (by simp) fun f f' h => ?_
  rw [h.required "condition" (by simp) hcond, h.optional "body" (by simp) [] (list_respects hsub),
    h.optional "else_body" (by simp) none (nullable_respects (list_respects hsub)),
    h.spanField (by simp)]

include hval hcond hsub in
theorem forStatement_respects :
    Respects (.model .forStatement) (d + 1) (d' + 1) (forStatement val cond sub)
      (forStatement val' cond' sub') := by
  have hinit := (declaration_respects hval).mono (Nat.le_succ d) (Nat.le_succ d')
  have hupdate := (assignment_respects hval).mono (Nat.le_succ d) (Nat.le_succ d')
  refine node_respects rfl _ _ (by simp) fun f f' h => ?_
  rw [h.optional "init" (by simp) none (nullable_respects hinit),
    h.optional "condition" (by simp) none (nullable_respects hcond),
    h.optional "update" (by simp) none (nullable_respects hupdate),
    h.optional "body" (by simp) [] (list_respects hsub), h.spanField (by simp)]

include hcond hsub in
theorem whileStatement_respects :
    Respects (.model .whileStatement) (d + 1) (d' + 1) (whileStatement cond sub)
      (whileStatement cond' sub') := by
  refine node_respects rfl _ _ (by simp) fun f f' h => ?_
  rw [h.optional "condition" (by simp) none (nullable_respects hcond),
    h.optional "body" (by simp) [] (list_respects hsub), h.spanField (by simp)]

include hval in
theorem returnStatement_respects :
    Respects (.model .returnStatement) (d + 1) (d' + 1) (returnStatement val)
      (returnStatement val') := by
  refine node_respects rfl _ _ (by simp) fun f f' h => ?_
  rw [h.optional "value" (by simp) none (nullable_respects hval), h.spanField (by simp)]

include hexpr in
theorem callStatement_respects :
    Respects (.model .callStatement) (d + 1) (d' + 1) (callStatement expr)
      (callStatement expr') := by
  have hcall := (callParts_respects hexpr).mono (Nat.le_succ d) (Nat.le_succ d')
  refine node_respects rfl _ _ (by simp) fun f f' h => ?_
  rw [h.required "call" (by simp) hcall, h.spanField (by simp)]

include hexpr hval hcond hsub in
theorem stmtOptions_respect :
    Respects (.model .statement) (d + 1) (d' + 1) (union (stmtOptions expr val cond sub))
      (union (stmtOptions expr' val' cond' sub')) :=
  union_respects rfl <|
    .cons ((declaration_respects hval).map _) <| .cons ((assignment_respects hval).map _) <|
    .cons (expressionStatement_respects hexpr) <| .cons (ifStatement_respects hcond hsub) <|
    .cons (forStatement_respects hval hcond hsub) <| .cons (whileStatement_respects hcond hsub) <|
    .cons (returnStatement_respects hval) <| .cons (callStatement_respects hexpr) .nil

end Statements

theorem statement_respects (d d' : Nat) :
    Respects (.model .statement) d d' (statement d) (statement d') := by
  induction d generalizing d' with
  | zero => exact respects_zero_left
  | succ d ih =>
    cases d' with
    | zero => exact respects_zero_right
    | succ d' =>
      exact stmtOptions_respect (expression_respects d d') (value_respects d d')
        (condition_respects d d') (ih d')

/-! ### Programs -/

theorem parameter_respects (d d' : Nat) :
    Respects (.model .parameter) (d + 1) (d' + 1) parameter parameter := by
  refine object_respects rfl _ fun f f' h => ?_
  rw [h.required "type_tag" (by simp) (word_respects d d'),
    h.required "name" (by simp) (text_respects d d')]

section Programs
variable {d d' : Nat} {val val' : Reader RValue}
  (hval : Respects (.model .valueExpression) d d' val val')
  {sub sub' : Reader Stmt} (hsub : Respects (.model .statement) d d' sub sub')

include hsub in
theorem function_respects :
    Respects (.model .functionDeclaration) (d + 1) (d' + 1) (function sub) (function sub') := by
  have hparameter := (parameter_respects d d').mono (Nat.le_succ d) (Nat.le_succ d')
  refine node_respects rfl _ _ (by simp) fun f f' h => ?_
  rw [h.required "name" (by simp) (text_respects d d'),
    h.required "return_type" (by simp) (word_respects d d'),
    h.optional "parameters" (by simp) [] (list_respects hparameter),
    h.optional "body" (by simp) [] (list_respects hsub), h.spanField (by simp)]

include hsub in
theorem entry_respects :
    Respects (.model .entryFunction) (d + 1) (d' + 1) (entry sub) (entry sub') := by
  refine object_respects rfl _ fun f f' h => ?_
  rw [h.optional "name" (by simp) _ (text_respects d d'),
    h.optional "return_type" (by simp) _ (word_respects d d'),
    h.optional "body" (by simp) [] (list_respects hsub), h.spanField (by simp)]

include hval hsub in
theorem global_respects :
    Respects (.model .globalDeclaration) (d + 1) (d' + 1) (global val sub) (global val' sub') :=
  union_respects rfl <| .cons ((declaration_respects hval).map _) <|
    .cons ((function_respects hsub).map _) .nil

include hval hsub in
theorem program_respects :
    Respects (.model .program) (d + 1) (d' + 1) (program val sub) (program val' sub') := by
  have hglobal := (global_respects hval hsub).mono (Nat.le_succ d) (Nat.le_succ d')
  have hentry := (entry_respects hsub).mono (Nat.le_succ d) (Nat.le_succ d')
  refine object_respects rfl _ fun f f' h => ?_
  rw [h.optional "globals" (by simp) [] (list_respects hglobal),
    h.optional "entry" (by simp) {} hentry]

end Programs

end Schema

/-! ### Models -/

namespace Model

open Schema

theorem readWithin_respects (m : Model) (d d' : Nat) :
    Respects (.model m) d d' (m.readWithin d) (m.readWithin d') := by
  have hexpr := expression_respects d d'
  have hval := value_respects d d'
  have hcond := condition_respects d d'
  have hstmt := statement_respects d d'
  -- a class counts its parts against the bound and not itself, so it has one level to spare
  have tight : ∀ {read read' : Reader Node}, Respects (.model m) (d + 1) (d' + 1) read read' →
      Respects (.model m) d d' read read' :=
    fun h => h.mono (Nat.le_succ d) (Nat.le_succ d')
  cases m with
  | sourceSpan => exact (span_respects d d').map _
  | numberLiteral => exact tight (number_respects.map _)
  | textLiteral => exact tight (textLiteral_respects.map _)
  | variableRef => exact tight (variableRef_respects.map _)
  | additiveExpr => exact tight ((operation_respects hexpr rfl _ _ _).map _)
  | multiplicativeExpr => exact tight ((operation_respects hexpr rfl _ _ _).map _)
  | parenExpr => exact tight ((paren_respects hexpr).map _)
  | callExpr => exact tight (((callParts_respects hexpr).map _).map _)
  | comparison => exact tight ((comparison_respects hexpr).map _)
  | arithmeticTerm => exact tight ((arithmeticTerm_respects hexpr).map _)
  | notTerm => exact tight ((notTerm_respects hcond).map _)
  | parenCondition => exact tight ((parenCondition_respects hcond).map _)
  | boolLiteral => exact tight (boolLiteral_respects.map _)
  | nullLiteral => exact tight (nullLiteral_respects.map _)
  | chainLink => exact tight ((chainLink_respects hcond).map _)
  | logicalChain => exact tight ((logicalChain_respects hcond).map _)
  | declarator => exact tight ((declarator_respects hval).map _)
  | declaration => exact tight ((declaration_respects hval).map _)
  | assignment => exact tight ((assignment_respects hval).map _)
  | expressionStatement => exact tight ((expressionStatement_respects hexpr).map _)
  | ifStatement => exact tight ((ifStatement_respects hcond hstmt).map _)
  | forStatement => exact tight ((forStatement_respects hval hcond hstmt).map _)
  | whileStatement => exact tight ((whileStatement_respects hcond hstmt).map _)
  | returnStatement => exact tight ((returnStatement_respects hval).map _)
  | callStatement => exact tight ((callStatement_respects hexpr).map _)
  | parameter => exact tight ((parameter_respects d d').map _)
  | functionDeclaration => exact tight ((function_respects hstmt).map _)
  | entryFunction => exact tight ((entry_respects hstmt).map _)
  | program => exact tight ((program_respects hval hstmt).map _)
  | expression => exact hexpr.map _
  | valueExpression => exact hval.map _
  | condition => exact hcond.map _
  | statement => exact hstmt.map _
  | globalDeclaration => exact tight ((global_respects hval hstmt).map _)

/-- **Fields that no class knows never matter.**  Data that agrees on what a model asks for is read
as the same tree, or refused with the same issues, whatever other fields the objects in it have
and in whatever order the fields stand. -/
theorem read_eq_of_sameFor (m : Model) (j j' : Json) (h : j.SameFor (.model m) j') :
    m.read j = m.read j' :=
  readWithin_respects m j.depth j'.depth j j' h (Nat.le_refl _) (Nat.le_refl _)

/-- A declaration that is refused for the name of its declarator.  The declarations differ in the
order of their fields and in fields that they do not have, among them `kind` in a declarator.  And a
statement that is refused for its kind, which is an object and is quoted as it stands. -/
theorem read_eq_of_sameFor_of_declaration :
    let j : Json := .obj [("kind", .str "declaration"), ("type_tag", .str "int"),
      ("declarators", .arr [.obj [("name", .int 3)]])]
    let j' : Json := .obj [("declarators", .arr [.obj [("kind", .str "number"), ("name", .int 3)]]),
      ("colour", .arr [.null]), ("type_tag", .str "int"), ("kind", .str "declaration")]
    let kind : Json := .obj [("colour", .int 1)]
    let k : Json := .obj [("kind", kind)]
    let k' : Json := .obj [("target", .str "x"), ("kind", kind)]
    j.SameFor (.model .statement) j' ∧ statement.read j = statement.read j' ∧
      statement.read j' = .bad [⟨.notText,
        [.key "declaration", .key "declarators", .index 0, .key "name"]⟩] ∧
      k.SameFor (.model .statement) k' ∧ statement.read k = statement.read k' ∧
      statement.read k' = .bad [⟨.unknownKind "\x7b'colour': 1\x7d" ["declaration", "assignment",
        "expression", "if", "for", "while", "return", "call_stmt"], []⟩] := by
  intro j j' kind k k'
  have hdeclarator : Json.SameFor (.model .declarator) (.obj [("name", .int 3)])
      (.obj [("kind", .str "number"), ("name", .int 3)]) := by
    refine .of_fields rfl ?_
    simp only [List.forall_mem_cons]
    exact ⟨.inr ⟨_, _, rfl, rfl, .refl _ _⟩, .inl ⟨rfl, rfl⟩, .inl ⟨rfl, rfl⟩, by simp⟩
  have hj : j.SameFor (.model .statement) j' := by
    refine .chosen rfl rfl rfl rfl (.of_fields rfl ?_)
    simp only [List.forall_mem_cons]
    refine ⟨.inr ⟨_, _, rfl, rfl, .refl _ _⟩, .inr ⟨_, _, rfl, rfl, .refl _ _⟩,
      .inr ⟨_, _, rfl, rfl, .list rfl ?_⟩, .inl ⟨rfl, rfl⟩, by simp⟩
    intro i v v' hv hv'
    cases i with
    | zero =>
      cases hv
      cases hv'
      exact hdeclarator
    | succ i => cases hv
  have hk : k.SameFor (.model .statement) k' := by
    refine .unchosen rfl rfl fun name hname => ?_
    have hobj : Json.obj [("colour", .int 1)] = .str name := Option.some.inj hname
    cases hobj
  have hshown : kind.shown = "\x7b'colour': 1\x7d" := by decide +kernel
  refine ⟨hj, read_eq_of_sameFor .statement j j' hj, rfl, hk,
    read_eq_of_sameFor .statement k k' hk, ?_⟩
  rw [← hshown]
  rfl

end Model

end FlatScript
