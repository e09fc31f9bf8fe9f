import FlatScript.Proofs.History

/-!
# What an execution leaves alone

`Frame written declared σ σ'` says how a store `σ` may change into `σ'` when only the names
`written` are written and only the names `declared` are declared: the names of `σ` stay in front
and in their order, each new name is written, a name that is not written keeps its variable, and a
name that is not declared keeps its type and scope.

A single write has this property (`Store.frame_write`), it is transitive (`Frame.trans`), and so a
list of writes has it (`Store.frame_writeAll`).  With the history of an execution this gives
`Stmt.exec_frame`: **every execution stays in the frame of its statement**, also one that fails.
-/

namespace FlatScript

/-- The write is a declaration. -/
def Write.IsDeclaration (w : Write) : Prop := ∃ x v t scope, w = .declare x v t scope

/-- The store `σ` may change into `σ'` when only the names `written` are written, and only the
names `declared` are declared. -/
structure Frame (written declared : List String) (σ σ' : Store) : Prop where
  /-- The names of the first store come first, in their order. -/
  grows : σ.names <+: σ'.names
  /-- A new name is one that is written. -/
  added : ∀ x ∈ σ'.names, x ∉ σ.names → x ∈ written
  /-- A name that is not written keeps its variable. -/
  kept : ∀ x, x ∉ written → σ'.find? x = σ.find? x
  /-- A name that is not declared keeps its type and its scope. -/
  typed : ∀ x v, σ.find? x = some v → x ∉ declared →
    ∃ v', σ'.find? x = some v' ∧ v'.declaredType = v.declaredType ∧ v'.scope = v.scope

section Frame

variable {written declared : List String} {σ σ' σ'' : Store}

theorem Frame.refl (written declared : List String) (σ : Store) : Frame written declared σ σ where
  grows := List.prefix_rfl
  added _ hx hn := absurd hx hn
  kept _ _ := rfl
  typed _ v hv _ := ⟨v, hv, rfl, rfl⟩

theorem Frame.trans (h : Frame written declared σ σ') (h' : Frame written declared σ' σ'') :
    Frame written declared σ σ'' where
  grows := h.grows.trans h'.grows
  added x hx hn := by
    by_cases hx' : x ∈ σ'.names
    · exact h.added x hx' hn
    · exact h'.added x hx hx'
  kept x hx := (h'.kept x hx).trans (h.kept x hx)
  typed x v hv hx := by
    obtain ⟨v', hv', htype', hscope'⟩ := h.typed x v hv hx
    obtain ⟨v'', hv'', htype'', hscope''⟩ := h'.typed x v' hv' hx
    exact ⟨v'', hv'', htype''.trans htype', hscope''.trans hscope'⟩

end Frame

namespace Store

/-- A variable that is not declared anew keeps its type and its scope. -/
theorem typed_write {w : Write} (hw : ¬ w.IsDeclaration) (v : Variable) :
    (w.result (some v)).declaredType = v.declaredType ∧ (w.result (some v)).scope = v.scope := by
  cases w with
  | declare x value type scope => exact absurd ⟨x, value, type, scope, rfl⟩ hw
  | assign x value scope => exact ⟨rfl, rfl⟩

theorem frame_write {written declared : List String} {w : Write} (hname : w.name ∈ written)
    (hdeclared : w.IsDeclaration → w.name ∈ declared) (σ : Store) :
    Frame written declared σ (σ.write w) where
  grows := by
    rw [names_write]
    split
    · exact List.prefix_rfl
    · exact List.prefix_append _ _
  added x hx hn := by
    rw [names_write] at hx
    split at hx
    · exact absurd hx hn
    · rcases List.mem_append.1 hx with hx | hx
      · exact absurd hx hn
      · rw [List.mem_singleton.1 hx]
        exact hname
  kept x hx := by
    have hne : x ≠ w.name := fun h => hx (h ▸ hname)
    rw [find?_write, if_neg hne]
  typed x v hv hx := by
    rw [find?_write]
    by_cases hw : x = w.name
    · -- the write is an assignment, which replaces the value only
      have hd : ¬ w.IsDeclaration := fun h => hx (hw ▸ hdeclared h)
      rw [if_pos hw, hv]
      exact ⟨_, rfl, typed_write hd v⟩
    · rw [if_neg hw]
      exact ⟨v, hv, rfl, rfl⟩

theorem frame_writeAll {written declared : List String} {ws : List Write}
    (h : ∀ w ∈ ws, w.name ∈ written ∧ (w.IsDeclaration → w.name ∈ declared)) (σ : Store) :
    Frame written declared σ (σ.writeAll ws) := by
  induction ws generalizing σ with
  | nil => exact .refl _ _ σ
  | cons w ws ih =>
    obtain ⟨⟨hname, hdeclared⟩, hws⟩ := List.forall_mem_cons.1 h
    exact (frame_write hname hdeclared σ).trans (ih hws (σ.write w))

theorem nodup_names_write {σ : Store} (h : σ.names.Nodup) (w : Write) :
    (σ.write w).names.Nodup := by
  rw [names_write]
  by_cases hw : w.name ∈ σ.names
  · rw [if_pos hw]
    exact h
  · rw [if_neg hw]
    refine List.nodup_append.2 ⟨h, by simp, ?_⟩
    rintro x hx y hy rfl
    exact hw (List.mem_singleton.1 hy ▸ hx)

theorem nodup_names_writeAll {σ : Store} (h : σ.names.Nodup) (ws : List Write) :
    (σ.writeAll ws).names.Nodup := by
  induction ws generalizing σ with
  | nil => exact h
  | cons w ws ih => exact ih (nodup_names_write h w)

end Store

/-- A write of a piece is to a name that the piece writes, and if it is a declaration, to a name
that the piece declares. -/
theorem Piece.Makes.mem_writes {scope : Scope} {p : Piece} {w : Write} (h : p.Makes scope w) :
    w.name ∈ p.writes ∧ (w.IsDeclaration → w.name ∈ p.declares) := by
  cases h with
  | declare he _ =>
    have hmem := List.mem_map_of_mem (f := Declarator.name) he
    exact ⟨hmem, fun _ => hmem⟩
  | assign _ =>
    refine ⟨List.mem_singleton.2 rfl, ?_⟩
    rintro ⟨x, v, t, scope', hw⟩
    cases hw

theorem Stmt.mem_writes_of_mem_history {tolerance : Double} {fuel : Nat} {s : Stmt} {m : Machine} :
    ∀ w ∈ s.history tolerance fuel m,
      w.name ∈ s.writes ∧ (w.IsDeclaration → w.name ∈ s.declares) := by
  refine forall_mem_history (all_of_forall_mem s fun p hp w hw => ?_) tolerance fuel m rfl
  obtain ⟨hname, hdeclared⟩ := hw.mem_writes
  exact ⟨List.mem_flatMap.2 ⟨p, hp, hname⟩, fun h => List.mem_flatMap.2 ⟨p, hp, hdeclared h⟩⟩

/-- **Every execution stays in the frame of its statement.**  From a store with distinct names, an
execution that ends, be it with a fault, leaves a store with distinct names.  The old names stay in
front, each new name is one that the statement writes, other names keep their variables, and a
variable keeps its type and its scope unless the statement declares it. -/
theorem Stmt.exec_frame (tolerance : Double) (fuel : Nat) (s : Stmt) (m m' : Machine)
    (hm : m.store.names.Nodup) (h : m' ∈ (s.exec tolerance fuel m).machine?) :
    m'.store.names.Nodup ∧ Frame s.writes s.declares m.store m'.store := by
  obtain ⟨hstore, -⟩ := s.exec_performs tolerance fuel m m' h
  rw [hstore]
  exact ⟨Store.nodup_names_writeAll hm _, Store.frame_writeAll mem_writes_of_mem_history _⟩

/-- `int y = 1, z = q;` fails at `q`, and leaves `y` behind. -/
theorem Stmt.exec_frame_of_failed :
    let s := Stmt.declare ⟨.int, [⟨"y", some (.arith (.number "1")), .unknown⟩,
      ⟨"z", some (.arith (.variable "q")), .unknown⟩], .unknown, by simp⟩
    let m : Machine := ⟨⟨[("x", ⟨.text "a", none, .globals⟩)]⟩, .main, #[]⟩
    let m' := m.declare "y" (.number .one) .int
    s.exec Double.one 0 m = .failed (.undefinedVariable "q") m' ∧
      m'.store.names.Nodup ∧ Frame s.writes s.declares m.store m'.store := by
  intro s m m'
  have hexec : s.exec Double.one 0 m = .failed (.undefinedVariable "q") m' := by decide +kernel
  exact ⟨hexec, s.exec_frame Double.one 0 m m' (by decide) (by rw [hexec]; rfl)⟩

end FlatScript
