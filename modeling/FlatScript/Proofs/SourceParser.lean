import FlatScript.Proofs.Grammar

/-!
# Reading source text

A parser of the grammar of `FlatScript.Proofs.Grammar`, one reader for each part of it, and the
proof that it undoes the printer.

* `Parse.operations`, `Parse.leftAssoc` : operands joined from the left;
* `Parse.atom`, `Parse.sum`, `Parse.value?` : atoms, expressions and right-hand sides;
* `Parse.Sound` : a reader gives only trees of a kind, and takes exactly their text;
* `Parse.Reads` : a reader finds a tree in front of any text that can follow it;
* `Parse.value?_eq_some_iff` : **the parser gives exactly the trees of the grammar with the given
  text**;
* `RValue.sourceText_unambiguous` : so no two of them have the same text.

Each reader is given the readers that it uses, and its lemmas speak of any such readers.  The text
of an operation begins with that of its left operand, so a reader of operations cannot look for the
tree that it will give: `leftAssoc_eq` says instead that reading a chain is the same as to go on
with the chain as the left operand.
-/

namespace FlatScript

namespace Parse

/-! ### Readers -/

/-- What is read off the front of a text, with the rest of the text; nothing if it is not there. -/
abbrev Reader (α : Type) := List Char → Option (α × List Char)

/-- One of the given operators. -/
def operator? (ops : List ArithOp) : Reader ArithOp
  | [] => none
  | c :: rest => (Spelled.among? ops (String.singleton c)).map fun op => (op, rest)

/-- Operators and right operands, as long as an operator follows. -/
def operations (ops : List ArithOp) (operand : Reader Expr) (left : Expr) (cs : List Char) :
    Option (Expr × List Char) :=
  match operator? ops cs with
  | none => some (left, cs)
  | some (op, after) =>
    match operand after with
    | none => none
    | some (right, rest) =>
      -- every operand has a text, so what is left gets shorter
      if rest.length < cs.length then operations ops operand (.binary (.known op) left right) rest
      else none
termination_by cs.length

/-- Operands joined from the left. -/
def leftAssoc (ops : List ArithOp) (operand : Reader Expr) : Reader Expr := fun cs =>
  match operand cs with
  | none => none
  | some (left, rest) => operations ops operand left rest

/-- A number: digits, and digits after a point if there is one. -/
def numeral : Reader Expr := fun cs =>
  match cs.dropWhile Char.isDigit with
  | '.' :: rest =>
    if rest.takeWhile Char.isDigit = [] then none
    else
      some (.number (String.ofList (cs.takeWhile Char.isDigit ++ '.' ::
        rest.takeWhile Char.isDigit)), rest.dropWhile Char.isDigit)
  | rest => some (.number (String.ofList (cs.takeWhile Char.isDigit)), rest)

/-- One argument or more, up to the closing parenthesis. -/
def argumentsFrom (inner : Reader Expr) (cs : List Char) : Option (List Expr × List Char) :=
  match inner cs with
  | some (e, ',' :: rest) =>
    if rest.length < cs.length then (argumentsFrom inner rest).map fun (es, rest) => (e :: es, rest)
    else none
  | some (e, ')' :: rest) => some ([e], rest)
  | _ => none
termination_by cs.length

/-- The arguments of a call, up to the closing parenthesis. -/
def arguments (inner : Reader Expr) : Reader (List Expr)
  | ')' :: rest => some ([], rest)
  | cs => argumentsFrom inner cs

/-- A name, as a call if arguments follow it. -/
def named (inner : Reader Expr) : Reader Expr := fun cs =>
  match cs.dropWhile isNamePart with
  | '(' :: rest =>
    (arguments inner rest).map fun (args, rest) =>
      (.call (String.ofList (cs.takeWhile isNamePart)) args, rest)
  | rest => some (.variable (String.ofList (cs.takeWhile isNamePart)), rest)

/-- An expression in parentheses, after the opening one. -/
def enclosed (inner : Reader Expr) : Reader Expr := fun cs =>
  match inner cs with
  | some (e, ')' :: rest) => some (.paren e, rest)
  | _ => none

/-- An expression that is not an operation; its first character tells what it is. -/
def atom (inner : Reader Expr) : Reader Expr
  | [] => none
  | c :: cs =>
    if c.isDigit then numeral (c :: cs)
    else if isNameStart c then named inner (c :: cs)
    else if c = '(' then enclosed inner cs
    else none

/-- An expression, with parentheses and calls up to a depth. -/
def sum : Nat → Reader Expr
  | 0 => fun _ => none
  | depth + 1 => leftAssoc ArithOp.additive (leftAssoc ArithOp.multiplicative (atom (sum depth)))

/-- An expression that takes up a whole text, which is longer than its nesting is deep. -/
def expression? (cs : List Char) : Option Expr :=
  match sum (cs.length + 1) cs with
  | some (e, []) => some e
  | _ => none

/-- A piece of text after the opening quote; the closing quote has to end it. -/
def unquoted : List Char → Option (List Char)
  | [] => none
  | ['"'] => some []
  | '\\' :: c :: cs =>
    if c = '\\' ∨ c = '"' then (unquoted cs).map (c :: ·) else none
  | c :: cs => if c = '\\' ∨ c = '"' then none else (unquoted cs).map (c :: ·)

/-- The right-hand side that a text stands for. -/
def value? (t : String) : Option RValue :=
  match t.toList with
  | '"' :: cs => (unquoted cs).map fun s => .text (String.ofList s)
  | cs => (expression? cs).map .arith

/-! ### What the readers give -/

/-- The reader gives only expressions that satisfy `P`, and takes exactly their text. -/
def Sound (reader : Reader Expr) (P : Expr → Prop) : Prop :=
  ∀ cs e rest, reader cs = some (e, rest) → P e ∧ cs = e.chars ++ rest

theorem operator?_eq_some {ops : List ArithOp} {cs rest : List Char} {op : ArithOp}
    (h : operator? ops cs = some (op, rest)) : op ∈ ops ∧ cs = op.char :: rest := by
  cases cs with
  | nil => cases h
  | cons c cs =>
    simp only [operator?, Option.map_eq_some_iff, Prod.mk.injEq] at h
    obtain ⟨op, hop, rfl, rfl⟩ := h
    have hspell : Spelled.spell op = String.singleton c := by simpa using List.find?_some hop
    rw [ArithOp.spell_eq] at hspell
    have hc : [op.char] = [c] := by simpa using congrArg String.toList hspell
    exact ⟨List.mem_of_find?_eq_some hop, by simpa using hc.symm⟩

theorem operations_sound {ops : List ArithOp} {operand : Reader Expr} {P : Expr → Prop}
    (hoperand : Sound operand P) {left e : Expr} {cs rest : List Char}
    (hleft : Expr.LeftChain ops P left) (h : operations ops operand left cs = some (e, rest)) :
    Expr.LeftChain ops P e ∧ left.chars ++ cs = e.chars ++ rest := by
  fun_induction operations ops operand left cs with
  | case1 left cs hop =>
    cases h
    exact ⟨hleft, rfl⟩
  | case2 left cs op after hop hright => cases h
  | case3 left cs op after hop right rest' hright hlt ih =>
    obtain ⟨hmem, rfl⟩ := operator?_eq_some hop
    obtain ⟨hP, rfl⟩ := hoperand _ _ _ hright
    obtain ⟨hchain, hchars⟩ := ih (.step hmem hleft hP) h
    exact ⟨hchain, by simpa using hchars⟩
  | case4 left cs op after hop right rest' hright hlt => cases h

theorem leftAssoc_sound {ops : List ArithOp} {operand : Reader Expr} {P : Expr → Prop}
    (hoperand : Sound operand P) : Sound (leftAssoc ops operand) (Expr.LeftChain ops P) := by
  intro cs e rest h
  unfold leftAssoc at h
  split at h
  · cases h
  · rename_i left rest' hleft
    obtain ⟨hP, rfl⟩ := hoperand _ _ _ hleft
    exact operations_sound hoperand (.operand hP) h

theorem areDigits_takeWhile (cs : List Char) : AreDigits (cs.takeWhile Char.isDigit) :=
  fun _ hc => List.mem_takeWhile_imp hc

theorem numeral_sound {c : Char} {cs rest : List Char} {e : Expr} (hc : c.isDigit = true)
    (h : numeral (c :: cs) = some (e, rest)) : e.IsAtom ∧ c :: cs = e.chars ++ rest := by
  have hne : (c :: cs).takeWhile Char.isDigit ≠ [] := by simp [hc]
  have hcs := List.takeWhile_append_dropWhile (p := Char.isDigit) (l := c :: cs)
  have hds := areDigits_takeWhile (c :: cs)
  unfold numeral at h
  generalize (c :: cs).takeWhile Char.isDigit = ds at hne hcs hds h
  split at h
  · rename_i after hdrop
    split at h
    · cases h
    · rename_i hfne
      cases h
      refine ⟨⟨Expr.grammarShaped_number.2 ?_, rfl, rfl⟩, ?_⟩
      · simpa using IsPlainNumeral.point hne hds hfne (areDigits_takeWhile after)
      · rw [← hcs, hdrop]
        simp
  · cases h
    refine ⟨⟨Expr.grammarShaped_number.2 ?_, rfl, rfl⟩, ?_⟩
    · simpa using IsPlainNumeral.whole hne hds
    · simpa using hcs.symm

theorem argumentsFrom_sound {inner : Reader Expr} {P : Expr → Prop} (hinner : Sound inner P)
    {cs rest : List Char} {args : List Expr} (h : argumentsFrom inner cs = some (args, rest)) :
    (∀ e ∈ args, P e) ∧ args ≠ [] ∧ cs = Expr.argsChars args ++ ')' :: rest := by
  fun_induction argumentsFrom inner cs generalizing args with
  | case1 cs e after he hlt ih =>
    obtain ⟨⟨es, rest'⟩, hes, hargs⟩ := Option.map_eq_some_iff.1 h
    cases hargs
    obtain ⟨hP, hne, rfl⟩ := ih hes
    obtain ⟨hPe, rfl⟩ := hinner _ _ _ he
    obtain ⟨e', es, rfl⟩ := List.exists_cons_of_ne_nil hne
    exact ⟨List.forall_mem_cons.2 ⟨hPe, hP⟩, by simp, by simp⟩
  | case2 cs e after he hlt => cases h
  | case3 cs e after he =>
    cases h
    obtain ⟨hPe, rfl⟩ := hinner _ _ _ he
    exact ⟨List.forall_mem_singleton.2 hPe, by simp, by simp⟩
  | case4 cs h₁ h₂ => cases h

theorem arguments_sound {inner : Reader Expr} {P : Expr → Prop} (hinner : Sound inner P)
    {cs rest : List Char} {args : List Expr} (h : arguments inner cs = some (args, rest)) :
    (∀ e ∈ args, P e) ∧ cs = Expr.argsChars args ++ ')' :: rest := by
  unfold arguments at h
  split at h
  · cases h
    exact ⟨by simp, rfl⟩
  · obtain ⟨hP, -, hcs⟩ := argumentsFrom_sound hinner h
    exact ⟨hP, hcs⟩

theorem named_sound {inner : Reader Expr} (hinner : Sound inner Expr.GrammarShaped) {c : Char}
    {cs rest : List Char} {e : Expr} (hc : isNameStart c = true)
    (h : named inner (c :: cs) = some (e, rest)) : e.IsAtom ∧ c :: cs = e.chars ++ rest := by
  have hcs := List.takeWhile_append_dropWhile (p := isNamePart) (l := c :: cs)
  have hname : IsIdentifier ((c :: cs).takeWhile isNamePart) := by
    rw [List.takeWhile_cons_of_pos (by simp [isNamePart, hc])]
    exact .intro hc fun _ hd => List.mem_takeWhile_imp hd
  unfold named at h
  generalize (c :: cs).takeWhile isNamePart = name at hcs hname h
  split at h
  · rename_i after hdrop
    obtain ⟨⟨args, rest'⟩, hargs, he⟩ := Option.map_eq_some_iff.1 h
    cases he
    obtain ⟨hP, rfl⟩ := arguments_sound hinner hargs
    refine ⟨⟨Expr.grammarShaped_call.2 ⟨by simpa using hname, hP⟩, rfl, rfl⟩, ?_⟩
    rw [← hcs, hdrop]
    simp
  · cases h
    refine ⟨⟨Expr.grammarShaped_variable.2 (by simpa using hname), rfl, rfl⟩, ?_⟩
    simpa using hcs.symm

theorem atom_sound {inner : Reader Expr} (hinner : Sound inner Expr.GrammarShaped) :
    Sound (atom inner) Expr.IsAtom := by
  intro cs e rest h
  cases cs with
  | nil => cases h
  | cons c cs =>
    simp only [atom] at h
    split_ifs at h with hdigit hname hparen
    · exact numeral_sound hdigit h
    · exact named_sound hinner hname h
    · unfold enclosed at h
      split at h
      · rename_i e' after he
        cases h
        obtain ⟨hshaped, rfl⟩ := hinner _ _ _ he
        exact ⟨⟨Expr.grammarShaped_paren.2 hshaped, rfl, rfl⟩, by simp [hparen]⟩
      · cases h

theorem sum_sound (depth : Nat) : Sound (sum depth) Expr.GrammarShaped := by
  induction depth with
  | zero =>
    intro cs e rest h
    cases h
  | succ depth ih =>
    intro cs e rest h
    obtain ⟨hsum, hcs⟩ := leftAssoc_sound (leftAssoc_sound (atom_sound ih)) cs e rest h
    exact ⟨Expr.grammarShaped_iff.2 hsum, hcs⟩

/-! ### What the readers find -/

/-- A text is empty or begins with one of the characters. -/
def BeginsWith (stops cs : List Char) : Prop := ∀ c ∈ cs.head?, c ∈ stops

/-- The reader finds the expression in front of any text that is empty or begins with one of the
characters. -/
def Reads (reader : Reader Expr) (stops : List Char) (e : Expr) : Prop :=
  ∀ rest, BeginsWith stops rest → reader (e.chars ++ rest) = some (e, rest)

theorem operator?_char {ops : List ArithOp} {op : ArithOp} (hop : op ∈ ops) (rest : List Char) :
    operator? ops (op.char :: rest) = some (op, rest) := by
  rw [operator?, ← ArithOp.spell_eq, Spelled.among?_spell hop, Option.map_some]

theorem operator?_eq_none {ops : List ArithOp} {stops rest : List Char}
    (hops : ∀ op ∈ ops, op.char ∉ stops) (hrest : BeginsWith stops rest) :
    operator? ops rest = none := by
  rw [Option.eq_none_iff_forall_not_mem]
  rintro ⟨op, after⟩ h
  obtain ⟨hop, rfl⟩ := operator?_eq_some h
  exact hops op hop (hrest _ rfl)

/-- To read a chain is to go on with the chain as the left operand. -/
theorem leftAssoc_eq {ops : List ArithOp} {operand : Reader Expr} {stops : List Char} {e : Expr}
    (he : Expr.LeftChain ops (Reads operand (ops.map ArithOp.char ++ stops)) e)
    {rest : List Char} (hrest : BeginsWith (ops.map ArithOp.char ++ stops) rest) :
    leftAssoc ops operand (e.chars ++ rest) = operations ops operand e rest := by
  induction he generalizing rest with
  | operand he => rw [leftAssoc, he rest hrest]
  | @step op left right hop _ hright ih =>
    have hnext : BeginsWith (ops.map ArithOp.char ++ stops) (op.char :: (right.chars ++ rest)) := by
      rintro _ ⟨⟩
      exact List.mem_append_left _ (List.mem_map_of_mem hop)
    have hlt : rest.length < (op.char :: (right.chars ++ rest)).length := by
      simp only [List.length_cons, List.length_append]
      omega
    rw [Expr.chars_binary, List.append_assoc, List.cons_append, ih hnext, operations,
      operator?_char hop]
    simp only [hright rest hrest, if_pos hlt]

theorem leftAssoc_reads {ops : List ArithOp} {operand : Reader Expr} {stops : List Char} {e : Expr}
    (hops : ∀ op ∈ ops, op.char ∉ stops)
    (he : Expr.LeftChain ops (Reads operand (ops.map ArithOp.char ++ stops)) e) :
    Reads (leftAssoc ops operand) stops e := by
  intro rest hrest
  rw [leftAssoc_eq he fun c hc => List.mem_append_right _ (hrest c hc), operations,
    operator?_eq_none hops hrest]

/-- What may follow an expression: the end of an argument or of a pair of parentheses. -/
def afterSum : List Char := [')', ',']

/-- What may follow a product: an operator of the lower precedence as well. -/
def afterProduct : List Char := ArithOp.additive.map ArithOp.char ++ afterSum

/-- What may follow an atom: any operator as well. -/
def afterAtom : List Char := ArithOp.multiplicative.map ArithOp.char ++ afterProduct

theorem afterAtom_eq : afterAtom = ['*', '/', '%', '+', '-', ')', ','] := rfl

/-- Reading as long as a class of characters lasts. -/
theorem takeWhile_dropWhile_append {p : Char → Bool} {cs rest : List Char}
    (hcs : ∀ c ∈ cs, p c = true) (hrest : ∀ c ∈ rest.head?, p c = false) :
    (cs ++ rest).takeWhile p = cs ∧ (cs ++ rest).dropWhile p = rest := by
  have hstop : rest.takeWhile p = [] ∧ rest.dropWhile p = rest := by
    cases rest with
    | nil => exact ⟨rfl, rfl⟩
    | cons c rest => simp [hrest c rfl]
  rw [List.takeWhile_append_of_pos hcs, List.dropWhile_append_of_pos hcs, hstop.1, hstop.2,
    List.append_nil]
  exact ⟨rfl, rfl⟩

theorem numeral_append {cs rest : List Char} (hcs : IsPlainNumeral cs)
    (hrest : BeginsWith afterAtom rest) :
    numeral (cs ++ rest) = some (.number (String.ofList cs), rest) := by
  have hstop : ∀ c ∈ rest.head?, c.isDigit = false ∧ c ≠ '.' := by
    have hall : ∀ c ∈ afterAtom, c.isDigit = false ∧ c ≠ '.' := by
      simp [afterAtom_eq]
    exact fun c hc => hall c (hrest c hc)
  cases hcs with
  | whole hne hds =>
    obtain ⟨htake, hdrop⟩ := takeWhile_dropWhile_append hds fun c hc => (hstop c hc).1
    unfold numeral
    rw [htake, hdrop]
    split
    · exact absurd rfl (hstop _ rfl).2
    · rfl
  | @point ds fs hne hds hfne hfs =>
    have hpoint : ∀ c ∈ ('.' :: (fs ++ rest)).head?, c.isDigit = false := by
      rintro _ ⟨⟩
      rfl
    obtain ⟨htake, hdrop⟩ := takeWhile_dropWhile_append hds hpoint
    obtain ⟨htake', hdrop'⟩ := takeWhile_dropWhile_append hfs fun c hc => (hstop c hc).1
    unfold numeral
    rw [List.append_assoc, List.cons_append, htake, hdrop]
    simp only [htake', hdrop', if_neg hfne]

theorem argumentsFrom_append {inner : Reader Expr} {e : Expr} {es : List Expr}
    (hinner : ∀ a ∈ e :: es, Reads inner afterSum a) (rest : List Char) :
    argumentsFrom inner (Expr.argsChars (e :: es) ++ ')' :: rest) = some (e :: es, rest) := by
  induction es generalizing e with
  | nil =>
    have he := hinner e List.mem_cons_self (')' :: rest) (by rintro _ ⟨⟩; decide)
    rw [Expr.argsChars_singleton, argumentsFrom, he]
    rfl
  | cons e' es ih =>
    obtain ⟨he, hes⟩ := List.forall_mem_cons.1 hinner
    have he := he (',' :: (Expr.argsChars (e' :: es) ++ ')' :: rest)) (by rintro _ ⟨⟩; decide)
    rw [Expr.argsChars_cons_cons, List.append_assoc, List.cons_append, argumentsFrom, he]
    have hlt : (Expr.argsChars (e' :: es) ++ ')' :: rest).length <
        (e.chars ++ ',' :: (Expr.argsChars (e' :: es) ++ ')' :: rest)).length := by
      simp only [List.length_cons, List.length_append]
      omega
    simp only [ih hes, if_pos hlt, Option.map_some]

theorem arguments_append {inner : Reader Expr} {args : List Expr}
    (hshaped : ∀ a ∈ args, a.GrammarShaped) (hinner : ∀ a ∈ args, Reads inner afterSum a)
    (rest : List Char) :
    arguments inner (Expr.argsChars args ++ ')' :: rest) = some (args, rest) := by
  cases args with
  | nil => rfl
  | cons e es =>
    -- no expression begins with the parenthesis that ends the arguments
    obtain ⟨c, cs, hchars, hc⟩ := (hshaped e List.mem_cons_self).head
    have hne : ∀ after, Expr.argsChars (e :: es) ++ ')' :: rest ≠ ')' :: after := by
      intro after heq
      have hhead : c = ')' := by cases es <;> simp_all
      rw [hhead] at hc
      revert hc
      decide
    unfold arguments
    split
    · rename_i after heq
      exact absurd heq (hne after)
    · exact argumentsFrom_append hinner rest

theorem takeWhile_dropWhile_name {name after : List Char} (hname : IsIdentifier name)
    (hafter : BeginsWith ('(' :: afterAtom) after) :
    (name ++ after).takeWhile isNamePart = name ∧ (name ++ after).dropWhile isNamePart = after := by
  have hall : ∀ c ∈ '(' :: afterAtom, isNamePart c = false := by
    simp [afterAtom_eq, isNamePart, isNameStart]
  refine takeWhile_dropWhile_append ?_ fun c hc => hall c (hafter c hc)
  cases hname with
  | intro hc hcs => exact List.forall_mem_cons.2 ⟨by simp [isNamePart, hc], hcs⟩

theorem isDigit_of_isNameStart {c : Char} (h : isNameStart c = true) : c.isDigit = false := by
  rw [Bool.eq_false_iff]
  intro hdigit
  have hrange := toNat_of_isDigit hdigit
  simp only [isNameStart, Bool.or_eq_true, beq_iff_eq] at h
  rcases h with halpha | rfl
  · -- the letters have codes from 65 to 90 and from 97 to 122
    change (decide (65 ≤ c.val ∧ c.val ≤ 90) ||
      decide (97 ≤ c.val) && decide (c.val ≤ 122)) = true at halpha
    simp only [Bool.or_eq_true, Bool.and_eq_true, decide_eq_true_eq, UInt32.le_iff_toNat_le]
      at halpha
    have hcode : (65 ≤ c.toNat ∧ c.toNat ≤ 90) ∨ (97 ≤ c.toNat ∧ c.toNat ≤ 122) := halpha
    omega
  · exact absurd hdigit (by decide)

/-- The first character of a name leads to the reader of names. -/
theorem atom_of_name {inner : Reader Expr} {name : List Char} (hname : IsIdentifier name)
    (rest : List Char) : atom inner (name ++ rest) = named inner (name ++ rest) := by
  obtain ⟨c, cs, rfl, hc⟩ := hname.head
  simp [atom, hc, isDigit_of_isNameStart hc]

/-- A reader that finds all shorter expressions of the grammar is enough to find an atom. -/
theorem atom_reads {inner : Reader Expr} {e : Expr} (he : e.IsAtom)
    (hinner : ∀ a : Expr, a.GrammarShaped → a.chars.length < e.chars.length →
      Reads inner afterSum a) : Reads (atom inner) afterAtom e := by
  intro rest hrest
  obtain ⟨hshaped, hadd, hmul⟩ := he
  cases e with
  | number text =>
    have hnumeral := Expr.grammarShaped_number.1 hshaped
    obtain ⟨c, cs, hcs, hc⟩ := hnumeral.head
    have hatom : atom inner (text.toList ++ rest) = numeral (text.toList ++ rest) := by
      rw [hcs]
      simp [atom, hc]
    rw [Expr.chars_number, hatom, numeral_append hnumeral hrest, String.ofList_toList]
  | «variable» name =>
    have hname := Expr.grammarShaped_variable.1 hshaped
    obtain ⟨htake, hdrop⟩ := takeWhile_dropWhile_name hname fun c hc =>
      List.mem_cons_of_mem _ (hrest c hc)
    rw [Expr.chars_variable, atom_of_name hname, named, htake, hdrop, String.ofList_toList]
    split
    · exact absurd (hrest '(' rfl) (by decide)
    · rfl
  | binary op left right =>
    cases op with
    | foreign symbol => exact (Expr.grammarShaped_binary.1 hshaped).1.elim
    | known op =>
      -- an operation is of the one precedence or of the other
      simp only [Expr.isAdditive, Expr.isMultiplicative, Bool.not_eq_false'] at hadd hmul
      exact absurd hmul (by simp [hadd])
  | paren e =>
    have hlt : e.chars.length < (Expr.paren e).chars.length := by
      simp only [Expr.chars_paren, List.length_cons, List.length_append]
      omega
    have hread := hinner e (Expr.grammarShaped_paren.1 hshaped) hlt (')' :: rest)
      (by rintro _ ⟨⟩; decide)
    rw [Expr.chars_paren, List.cons_append, List.append_assoc, List.singleton_append]
    show enclosed inner _ = _
    rw [enclosed, hread]
    rfl
  | call name args =>
    obtain ⟨hname, hargs⟩ := Expr.grammarShaped_call.1 hshaped
    have hread : ∀ a ∈ args, Reads inner afterSum a := by
      intro a ha
      refine hinner a (hargs a ha) ?_
      have := Expr.length_chars_le_argsChars ha
      simp only [Expr.chars_call, List.length_append, List.length_cons]
      omega
    rw [Expr.chars_call, List.append_assoc, List.cons_append, List.append_assoc,
      List.singleton_append, atom_of_name hname]
    have hafter : BeginsWith ('(' :: afterAtom) ('(' :: (Expr.argsChars args ++ ')' :: rest)) := by
      rintro _ ⟨⟩
      exact List.mem_cons_self
    obtain ⟨htake, hdrop⟩ := takeWhile_dropWhile_name hname hafter
    rw [named, htake, hdrop]
    simp only [arguments_append hargs hread rest, Option.map_some, String.ofList_toList]
  | relabelled kind e => exact (Expr.not_grammarShaped_relabelled hshaped).elim

/-- Parentheses and calls cannot be nested deeper than a text is long. -/
theorem sum_reads {depth : Nat} {e : Expr} (he : e.GrammarShaped) (hlt : e.chars.length < depth) :
    Reads (sum depth) afterSum e := by
  induction depth generalizing e with
  | zero => omega
  | succ depth ih =>
    have hatom : ∀ a : Expr, a.IsAtom ∧ a.chars.length ≤ depth →
        Reads (atom (sum depth)) afterAtom a :=
      fun a ha => atom_reads ha.1 fun b hb hlen => ih hb (by omega)
    have hproduct : ∀ a : Expr, a.IsProduct ∧ a.chars.length ≤ depth →
        Reads (leftAssoc ArithOp.multiplicative (atom (sum depth))) afterProduct a :=
      fun a ha => leftAssoc_reads (by decide) ((ha.1.within ha.2).mono hatom)
    exact leftAssoc_reads (by decide) ((he.isSum.within (by omega)).mono hproduct)

theorem expression?_eq_some_iff {cs : List Char} {e : Expr} :
    expression? cs = some e ↔ e.GrammarShaped ∧ e.chars = cs := by
  constructor
  · intro h
    unfold expression? at h
    split at h
    · rename_i hsum
      cases h
      obtain ⟨hshaped, hchars⟩ := sum_sound _ _ _ _ hsum
      exact ⟨hshaped, by simpa using hchars.symm⟩
    · cases h
  · rintro ⟨he, rfl⟩
    have hread := sum_reads he (Nat.lt_succ_self e.chars.length) [] (by rintro _ ⟨⟩)
    rw [List.append_nil] at hread
    rw [expression?, hread]

/-! ### Quoted text -/

theorem escaped_cons (c : Char) (s : List Char) :
    escaped (c :: s) = (if c = '\\' ∨ c = '"' then ['\\', c] else [c]) ++ escaped s := by
  rw [escaped_eq_flatMap, escaped_eq_flatMap, List.flatMap_cons]

theorem toList_quoteText (s : String) :
    (quoteText s).toList = '"' :: (escaped s.toList ++ ['"']) := by
  simp [quoteText]

theorem unquoted_of_plain {c : Char} (hc : ¬ (c = '\\' ∨ c = '"')) (cs : List Char) :
    unquoted (c :: cs) = (unquoted cs).map (c :: ·) := by
  rw [unquoted.eq_def]
  split <;> simp_all

theorem unquoted_escaped (s : List Char) : unquoted (escaped s ++ ['"']) = some s := by
  induction s with
  | nil => rfl
  | cons c s ih =>
    rw [escaped_cons, List.append_assoc]
    by_cases hc : c = '\\' ∨ c = '"'
    · rw [if_pos hc, List.cons_append, List.singleton_append, unquoted, if_pos hc, ih,
        Option.map_some]
    · rw [if_neg hc, List.singleton_append, unquoted_of_plain hc, ih, Option.map_some]

theorem unquoted_eq_some_iff {cs s : List Char} :
    unquoted cs = some s ↔ cs = escaped s ++ ['"'] := by
  constructor
  · intro h
    fun_induction unquoted cs generalizing s with
    | case1 => cases h
    | case2 =>
      cases h
      rfl
    | case3 c cs hc ih =>
      obtain ⟨s, hs, rfl⟩ := Option.map_eq_some_iff.1 h
      rw [escaped_cons, if_pos hc, ih hs]
      rfl
    | case4 c cs hc => cases h
    | case5 c cs _ _ hc => cases h
    | case6 c cs _ _ hc ih =>
      obtain ⟨s, hs, rfl⟩ := Option.map_eq_some_iff.1 h
      rw [escaped_cons, if_neg hc, ih hs]
      rfl
  · rintro rfl
    exact unquoted_escaped s

end Parse

/-! ### Right-hand sides -/

/-- The expression of the right-hand side is of the grammar; text is any text. -/
def RValue.GrammarShaped : RValue → Prop
  | .arith e => e.GrammarShaped
  | .text _ => True
  | .relabelledText _ _ => False

namespace Parse

theorem value?_sourceText {v : RValue} (hv : v.GrammarShaped) : value? v.sourceText = some v := by
  cases v with
  | arith e =>
    obtain ⟨c, cs, hchars, hc⟩ := Expr.GrammarShaped.head hv
    have htext : (RValue.arith e).sourceText.toList = c :: cs := hchars
    have hquote : c ≠ '"' := by
      rintro rfl
      exact absurd hc (by decide)
    unfold value?
    rw [htext]
    split
    · rename_i heq
      exact absurd (List.cons_eq_cons.1 heq).1 hquote
    · rw [expression?_eq_some_iff.2 ⟨hv, hchars⟩, Option.map_some]
  | text s =>
    unfold value?
    rw [RValue.sourceText, toList_quoteText]
    simp only [unquoted_escaped, Option.map_some, String.ofList_toList]
  | relabelledText kind s => exact hv.elim

/-- **The parser gives exactly the trees of the grammar with the given text.** -/
theorem value?_eq_some_iff {t : String} {v : RValue} :
    value? t = some v ↔ v.GrammarShaped ∧ v.sourceText = t := by
  constructor
  · intro h
    unfold value? at h
    split at h
    · rename_i cs ht
      obtain ⟨s, hs, rfl⟩ := Option.map_eq_some_iff.1 h
      refine ⟨trivial, String.toList_injective ?_⟩
      rw [RValue.sourceText, toList_quoteText, String.toList_ofList,
        ← unquoted_eq_some_iff.1 hs, ht]
    · obtain ⟨e, he, rfl⟩ := Option.map_eq_some_iff.1 h
      obtain ⟨hshaped, hchars⟩ := expression?_eq_some_iff.1 he
      exact ⟨hshaped, String.toList_injective hchars⟩
  · rintro ⟨hv, rfl⟩
    exact value?_sourceText hv

end Parse

/-- **The text of a tree of the grammar is that of no other.**  A parser recovers each such tree
from its text, and gives no other tree. -/
theorem RValue.sourceText_unambiguous :
    (∀ a b : RValue, a.GrammarShaped → b.GrammarShaped → a.sourceText = b.sourceText → a = b) ∧
    ∀ (t : String) (v : RValue), Parse.value? t = some v ↔ v.GrammarShaped ∧ v.sourceText = t := by
  refine ⟨fun a b ha hb htext => ?_, fun t v => Parse.value?_eq_some_iff⟩
  have hb := Parse.value?_sourceText hb
  rw [← htext, Parse.value?_sourceText ha] at hb
  exact Option.some.inj hb

/-- `2*(x-1.5)%f(y,0)-g()` and a piece of text with a quote and a backslash in it: every kind of
token, both precedences, operators of one precedence in a row, and calls with and without
arguments. -/
theorem RValue.sourceText_unambiguous_of_mixed :
    let x := Expr.variable "x"
    let inner := Expr.paren (.binary (.known .sub) x (.number "1.5"))
    let product := Expr.binary (.known .mul) (.number "2") inner
    let quotient := Expr.binary (.known .rem) product (.call "f" [.variable "y", .number "0"])
    let v := RValue.arith (.binary (.known .sub) quotient (.call "g" []))
    let w := RValue.text "a\\\"b"
    v.GrammarShaped ∧ w.GrammarShaped ∧ v.sourceText ≠ w.sourceText ∧
      Parse.value? "2*(x-1.5)%f(y,0)-g()" = some v ∧
      Parse.value? "\"a\\\\\\\"b\"" = some w := by
  intro x inner product quotient v w
  have hletter : ∀ c : Char, isNameStart c = true → IsIdentifier (String.singleton c).toList := by
    intro c hc
    simpa using IsIdentifier.intro hc (by simp)
  have hdigit : ∀ c : Char, c.isDigit = true → IsPlainNumeral (String.singleton c).toList := by
    intro c hc
    simpa using IsPlainNumeral.whole (by simp) (List.forall_mem_singleton.2 hc)
  have hpoint : IsPlainNumeral "1.5".toList := by
    show IsPlainNumeral (['1'] ++ '.' :: ['5'])
    exact .point (by simp) (by simp [AreDigits]) (by simp) (by simp [AreDigits])
  have hinner : inner.GrammarShaped :=
    Expr.grammarShaped_paren.2 (Expr.grammarShaped_binary.2
      ⟨rfl, Expr.grammarShaped_variable.2 (hletter 'x' rfl), Expr.grammarShaped_number.2 hpoint⟩)
  have hproduct : product.GrammarShaped :=
    Expr.grammarShaped_binary.2
      ⟨⟨rfl, rfl, rfl⟩, Expr.grammarShaped_number.2 (hdigit '2' rfl), hinner⟩
  have hcall : (Expr.call "f" [.variable "y", .number "0"]).GrammarShaped :=
    Expr.grammarShaped_call.2 ⟨hletter 'f' rfl, by
      simpa using ⟨Expr.grammarShaped_variable.2 (hletter 'y' rfl),
        Expr.grammarShaped_number.2 (hdigit '0' rfl)⟩⟩
  have hv : v.GrammarShaped :=
    Expr.grammarShaped_binary.2 ⟨rfl,
      Expr.grammarShaped_binary.2 ⟨⟨rfl, rfl, rfl⟩, hproduct, hcall⟩,
      Expr.grammarShaped_call.2 ⟨hletter 'g' rfl, by simp⟩⟩
  have hw : w.GrammarShaped := trivial
  obtain ⟨hinj, hparse⟩ := RValue.sourceText_unambiguous
  refine ⟨hv, hw, fun htext => ?_, (hparse _ v).2 ⟨hv, rfl⟩, (hparse _ w).2 ⟨hw, rfl⟩⟩
  exact RValue.noConfusion (hinj v w hv hw htext)

end FlatScript
