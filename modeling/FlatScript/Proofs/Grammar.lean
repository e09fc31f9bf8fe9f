import FlatScript.Proofs.NumericForm
import FlatScript.Proofs.Parts
import FlatScript.SourceText

/-!
# Trees of a grammar with precedence

A tree can nest its operations in any way, but the text of an expression has parentheses only where
the tree has them.  The trees that a front end builds are nested as precedence and association to
the left demand; these are the trees that this file is about.

* `IsPlainNumeral`, `IsIdentifier` : the tokens other than operators and parentheses;
* `Expr.WellPlaced`, `Expr.GrammarShaped` : what the grammar asks of one node, and of all nodes of
  an expression;
* `Expr.LeftChain ops P` : operands that satisfy `P`, joined from the left by operators of `ops`;
* `Expr.grammarShaped_iff` : **an expression is of the grammar if and only if it is a sum of
  products of atoms**, each a chain joined from the left;
* `Expr.GrammarShaped.head` : the text of such an expression begins with a digit, a letter, an
  underscore or an opening parenthesis.
-/

namespace FlatScript

/-! ### Tokens -/

/-- Digits, or digits on both sides of a point. -/
inductive IsPlainNumeral : List Char → Prop
  | whole {ds : List Char} (hne : ds ≠ []) (hds : AreDigits ds) : IsPlainNumeral ds
  | point {ds fs : List Char} (hne : ds ≠ []) (hds : AreDigits ds) (hfne : fs ≠ [])
      (hfs : AreDigits fs) : IsPlainNumeral (ds ++ '.' :: fs)

/-- A letter from `A` to `Z` or from `a` to `z`, or an underscore. -/
def isNameStart (c : Char) : Bool := c.isAlpha || c == '_'

/-- What may begin a name, or a digit from `0` to `9`. -/
def isNamePart (c : Char) : Bool := isNameStart c || c.isDigit

/-- A name: what may begin one, and then letters, digits and underscores. -/
inductive IsIdentifier : List Char → Prop
  | intro {c : Char} {cs : List Char} (hc : isNameStart c = true)
      (hcs : ∀ d ∈ cs, isNamePart d = true) : IsIdentifier (c :: cs)

/-! ### The grammar -/

namespace Expr

/-- Whether the expression is a sum or a difference. -/
def isAdditive : Expr → Bool
  | .binary (.known op) _ _ => op.isAdditive
  | _ => false

/-- Whether the expression is a product, a quotient or a remainder. -/
def isMultiplicative : Expr → Bool
  | .binary (.known op) _ _ => !op.isAdditive
  | _ => false

/-- What the grammar asks of a node: its token has the right form, and its operands bind tighter
than its operator, or as tightly if they are on its left. -/
def WellPlaced : Expr → Prop
  | .number numeral => IsPlainNumeral numeral.toList
  | .variable name => IsIdentifier name.toList
  | .binary (.known op) left right =>
    if op.isAdditive then
      right.isAdditive = false
    else
      left.isAdditive = false ∧ right.isAdditive = false ∧ right.isMultiplicative = false
  | .binary (.foreign _) _ _ => False
  | .paren _ => True
  | .call name _ => IsIdentifier name.toList
  | .relabelled _ _ => False

/-- Every node of the expression is as the grammar asks. -/
def GrammarShaped (e : Expr) : Prop := ∀ node ∈ e.nodes, node.WellPlaced

theorem grammarShaped_number {numeral : String} :
    (number numeral).GrammarShaped ↔ IsPlainNumeral numeral.toList := by
  simp [GrammarShaped, nodes, WellPlaced]

theorem grammarShaped_variable {name : String} :
    (Expr.variable name).GrammarShaped ↔ IsIdentifier name.toList := by
  simp [GrammarShaped, nodes, WellPlaced]

theorem grammarShaped_binary {op : Operator ArithOp} {left right : Expr} :
    (binary op left right).GrammarShaped ↔
      (binary op left right).WellPlaced ∧ left.GrammarShaped ∧ right.GrammarShaped := by
  simp only [GrammarShaped, nodes, List.forall_mem_cons, List.forall_mem_append]

theorem grammarShaped_paren {inner : Expr} :
    (paren inner).GrammarShaped ↔ inner.GrammarShaped := by
  simp [GrammarShaped, nodes, WellPlaced]

theorem grammarShaped_call {name : String} {args : List Expr} :
    (call name args).GrammarShaped ↔
      IsIdentifier name.toList ∧ ∀ e ∈ args, e.GrammarShaped := by
  simp only [GrammarShaped, nodes, List.forall_mem_cons, WellPlaced, nodesAll_eq_flatMap,
    List.forall_mem_flatMap]

theorem not_grammarShaped_relabelled {kind : String} {e : Expr} :
    ¬ (relabelled kind e).GrammarShaped := by
  simp [GrammarShaped, nodes, WellPlaced]

/-! ### Chains -/

/-- Operands that satisfy `P`, joined from the left by operators of `ops`. -/
inductive LeftChain (ops : List ArithOp) (P : Expr → Prop) : Expr → Prop
  | operand {e : Expr} (he : P e) : LeftChain ops P e
  | step {op : ArithOp} {left right : Expr} (hop : op ∈ ops) (hleft : LeftChain ops P left)
      (hright : P right) : LeftChain ops P (.binary (.known op) left right)

theorem LeftChain.mono {ops : List ArithOp} {P Q : Expr → Prop} {e : Expr}
    (h : LeftChain ops P e) (hPQ : ∀ a, P a → Q a) : LeftChain ops Q e := by
  induction h with
  | operand he => exact .operand (hPQ _ he)
  | step hop _ hright ih => exact .step hop ih (hPQ _ hright)

/-- An expression of the grammar that is not an operation. -/
def IsAtom (e : Expr) : Prop :=
  e.GrammarShaped ∧ e.isAdditive = false ∧ e.isMultiplicative = false

/-- Atoms joined by the operators of the higher precedence. -/
abbrev IsProduct : Expr → Prop := LeftChain ArithOp.multiplicative IsAtom

/-- Products joined by the operators of the lower precedence. -/
abbrev IsSum : Expr → Prop := LeftChain ArithOp.additive IsProduct

theorem isAdditive_of_mem_additive {op : ArithOp} (h : op ∈ ArithOp.additive) :
    op.isAdditive = true := by
  simpa [ArithOp.isAdditive] using h

theorem isAdditive_of_mem_multiplicative {op : ArithOp} (h : op ∈ ArithOp.multiplicative) :
    op.isAdditive = false := by
  cases op <;> simp_all [ArithOp.multiplicative, ArithOp.isAdditive, ArithOp.additive]

theorem mem_multiplicative_of_isAdditive {op : ArithOp} (h : op.isAdditive = false) :
    op ∈ ArithOp.multiplicative := by
  cases op <;> simp_all [ArithOp.multiplicative, ArithOp.isAdditive, ArithOp.additive]

theorem IsProduct.isAdditive {e : Expr} (h : e.IsProduct) : e.isAdditive = false := by
  cases h with
  | operand he => exact he.2.1
  | step hop _ _ => exact isAdditive_of_mem_multiplicative hop

theorem IsProduct.grammarShaped {e : Expr} (h : e.IsProduct) : e.GrammarShaped := by
  induction h with
  | operand he => exact he.1
  | step hop hleft hright ih =>
    refine grammarShaped_binary.2 ⟨?_, ih, hright.1⟩
    simp only [WellPlaced, isAdditive_of_mem_multiplicative hop]
    exact ⟨IsProduct.isAdditive hleft, hright.2⟩

theorem IsSum.grammarShaped {e : Expr} (h : e.IsSum) : e.GrammarShaped := by
  induction h with
  | operand he => exact IsProduct.grammarShaped he
  | step hop _ hright ih =>
    refine grammarShaped_binary.2 ⟨?_, ih, IsProduct.grammarShaped hright⟩
    simp only [WellPlaced, isAdditive_of_mem_additive hop, if_true]
    exact IsProduct.isAdditive hright

theorem GrammarShaped.isProduct {e : Expr} (h : e.GrammarShaped) (hadd : e.isAdditive = false) :
    e.IsProduct := by
  induction e using Expr.induct with
  | binary op left right ihLeft _ =>
    obtain ⟨hplaced, hleft, hright⟩ := grammarShaped_binary.1 h
    cases op with
    | foreign symbol => exact hplaced.elim
    | known op =>
      have hop : op.isAdditive = false := hadd
      simp only [WellPlaced, hop, Bool.false_eq_true, if_false] at hplaced
      exact .step (mem_multiplicative_of_isAdditive hop) (ihLeft hleft hplaced.1)
        ⟨hright, hplaced.2⟩
  | _ => exact .operand ⟨h, rfl, rfl⟩

theorem GrammarShaped.isSum {e : Expr} (h : e.GrammarShaped) : e.IsSum := by
  induction e using Expr.induct with
  | binary op left right ihLeft _ =>
    obtain ⟨hplaced, hleft, hright⟩ := grammarShaped_binary.1 h
    cases op with
    | foreign symbol => exact hplaced.elim
    | known op =>
      by_cases hop : op.isAdditive = true
      · simp only [WellPlaced, hop, if_true] at hplaced
        exact .step (by simpa [ArithOp.isAdditive] using hop) (ihLeft hleft)
          (hright.isProduct hplaced)
      · exact .operand (h.isProduct (Bool.eq_false_iff.2 hop))
  | _ => exact .operand (h.isProduct rfl)

/-- **The expressions of the grammar are the sums of products of atoms.** -/
theorem grammarShaped_iff {e : Expr} : e.GrammarShaped ↔ e.IsSum :=
  ⟨GrammarShaped.isSum, IsSum.grammarShaped⟩

/-! ### The characters of the text -/

/-- The characters of the text of an expression. -/
def chars (e : Expr) : List Char := e.sourceText.toList

end Expr

/-- The character of an operator. -/
def ArithOp.char : ArithOp → Char
  | .add => '+'
  | .sub => '-'
  | .mul => '*'
  | .div => '/'
  | .rem => '%'

theorem ArithOp.spell_eq (op : ArithOp) : Spelled.spell op = String.singleton op.char := by
  cases op <;> rfl

namespace Expr

@[simp] theorem chars_number (numeral : String) : (number numeral).chars = numeral.toList := rfl

@[simp] theorem chars_variable (name : String) : (Expr.variable name).chars = name.toList := rfl

@[simp] theorem chars_binary (op : ArithOp) (left right : Expr) :
    (binary (.known op) left right).chars = left.chars ++ op.char :: right.chars := by
  simp [chars, sourceText, Operator.symbol, ArithOp.spell_eq]

@[simp] theorem chars_paren (inner : Expr) :
    (paren inner).chars = '(' :: (inner.chars ++ [')']) := by
  simp [chars, sourceText]

/-- The characters of the arguments of a call, with commas between them. -/
def argsChars (args : List Expr) : List Char := (argsText args).toList

@[simp] theorem argsChars_singleton (e : Expr) : argsChars [e] = e.chars := rfl

@[simp] theorem argsChars_cons_cons (e₁ e₂ : Expr) (es : List Expr) :
    argsChars (e₁ :: e₂ :: es) = e₁.chars ++ ',' :: argsChars (e₂ :: es) := by
  simp [argsChars, argsText, chars]

@[simp] theorem chars_call (name : String) (args : List Expr) :
    (call name args).chars = name.toList ++ '(' :: (argsChars args ++ [')']) := by
  simp [chars, sourceText, argsChars]

theorem length_chars_le_argsChars {e : Expr} {args : List Expr} (h : e ∈ args) :
    e.chars.length ≤ (argsChars args).length := by
  induction args with
  | nil => cases h
  | cons e₁ args ih =>
    cases args with
    | nil => simp [List.mem_singleton.1 h]
    | cons e₂ es =>
      simp only [argsChars_cons_cons, List.length_append, List.length_cons]
      rcases List.mem_cons.1 h with rfl | h
      · omega
      · have := ih h
        omega

/-- No operand of a chain is longer than the chain. -/
theorem LeftChain.within {ops : List ArithOp} {P : Expr → Prop} {e : Expr} {n : Nat}
    (h : LeftChain ops P e) (hn : e.chars.length ≤ n) :
    LeftChain ops (fun a => P a ∧ a.chars.length ≤ n) e := by
  induction h with
  | operand he => exact .operand ⟨he, hn⟩
  | step hop _ hright ih =>
    simp only [chars_binary, List.length_append, List.length_cons] at hn
    exact .step hop (ih (by omega)) ⟨hright, by omega⟩

/-- Whether an expression of the grammar may begin with the character. -/
def isOpening (c : Char) : Bool := c.isDigit || isNameStart c || c == '('

end Expr

theorem IsPlainNumeral.head {cs : List Char} (h : IsPlainNumeral cs) :
    ∃ c rest, cs = c :: rest ∧ c.isDigit = true := by
  cases h with
  | whole hne hds =>
    obtain ⟨c, rest, rfl⟩ := List.exists_cons_of_ne_nil hne
    exact ⟨c, rest, rfl, hds c List.mem_cons_self⟩
  | point hne hds _ _ =>
    obtain ⟨c, rest, rfl⟩ := List.exists_cons_of_ne_nil hne
    exact ⟨c, _, rfl, hds c List.mem_cons_self⟩

theorem IsIdentifier.head {cs : List Char} (h : IsIdentifier cs) :
    ∃ c rest, cs = c :: rest ∧ isNameStart c = true := by
  cases h with
  | intro hc _ => exact ⟨_, _, rfl, hc⟩

/-- The text of an expression of the grammar is not empty, and begins as one may. -/
theorem Expr.GrammarShaped.head {e : Expr} (h : e.GrammarShaped) :
    ∃ c cs, e.chars = c :: cs ∧ isOpening c = true := by
  induction e using Expr.induct with
  | number numeral =>
    obtain ⟨c, cs, hchars, hc⟩ := (grammarShaped_number.1 h).head
    exact ⟨c, cs, hchars, by simp [isOpening, hc]⟩
  | ref name =>
    obtain ⟨c, cs, hchars, hc⟩ := (grammarShaped_variable.1 h).head
    exact ⟨c, cs, hchars, by simp [isOpening, hc]⟩
  | binary op left right ihLeft _ =>
    obtain ⟨hplaced, hleft, -⟩ := grammarShaped_binary.1 h
    cases op with
    | foreign symbol => exact hplaced.elim
    | known op =>
      obtain ⟨c, cs, hchars, hc⟩ := ihLeft hleft
      exact ⟨c, cs ++ op.char :: right.chars, by simp [hchars], hc⟩
  | paren inner _ => exact ⟨'(', inner.chars ++ [')'], chars_paren inner, rfl⟩
  | call name args _ =>
    obtain ⟨c, cs, hchars, hc⟩ := (grammarShaped_call.1 h).1.head
    exact ⟨c, cs ++ '(' :: (argsChars args ++ [')']), by simp [hchars], by simp [isOpening, hc]⟩
  | relabelled kind e _ => exact (not_grammarShaped_relabelled h).elim

end FlatScript
