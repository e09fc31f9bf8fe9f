/-!
# Spelled-out alternatives

Operators, type tags and other closed sets of alternatives are written as words.  `Spelled α` lists
the alternatives in their official order with a spelling for each; different alternatives have
different spellings, so a word names at most one of them (`Spelled.parse?_spell`).
-/

namespace FlatScript

/-- A closed set of alternatives with a word for each. -/
class Spelled (α : Type) where
  /-- The alternatives in their official order. -/
  all : List α
  /-- The word for an alternative. -/
  spell : α → String
  mem_all : ∀ a, a ∈ all
  spell_injective : ∀ a b, spell a = spell b → a = b

namespace Spelled

variable {α : Type}

/-- The first of the options that is written as the word. -/
def among? [Spelled α] (options : List α) (word : String) : Option α :=
  options.find? (spell · == word)

/-- The alternative that is written as the word. -/
def parse? [Spelled α] (word : String) : Option α := among? all word

theorem among?_spell [Spelled α] {options : List α} {a : α} (h : a ∈ options) :
    among? options (spell a) = some a := by
  induction options with
  | nil => cases h
  | cons b bs ih =>
    by_cases hb : spell b = spell a
    · simp [among?, spell_injective b a hb]
    · have ha : a ∈ bs := by
        rcases List.mem_cons.1 h with rfl | h
        · exact absurd rfl hb
        · exact h
      simpa [among?, hb] using ih ha

theorem parse?_spell [Spelled α] (a : α) : parse? (spell a) = some a := among?_spell (mem_all a)

end Spelled

end FlatScript
