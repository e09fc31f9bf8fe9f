import FlatScript.Text.Printable

/-!
# Quoted text

Text is quoted in messages so that every character of it can be seen: the quote mark in use, the
backslash and the unprintable characters are escaped.  The mark is the apostrophe unless the text
has an apostrophe and no double quote.
-/

namespace FlatScript.Text

/-- The number in base 16 with at least `width` digits. -/
def hex (width n : Nat) : String :=
  let digits := Nat.toDigits 16 n
  String.ofList (List.replicate (width - digits.length) '0' ++ digits)

/-- The mark around quoted text. -/
def quoteMark (cs : List Char) : Char :=
  if cs.contains '\'' && !cs.contains '"' then '"' else '\''

/-- A character inside quotes. -/
def escape (mark c : Char) : String :=
  if c = mark || c = '\\' then String.ofList ['\\', c]
  else if c = '\n' then "\\n"
  else if c = '\r' then "\\r"
  else if c = '\t' then "\\t"
  else if isPrintable c then String.singleton c
  else if c.toNat < 0x100 then "\\x" ++ hex 2 c.toNat
  else if c.toNat < 0x10000 then "\\u" ++ hex 4 c.toNat
  else "\\U" ++ hex 8 c.toNat

/-- The text in quotes. -/
def quoted (s : String) : String :=
  let mark := quoteMark s.toList
  String.singleton mark ++ String.join (s.toList.map (escape mark)) ++ String.singleton mark

end FlatScript.Text
