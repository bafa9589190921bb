import ArrayOffload.Text.Blank
import ArrayOffload.Text.Extending
import ArrayOffload.Text.Invisible

/-!
# Quoted names

A name in a listing stands in double quotes. A quote, a backslash and whatever has no shape of its
own are written as escapes, most of them by their code in braces.
-/

namespace ArrayOffload.Text

/-- The escape for a character by its code. -/
def codeEscape (c : Char) : String :=
  "\\u\x7b" ++ String.ofList (Nat.toDigits 16 c.toNat) ++ "\x7d"

/-- Characters that a listing cannot show as they are. -/
def isHidden (c : Char) : Bool := isInvisible c || isExtending c

/-- One character inside quotes. -/
def escapeChar (c : Char) : String :=
  if c = '"' then "\\\""
  else if c = '\\' then "\\\\"
  else if c = '\n' then "\\n"
  else if c = '\r' then "\\r"
  else if c = '\t' then "\\t"
  else if c.toNat = 0 then "\\0"
  else if isHidden c then codeEscape c
  else c.toString

/-- A name in quotes. -/
def quoted (name : String) : String :=
  "\"" ++ String.join (name.toList.map escapeChar) ++ "\""

end ArrayOffload.Text
