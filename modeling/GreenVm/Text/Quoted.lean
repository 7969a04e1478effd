/-
  Texts in double quotes, and numbers in hexadecimal.

  Inside quotes a character without a shape of its own is written by its number.
-/
import GreenVm.Text.Combining
import GreenVm.Text.Invisible
import GreenVm.Text.Unassigned

namespace GreenVm

/-- Hexadecimal digits of a number. -/
def hexDigits (n : Nat) : String := String.ofList (Nat.toDigits 16 n)

/-- Whether a character has no shape of its own: it cannot be seen, is no character at all, or
    merges with the character before it. -/
def isShapeless (c : Char) : Bool := isInvisible c || isCombining c || isUnassigned c

/-- A character inside quotes. -/
def quotedChar (c : Char) : String :=
  if c = '"' ∨ c = '\\' then "\\".push c
  else if c = '\n' then "\\n"
  else if c = '\r' then "\\r"
  else if c = '\t' then "\\t"
  else if c.toNat = 0 then "\\0"
  else if isShapeless c then "\\u\x7b" ++ hexDigits c.toNat ++ "\x7d"
  else c.toString

/-- A text in quotes. -/
def quoted (text : String) : String :=
  "\"" ++ String.join (text.toList.map quotedChar) ++ "\""

end GreenVm
