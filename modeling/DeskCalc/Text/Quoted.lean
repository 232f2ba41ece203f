import DeskCalc.Text.Basic
import DeskCalc.Text.Printable

/-!
# Quoted text

How a message shows a text it complains about: between single quotes, or between double quotes if
only single ones occur in it, and with a backslash before what could be misread. Characters that are
not printable are written by their code points.
-/

namespace DeskCalc.Text

def hexDigit (n : Nat) : Char := Nat.digitChar n

/-- The last `width` hexadecimal digits of a number. -/
def hexDigits : Nat → Nat → Text
  | 0, _ => []
  | width + 1, n => hexDigits width (n / 16) ++ [hexDigit (n % 16)]

def quoteMark (t : Text) : Char := if t.contains '\'' ∧ ¬t.contains '"' then '"' else '\''

/-- A character inside quotes. -/
def quotedChar (mark c : Char) : Text :=
  if c = mark ∨ c = '\\' then ['\\', c]
  else if c = '\n' then ['\\', 'n']
  else if c = '\r' then ['\\', 'r']
  else if c = '\t' then ['\\', 't']
  else if isPrintable c then [c]
  else if c.toNat < 0x100 then '\\' :: 'x' :: hexDigits 2 c.toNat
  else if c.toNat < 0x10000 then '\\' :: 'u' :: hexDigits 4 c.toNat
  else '\\' :: 'U' :: hexDigits 8 c.toNat

def quoted (t : Text) : Text :=
  let mark := quoteMark t
  mark :: t.flatMap (quotedChar mark) ++ [mark]

end DeskCalc.Text
