import DeskCalc.Json.Basic
import DeskCalc.Text.Quoted

/-!
# Writing JSON

Every item and every member stands on a line of its own, two blanks deeper than what holds it; an
empty array or object is written without a line end. Only the quote, the backslash and the control
characters are escaped. A double is written with the fewest digits that read back. Half of a pair
of code units cannot be written, and neither can a value in which one occurs.
-/

namespace DeskCalc

namespace Double

/-- How a double is written in a document: positionally from one ten-thousandth up to `10 ^ 16`, and
always with a point or an exponent. -/
def documentLayout : Layout := ⟨-4, 16, true⟩

def document : Double → Text
  | .infinite false => text "Infinity"
  | .infinite true => text "-Infinity"
  | .notANumber => text "NaN"
  | .finite negative m e =>
    let size :=
      if m = 0 then text "0.0"
      else
        let (digits, last) := shortestDecimal m e
        let all := Text.ofNat digits
        documentLayout.write (Text.trimRight '0' all) (last + all.length - 1)
    if negative then '-' :: size else size

end Double

namespace Json

def escapeChar (c : Char) : Text :=
  if c = '"' then ['\\', '"']
  else if c = '\\' then ['\\', '\\']
  else if c = '\n' then ['\\', 'n']
  else if c = '\r' then ['\\', 'r']
  else if c = '\t' then ['\\', 't']
  else if c = '\x0c' then ['\\', 'f']
  else if c = '\x08' then ['\\', 'b']
  else if c.toNat < 0x20 then '\\' :: 'u' :: Text.hexDigits 4 c.toNat
  else [c]

/-- What stands at one place of a text, inside quotes. -/
def escapeDocChar : DocChar → Text
  | .char c => escapeChar c
  | .half _ => []

/-- A text between quotes. -/
def writeString (s : DocText) : Text := '"' :: s.flatMap escapeDocChar ++ ['"']

def newLine (depth : Nat) : Text := '\n' :: List.replicate (2 * depth) ' '

mutual

/-- The text of a value that stands at the given depth. -/
def write (depth : Nat) : Json → Text
  | null => text "null"
  | bool true => text "true"
  | bool false => text "false"
  | integer n => Text.ofInt n
  | number x => x.document
  | string s => writeString s
  | array [] => ['[', ']']
  | array (x :: xs) =>
    '[' :: newLine (depth + 1) ++ write (depth + 1) x ++ writeItems (depth + 1) xs ++
      newLine depth ++ [']']
  | object [] => ['\x7b', '\x7d']
  | object ((k, v) :: ms) =>
    '\x7b' :: newLine (depth + 1) ++ writeString k ++ [':', ' '] ++ write (depth + 1) v ++
      writeMembers (depth + 1) ms ++ newLine depth ++ ['\x7d']

/-- The items after the first one, each after a comma. -/
def writeItems (depth : Nat) : List Json → Text
  | [] => []
  | x :: xs => ',' :: newLine depth ++ write depth x ++ writeItems depth xs

/-- The members after the first one, each after a comma. -/
def writeMembers (depth : Nat) : List (DocText × Json) → Text
  | [] => []
  | (k, v) :: ms =>
    ',' :: newLine depth ++ writeString k ++ [':', ' '] ++ write depth v ++ writeMembers depth ms

end

mutual

/-- Whether every text within a value is plain. -/
def isPlain : Json → Bool
  | string s => s.isPlain
  | array items => itemsArePlain items
  | object members => membersArePlain members
  | _ => true

def itemsArePlain : List Json → Bool
  | [] => true
  | x :: xs => isPlain x && itemsArePlain xs

def membersArePlain : List (DocText × Json) → Bool
  | [] => true
  | (k, v) :: ms => k.isPlain && isPlain v && membersArePlain ms

end

/-- The text of a document, if it can be written. -/
def toText? (x : Json) : Option Text := if x.isPlain then some (write 0 x) else none

end Json

end DeskCalc
