import DeskCalc.Keypad

/-!
# The buffer

Keys are inserted at a caret, which stands between two characters or at an end. A second decimal
point in a number and an operator right after an operator are refused: the buffer and the caret stay
as they are. A buffer that shows a failure is emptied by the next key.
-/

namespace DeskCalc

/-- What the buffer shows when there is no result. -/
def errorSentinel : Text := text "Error"

/-- A caret that does not stand in the buffer. -/
structure CursorError where
  cursor : Int
  length : Nat
  deriving DecidableEq

def CursorError.message (e : CursorError) : Text :=
  text "Cursor " ++ Text.ofInt e.cursor ++ text " outside buffer of length " ++ Text.ofNat e.length

namespace Buffer

/-- What a key inserts, and how far the caret moves. A power opens parentheses and a function
does, with the caret between them. -/
def insertion (token : Text) (isFunction : Bool) : Text × Nat :=
  if token ∈ Keypad.exponentSuffixes then (token, token.length)
  else if token = Keypad.power then (text "^()", 2)
  else if isFunction ∧ ¬Keypad.isNumeric token then (token ++ ['(', ')'], token.length + 1)
  else (token, 1)

/-- The number that a text ends in: what follows its last delimiter. -/
def currentNumber (t : Text) : Text :=
  (t.reverse.takeWhile fun c => c ∉ Keypad.numberDelimiters).reverse

def refuses (before token : Text) : Bool :=
  (token = Keypad.decimalPoint && (currentNumber before).contains '.') ||
    (token ∈ Keypad.binaryOperators && before.getLast?.any fun c => [c] ∈ Keypad.binaryOperators)

/-- Inserts a key at a caret that stands in the buffer. -/
def insertAt (buffer token : Text) (isFunction : Bool) (cursor : Nat) : Text × Nat :=
  let (prior, caret) := if buffer = errorSentinel then ([], 0) else (buffer, cursor)
  let before := prior.take caret
  let (literal, step) := insertion token isFunction
  if refuses before token then (buffer, caret)
  else (before ++ literal ++ prior.drop caret, caret + step)

def insert (buffer token : Text) (isFunction : Bool) (cursor : Int) :
    Except CursorError (Text × Nat) :=
  if 0 ≤ cursor ∧ cursor ≤ buffer.length then .ok (insertAt buffer token isFunction cursor.toNat)
  else .error ⟨cursor, buffer.length⟩

def removeLast (buffer : Text) : Text := buffer.dropLast

end Buffer

end DeskCalc
