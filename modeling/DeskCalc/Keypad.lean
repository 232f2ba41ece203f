import DeskCalc.Text.Digit
import DeskCalc.Text.Quoted

/-!
# The keypad

What can stand on a key, and what kind of thing it is. A function key stands for a pair: the
function itself and, while shift is on, its inverse. `classify` has a kind for every numeral, every
operator and every function on the keypad and for nothing else.
-/

namespace DeskCalc

namespace Keypad

def decimalPoint : Text := ['.']
def power : Text := ['^']
def factorial : Text := ['!']

def binaryOperators : List Text := ["*", "+", "-", "/"].map text

def numberDelimiters : List Char := ['(', ')', '*', '+', '-', '/', '^']

/-- The powers that have a key of their own. -/
def exponentSuffixes : List Text := ["^2", "^3"].map text

/-- The constants that have a key. -/
def constants : List Text := ["π", "e"].map text

/-- A function and its inverse. -/
structure Pair where
  primary : Text
  inverse : Text
  deriving DecidableEq

/-- A pair whose inverse has the letter `a` before the name. -/
def pairOf (name : String) : Pair := ⟨text name, 'a' :: text name⟩

def trigonometricPairs : List Pair := ["sin", "cos", "tan", "csc", "sec", "cot"].map pairOf
def hyperbolicPairs : List Pair := ["sinh", "cosh", "tanh", "csch", "sech", "coth"].map pairOf
def otherFunctions : List Text := ["sqrt", "log", "ln"].map text

def functionNames : List Text :=
  (trigonometricPairs ++ hyperbolicPairs).flatMap (fun p => [p.primary, p.inverse]) ++
    otherFunctions

def isDigits (t : Text) : Bool := t.all Text.isDigit

/-- Whether a literal is a plain number: digits, a point and digits, or digits with a point. -/
def isNumeric (t : Text) : Bool :=
  match t.takeWhile Text.isDigit, t.dropWhile Text.isDigit with
  | [], '.' :: fraction => !fraction.isEmpty && isDigits fraction
  | [], _ => false
  | _, [] => true
  | _, '.' :: fraction => isDigits fraction
  | _, _ => false

inductive Kind where
  | digit | decimalPoint | binaryOperator | unarySuffix | function | constant | grouping
  deriving DecidableEq, Repr

def classify (t : Text) : Option Kind :=
  if isNumeric t then some .digit
  else if t = decimalPoint then some .decimalPoint
  else if t ∈ binaryOperators ∨ t = power then some .binaryOperator
  else if t ∈ exponentSuffixes ∨ t = factorial then some .unarySuffix
  else if t ∈ functionNames then some .function
  else if t ∈ constants then some .constant
  else if t = ['('] ∨ t = [')'] then some .grouping
  else none

/-- The complaint about a literal that is not on the keypad. -/
def unknownToken (t : Text) : Text := text "Unknown token: " ++ t.quoted

namespace Pair

def select (p : Pair) (shift : Bool) : Text := if shift then p.inverse else p.primary

/-- What is written on a key: the function, with the mark of an inverse while shift is on. -/
def label (p : Pair) (shift : Bool) : Text :=
  if shift then p.primary ++ text "⁻¹" else p.primary

end Pair

end Keypad

end DeskCalc
