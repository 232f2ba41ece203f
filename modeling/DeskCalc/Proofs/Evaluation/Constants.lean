import DeskCalc.Proofs.Evaluation.LeadingZeros
import DeskCalc.Proofs.Formula.Numerals
import DeskCalc.Proofs.Display.Values
import DeskCalc.Proofs.Number.Integers

/-!
# Numbers beside a constant

A constant behind a number is multiplied by it. Digits behind a constant are not: they belong to its
name, which then is no name that formulas know. Between two numbers the letter `e` is no constant at
all, but the mark of a power of ten.
-/

namespace DeskCalc

open Notation Evaluation Formula

/-- The keys of the two constants. -/
inductive ConstantKey where
  | pi | e
  deriving DecidableEq

namespace ConstantKey

def char : ConstantKey → Char
  | pi => piLetter
  | e => 'e'

/-- What the character is rewritten to. -/
def name : ConstantKey → Text
  | pi => text "pi"
  | e => text "e"

def constant : ConstantKey → Constant
  | pi => .pi
  | e => .e

variable (k : ConstantKey) (a b : Digits)

section names

end names

section reading

variable {s t : Text}

end reading

section values

open ClosedForm

end values

end ConstantKey

namespace Answer

section run

variable [Stack]

end run

attribute [local instance] Stack.shallow

end Answer

end DeskCalc
