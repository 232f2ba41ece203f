import DeskCalc.Formula.Reader
import DeskCalc.Formula.Value
import DeskCalc.Text.Blank
import DeskCalc.Text.Digit
import DeskCalc.Text.Quoted
import DeskCalc.Display
import DeskCalc.Stack

/-!
# Evaluation

A formula has a result if its value is a finite real number. An integer that is known exactly is the
result as it stands; any other number is rounded to 53 binary digits, and a result that
vanishes is the integer zero. What can go wrong is that the text is no formula, that its tree is too
high for the stack or has no value, that a free symbol remains, or that the value is infinite,
undefined or not real.
-/

namespace DeskCalc

/-- The number that a formula evaluates to. -/
inductive Outcome where
  | integer (n : Int)
  | float (x : Dyadic)

namespace Outcome

/-- The outcome as a number that can be shown. -/
def shown : Outcome → Shown
  | integer n => .exact n
  | float x => .binary x

end Outcome

inductive EvaluationError where
  | cannotEvaluate (formula : Text)
  | notNumeric (formula : Text)
  | notFiniteReal (formula : Text)
  deriving DecidableEq

namespace EvaluationError

def message : EvaluationError → Text
  | cannotEvaluate t => text "Cannot evaluate " ++ t.quoted
  | notNumeric t => text "Expression " ++ t.quoted ++ text " is not numeric"
  | notFiniteReal t => text "Expression " ++ t.quoted ++ text " is not a finite real number"

end EvaluationError

namespace Evaluation

/-- Drops the zeros at the start of a digit run. The run must not follow a digit or a point, and its
last digit stays. `free` says whether a run may start here. -/
def dropLeadingZeros (free : Bool) : Text → Text
  | [] => []
  | c :: cs =>
    if c = '0' ∧ free ∧ cs.head?.any Text.isDigit then dropLeadingZeros free cs
    else c :: dropLeadingZeros (!(Text.isDigit c || c = '.')) cs

/-- The digits a value is computed to before it is rounded. -/
def workingDigits : Nat := 70

/-- The binary digits of a result. -/
def resultDigits : Nat := 53

/-- Rounds a value to the digits of a result. An inexact number is rounded once; what had to be
computed is rounded twice, first to a few digits more. A fraction is cut off after those few digits
more before it is rounded. -/
def round (x : ClosedForm) (y : Dyadic) : Dyadic :=
  match x with
  | .number (.inexact _ _) => y.roundTo resultDigits
  | .number (.exact q) =>
    (truncatedDyadic (Scalar.functionDigits resultDigits) q.num q.den).roundTo resultDigits
  | _ => (y.roundTo (Scalar.functionDigits resultDigits)).roundTo resultDigits

/-- Rounds a value to the result. -/
def settle (formula : Text) (x : ClosedForm) : Except EvaluationError Outcome :=
  match x.integer? with
  | some n => .ok (.integer n)
  | none =>
    if x.hasSymbol then .error (.notNumeric formula)
    else
      match x.approximate workingDigits with
      | .ok ⟨some y, none⟩ =>
        let y := round x y
        .ok (if y.sign = 0 then .integer 0 else .float y)
      | .ok ⟨none, none⟩ => .ok (.integer 0)
      | .error .symbolic => .error (.notNumeric formula)
      | _ => .error (.notFiniteReal formula)

/-- The value of a tree that is not too high. -/
def value? [Stack] (x : Tree) : Option ClosedForm :=
  if x.height ≤ Stack.formula then x.value? else none

def run [Stack] (formula : Text) : Except EvaluationError Outcome :=
  match (Formula.ofText? (dropLeadingZeros true formula).strip).bind value? with
  | none => .error (.cannotEvaluate formula)
  | some x => settle formula x

end Evaluation

end DeskCalc
