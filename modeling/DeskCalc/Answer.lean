import DeskCalc.Buffer
import DeskCalc.Evaluation
import DeskCalc.History
import DeskCalc.Notation
import DeskCalc.Text.Stored

/-!
# The equals key

Pressing the key rewrites the expression in the buffer, evaluates it and shows the result, with the
caret at its end, and records the expression. If there is no result the buffer shows that, and the
history stays as it was.
-/

namespace DeskCalc

structure Answer where
  buffer : Text
  cursor : Nat
  ok : Bool
  history : List DocText

namespace Answer

/-- The expression that the key evaluates: what the buffer holds, unless that is a failure. -/
def expression (buffer : Text) : Text := if buffer = errorSentinel then [] else buffer

/-- The answer when there is a result to be shown, or none. -/
def ofResult (limit : Int) (expression : Text) (history : List DocText) : Option Text → Answer
  | some shown => ⟨shown, shown.length, true, History.record limit (.ofText expression) history⟩
  | none => ⟨errorSentinel, errorSentinel.length, false, history⟩

/-- The answer with a given way of evaluating formulas. -/
def runWith (evaluate : Text → Option Shown) (unit : AngleUnit) (limit : Int)
    (history : List DocText) (buffer : Text) : Answer :=
  let e := expression buffer
  ofResult limit e history ((evaluate (Notation.normalize unit e)).bind Display.text?)

/-- The number that a formula evaluates to, if it does. -/
def evaluate [Stack] (formula : Text) : Option Shown :=
  (Evaluation.run formula).toOption.map (·.shown)

/-- The answer to the equals key. -/
def run [Stack] (unit : AngleUnit) (limit : Int) (history : List DocText) (buffer : Text) :
    Answer :=
  runWith evaluate unit limit history buffer

end Answer

end DeskCalc
