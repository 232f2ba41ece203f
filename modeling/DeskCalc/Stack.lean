/-!
# The stack

Formulas and documents are read by programs that call themselves once for every level of nesting,
and the stack that is left to them ends that. How much is left depends on where the calculator is
called from, so it is not fixed here. It is never so little that what the calculator writes itself
could not be read, and a save stands deeper in the stack than a load.
-/

namespace DeskCalc

class Stack where
  /-- How high the tree of a formula may be. -/
  formula : Nat
  /-- How deep a document may be nested that is loaded from. -/
  loading : Nat
  /-- How deep a document may be nested that is saved to. -/
  saving : Nat
  le_formula : 1000 ≤ formula
  le_saving : 2 ≤ saving
  saving_le_loading : saving ≤ loading

/-- What a thousand calls leave when the calculator is called almost at once. -/
@[reducible]
def Stack.shallow : Stack where
  formula := 2950
  loading := 980
  saving := 975
  le_formula := by decide
  le_saving := by decide
  saving_le_loading := by decide

end DeskCalc
