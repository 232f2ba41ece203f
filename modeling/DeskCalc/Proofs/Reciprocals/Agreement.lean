import DeskCalc.Proofs.Evaluation.Results
import DeskCalc.Proofs.Reciprocals.Sides

/-!
# Calls of reciprocal functions

A call of a reciprocal function is rewritten to a quotient without parentheses. It has the result
that the quotient has in parentheses just if a term begins with the call and neither a power nor a
factorial applies to it: at the side of any other character there are texts with two different
results. Nothing is said of calls that an attribute is asked of.
-/

namespace DeskCalc

open Formula Notation Evaluation

namespace Reciprocals

/-- The formula of a call between two texts. -/
def typed (name before argument after : Text) : Text :=
  normalize .radians (before ++ (name ++ '(' :: (argument ++ ')' :: after)))

section texts

variable {name inner before argument after front : Text} {read : Option (List Token)}

end texts

section samples

end samples

attribute [local instance] Stack.shallow

end Reciprocals

end DeskCalc
