import DeskCalc.Proofs.Formula.Precedence
import DeskCalc.Proofs.Formula.Tokens

/-!
# A factor at the end of an expression

A factor that is written after an expression without parentheses multiplies the last term of it.
This is the whole expression just if the expression is no sum and no difference.
-/

namespace DeskCalc

namespace Tree

/-- Whether a tree is a sum or a difference. -/
def isSum : Tree → Bool
  | binary .plus _ _ | binary .minus _ _ => true
  | _ => false

end Tree

namespace Formula

section terms

variable {es : List Element} {x y : Tree} {ps qs : List (Operator × Tree)}

/-- The sum of terms. -/
def sum (x : Tree) (ps : List (Operator × Tree)) : Tree :=
  ps.foldl (fun x p => .binary p.1 x p.2) x

end terms

end Formula

end DeskCalc
