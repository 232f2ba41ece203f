import DeskCalc.Proofs.Notation.Calls
import DeskCalc.Proofs.Reciprocals.Reading

/-!
# What stands beside a call

A call stands between two texts. Of the text before it, the last characters tell whether a term
begins with the call: so it is at the start, after an opening parenthesis and after a sign between
two operands. Of the text after it, the first characters tell whether a power, a factorial or a name
after a point applies.
-/

namespace DeskCalc

open Formula Notation

namespace Reciprocals

section sides

variable {t : Text}

end sides

section front

/-- A text before a call, once rewritten, and how it is read up to the call. -/
structure Opens (p front : Text) (read : Option (List Token)) : Prop where
  isText : IsFormulaText front
  formula : ∀ t, plainFormula (renamed p ++ t) = front ++ plainFormula t
  lex : ∀ t, IsFormulaText t → (∀ c, t.head? = some c → c ≠ '*' ∧ c ≠ '/') →
    Token.lex 0 (front ++ t) = read.bind fun ts => (Token.lex 0 t).map (ts ++ ·)
  term : ∀ ts, read = some ts → TermAfter ts ∧ ∀ tok ∈ ts, tok.isPlain = true

variable {p u : Text}

end front

end Reciprocals

end DeskCalc
