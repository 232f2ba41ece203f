import DeskCalc.Proofs.Degrees.Argument
import DeskCalc.Proofs.Degrees.Beside

/-!
# A factorial in an angle

The parenthesis that ends the call of a factorial is taken for the end of the angle, so that the
factor of radians is written inside the factorial. Such a call is never the call of the whole angle
in radians: it has two operators less around its first operand.
-/

namespace DeskCalc.Formula

section tokens

variable {ts vs : List Token} {tok : Token}

end tokens

section factorial

variable {name s ds t : Text} {f : Fn}

/-- A numeral without zeros in front, wherever it stands. -/
theorem lex_digits (hds : ∀ c ∈ ds, Numeral.isPlainDigit c = true) (hne : ds ≠ [])
    (hzero : ds = ['0'] ∨ ds.head? ≠ some '0') (depth : Int) :
    Token.lex depth ds = some [.number (.integer 10 ds)] := by
  rw [Token.lex_of_next? (Token.next?_digits _ hds hne hzero)
    (by simpa using List.length_pos_iff.mpr hne), Token.lex_nil]
  rfl

end factorial

end DeskCalc.Formula
