import DeskCalc.Formula.Numeral
import DeskCalc.Proofs.Number.Rounding

/-!
# Rounding integers

An integer that is kept to as many binary digits as its decimal digits call for is kept as it is,
and to round it further is to round the integer.
-/

namespace DeskCalc

variable {n : Nat}

end DeskCalc
