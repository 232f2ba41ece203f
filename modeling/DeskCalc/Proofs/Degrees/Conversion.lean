import DeskCalc.Proofs.Arithmetic.Reading
import DeskCalc.Proofs.Degrees.Factorials
import DeskCalc.Proofs.Evaluation.Results
import DeskCalc.Proofs.Notation.Angles

/-!
# Angles in degrees

In degrees the argument of a sine, cosine or tangent should be taken as that many degrees. This is
so just if the argument is neither a sum nor a difference and has no factorial of digits: only the
last term of a sum is converted, and the conversion of a factorial is written inside it.
-/

namespace DeskCalc

open Formula Evaluation

namespace Degrees

/-- The formula of the call of a function on an angle that is typed in degrees. -/
def typed (name angle : Text) : Text :=
  Notation.normalize .degrees (name ++ '(' :: (angle ++ [')']))

section texts

variable {name angle t : Text} {f : Fn} {x : Tree}

/-- A call has no blanks at its ends. -/
theorem strip_call (hname : IsFormulaText name) (t : Text) :
    (name ++ '(' :: (t ++ [')'])).strip = name ++ '(' :: (t ++ [')']) := by
  refine Text.strip_eq (fun c hc => ?_) fun c hc => ?_
  · cases name with
    | nil =>
      obtain rfl : '(' = c := Option.some.inj hc
      decide
    | cons d name =>
      obtain rfl : d = c := Option.some.inj hc
      exact isBlank_of_formulaChar (hname d List.mem_cons_self)
  · have hlast : (name ++ '(' :: (t ++ [')'])).getLast? = some ')' := by
      rw [← List.cons_append, ← List.append_assoc, List.getLast?_concat]
    obtain rfl : ')' = c := Option.some.inj (hlast.symm.trans hc)
    decide

theorem dropLeadingZeros_call (hname : name ∈ Notation.angleFunctions) (t : Text) :
    dropLeadingZeros true (name ++ '(' :: t) = name ++ '(' :: dropLeadingZeros true t := by
  obtain ⟨-, -, -, hname, -⟩ := Notation.angleFunctions_spec name hname
  rw [dropLeadingZeros_append (by decide), hname]
  rfl

theorem dropLeadingZeros_radians (s t : Text) :
    dropLeadingZeros true (s ++ (text " * pi/180)" ++ t)) =
      dropLeadingZeros true s ++ (text " * pi/180)" ++ dropLeadingZeros true t) := by
  have hfactor : dropLeadingZeros true (text " * pi/180)" ++ t) =
      text " * pi/180)" ++ dropLeadingZeros true t := by
    have hsplit := dropLeadingZeros_append (x := ')') (by decide) true (text " * pi/180") t
    have hclosed : dropLeadingZeros true (text " * pi/180") = text " * pi/180" := by decide
    rw [hclosed] at hsplit
    exact hsplit
  have hspace : dropLeadingZeros true (text " * pi/180)" ++ t) =
      ' ' :: dropLeadingZeros true (text "* pi/180)" ++ t) := rfl
  rw [← hfactor, hspace]
  exact dropLeadingZeros_append (by decide) true s _

end texts

section angles

variable {name angle : Text} {f : Fn} {x : Tree}

attribute [local instance] Stack.shallow

end angles

end Degrees

end DeskCalc
