import DeskCalc.Proofs.Display.Reading
import DeskCalc.Proofs.Display.Rounded
import DeskCalc.Proofs.Json.Tidy

/-!
# The value of a shown number

A numeral, with a minus sign or without, is rounded once or twice on its way to the display: a
decimal when it is read and again to the digits of a result, an integer only to these. What is shown
then is close to what the numeral stands for.
-/

namespace DeskCalc

section sign

/-- A number or its opposite. -/
def withMinus (negative : Bool) (q : ℚ) : ℚ := if negative then -q else q

theorem abs_withMinus (negative : Bool) (q : ℚ) : |withMinus negative q| = |q| := by
  cases negative <;> simp [withMinus]

theorem withMinus_sub (negative : Bool) (p q : ℚ) :
    withMinus negative p - withMinus negative q = withMinus negative (p - q) := by
  cases negative with
  | false => simp [withMinus]
  | true =>
    simp only [withMinus, if_true]
    ring

end sign

section values

/-- An integer that is known exactly is shown if it can be written in full. -/
theorem Display.text?_exact_intCast (n : Int) :
    text? (.exact (n : Rat)) =
      if n.natAbs < 10 ^ Text.digitLimit then some (rounded (nearestDyadic 53 n 1)) else none := by
  have hlong : isTooLong (n : Rat) = decide (10 ^ Text.digitLimit ≤ n.natAbs) := by
    rw [isTooLong, Rat.num_intCast, Rat.den_intCast, decide_eq_true rfl, Bool.true_and]
  rw [text?, hlong, Rat.num_intCast, Rat.den_intCast]
  by_cases hn : n.natAbs < 10 ^ Text.digitLimit
  · rw [if_pos hn, decide_eq_false (Nat.not_le.mpr hn), if_neg (by simp)]
  · rw [if_neg hn, decide_eq_true (Nat.not_lt.mp hn), if_pos rfl]

end values

section nearness

/-- A number as close to digits with a sign as two roundings leave it. -/
def IsNearSigned (negative : Bool) (z : Dyadic) (D : ℚ) : Prop :=
  |z.toRat - withMinus negative D| * (4 * 10 ^ 15) ≤ D

variable {negative : Bool} {z : Dyadic} {D : ℚ}

theorem IsNearSigned.isNear (hpos : 0 < D) (h : IsNearSigned negative z D) :
    Display.IsNear z D ∧ decide (z.toRat < 0) = negative := by
  unfold IsNearSigned at h
  have hsize : |withMinus negative D| = D := by rw [abs_withMinus, abs_of_pos hpos]
  have hle := abs_abs_sub_abs_le z.toRat (withMinus negative D)
  rw [hsize] at hle
  refine ⟨(mul_le_mul_of_nonneg_right hle (by norm_num)).trans h, ?_⟩
  obtain ⟨hlow, hhigh⟩ := abs_le.mp ((le_div_iff₀ (by norm_num)).mpr h)
  cases negative with
  | false =>
    rw [withMinus, if_neg (by simp)] at hlow
    exact decide_eq_false (by linarith)
  | true =>
    rw [withMinus, if_pos rfl] at hhigh
    exact decide_eq_true (by linarith)

end nearness

namespace Numeral

end Numeral

namespace Json.Decimal

variable (d : Decimal)

end Json.Decimal

end DeskCalc
