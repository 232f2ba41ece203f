import DeskCalc.Formula.Value
import Mathlib.Data.Rat.Floor
import Mathlib.Tactic.Ring

/-!
# Multiples of a half turn

A product of a fraction with `π` is kept as it is, so an angle that was taken from degrees is
an exact multiple of a half turn. A trigonometric function first takes whole turns away from
such an angle, and the tangent and the cotangent take half turns away: its value depends on
nothing but the rest.
-/

namespace DeskCalc

namespace FoldedAngle

variable (q : Rat) (k : Int)

private theorem forSine_eq : forSine q =
    let r := q - (q / 2).floor * 2
    let (negated, r) := if 1 < r then (true, r - 1) else (false, r)
    ⟨negated, if 1 / 2 < r then 1 - r else r⟩ :=
  rfl

private theorem forCosine_eq : forCosine q =
    let r := q - (q / 2).floor * 2
    let r := if 1 < r then 2 - r else r
    if 1 / 2 < r then ⟨true, 1 - r⟩ else ⟨false, r⟩ :=
  rfl

private theorem forTangent_eq : forTangent q =
    let r := q - (q / 1).floor * 1
    if 1 / 2 < r then ⟨true, 1 - r⟩ else ⟨false, r⟩ :=
  rfl

/-- What remains of a fraction when a divisor is taken away as often as possible does not change
when the divisor is added. -/
private theorem rest_add {m : Rat} (hm : m ≠ 0) :
    q + k * m - ((q + k * m) / m).floor * m = q - (q / m).floor * m := by
  have hfloor : ((q + k * m) / m).floor = (q / m).floor + k := by
    rw [add_div, mul_div_cancel_right₀ _ hm]
    exact Int.floor_add_intCast (q / m) k
  rw [hfloor]
  push_cast
  ring

private theorem forSine_add : forSine (q + k * 2) = forSine q := by
  rw [forSine_eq, forSine_eq, rest_add q k (by decide)]

private theorem forCosine_add : forCosine (q + k * 2) = forCosine q := by
  rw [forCosine_eq, forCosine_eq, rest_add q k (by decide)]

private theorem forTangent_add : forTangent (q + k * 1) = forTangent q := by
  rw [forTangent_eq, forTangent_eq, rest_add q k (by decide)]

end FoldedAngle

namespace Fn

/-- The half turns after which a trigonometric function repeats. -/
def period : Fn → Rat
  | tan | cot => 1
  | _ => 2

/-- The value at a multiple of a half turn repeats after each period. -/
theorem atHalfTurns_add (f : Fn) (q : Rat) (k : Int) :
    f.atHalfTurns (q + k * f.period) = f.atHalfTurns q := by
  cases f with
  | sin | csc => simp only [atHalfTurns, period, FoldedAngle.forSine_add]
  | cos | sec => simp only [atHalfTurns, period, FoldedAngle.forCosine_add]
  | tan | cot => simp only [atHalfTurns, period, FoldedAngle.forTangent_add]
  | _ => rfl

end Fn

namespace ClosedForm

private theorem collect_pi (q : Rat) :
    (if (Scalar.exact q).isZero then 0 else collect (.exact q) [(pi, 1)]) = halfTurn q := by
  by_cases hq : q = 0
  · subst hq
    rfl
  · have hzero : Scalar.isZero (.exact q) = false := by simp [Scalar.isZero, hq]
    have hone : (Scalar.exact q = 1) ↔ q = 1 := by
      show Scalar.exact q = Scalar.exact 1 ↔ q = 1
      rw [Scalar.exact.injEq]
    simp [halfTurn, hq, hzero, collect, ofFactors, hone]
    rfl

theorem ofRat_mul_pi (q : Rat) : ofRat q * pi = halfTurn q := by
  have hproduct : ofRat q * pi =
      if (Scalar.exact (q * 1)).isZero then 0 else collect (.exact (q * 1)) [(pi, 1)] := rfl
  rw [hproduct, mul_one, collect_pi]

/-- Degrees are parts of a half turn. -/
theorem halfTurn_div (q : Rat) : halfTurn q / ofRat 180 = halfTurn (q / 180) := by
  by_cases hzero : q = 0
  · rw [hzero]
    decide +kernel
  by_cases hone : q = 1
  · rw [hone]
    decide +kernel
  have hangle : halfTurn q = factor pi 1 (ofRat q) := by
    rw [halfTurn, if_neg hzero, if_neg hone]
  have hinverse : ofRat 180 ^ ofRat (-1) = ofRat (1 / 180) := by decide +kernel
  have hproduct : factor pi 1 (ofRat q) * ofRat (1 / 180) =
      if (Scalar.exact (q * (1 / 180))).isZero then 0
      else collect (.exact (q * (1 / 180))) [(pi, 1)] := rfl
  calc halfTurn q / ofRat 180 = factor pi 1 (ofRat q) * ofRat 180 ^ ofRat (-1) := by
        rw [hangle]; rfl
    _ = halfTurn (q * (1 / 180)) := by rw [hinverse, hproduct, collect_pi]
    _ = halfTurn (q / 180) := by rw [mul_one_div]

private theorem halfTurnFactor?_halfTurn (q : Rat) : halfTurnFactor? (halfTurn q) = some q := by
  unfold halfTurn
  split
  · next hq => rw [hq]; rfl
  · split
    · next hq => rw [hq]; rfl
    · rfl

private theorem isNegated_halfTurn {q : Rat} (hq : 0 ≤ q) : isNegated (halfTurn q) = false := by
  have hsign : decide (q.num.sign < 0) = false := by
    have hnum := Rat.num_nonneg.mpr hq
    rw [decide_eq_false_iff_not, Int.sign_neg_iff]
    omega
  unfold halfTurn
  split
  · rfl
  · split
    · rfl
    · exact hsign

end ClosedForm

open ClosedForm

/-- A trigonometric function of an angle that is not negative has its value at that multiple
of a half turn. -/
theorem Fn.eval?_halfTurn {f : Fn} (hf : f = .sin ∨ f = .cos ∨ f = .tan) {q : Rat} (hq : 0 ≤ q) :
    f.eval? (halfTurn q) = f.atHalfTurns q := by
  have hfactor := halfTurnFactor?_halfTurn q
  have heval : f.eval? (halfTurn q) = some (f.simplify (halfTurn q)) := by
    have hsign := isNegated_halfTurn hq
    unfold halfTurn at hsign ⊢
    split
    · rcases hf with rfl | rfl | rfl <;> rfl
    · split
      · rcases hf with rfl | rfl | rfl <;> rfl
      · next hzero hone =>
        rw [if_neg hzero, if_neg hone] at hsign
        rcases hf with rfl | rfl | rfl <;> simp [eval?, hsign]
  have hvalue : some (f.simplify (halfTurn q)) = f.atHalfTurns q := by
    unfold simplify
    split
    · next p hp =>
      have hp' : halfTurnFactor? (halfTurn q) = some p := by
        rcases hf with rfl | rfl | rfl <;> exact hp
      obtain rfl : q = p := Option.some.inj (hfactor.symm.trans hp')
      rcases hf with rfl | rfl | rfl <;> rfl
    · next hp =>
      have hp' : halfTurnFactor? (halfTurn q) = none := by
        rcases hf with rfl | rfl | rfl <;> exact hp
      exact absurd (hfactor.symm.trans hp') (by simp)
  rw [heval, hvalue]

end DeskCalc
