import DeskCalc.Number.Rounding

/-!
# Binary numbers of bounded precision

A literal with a point or an exponent, and everything computed from one, is a dyadic number
together with the number of bits that its precision allows. The operations compute the exact
result and round it once to the larger of the two precisions. Exponents have no bounds, so that
nothing overflows here.
-/

namespace DeskCalc

-- The powers meant here are those of the core library, whatever else is in scope.
attribute [local instance (high)] instPowNat

/-- The quotient `num / den` rounded to `bits` significant binary digits. -/
def nearestDyadic (bits : Nat) (num : Int) (den : Nat) : Dyadic :=
  if num = 0 then 0
  else
    let e := binaryExponent num.natAbs den - bits + 1
    .ofIntWithPrec (num.sign * divNearestScaled 2 e num.natAbs den) (-e)

/-- The quotient `num / den` cut off after `bits` significant binary digits. -/
def truncatedDyadic (bits : Nat) (num : Int) (den : Nat) : Dyadic :=
  if num = 0 then 0
  else
    let e := binaryExponent num.natAbs den - bits + 1
    .ofIntWithPrec (num.sign * divFloorScaled 2 e num.natAbs den) (-e)

/-- `n / 2 ^ k` rounded to `bits` significant binary digits. -/
def nearestDyadicShifted (bits : Nat) (n k : Int) : Dyadic :=
  let size := n.natAbs.log2 + 1
  if size ≤ bits then .ofIntWithPrec n k
  else
    let drop := size - bits
    .ofIntWithPrec (n.sign * divNearest n.natAbs (2 ^ drop)) (k - drop)

end DeskCalc

namespace Dyadic

/-- The exponent of the greatest power of two that is at most the absolute value; `0` for zero. -/
def magnitude : Dyadic → Int
  | .zero => 0
  | .ofOdd n k _ => n.natAbs.log2 - k

/-- Rounds to `bits` significant binary digits. -/
def roundTo (bits : Nat) : Dyadic → Dyadic
  | .zero => 0
  | .ofOdd n k hn =>
    if n.natAbs.log2 < bits then .ofOdd n k hn else DeskCalc.nearestDyadicShifted bits n k

/-- The sign: `-1`, `0` or `1`. -/
def sign : Dyadic → Int
  | .zero => 0
  | .ofOdd n _ _ => n.sign

def abs (x : Dyadic) : Dyadic := if x.sign < 0 then -x else x

/-- Whether the absolute value is below one. -/
def isFraction (x : Dyadic) : Bool := x.sign = 0 || x.magnitude < 0

/-- Whether the absolute value is at most one. -/
def isAtMostOne (x : Dyadic) : Bool := x.isFraction || x.abs = 1

/-- The integer part of `x * 2 ^ w`, rounded down. -/
def toFixed (w : Int) : Dyadic → Int
  | .zero => 0
  | .ofOdd n k _ =>
    match w - k with
    | .ofNat s => n <<< s
    | .negSucc s => n >>> (s + 1)

def isInteger : Dyadic → Bool
  | .zero => true
  | .ofOdd _ k _ => k ≤ 0

/-- The sum rounded to `bits` digits. A summand too small to matter only decides on which side
of the other one the sum lies, so the shift between the two never exceeds the precision. -/
def addTo (bits : Nat) (x y : Dyadic) : Dyadic :=
  if x.sign = 0 then y.roundTo bits
  else if y.sign = 0 then x.roundTo bits
  else
    let far := (bits : Int) + 4
    let nudge (big small : Dyadic) : Dyadic :=
      let w := far + big.precision.getD 0 + (bits : Int)
      (Dyadic.ofIntWithPrec (big.toFixed w + small.sign) w).roundTo bits
    match x, y with
    | .ofOdd _ kx _, .ofOdd _ ky _ =>
      if y.magnitude + far < x.magnitude ∧ y.magnitude + far < -kx then nudge x y
      else if x.magnitude + far < y.magnitude ∧ x.magnitude + far < -ky then nudge y x
      else (x + y).roundTo bits
    | _, _ => (x + y).roundTo bits

def mulTo (bits : Nat) (x y : Dyadic) : Dyadic := (x * y).roundTo bits

/-- The quotient rounded to `bits` digits; division by zero gives zero, callers exclude it. -/
def divTo (bits : Nat) (x y : Dyadic) : Dyadic :=
  match x, y with
  | .ofOdd n k _, .ofOdd m j _ =>
    (DeskCalc.nearestDyadic bits (n * m.sign) m.natAbs) >>> (k - j)
  | _, _ => 0

/-- The square root of a number that is not negative, rounded to about `bits` digits. -/
def sqrtTo (bits : Nat) : Dyadic → Dyadic
  | .zero => 0
  | .ofOdd n k _ =>
    -- an even shift that leaves at least `2 * bits + 4` digits under the root
    let need : Int := 2 * bits + 4 - n.natAbs.log2
    let shift : Int := if (need - k) % 2 = 0 then need else need + 1
    let radicand : Nat := match shift with
      | .ofNat s => n.natAbs <<< s
      | .negSucc s => n.natAbs >>> (s + 1)
    let half := (shift + k) / 2
    let root : Nat := radicand.sqrt
    -- one more digit records whether the root was exact
    let exact : Bool := root * root == radicand && 0 ≤ shift
    (Dyadic.ofIntWithPrec (2 * (root : Int) + if exact then 0 else 1) (half + 1)).roundTo bits

/-- Powers by repeated squaring, each product cut to `bits` digits. -/
def powNatTo (bits : Nat) (x : Dyadic) (n : Nat) : Dyadic :=
  if n = 0 then 1
  else
    let half := powNatTo bits x (n / 2)
    let square := mulTo bits half half
    if n % 2 = 0 then square else mulTo bits square x

/-- An integer power rounded to `bits` digits; a power of zero with a negative exponent is
excluded by callers. -/
def powIntTo (bits : Nat) (x : Dyadic) (n : Int) : Dyadic :=
  let guard := bits + 4 * n.natAbs.log2 + 10
  let size := match x with
    | .zero => 0
    | .ofOdd m _ _ => (m.natAbs.log2 + 1) * n.natAbs
  let p := if size < 1000 then x ^ n.natAbs else powNatTo guard x n.natAbs
  if 0 ≤ n then p.roundTo bits else divTo bits 1 p

end Dyadic
