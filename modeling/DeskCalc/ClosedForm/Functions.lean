import DeskCalc.ClosedForm.Arithmetic

/-!
# Functions of closed forms

A function of a closed form is simplified where its value has a simpler form: at the familiar
multiples of `π`, at the arguments where an inverse function yields such a multiple, at an inverse
function of the same family, and at infinity. A function of an inexact number is computed at once.
Everything else stays as it stands and is left to approximation.
-/

namespace DeskCalc

namespace ClosedForm

/-- A value that is bounded but has no limit. It counts as unknown, like a free symbol. -/
def indefinite : ClosedForm := symbol []

def halfTurn (q : Rat) : ClosedForm :=
  if q = 0 then 0 else if q = 1 then pi else factor pi 1 (ofRat q)

/-- The exact value of a binary number whose fraction is zero or a power of two. -/
def shortFraction? (x : Dyadic) : Option Rat :=
  let q := x.toRat
  let size := if q < 0 then -q else q
  let fraction := size - size.floor
  if fraction = 0 ∨ fraction.num = 1 then some q else none

/-- The factor `q` of a form `q π`. An inexact factor counts if it is a short binary fraction. -/
def halfTurnFactor? (x : ClosedForm) : Option Rat :=
  match x.factors with
  | (c, []) => if c.isZero then some 0 else none
  | (.exact q, [(pi, y)]) => if y = 1 then some q else none
  | (.inexact d _, [(pi, y)]) => if y = 1 then shortFraction? d else none
  | _ => none

/-- Chooses one of a form and its negative. -/
def isNegated (x : ClosedForm) : Bool :=
  match x with
  | term c _ _ => c.sign < 0
  | x => x.factors.1.sign < 0

/-- The greatest integer that is at most a real form. -/
def floor? (x : ClosedForm) : Option Int :=
  match x with
  | number (.exact q) => some q.floor
  | number (.inexact y _) => some (y.toFixed 0)
  | x => do
    let size ← match approximate 24 x with
      | .ok ⟨some y, none⟩ => some y.magnitude.toNat
      | .ok ⟨none, none⟩ => some 0
      | _ => none
    let value ← match approximate (size + 40) x with
      | .ok z => some (z.re.getD 0)
      | .error _ => none
    let nearest := (value + Dyadic.ofIntWithPrec 1 1).toFixed 0
    match (x - ofRat nearest).sign? with
    | some s => some (if s < 0 then nearest - 1 else nearest)
    | none => some (value.toFixed 0)

/-- What remains of a real form after whole multiples of another are taken away. -/
def remainder? (x y : ClosedForm) : Option ClosedForm :=
  (x / y).floor?.map fun k => x - ofRat k * y

end ClosedForm

open ClosedForm

/-- An angle of at most a quarter circle, `q π`, and whether the value of the function there has to
be negated. -/
structure FoldedAngle where
  negated : Bool
  q : Rat

namespace FoldedAngle

private def modulo (q m : Rat) : Rat := q - (q / m).floor * m

def forSine (q : Rat) : FoldedAngle :=
  let r := modulo q 2
  let (negated, r) := if 1 < r then (true, r - 1) else (false, r)
  ⟨negated, if 1 / 2 < r then 1 - r else r⟩

def forCosine (q : Rat) : FoldedAngle :=
  let r := modulo q 2
  let r := if 1 < r then 2 - r else r
  if 1 / 2 < r then ⟨true, 1 - r⟩ else ⟨false, r⟩

def forTangent (q : Rat) : FoldedAngle :=
  let r := modulo q 1
  if 1 / 2 < r then ⟨true, 1 - r⟩ else ⟨false, r⟩

/-- Puts the sign back. -/
def restore (a : FoldedAngle) (x : ClosedForm) : ClosedForm := if a.negated then -x else x

end FoldedAngle

/-- The cosine of `q π` in roots, for `0 ≤ q ≤ 1`: of halves, thirds and fifths of a half turn and
what halving these angles twice leads to. -/
def cosineInRoots : Nat → Rat → Option ClosedForm
  | 0, _ => none
  | fuel + 1, q =>
    if 1 / 2 < q then (cosineInRoots fuel (1 - q)).map (-·)
    else if q = 0 then some 1
    else if q = 1 / 2 then some 0
    else if q = 1 / 3 then some (ofRat (1 / 2))
    else if q = 1 / 5 then some (sqrt (ofRat 5) / ofRat 4 + ofRat (1 / 4))
    else if q = 2 / 5 then some (sqrt (ofRat 5) / ofRat 4 - ofRat (1 / 4))
    else if q.den ∈ [4, 6, 8, 10, 12] then
      (cosineInRoots fuel (2 * q)).map fun c => sqrt (c / ofRat 2 + ofRat (1 / 2))
    else none

/-- The cosine of an angle of at most a quarter circle, in roots. -/
def cosine? (q : Rat) : Option ClosedForm := cosineInRoots 7 q

/-- The sine of an angle of at most a quarter circle, in roots. -/
def sine? (q : Rat) : Option ClosedForm := cosine? (1 / 2 - q)

namespace Fn

def isOdd : Fn → Bool
  | sin | tan | csc | cot | asin | atan | acsc | acot
  | sinh | tanh | csch | coth | asinh | atanh | acsch | acoth => true
  | _ => false

def isEven : Fn → Bool
  | cos | sec | cosh | sech => true
  | _ => false

/-- A trigonometric function at `q π`. -/
def atHalfTurns (f : Fn) (q : Rat) : Option ClosedForm :=
  let settle (a : FoldedAngle) (y : Option ClosedForm) : Option ClosedForm :=
    some (a.restore (y.getD (apply f (halfTurn a.q))))
  let ratio (a : FoldedAngle) (num den : Option ClosedForm) : Option ClosedForm :=
    settle a (do
      let n ← num
      let d ← den
      return n / d)
  match f with
  | sin => let a := FoldedAngle.forSine q; settle a (sine? a.q)
  | cos => let a := FoldedAngle.forCosine q; settle a (cosine? a.q)
  | csc => let a := FoldedAngle.forSine q; ratio a (some 1) (sine? a.q)
  | sec => let a := FoldedAngle.forCosine q; ratio a (some 1) (cosine? a.q)
  | tan => let a := FoldedAngle.forTangent q; ratio a (sine? a.q) (cosine? a.q)
  | cot => let a := FoldedAngle.forTangent q; ratio a (cosine? a.q) (sine? a.q)
  | _ => none

/-- `√(1 - y²)`, the other leg of a right triangle with hypotenuse one. -/
private def otherLeg (y : ClosedForm) : ClosedForm := sqrt (1 - y ^ ofRat 2)

/-- `√(1 + y²)`, the hypotenuse of a right triangle. -/
private def hypotenuse (y : ClosedForm) : ClosedForm := sqrt (1 + y ^ ofRat 2)

/-- `√(y - 1) √(y + 1)`. -/
private def hyperbolicLeg (y : ClosedForm) : ClosedForm := sqrt (y - 1) * sqrt (y + 1)

/-- Sine and cosine of an inverse trigonometric function, as quotients with a common divisor. -/
private def sineCosineOfInverse (g : Fn) (y : ClosedForm) : Option (ClosedForm × ClosedForm) :=
  match g with
  | asin => some (y, otherLeg y)
  | acos => some (otherLeg y, y)
  | atan => some (y / hypotenuse y, 1 / hypotenuse y)
  | acot => some (1 / (hypotenuse (1 / y) * y), 1 / hypotenuse (1 / y))
  | acsc => some (1 / y, otherLeg (1 / y))
  | asec => some (otherLeg (1 / y), 1 / y)
  | _ => none

/-- Hyperbolic sine and cosine of an inverse hyperbolic function. -/
private def hyperbolicOfInverse (g : Fn) (y : ClosedForm) : Option (ClosedForm × ClosedForm) :=
  match g with
  | asinh => some (y, hypotenuse y)
  | acosh => some (hyperbolicLeg y, y)
  | atanh => some (y / otherLeg y, 1 / otherLeg y)
  | acoth => some (1 / hyperbolicLeg y, y / hyperbolicLeg y)
  | _ => none

/-- The tangent of an inverse function, and its inverse. -/
private def tangentOfInverse (g : Fn) (y : ClosedForm) : Option (ClosedForm × ClosedForm) :=
  match g with
  | atan => some (y, 1 / y)
  | acot => some (1 / y, y)
  | asin => some (y / otherLeg y, otherLeg y / y)
  | acos => some (otherLeg y / y, y / otherLeg y)
  | acsc => some (1 / (otherLeg (1 / y) * y), otherLeg (1 / y) * y)
  | asec => some (otherLeg (1 / y) * y, 1 / (otherLeg (1 / y) * y))
  | atanh => some (y, 1 / y)
  | acoth => some (1 / y, y)
  | asinh => some (y / hypotenuse y, hypotenuse y / y)
  | acosh => some (hyperbolicLeg y / y, y / hyperbolicLeg y)
  | _ => none

private def isTrigonometric : Fn → Bool
  | sin | cos | tan | csc | sec | cot => true
  | _ => false

/-- A function of an inverse function. -/
def ofInverse (f g : Fn) (y : ClosedForm) : Option ClosedForm :=
  match f with
  | sin => (sineCosineOfInverse g y).map (·.1)
  | cos => (sineCosineOfInverse g y).map (·.2)
  | csc => if g = acsc then some y else (sineCosineOfInverse g y).map (1 / ·.1)
  | sec => if g = asec then some y else (sineCosineOfInverse g y).map (1 / ·.2)
  | sinh => (hyperbolicOfInverse g y).map (·.1)
  | cosh => (hyperbolicOfInverse g y).map (·.2)
  | csch => if g = acsch then some y else (hyperbolicOfInverse g y).map (1 / ·.1)
  | sech => if g = asech then some y else (hyperbolicOfInverse g y).map (1 / ·.2)
  | tan | cot =>
    if g ∈ [atanh, acoth, asinh, acosh] then none
    else (tangentOfInverse g y).map fun (t, c) => if f = tan then t else c
  | tanh | coth =>
    if g ∈ [atanh, acoth, asinh, acosh] then
      (tangentOfInverse g y).map fun (t, c) => if f = tanh then t else c
    else none
  | _ => none

/-- The angle in the principal range of an inverse function at which the function has the same
value as at `a`. -/
private def principalAngle (f : Fn) (a : ClosedForm) : Option ClosedForm := do
  let isAbove (x y : ClosedForm) : Bool := (x - y).sign? = some 1
  let _ ← a.sign?
  match f with
  | sin | csc =>
    let x ← remainder? a (halfTurn 2)
    let x := if isAbove x pi then pi - x else x
    let x := if isAbove x (halfTurn (1 / 2)) then pi - x else x
    return if isAbove (halfTurn (-1 / 2)) x then -pi - x else x
  | cos | sec =>
    let x ← remainder? a (halfTurn 2)
    return if isAbove x pi then halfTurn 2 - x else x
  | tan | cot =>
    let x ← remainder? a pi
    return if isAbove x (halfTurn (1 / 2)) then x - pi else x
  | _ => none

/-- An inverse function of the function that it inverts. -/
def invert (f g : Fn) (a : ClosedForm) : Option ClosedForm :=
  match f, g with
  | asin, sin | acsc, csc | acos, cos | asec, sec | atan, tan | acot, cot => principalAngle g a
  | asin, cos | acos, sin => (principalAngle g a).map fun x => halfTurn (1 / 2) - x
  | asinh, sinh | atanh, tanh => if a.sign?.isSome then some a else none
  | acosh, cosh => a.sign?.map fun s => if s < 0 then -a else a
  | _, _ => none

/-- The angles of at most a quarter circle whose functions have values in roots. -/
private def familiarAngles : List Rat :=
  [0, 1 / 12, 1 / 10, 1 / 8, 1 / 6, 1 / 5, 1 / 4, 3 / 10, 1 / 3, 3 / 8, 2 / 5, 5 / 12, 1 / 2]

/-- The familiar angle where a function has the given value. -/
private def angleWhere (value : Rat → Option ClosedForm) (x : ClosedForm) : Option Rat :=
  familiarAngles.find? fun q => value q = some x

/-- An inverse trigonometric function at a value that is not negative. -/
private def angleOf (f : Fn) (x : ClosedForm) : Option Rat :=
  let complement (q : Rat) : Rat := 1 / 2 - q
  match f with
  | asin => angleWhere sine? x
  | acos => (angleWhere sine? x).map complement
  | atan => angleWhere (tan.atHalfTurns ·) x
  | acot => (angleWhere (tan.atHalfTurns ·) x).map complement
  | acsc => angleWhere (csc.atHalfTurns ·) x
  | asec => (angleWhere (csc.atHalfTurns ·) x).map complement
  | _ => none

/-- The values of inverse functions that are familiar angles or simple logarithms. -/
def specialValue? (f : Fn) (x : ClosedForm) : Option ClosedForm :=
  let imaginary (q : Rat) : ClosedForm := halfTurn q * imaginaryUnit
  match f with
  | asec | acsc =>
    if x = 0 then some (infinity .unsigned) else byAngle
  | asin | acos | atan | acot => byAngle
  | asinh =>
    if x = 0 then some 0 else if x = 1 then some (apply .log (sqrt (ofRat 2) + 1)) else none
  | acosh =>
    if x = 0 then some (imaginary (1 / 2))
    else if x = 1 then some 0
    else if x = ofRat (-1) then some (imaginary 1) else none
  | atanh => if x = 0 then some 0 else if x = 1 then some (infinity .positive) else none
  | acoth =>
    if x = 0 then some (imaginary (1 / 2))
    else if x = 1 then some (infinity .positive) else none
  | asech =>
    if x = 0 then some (infinity .positive)
    else if x = 1 then some 0
    else if x = ofRat (-1) then some (imaginary 1) else none
  | acsch =>
    if x = 0 then some (infinity .unsigned)
    else if x = 1 then some (apply .log (sqrt (ofRat 2) + 1)) else none
  | sinh | tanh => if x = 0 then some 0 else none
  | cosh | sech => if x = 0 then some 1 else none
  | csch | coth => if x = 0 then some (infinity .unsigned) else none
  | _ => none
where
  byAngle : Option ClosedForm :=
    if isNegated x then
      match f with
      | acos | asec => (angleOf f (-x)).map fun q => halfTurn (1 - q)
      | _ => (angleOf f (-x)).map fun q => halfTurn (-q)
    else (angleOf f x).map halfTurn

/-- A function at the infinite value without direction. -/
def atUnsignedInfinity : Fn → ClosedForm
  | asin | acos | asinh | acosh | log | factorial => infinity .unsigned
  | acot | acoth | acsc | acsch => 0
  | asec => halfTurn (1 / 2)
  | atan | atanh | asech => indefinite
  | _ => undefined

/-- A function at the end of the real line. -/
def atPositiveInfinity : Fn → ClosedForm
  | sin | cos | tan | csc | sec | cot => indefinite
  | atan | asec => halfTurn (1 / 2)
  | acot | acsc | acoth | acsch | csch | sech => 0
  | tanh | coth => 1
  | sinh | cosh | asinh | acosh | log | factorial => infinity .positive
  | atanh => halfTurn (-1 / 2) * imaginaryUnit
  | asech => halfTurn (1 / 2) * imaginaryUnit
  | _ => infinity .unsigned

/-- A function at the other end of the real line. -/
def atNegativeInfinity (f : Fn) : ClosedForm :=
  match f with
  | log | acosh => infinity .positive
  | asec => halfTurn (1 / 2)
  | asech => f.atPositiveInfinity
  | factorial => undefined
  | f => if f.isOdd then -f.atPositiveInfinity else f.atPositiveInfinity

end Fn

/-- The logarithm of a form. A negative number has the logarithm of its absolute value plus `π i`,
and a power of `e` with a real exponent has that exponent. -/
def ClosedForm.log (x : ClosedForm) : ClosedForm :=
  let byPower : Option ClosedForm := match x with
    | factor e y rest => if rest = 1 ∧ y.sign?.isSome then some y else none
    | e => some 1
    | _ => none
  match byPower with
  | some y => y
  | none =>
    if x.sign? = some (-1) then halfTurn 1 * imaginaryUnit + positive (-x) else positive x
where
  positive (x : ClosedForm) : ClosedForm :=
    match x with
    | number (.exact q) =>
      if q = 0 then infinity .unsigned
      else if q = 1 then 0
      else if q.num = 1 then -(apply .log (ofRat q.den))
      else apply .log x
    | number (.inexact y bits) =>
      if y.sign = 0 then infinity .unsigned
      else number (.ofFunction bits (Elementary.log (bits + 24) y))
    | x => apply .log x

/-- The product of the natural numbers from `low + 1` to `low + count`, split in halves. -/
def risingProduct (low count : Nat) : Nat :=
  if count = 0 then 1
  else if count = 1 then low + 1
  else risingProduct low (count / 2) * risingProduct (low + count / 2) (count - count / 2)

def factorialOf (n : Nat) : Nat := risingProduct 0 n

/-- `n!!`, the product of every second number down from `n`. -/
def doubleFactorialOf (n : Nat) : Nat :=
  if n ≤ 1 then 1 else n * doubleFactorialOf (n - 2)

namespace Fn

/-- The factorial; of an inexact negative integer there is none. -/
def factorialForm (x : ClosedForm) : Option ClosedForm :=
  match x with
  | number (.exact q) =>
    if q.den = 1 then
      if q.num < 0 then some (infinity .unsigned) else some (ofRat (factorialOf q.num.toNat))
    else some (apply factorial x)
  | number (.inexact y bits) =>
    if y.sign = 0 then some 1
    else if y.isInteger ∧ y.sign < 0 then none
    else some (number (.ofFunction bits (Elementary.gamma (bits + 24) (y + 1))))
  | x => some (apply factorial x)

/-- The double factorial of a natural number or of an odd negative integer; other numbers have
none. -/
def doubleFactorialForm (x : ClosedForm) : Option ClosedForm :=
  match x with
  | number (.exact q) =>
    if q.den ≠ 1 then none
    else if 0 ≤ q.num then some (ofRat (doubleFactorialOf q.num.toNat))
    else if q.num % 2 = 0 then none
    else
      let n := q.num.natAbs
      let sign : Rat := if (n + 1) / 2 % 2 = 0 then 1 else -1
      some (ofRat (q.num * sign / doubleFactorialOf n))
  | number (.inexact _ _) => none
  | infinity .unsigned => some (infinity .unsigned)
  | infinity _ => none
  | undefined => none
  | x => some (apply doubleFactorial x)

/-- A function of an inexact number other than zero, computed to the precision of the number. -/
def ofInexact (f : Fn) (x : Dyadic) (bits : Nat) : ClosedForm :=
  match f.approximate (bits + 24) fun _ => .ok (.ofReal x) with
  | .ok z => ofApproximation bits (z.roundTo (Scalar.functionDigits bits))
  | .error .undefined => undefined
  | .error _ => infinity .unsigned

/-- The rules that do not depend on whether the argument is negated. -/
def simplify (f : Fn) (x : ClosedForm) : ClosedForm :=
  match if f.isTrigonometric then halfTurnFactor? x else none with
  | some q => (f.atHalfTurns q).getD (apply f x)
  | none =>
    match f.specialValue? x with
    | some y => y
    | none =>
      match x with
      | apply g y => ((f.ofInverse g y).or (f.invert g y)).getD (apply f x)
      | x => apply f x

/-- The value of a function, if it has one. -/
def eval? (f : Fn) (x : ClosedForm) : Option ClosedForm :=
  match f, x with
  | factorial, x => match x with
    | undefined => some undefined
    | infinity .unsigned => some f.atUnsignedInfinity
    | infinity .positive => some f.atPositiveInfinity
    | infinity .negative => some f.atNegativeInfinity
    | x => factorialForm x
  | doubleFactorial, x => doubleFactorialForm x
  | _, undefined => some undefined
  | f, infinity .unsigned => some f.atUnsignedInfinity
  | f, infinity .positive => some f.atPositiveInfinity
  | f, infinity .negative => some f.atNegativeInfinity
  | log, x => some x.log
  | f, number (.inexact y bits) =>
    if y.sign = 0 then some (f.simplify 0) else some (f.ofInexact y bits)
  | f, x =>
    if x.isNegated ∧ f.isOdd then some (-(f.simplify (-x)))
    else if x.isNegated ∧ f.isEven then some (f.simplify (-x))
    else some (f.simplify x)

end Fn

namespace ClosedForm

/-- How often `b` divides `x` as a factor, for fractions: the power that can be split off. -/
def multiplicity? (b x : Rat) : Option Int :=
  let count (d n : Nat) : Int := multiplicity d n
  if x = 0 then none
  else if b.den = 1 then
    if b.num ≤ 1 then none
    else some (count b.num.toNat x.num.natAbs - count b.num.toNat x.den)
  else if b.num = 1 then some (count b.den x.den)
  else if b.num ≤ 1 then none
  else
    let like := min (count b.num.toNat x.num.natAbs) (count b.den x.den)
    let cross := min (count b.den x.num.natAbs) (count b.num.toNat x.den)
    some (like - cross)

/-- The logarithm to a base. A power of the base that divides the argument is split off, so the
logarithm of a power of the base is an integer. -/
def logBase (x b : ClosedForm) : ClosedForm :=
  if b = 1 then if x = 1 then undefined else infinity .unsigned
  else
    match x, b with
    | number (.exact p), number (.exact q) =>
      match multiplicity? q p with
      | some n => if n = 0 then x.log / b.log else ofRat n + (ofRat (p / q ^ n)).log / b.log
      | none => x.log / b.log
    | x, e => x.log
    | x, b => x.log / b.log

/-- The remainder of a floor division: it has the sign of the divisor. By zero there is none. -/
def modulo? (x y : ClosedForm) : Option ClosedForm :=
  match x, y with
  | undefined, _ => some undefined
  | infinity _, _ => some undefined
  | _, undefined => some undefined
  | _, infinity _ => some undefined
  | x, y =>
    if y.sign? = some 0 then none
    else
      match x, y with
      | number a, number b => some (scalarModulo a b)
      | x, y =>
        if x.hasSymbol || y.hasSymbol then some (symbol [])
        else some ((remainder? x y).getD undefined)
where
  scalarModulo (a b : Scalar) : ClosedForm :=
    match a, b with
    | .exact p, .exact q => ofRat (p - (p / q).floor * q)
    | a, b =>
      let p : Rat := exactly a
      let q : Rat := exactly b
      let r := p - (p / q).floor * q
      let bits := max (precision a) (precision b)
      number (.computed (nearestDyadic bits r.num r.den) bits)
  exactly : Scalar → Rat
    | .exact q => q
    | .inexact x _ => x.toRat
  precision : Scalar → Nat
    | .exact _ => 0
    | .inexact _ bits => bits

/-- The quotient rounded down. An exact integer over zero has none. -/
def floorDiv? (x y : ClosedForm) : Option ClosedForm :=
  if y = 0 ∧ isInteger x then none
  else
    match x / y with
    | infinity d => some (infinity d)
    | undefined => some undefined
    | z => if z.hasSymbol then some z else some (z.floor?.elim undefined fun n => ofRat n)
where
  isInteger : ClosedForm → Bool
    | number x => x.integer?.isSome
    | _ => false

end ClosedForm

end DeskCalc
