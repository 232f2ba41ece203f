import DeskCalc.ClosedForm.Basic
import DeskCalc.Number.Gamma

/-!
# Approximating a closed form

A closed form is computed to any number of digits. The result has a real and an imaginary part;
a part that is absent is known to be zero, whereas a part that is merely too small to tell from
zero is still present, so that only forms that are real by their structure count as real.

Relative accuracy is lost only where a sum cancels or where a function is steep. A sum is computed
again with more digits until enough of them survive; a function estimates how many digits its
argument loses and asks for the argument again.
-/

namespace DeskCalc

-- The empty sum meant here is the numeral zero, whatever else is in scope.
attribute [local instance (high)] Zero.ofOfNat0

/-- A complex number; an absent part is known to be zero. -/
structure Approximation where
  re : Option Dyadic
  im : Option Dyadic
  deriving Inhabited

/-- Why a form has no approximation. -/
inductive NoApproximation where
  | infinite
  | undefined
  /-- The value may be complex and is not followed further. -/
  | complex
  /-- A free symbol occurs. -/
  | symbolic

namespace Approximation

def zero : Approximation := ⟨none, none⟩

/-- A part of a result: zero is absent. -/
def part (x : Dyadic) : Option Dyadic := if x.sign = 0 then none else some x

def ofReal (x : Dyadic) : Approximation := ⟨part x, none⟩
def ofImaginary (x : Dyadic) : Approximation := ⟨none, part x⟩
def ofParts (x y : Dyadic) : Approximation := ⟨part x, part y⟩

private def scalePart (bits : Nat) (x : Dyadic) (p : Option Dyadic) : Option Dyadic :=
  p.bind fun y => part (Dyadic.mulTo bits x y)

private def addParts (bits : Nat) : Option Dyadic → Option Dyadic → Option Dyadic
  | none, q => q
  | p, none => p
  | some x, some y => part (Dyadic.addTo bits x y)

private def negPart (p : Option Dyadic) : Option Dyadic := p.map (-·)

def neg (z : Approximation) : Approximation := ⟨negPart z.re, negPart z.im⟩

def roundTo (bits : Nat) (z : Approximation) : Approximation :=
  ⟨z.re.map (Dyadic.roundTo bits), z.im.map (Dyadic.roundTo bits)⟩

/-- Multiplication by the imaginary unit. -/
def turn (z : Approximation) : Approximation := ⟨negPart z.im, z.re⟩

/-- The product, each part rounded to `bits` digits. -/
def mul (bits : Nat) (z w : Approximation) : Approximation :=
  let byReal := match z.re with
    | none => zero
    | some x => ⟨scalePart bits x w.re, scalePart bits x w.im⟩
  let byImaginary := match z.im with
    | none => zero
    | some y => turn ⟨scalePart bits y w.re, scalePart bits y w.im⟩
  ⟨addParts bits byReal.re byImaginary.re, addParts bits byReal.im byImaginary.im⟩

def normSquared (bits : Nat) (z : Approximation) : Dyadic :=
  let square (p : Option Dyadic) : Dyadic := p.elim 0 fun x => Dyadic.mulTo bits x x
  Dyadic.addTo bits (square z.re) (square z.im)

def inverse (bits : Nat) (z : Approximation) : Approximation :=
  match z.re, z.im with
  | some x, none => ofReal (Dyadic.divTo bits 1 x)
  | none, some y => ofImaginary (-(Dyadic.divTo bits 1 y))
  | _, _ =>
    let n := z.normSquared (bits + 4)
    ⟨z.re.map (Dyadic.divTo bits · n), z.im.map fun y => -(Dyadic.divTo bits y n)⟩

/-- Natural powers by repeated squaring. -/
def powNat (bits : Nat) (z : Approximation) (n : Nat) : Approximation :=
  if n = 0 then ofReal 1
  else
    let half := powNat bits z (n / 2)
    let square := mul bits half half
    if n % 2 = 0 then square else mul bits square z

/-- An integer power of a number other than zero. Powers of the imaginary unit turn a purely
imaginary number by quarters of a circle. -/
def powInt (bits : Nat) (z : Approximation) (n : Int) : Approximation :=
  match z.re, z.im with
  | some x, none => ofReal (Dyadic.powIntTo bits x n)
  | none, some y =>
    let p := Dyadic.powIntTo bits y n
    match n % 4 with
    | 0 => ofReal p
    | 1 => ofImaginary p
    | 2 => ofReal (-p)
    | _ => ofImaginary (-p)
  | _, _ =>
    let guard := bits + 2 * n.natAbs.log2 + 10
    let p := powNat guard z n.natAbs
    if 0 ≤ n then p else inverse guard p

/-- The argument of a number other than zero, between `-π` and `π`. -/
def angle (bits : Nat) (z : Approximation) : Dyadic :=
  match z.re, z.im with
  | some x, none => if x.sign < 0 then Elementary.pi bits else 0
  | none, some y =>
    let quarter := (Elementary.pi bits) >>> (1 : Int)
    if y.sign < 0 then -quarter else quarter
  | some x, some y =>
    let inner := Elementary.arctan bits (Dyadic.divTo (bits + 4) y x)
    if 0 < x.sign then inner
    else if 0 < y.sign then Dyadic.addTo bits inner (Elementary.pi bits)
    else Dyadic.addTo bits inner (-(Elementary.pi bits))
  | none, none => 0

/-- The principal logarithm of a number other than zero. -/
def log (bits : Nat) (z : Approximation) : Approximation :=
  match z.re, z.im with
  | some x, none =>
    let re := Elementary.log bits x.abs
    if x.sign < 0 then ofParts re (Elementary.pi bits) else ofReal re
  | none, some y => ofParts (Elementary.log bits y.abs) (angle bits z)
  | _, _ =>
    let n := z.normSquared (2 * bits + 20)
    ofParts ((Elementary.log bits n) >>> (1 : Int)) (angle bits z)

def exp (bits : Nat) (z : Approximation) : Approximation :=
  let r := z.re.elim 1 (Elementary.exp (bits + 4))
  match z.im with
  | none => ofReal (r.roundTo bits)
  | some y =>
    let (c, s) := Elementary.cosSin (bits + 4) y
    ofParts (Dyadic.mulTo bits r c) (Dyadic.mulTo bits r s)

/-- The principal square root. -/
def sqrt (bits : Nat) (z : Approximation) : Approximation :=
  match z.re, z.im with
  | none, none => zero
  | some x, none =>
    if x.sign < 0 then ofImaginary (Dyadic.sqrtTo bits (-x)) else ofReal (Dyadic.sqrtTo bits x)
  | _, some y =>
    let x := z.re.getD 0
    let guard := 2 * bits + 20
    let r := Dyadic.sqrtTo guard (z.normSquared (2 * guard))
    -- the larger of the two parts does not cancel and gives the other one
    if x.sign < 0 then
      let im := Dyadic.sqrtTo guard ((Dyadic.addTo guard r (-x)) >>> (1 : Int))
      let re := (Dyadic.divTo guard y.abs im) >>> (1 : Int)
      ofParts (re.roundTo bits) ((if y.sign < 0 then -im else im).roundTo bits)
    else
      let re := Dyadic.sqrtTo guard ((Dyadic.addTo guard r x) >>> (1 : Int))
      ofParts (re.roundTo bits) (((Dyadic.divTo guard y re) >>> (1 : Int)).roundTo bits)

/-- Half the odd integer that the number is a half of. -/
def oddHalf? (y : Dyadic) : Option Int :=
  match y with
  | .ofOdd n 1 _ => some n
  | _ => none

/-- The principal power of numbers other than zero. -/
def pow (bits : Nat) (z w : Approximation) : Approximation :=
  match z.re, z.im, w.re, w.im with
  | some x, none, some y, none =>
    let size := (Elementary.log 16 x.abs).magnitude + y.magnitude
    let guard := bits + size.toNat + 12
    let modulus := Elementary.exp bits (Dyadic.mulTo guard y (Elementary.log guard x.abs))
    if 0 < x.sign then ofReal modulus
    else
      match oddHalf? y with
      | some n => powInt bits (sqrt (bits + 10) z) n
      | none =>
        let (c, s) := Elementary.cosSin bits (Dyadic.mulTo guard y (Elementary.pi guard))
        ofParts (Dyadic.mulTo bits modulus c) (Dyadic.mulTo bits modulus s)
  | _, _, some y, none =>
    match oddHalf? y with
    | some n => powInt bits (sqrt (bits + 10) z) n
    | none =>
      let guard := bits + y.magnitude.toNat + 32
      exp bits (mul guard (log guard z) w)
  | _, _, _, _ =>
    let guard := bits + 64
    exp bits (mul guard (log guard z) w)

end Approximation

namespace Fn

/-- The number of digits by which a relative error grows from the argument `x` to the value `y`:
the logarithm of `x f'(x) / f(x)`. -/
def lostDigits (f : Fn) (x y : Dyadic) : Int :=
  let mx := x.magnitude
  let my := y.magnitude
  let edge : Int := (Dyadic.addTo 64 (x * x) (-1)).magnitude
  match f with
  | sin | cos => mx - my
  | csc | sec => mx + my
  | tan | cot => mx + my.natAbs
  | asin | acos => mx - my - edge / 2
  | acsc | asec => -my - edge / 2
  | acosh => mx - my - edge / 2
  | asech => -my - edge / 2
  | atanh | acoth => mx - my - edge
  | log => -my
  | sinh | cosh | csch | sech | tanh | coth => mx
  | factorial => mx + my.natAbs.log2 + 4
  | _ => 0

open Elementary Approximation in
/-- The value of a function at a real number, or why there is none. -/
def atReal (f : Fn) (bits : Nat) (x : Dyadic) : Except NoApproximation Approximation :=
  let guard := bits + 8
  let inverse (y : Dyadic) : Dyadic := Dyadic.divTo guard 1 y
  let reciprocal (y : Dyadic) : Except NoApproximation Approximation :=
    if y.sign = 0 then .error .infinite else .ok (ofReal (inverse y))
  let quarter := (pi bits) >>> (1 : Int)
  let arccosine (x : Dyadic) : Approximation :=
    if x.isAtMostOne then ofReal (arccos bits x)
    else if 0 < x.sign then ofImaginary (arcosh bits x)
    else ofParts (pi bits) (-(arcosh bits (-x)))
  let arcsine (x : Dyadic) : Approximation :=
    if x.isAtMostOne then ofReal (arcsin bits x)
    else if 0 < x.sign then ofParts quarter (-(arcosh bits x))
    else ofParts (-quarter) (arcosh bits (-x))
  let areaCosine (x : Dyadic) : Approximation :=
    if 0 < x.sign ∧ 0 ≤ x.magnitude then ofReal (arcosh bits x)
    else if x.isAtMostOne then ofImaginary (arccos bits x)
    else ofParts (arcosh bits (-x)) (pi bits)
  match f with
  | sin => .ok (ofReal (cosSin bits x).2)
  | cos => .ok (ofReal (cosSin bits x).1)
  | tan => let (c, s) := cosSin guard x; .ok (ofReal (Dyadic.divTo bits s c))
  | csc => reciprocal (cosSin guard x).2
  | sec => reciprocal (cosSin guard x).1
  | cot =>
    let (c, s) := cosSin guard x
    if s.sign = 0 then .error .infinite else .ok (ofReal (Dyadic.divTo bits c s))
  | asin => .ok (arcsine x)
  | acos => .ok (arccosine x)
  | atan => .ok (ofReal (arctan bits x))
  | acsc => if x.sign = 0 then .error .infinite else .ok (arcsine (inverse x))
  | asec => if x.sign = 0 then .error .infinite else .ok (arccosine (inverse x))
  | acot => if x.sign = 0 then .ok (ofReal quarter) else .ok (ofReal (arctan bits (inverse x)))
  | sinh => .ok (ofReal (coshSinh bits x).2)
  | cosh => .ok (ofReal (coshSinh bits x).1)
  | tanh =>
    -- far out the value is one up to an exponentially small rest
    let (c, s) := coshSinh (guard + 2 * x.abs.magnitude.toNat) x
    .ok (ofReal (Dyadic.divTo bits s c))
  | csch => reciprocal (coshSinh guard x).2
  | sech => reciprocal (coshSinh guard x).1
  | coth =>
    let (c, s) := coshSinh guard x
    if s.sign = 0 then .error .infinite else .ok (ofReal (Dyadic.divTo bits c s))
  | asinh => .ok (ofReal (arsinh bits x))
  | acosh => .ok (areaCosine x)
  | atanh =>
    if x.abs = 1 then .error .infinite
    else if x.isFraction then .ok (ofReal (artanh bits x))
    else .ok (ofParts (artanh bits (inverse x)) (if x.sign < 0 then quarter else -quarter))
  | acsch => if x.sign = 0 then .error .infinite else .ok (ofReal (arsinh bits (inverse x)))
  | asech => if x.sign = 0 then .error .infinite else .ok (areaCosine (inverse x))
  | acoth =>
    if x.abs = 1 then .error .infinite
    else if x.sign = 0 then .ok (ofImaginary quarter)
    else if x.isFraction then
      .ok (ofParts (artanh bits x) (if x.sign < 0 then quarter else -quarter))
    else .ok (ofReal (artanh bits (inverse x)))
  | log => if x.sign = 0 then .error .infinite else .ok (Approximation.log bits (ofReal x))
  | factorial =>
    let z := Dyadic.addTo (guard + 16) x 1
    if z.isInteger ∧ z.sign ≤ 0 then .error .infinite else .ok (ofReal (gamma bits z))
  | doubleFactorial => .error .complex

open Approximation in
/-- The value of a function at `i y`, from the function of the other family that it turns into. -/
def atImaginary (f : Fn) (bits : Nat) (y : Dyadic) : Except NoApproximation Approximation :=
  let turned (g : Fn) : Except NoApproximation Approximation := (g.atReal bits y).map turn
  let turnedBack (g : Fn) : Except NoApproximation Approximation :=
    (g.atReal bits y).map fun z => (turn z).neg
  match f with
  | sin => turned sinh
  | cos => cosh.atReal bits y
  | tan => turned tanh
  | csc => turnedBack csch
  | sec => sech.atReal bits y
  | cot => turnedBack coth
  | sinh => turned sin
  | cosh => cos.atReal bits y
  | tanh => turned tan
  | csch => turnedBack csc
  | sech => sec.atReal bits y
  | coth => turnedBack cot
  | asin => turned asinh
  | atan => if y.isFraction then turned atanh else .error .complex
  | asinh => if y.isAtMostOne then turned asin else .error .complex
  | atanh => turned atan
  | acot => if !y.isAtMostOne then turnedBack acoth else .error .complex
  | acoth => turnedBack acot
  | acsc => turnedBack acsch
  | log => .ok (Approximation.log bits (ofImaginary y))
  | _ => .error .complex

/-- The digits of the argument of a tangent when `bits` digits of the tangent are wanted. -/
def tangentDigits (bits : Nat) : Nat := max 77 (bits + 7)

/-- The value of a function at a number computed by `argument`, which is asked for more digits
while the function loses them. Only a tangent is content with what it gets: close to a pole it is as
steep as the rounding of its argument allows. -/
def approximate (f : Fn) (bits : Nat) (argument : Nat → Except NoApproximation Approximation) :
    Except NoApproximation Approximation :=
  if f = tan then do
    let z ← argument (tangentDigits bits)
    match z.re, z.im with
    | some x, none => f.atReal bits (x.roundTo (tangentDigits bits))
    | _, _ => attempt 1 16
  else attempt 6 12
where
  attempt : Nat → Nat → Except NoApproximation Approximation
    | 0, _ => .error .complex
    | fuel + 1, extra => do
      let z ← argument (bits + extra)
      match z.re, z.im with
      | none, none => f.atReal bits 0
      | some x, none =>
        let value ← f.atReal (bits + 4) x
        let lost := (f.lostDigits x (value.re.getD (value.im.getD 1))).toNat
        if lost + 8 ≤ extra ∨ fuel = 0 then return value else attempt fuel (lost + 16)
      | none, some y => f.atImaginary bits y
      | some _, some _ => if f = log then return Approximation.log bits z else .error .complex

end Fn

namespace ClosedForm

open Approximation

/-- Adds numbers of which each is accurate to `bits` digits. The result comes with the number of
its digits that are sure; nothing survives when it is zero. -/
def addAccurately (bits : Nat) (xs : List Dyadic) : Dyadic × Int :=
  match xs with
  | [] => (0, bits)
  | [x] => (x, bits)
  | xs =>
    let top := (xs.map Dyadic.magnitude).foldl max (xs.headD 0).magnitude
    let w := (bits : Int) + 4 - top
    let total := (xs.map (Dyadic.toFixed w)).sum
    let slack := xs.length.log2 + 5
    (.ofIntWithPrec total w, if total = 0 then -1 else (total.natAbs.log2 : Int) - slack)

/-- The digits with which a sum is computed beyond those asked for, one attempt after the other. -/
def sumGuards : List Nat := [14, 64, 164, 364, 764, 1564, 3164]

/-- A sum whose parts are computed by `parts`, with more and more digits until enough survive.
A part that never shows is taken for zero if it is real and for a trace if it is imaginary. -/
def addTerms (bits : Nat) (parts : Nat → Except NoApproximation (List Approximation)) :
    Except NoApproximation Approximation :=
  go sumGuards
where
  go : List Nat → Except NoApproximation Approximation
    | [] => .ok zero
    | guard :: guards => do
      let zs ← parts (bits + guard)
      let (re, reSure) := addAccurately (bits + guard) (zs.filterMap (·.re))
      let ims := zs.filterMap (·.im)
      let (im, imSure) := addAccurately (bits + guard) ims
      let sure := if im.sign = 0 ∨ re.magnitude ≥ im.magnitude ∧ re.sign ≠ 0 then reSure else imSure
      if (bits : Int) ≤ sure then return ofParts re im
      else if guards.isEmpty then
        return ⟨none, if ims.isEmpty then none else some (.ofIntWithPrec 1 (bits + guard))⟩
      else go guards

/-- A power whose base and exponent are computed by the given functions. -/
def approximatePower (bits : Nat) (b x : ClosedForm)
    (base exponent : Nat → Except NoApproximation Approximation) :
    Except NoApproximation Approximation := do
  let half : ClosedForm := ofRat (1 / 2)
  match x with
  | number (.exact q) =>
    if q.den = 1 then
      let z ← base (bits + q.num.natAbs.log2 + 8)
      if z.re.isNone ∧ z.im.isNone then
        if q.num < 0 then .error .infinite else return zero
      else return powInt bits z q.num
    else if x = half then return sqrt bits (← base (bits + 8))
    else general
  | _ => general
where
  general : Except NoApproximation Approximation := do
    let w ← exponent (bits + 16)
    let size := (w.re.elim 0 Dyadic.magnitude).toNat + (w.im.elim 0 Dyadic.magnitude).toNat
    let w ← if size = 0 then .ok w else exponent (bits + size + 16)
    if w.re.isNone ∧ w.im.isNone then return ofReal 1
    else if b = e then return Approximation.exp bits w
    else
      let z ← base (bits + size + 24)
      if z.re.isNone ∧ z.im.isNone then
        match w.im, w.re with
        | none, some y => if y.sign < 0 then .error .infinite else return zero
        | _, _ => .error .undefined
      else
        let spread := (Elementary.log 16 (z.normSquared 32)).magnitude.toNat
        let z ← if spread = 0 then .ok z else base (bits + size + spread + 24)
        return Approximation.pow bits z w

mutual

/-- The value of a form to about `bits` digits. -/
def approximate (bits : Nat) : ClosedForm → Except NoApproximation Approximation
  | number x => .ok (ofReal (x.toDyadic bits))
  | infinity _ => .error .infinite
  | undefined => .error .undefined
  | pi => .ok (ofReal (Elementary.pi bits))
  | e => .ok (ofReal (Elementary.exp bits 1))
  | symbol _ => .error .symbolic
  | apply f x => f.approximate bits fun n => approximate n x
  | factor b x rest => do
    let p ← approximatePower (bits + 6) b x (fun n => approximate n b) (fun n => approximate n x)
    return mul bits p (← approximate (bits + 6) rest)
  | term c p rest =>
    addTerms bits fun n => do
      let z ← approximate n p
      return mul n (ofReal (c.toDyadic n)) z :: (← approximateTerms n rest)

/-- The values of the multiples of a sum and of its constant. -/
def approximateTerms (bits : Nat) : ClosedForm → Except NoApproximation (List Approximation)
  | term c p rest => do
    let z ← approximate bits p
    return mul bits (ofReal (c.toDyadic bits)) z :: (← approximateTerms bits rest)
  | number x => .ok [ofReal (x.toDyadic bits)]
  | _ => .ok []

end

/-- The sign of a form that is a real number, if it is one. -/
def sign? (x : ClosedForm) : Option Int :=
  match x with
  | number c => some c.sign
  | x =>
    match approximate 24 x with
    | .ok ⟨some re, none⟩ => some re.sign
    | .ok ⟨none, none⟩ => some 0
    | _ => none

end ClosedForm

end DeskCalc
