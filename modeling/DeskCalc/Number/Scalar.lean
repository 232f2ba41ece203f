import DeskCalc.Number.Binary

/-!
# Coefficients

A coefficient is either an exact fraction or a binary number of bounded precision. Exact
arithmetic stays exact; as soon as one operand is inexact the other is rounded to its precision
and so is the result. A computed zero is exact, so a difference that vanishes vanishes for good.
-/

namespace DeskCalc

inductive Scalar where
  | exact (q : Rat)
  | inexact (x : Dyadic) (bits : Nat)
  deriving DecidableEq

namespace Scalar

instance : OfNat Scalar n := ⟨.exact n⟩
instance : Inhabited Scalar := ⟨0⟩

/-- A computed inexact number; zero is exact. -/
def computed (x : Dyadic) (bits : Nat) : Scalar :=
  if x.sign = 0 then 0 else .inexact x bits

/-- The digits that a function of an inexact number is rounded to before it is rounded to the
precision of the number. -/
def functionDigits (bits : Nat) : Nat := bits + 4

/-- A function of an inexact number of the given precision, from an approximation with digits to
spare. The approximation is rounded twice, first to a few digits more than the precision. -/
def ofFunction (bits : Nat) (y : Dyadic) : Scalar :=
  computed ((y.roundTo (functionDigits bits)).roundTo bits) bits

/-- The number as a dyadic of the given precision. -/
def toDyadic (bits : Nat) : Scalar → Dyadic
  | exact q => nearestDyadic bits q.num q.den
  | inexact x _ => x

def isZero : Scalar → Bool
  | exact q => q = 0
  | inexact x _ => x.sign = 0

def isExact : Scalar → Bool
  | exact _ => true
  | inexact _ _ => false

/-- The exact integer that the number is, if it is one. -/
def integer? : Scalar → Option Int
  | exact q => if q.den = 1 then some q.num else none
  | inexact _ _ => none

/-- The sign: `-1`, `0` or `1`. -/
def sign : Scalar → Int
  | exact q => q.num.sign
  | inexact x _ => x.sign

/-- The precision that an operation on the two numbers has. -/
private def sharedBits : Scalar → Scalar → Nat
  | inexact _ b, inexact _ c => max b c
  | inexact _ b, exact _ => b
  | exact _, inexact _ c => c
  | exact _, exact _ => 0

protected def add (a b : Scalar) : Scalar :=
  match a, b with
  | exact p, exact q => exact (p + q)
  | a, b =>
    if a = 0 then b else if b = 0 then a
    else
      let bits := sharedBits a b
      computed (Dyadic.addTo bits (a.toDyadic bits) (b.toDyadic bits)) bits

protected def mul (a b : Scalar) : Scalar :=
  match a, b with
  | exact p, exact q => exact (p * q)
  | a, b =>
    if a = 1 then b else if b = 1 then a
    else
      let bits := sharedBits a b
      computed (Dyadic.mulTo bits (a.toDyadic bits) (b.toDyadic bits)) bits

protected def neg : Scalar → Scalar
  | exact q => exact (-q)
  | inexact x bits => inexact (-x) bits

instance : Add Scalar := ⟨Scalar.add⟩
instance : Mul Scalar := ⟨Scalar.mul⟩
instance : Neg Scalar := ⟨Scalar.neg⟩

/-- The inverse of a number other than zero. -/
def inverse : Scalar → Scalar
  | exact q => exact q⁻¹
  | inexact x bits => computed (Dyadic.divTo bits 1 x) bits

/-- The quotient by a number other than zero. An exact dividend is multiplied by the rounded
inverse of an inexact divisor; every other quotient is rounded once. -/
def quotient (a b : Scalar) : Scalar :=
  match a, b with
  | exact p, exact q => exact (p / q)
  | exact _, inexact _ _ => a * b.inverse
  | inexact x bits, b =>
    let bits := sharedBits (inexact x bits) b
    computed (Dyadic.divTo bits x (b.toDyadic bits)) bits

/-- An integer power; a negative power of zero is excluded by callers. -/
def powInt : Scalar → Int → Scalar
  | exact q, n => exact (q ^ n)
  | inexact x bits, n => computed (Dyadic.powIntTo bits x n) bits

/-- Compares, exact numbers first, to bring the parts of a sum or product into one order. -/
def order : Scalar → Scalar → Ordering
  | exact p, exact q => (compare p.num q.num).then (compare p.den q.den)
  | exact _, inexact _ _ => .lt
  | inexact _ _, exact _ => .gt
  | inexact x b, inexact y c =>
    let key : Dyadic → Int × Int
      | .zero => (0, 0)
      | .ofOdd n k _ => (n, k)
    ((compare (key x).1 (key y).1).then (compare (key x).2 (key y).2)).then (compare b c)

end Scalar

end DeskCalc
