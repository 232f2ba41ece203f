import DeskCalc.Number.Scalar
import DeskCalc.Text.Basic

/-!
# Closed forms

The value of a formula before it is rounded: a number written with coefficients, the two constants,
roots, powers, elementary functions and, where a formula names something unknown, free symbols.
Division by zero has a value too, one infinite in no direction, and so has zero divided by zero,
which is undefined.

A product is a chain of powers that ends in its coefficient, a sum is a chain of multiples that ends
in its constant. `factors` and `summands` read a form as such a chain; `ofFactors` and `ofSummands`
build the form back.
-/

namespace DeskCalc

/-- The functions of one argument that a formula can apply. -/
inductive Fn where
  | sin | cos | tan | csc | sec | cot
  | asin | acos | atan | acsc | asec | acot
  | sinh | cosh | tanh | csch | sech | coth
  | asinh | acosh | atanh | acsch | asech | acoth
  | log | factorial | doubleFactorial
  deriving DecidableEq, Repr

/-- Where an infinite value lies: at one end of the real line, or at no end in particular. -/
inductive Direction where
  | positive | negative | unsigned
  deriving DecidableEq, Repr

inductive ClosedForm where
  | number (x : Scalar)
  | infinity (direction : Direction)
  | undefined
  | pi
  | e
  | symbol (name : Text)
  | apply (f : Fn) (argument : ClosedForm)
  /-- `base ^ exponent * rest`; the chain ends in a number. -/
  | factor (base exponent rest : ClosedForm)
  /-- `coefficient * part + rest`; the chain ends in a number. -/
  | term (coefficient : Scalar) (part rest : ClosedForm)
  deriving DecidableEq

namespace ClosedForm

instance : OfNat ClosedForm n := ⟨.number (OfNat.ofNat n)⟩
instance : Inhabited ClosedForm := ⟨0⟩

/-- The fraction `q` as a closed form. -/
def ofRat (q : Rat) : ClosedForm := number (.exact q)

/-- A power of minus one with exponent one half. -/
def imaginaryUnit : ClosedForm := factor (ofRat (-1)) (ofRat (1 / 2)) 1

/-- The coefficient of a form and the powers, bases with exponents, that it multiplies. -/
def factors : ClosedForm → Scalar × List (ClosedForm × ClosedForm)
  | number x => (x, [])
  | factor b x rest => let (c, fs) := rest.factors; (c, (b, x) :: fs)
  | other => (1, [(other, 1)])

/-- The product of a coefficient and powers. -/
def ofFactors (c : Scalar) : List (ClosedForm × ClosedForm) → ClosedForm
  | [] => number c
  | [(b, x)] => if c = 1 ∧ x = 1 then b else factor b x (number c)
  | (b, x) :: fs => factor b x (chain fs)
where
  chain : List (ClosedForm × ClosedForm) → ClosedForm
    | [] => number c
    | (b, x) :: fs => factor b x (chain fs)

/-- The constant of a form and the multiples, coefficients with parts, that it adds. -/
def summands : ClosedForm → Scalar × List (Scalar × ClosedForm)
  | number x => (x, [])
  | term c p rest => let (k, ts) := rest.summands; (k, (c, p) :: ts)
  | other =>
    let (c, fs) := other.factors
    (0, [(c, ofFactors 1 fs)])

/-- The product of a coefficient and a form that carries none. -/
def scale (c : Scalar) (p : ClosedForm) : ClosedForm :=
  if c.isZero then 0
  else
    let (k, fs) := p.factors
    ofFactors (c * k) fs

/-- The sum of a constant and multiples. -/
def ofSummands (k : Scalar) : List (Scalar × ClosedForm) → ClosedForm
  | [] => number k
  | [(c, p)] => if k.isZero then scale c p else term c p (number k)
  | (c, p) :: ts => term c p (chain ts)
where
  chain : List (Scalar × ClosedForm) → ClosedForm
    | [] => number k
    | (c, p) :: ts => term c p (chain ts)

def hasSymbol : ClosedForm → Bool
  | symbol _ => true
  | apply _ x => x.hasSymbol
  | factor b x rest => b.hasSymbol || x.hasSymbol || rest.hasSymbol
  | term _ p rest => p.hasSymbol || rest.hasSymbol
  | _ => false

def hasInexact : ClosedForm → Bool
  | number x => !x.isExact
  | apply _ x => x.hasInexact
  | factor b x rest => b.hasInexact || x.hasInexact || rest.hasInexact
  | term c p rest => !c.isExact || p.hasInexact || rest.hasInexact
  | _ => false

private def kind : ClosedForm → Nat
  | number _ => 0
  | infinity _ => 1
  | undefined => 2
  | pi => 3
  | e => 4
  | symbol _ => 5
  | apply _ _ => 6
  | factor _ _ _ => 7
  | term _ _ _ => 8

/-- A total order, used only to write sums and products in one way. -/
def order : ClosedForm → ClosedForm → Ordering
  | number x, number y => x.order y
  | symbol s, symbol t => compare s t
  | apply f x, apply g y => (compare f.ctorIdx g.ctorIdx).then (x.order y)
  | factor b x r, factor c y s => (b.order c).then ((x.order y).then (r.order s))
  | term c p r, term d q s => (c.order d).then ((p.order q).then (r.order s))
  | infinity d, infinity d' => compare d.ctorIdx d'.ctorIdx
  | a, b => compare a.kind b.kind

end ClosedForm

end DeskCalc
