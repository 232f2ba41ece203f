import DeskCalc.ClosedForm.Approximation
import DeskCalc.Number.Roots

/-!
# Arithmetic of closed forms

Sums collect equal parts, products collect equal bases, powers of fractions become fractions times
roots of primes, and exponentials undo logarithms. What is simplified here is exact: a sum that
vanishes is found to be zero, and a number that is an integer is found to be one. What is not
simplified stays as it stands and is left to approximation.

`add_number`, `mul_number` and `pow_number` say that fractions are added, multiplied and raised to
integer powers as fractions.
-/

namespace DeskCalc.ClosedForm

/-- Inserts a multiple into an ordered list of multiples and joins it with an equal part. -/
def insertSummand (c : Scalar) (p : ClosedForm) :
    List (Scalar × ClosedForm) → List (Scalar × ClosedForm)
  | [] => [(c, p)]
  | (d, q) :: ts =>
    if p = q then
      let sum := d + c
      if sum.isZero then ts else (sum, q) :: ts
    else if p.order q = .lt then (c, p) :: (d, q) :: ts
    else (d, q) :: insertSummand c p ts

/-- The sum of two infinite values: defined only if both lie at the same end of the line. -/
def addDirections (d d' : Direction) : ClosedForm :=
  if d = d' ∧ d ≠ .unsigned then infinity d else undefined

/-- The sum. An infinite value absorbs every finite one. -/
protected def add (a b : ClosedForm) : ClosedForm :=
  match a, b with
  | number x, number y => number (x + y)
  | undefined, _ => undefined
  | _, undefined => undefined
  | infinity d, infinity d' => addDirections d d'
  | infinity d, x => if x.hasSymbol then x else infinity d
  | x, infinity d => if x.hasSymbol then x else infinity d
  | a, b =>
    let (k, ts) := a.summands
    let (l, us) := b.summands
    ofSummands (k + l) (us.foldl (fun ts (c, p) => insertSummand c p ts) ts)

instance : Add ClosedForm := ⟨ClosedForm.add⟩

theorem add_number (p q : Rat) : ofRat p + ofRat q = ofRat (p + q) := rfl

/-- Every multiple and the constant of a sum times `c`. -/
def distribute (c : Scalar) (x : ClosedForm) : ClosedForm :=
  let (k, ts) := x.summands
  ofSummands (c * k)
    (ts.filterMap fun (d, p) => let e := c * d; if e.isZero then none else some (e, p))

/-- A coefficient times powers, where a coefficient before a single sum is distributed over it. -/
def collect (c : Scalar) (fs : List (ClosedForm × ClosedForm)) : ClosedForm :=
  if c.isZero then 0
  else
    match fs with
    | [(term d p r, x)] => if x = 1 then distribute c (term d p r) else ofFactors c fs
    | _ => ofFactors c fs

/-- Inserts a power into an ordered list of powers, of which none has the same base. -/
def insertFactor (b x : ClosedForm) :
    List (ClosedForm × ClosedForm) → List (ClosedForm × ClosedForm)
  | [] => [(b, x)]
  | (c, y) :: fs =>
    if b.order c = .lt then (b, x) :: (c, y) :: fs else (c, y) :: insertFactor b x fs

/-- An infinite value times a number of the given sign. -/
def scaleDirection (d : Direction) (sign : Option Int) : ClosedForm :=
  match d, sign with
  | _, some 0 => undefined
  | .unsigned, _ => infinity .unsigned
  | d, some s =>
    if 0 < s then infinity d else infinity (if d = .positive then .negative else .positive)
  | _, none => infinity .unsigned

/-- A complex number with inexact parts of the same precision. -/
def ofApproximation (bits : Nat) (z : Approximation) : ClosedForm :=
  let scalar (x : Dyadic) : Scalar := .computed (x.roundTo bits) bits
  let imaginary : ClosedForm := match z.im with
    | none => 0
    | some y => scale (scalar y) imaginaryUnit
  number (z.re.elim 0 scalar) + imaginary

/-- `(-1) ^ q` for an exact exponent: a sign times a power with exponent below one. -/
def powMinusOne (q : Rat) : ClosedForm :=
  let k := q.floor
  let r := q - k
  let sign : Scalar := if k % 2 = 0 then 1 else -1
  if r = 0 then number sign else factor (ofRat (-1)) (ofRat r) (number sign)

/-- A power of a positive natural number, as a fraction and roots. -/
def natRoot (n : Nat) (q : Rat) : Rat × List (ClosedForm × ClosedForm) :=
  match exactRoot? n q.den with
  | some r => ((r : Rat) ^ q.num, [])
  | none =>
    (powerFactors n).foldl
      (fun (c, fs) (p, k) =>
        let x := q * k
        let whole := x.floor
        let c := c * (p : Rat) ^ whole
        let r := x - whole
        if r = 0 then (c, fs) else (c, fs ++ [(ofRat p, ofRat r)]))
      (1, [])

/-- A power of a fraction other than zero with an exponent that is no integer. -/
def fractionRoot (p q : Rat) : ClosedForm :=
  let (c, fs) := natRoot p.num.natAbs q
  let (d, gs) := natRoot p.den (-q)
  let roots := gs.foldl (fun fs (b, x) => insertFactor b x fs)
    (fs.foldl (fun fs (b, x) => insertFactor b x fs) [])
  if p.num < 0 then
    match powMinusOne q with
    | number s => ofFactors (.exact (c * d) * s) roots
    | factor b x (number s) => ofFactors (.exact (c * d) * s) (insertFactor b x roots)
    | _ => ofFactors (.exact (c * d)) roots
  else ofFactors (.exact (c * d)) roots

/-- A power with an inexact base or exponent. The base is a number other than zero. -/
def inexactPower (a b : Scalar) : ClosedForm :=
  match a, b with
  | .inexact x bits, .exact q =>
    if q.den = 1 then number (a.powInt q.num)
    else if q.num = 1 ∧ q.den % 2 = 1 ∧ x.sign < 0 then
      let y := nearestDyadic bits q.num q.den
      let root := Approximation.pow (bits + 4) (.ofReal (-x)) (.ofReal y)
      factor (ofRat (-1)) (ofRat q) (number (.computed ((root.re.getD 0).roundTo bits) bits))
    else general bits x (nearestDyadic bits q.num q.den)
  | .inexact x bits, .inexact y bits' => general (max bits bits') x y
  | a, .inexact y bits => general bits (a.toDyadic bits) y
  | .exact p, .exact q => fractionRoot p q
where
  general (bits : Nat) (x y : Dyadic) : ClosedForm :=
    if y.isInteger then number (.computed (Dyadic.powIntTo bits x (y.toFixed 0)) bits)
    else ofApproximation bits (Approximation.pow (bits + 4) (.ofReal x) (.ofReal y))

/-- A number to the power of a number. Zero to a negative power is infinite in no direction. -/
def scalarPower (a b : Scalar) : ClosedForm :=
  if b = 0 ∨ a = 1 then 1
  else if b = 1 then number a
  else if a.isZero then
    if b.isZero then
      match a, b with
      | .inexact _ bits, .inexact _ _ => number (.inexact 1 bits)
      | _, _ => 1
    else if 0 < b.sign then number a
    else infinity .unsigned
  else
    match a, b with
    | .exact p, .exact q => if q.den = 1 then ofRat (p ^ q.num) else fractionRoot p q
    | a, b => inexactPower a b

/-- The exponent `q` of a form `q π i`. -/
def halfTurns? (x : ClosedForm) : Option Rat :=
  match x.factors with
  | (.exact q, [(b, y), (b', y')]) =>
    let isPi (b y : ClosedForm) : Bool := b = pi ∧ y = 1
    let isUnit (b y : ClosedForm) : Bool := b = ofRat (-1) ∧ y = ofRat (1 / 2)
    if isPi b y && isUnit b' y' || isUnit b y && isPi b' y' then some q else none
  | _ => none

/-- Splits a product that contains exactly one logarithm, to the first power, besides real factors:
the argument of the logarithm and the product of the rest. -/
def logFactor? (x : ClosedForm) : Option (ClosedForm × ClosedForm) :=
  let (c, fs) := x.factors
  match fs.partition fun (b, y) => match b with
    | apply .log _ => decide (y = 1)
    | _ => false with
  | ([(apply .log a, _)], rest) =>
    let others := ofFactors c rest
    if others.sign?.isSome then some (a, others) else none
  | _ => none

/-- Whether a form is the inverse of the logarithm of `b`. -/
def isInverseLog (b : ClosedForm) (f : ClosedForm × ClosedForm) : Bool :=
  f.1 = apply .log b ∧ f.2 = ofRat (-1)

/-- The exponents that stand in a denominator. -/
def isDivisor (f : ClosedForm × ClosedForm) : Bool :=
  match f.2 with
  | number c => c.sign < 0
  | _ => false

/-- The numerator of a quotient whose denominator is the logarithm of `b` alone. -/
def overLog? (b x : ClosedForm) : Option ClosedForm :=
  let (c, fs) := x.factors
  match fs.partition (isInverseLog b) with
  | ([_], rest) => if rest.any isDivisor then none else some (ofFactors c rest)
  | _ => none

/-- How a factor behaves under a root: it has a sign and an absolute value that can be drawn out,
or it has to stay. -/
inductive RootFactor where
  | signed (negative : Bool) (base exponent : ClosedForm)
  | kept (base exponent : ClosedForm)

/-- The sign and the absolute value of a power, if it is a real number. -/
def rootFactor (b y : ClosedForm) : RootFactor :=
  match b.sign?, y with
  | some s, y =>
    if 0 < s then
      if y.sign?.isSome then .signed false b y else .kept b y
    else if s = 0 then .kept b y
    else
      match y with
      | number (.exact q) =>
        if q.den ≠ 1 then .kept b y
        else .signed (q.num % 2 = 1) (distribute (-1) b) y
      | _ => .kept b y
  | none, y => .kept b y

/-- The two operations that simplify one another. -/
structure Rules where
  mul : ClosedForm → ClosedForm → ClosedForm
  pow : ClosedForm → ClosedForm → ClosedForm

namespace Rules

/-- Products and powers that are only written down. -/
def written : Rules where
  mul a b :=
    let (c, fs) := a.factors
    let (d, gs) := b.factors
    ofFactors (c * d) (fs ++ gs)
  pow b x := factor b x 1

/-- Multiplies a product by more powers, one after the other, and joins equal bases. -/
def mulFactors (r : Rules) (c : Scalar) (fs : List (ClosedForm × ClosedForm)) :
    List (ClosedForm × ClosedForm) → ClosedForm
  | [] => collect c fs
  | (b, x) :: gs =>
    match fs.find? fun f => f.1 = b with
    | none => mulFactors r c (insertFactor b x fs) gs
    | some (_, y) =>
      let others := fs.filter fun f => f.1 ≠ b
      let joined := r.pow b (y + x)
      let (k, hs) := joined.factors
      if hs.all fun h => h.1 = b then
        mulFactors r (c * k) (hs.foldl (fun fs h => insertFactor h.1 h.2 fs) others) gs
      else
        let (k, hs) := (r.mul (ofFactors c others) joined).factors
        mulFactors r k hs gs

/-- The product. A symbol absorbs an infinite value, which has no say in whether the result is
numeric. -/
def mulStep (r : Rules) (a b : ClosedForm) : ClosedForm :=
  match a, b with
  | number x, number y => number (x * y)
  | undefined, _ => undefined
  | _, undefined => undefined
  | infinity d, infinity .positive => infinity d
  | infinity d, infinity .negative => scaleDirection d (some (-1))
  | infinity _, infinity .unsigned => infinity .unsigned
  | infinity d, x => if x.hasSymbol then x else scaleDirection d x.sign?
  | x, infinity d => if x.hasSymbol then x else scaleDirection d x.sign?
  | a, b =>
    let (c, fs) := a.factors
    let (d, gs) := b.factors
    if (c * d).isZero then 0 else mulFactors r (c * d) fs gs

/-- The exponential, from rules for smaller powers. -/
def expStep (r : Rules) (x : ClosedForm) : ClosedForm :=
  match x with
  | number (.inexact y bits) => number (.ofFunction bits (Elementary.exp (bits + 24) y))
  | apply .log a => a
  | term _ _ _ =>
    let (k, ts) := x.summands
    let parts := ts.map fun (c, p) => (scale c p, r.pow e (scale c p))
    let settled := parts.filter fun (a, y) => y ≠ factor e a 1
    if settled.isEmpty then factor e x 1
    else
      let left := parts.foldl (fun s (a, y) => if y = factor e a 1 then s + a else s) (number k)
      settled.foldl (fun acc (_, y) => r.mul acc y) (if left = 0 then 1 else factor e left 1)
  | x =>
    match halfTurns? x with
    | some q => powMinusOne q
    | none =>
      match logFactor? x with
      | some (a, y) => r.pow a y
      | none => factor e x 1

/-- A power of an infinite value. -/
def infinitePower (d : Direction) (x : ClosedForm) : ClosedForm :=
  if x.hasSymbol then factor (infinity d) x 1
  else
    match x.sign? with
    | some s => if s < 0 then 0 else infinity (if d = .positive then .positive else .unsigned)
    | none => undefined

/-- A power with an infinite exponent: what it tends to as the exponent grows. -/
def powInfinite (b : ClosedForm) (d : Direction) : ClosedForm :=
  if b.hasSymbol then factor b (infinity d) 1
  else
    match d, (b + ofRat (-1)).sign?, (b + 1).sign? with
    | .unsigned, _, _ => undefined
    | .positive, some s, some t =>
      if 0 < s then infinity .positive else if s < 0 ∧ 0 < t then 0
      else if t < 0 then infinity .unsigned else undefined
    | .negative, some s, some t =>
      if 0 < s ∨ t < 0 then 0 else if s < 0 ∧ 0 < t then infinity .unsigned else undefined
    | _, _, _ => undefined

/-- A factor raised to a number. -/
def raise (r : Rules) (x : Scalar) (b y : ClosedForm) : ClosedForm :=
  if y = 1 ∧ b ≠ e then factor b (number x) 1 else r.pow b (r.mul y (number x))

/-- A root of a product: what is real is drawn out, sign and absolute value apart. -/
def root (r : Rules) (x : Scalar) (c : Scalar) (fs : List (ClosedForm × ClosedForm)) : ClosedForm :=
  let parts := fs.map fun (b, y) => rootFactor b y
  let drawn := parts.filterMap fun
    | .signed _ b y => some (b, y)
    | .kept _ _ => none
  let kept := parts.filterMap fun
    | .signed _ _ _ => none
    | .kept b y => some (b, y)
  let flips := parts.countP fun
    | .signed negative _ _ => negative
    | .kept _ _ => false
  let negative := (c.sign < 0) != (flips % 2 = 1)
  let rest := match kept, negative with
    | [], false => 1
    | [], true => scalarPower (-1) x
    | [(b, number (.exact q)), ], false =>
      if -1 < q ∧ q < 1 then r.pow b (r.mul (ofRat q) (number x))
      else if q = 1 then factor b (number x) 1
      else factor (factor b (ofRat q) 1) (number x) 1
    | kept, negative => factor (ofFactors (if negative then -1 else 1) kept) (number x) 1
  let size := scalarPower (if c.sign < 0 then -c else c) x
  drawn.foldl (fun acc (b, y) => r.mul acc (r.raise x b y)) (r.mul size rest)

/-- The power, for a base that is no number and a finite exponent. -/
def productPower (r : Rules) (b x : ClosedForm) : ClosedForm :=
  let (c, fs) := b.factors
  match x with
  | number z =>
    match z.integer? with
    | some n =>
      fs.foldl (fun acc (b, y) => r.mul acc (r.raise z b y)) (number (c.powInt n))
    | none => match c, fs with
      | .exact 1, [(a, number 1)] => factor a x 1
      | c, fs => r.root z c fs
  | x =>
    match c, fs with
    | .exact 1, [(a, y)] =>
      match rootFactor a y with
      | .signed false a y => if y = 1 then factor a x 1 else r.pow a (r.mul y x)
      | _ => factor b x 1
    | _, _ => factor b x 1

/-- The power. -/
def powStep (r : Rules) (b x : ClosedForm) : ClosedForm :=
  match b, x with
  | number y, number z => scalarPower y z
  | b, x =>
    if x = 0 then 1
    else if x = 1 then b
    else
      match b, x with
      | undefined, _ => undefined
      | _, undefined => undefined
      | b, infinity d => powInfinite b d
      | infinity d, x => infinitePower d x
      | e, x => r.expStep x
      | b, x =>
        match overLog? b x with
        | some y => r.pow e y
        | none =>
          match b with
          | number y =>
            if y = 1 then 1
            else if y.isZero then
              match x.sign? with
              | some s => if s < 0 then infinity .unsigned else 0
              | none => factor b x 1
            else factor b x 1
          | b => r.productPower b x

end Rules

/-- Products and powers simplified in at most so many nested steps. -/
def rules : Nat → Rules
  | 0 => .written
  | n + 1 => ⟨(rules n).mulStep, (rules n).powStep⟩

/-- No form a formula gives rise to needs more nested steps. -/
def nesting : Nat := 16

instance : Mul ClosedForm := ⟨(rules nesting).mul⟩
instance : Pow ClosedForm ClosedForm := ⟨(rules nesting).pow⟩

protected def neg : ClosedForm → ClosedForm
  | undefined => undefined
  | infinity d => scaleDirection d (some (-1))
  | x => distribute (-1) x

instance : Neg ClosedForm := ⟨ClosedForm.neg⟩
instance : Sub ClosedForm := ⟨fun a b => a + -b⟩

/-- The quotient. A number by a number is rounded at most once; what is divided by zero is infinite
in no direction, and zero by zero is undefined. -/
protected def div (a b : ClosedForm) : ClosedForm :=
  match a, b with
  | number x, number y =>
    if y.isZero then if x.isZero then undefined else infinity .unsigned
    else number (x.quotient y)
  | a, b => a * b ^ ofRat (-1)

instance : Div ClosedForm := ⟨ClosedForm.div⟩

/-- The principal square root. -/
def sqrt (x : ClosedForm) : ClosedForm := x ^ ofRat (1 / 2)

theorem mul_number (p q : Rat) : ofRat p * ofRat q = ofRat (p * q) := rfl

theorem neg_number (p : Rat) : -ofRat p = ofRat (-1 * p) := rfl

theorem div_number (p q : Rat) (hq : q ≠ 0) : ofRat p / ofRat q = ofRat (p / q) := by
  have hzero : Scalar.isZero (.exact q) = false := by simp [Scalar.isZero, hq]
  show ClosedForm.div (number (.exact p)) (number (.exact q)) = _
  unfold ClosedForm.div
  simp only [hzero]
  rfl

end DeskCalc.ClosedForm
