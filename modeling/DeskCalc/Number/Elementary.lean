import DeskCalc.Number.Binary

/-!
# Elementary functions of binary numbers

Exponential, logarithm, circular and inverse circular functions to any number of digits. Inside,
a number is an integer that counts units of `2 ^ (-w)`; every function first moves its argument
into a small interval, sums a power series there, and undoes the move. The working precision `w`
is chosen so that the relative error of the result stays below about `2 ^ (-bits)`.
-/

namespace DeskCalc.Elementary

/-- The product of two numbers counted in units of `2 ^ (-w)`. -/
def fixedMul (w : Nat) (x y : Int) : Int := (x * y) >>> w

/-- The quotient of two numbers counted in units of `2 ^ (-w)`. -/
def fixedDiv (w : Nat) (x y : Int) : Int := (x <<< w) / y

/-- Sums `t / 1 + t·z / step₁ + …` until the terms vanish: each term is the one before times `z`,
divided by `divisor n`. At most `fuel` terms are taken. -/
def sumSeries (w : Nat) (z : Int) (divisor : Nat → Int) : Nat → Nat → Int → Int → Int
  | 0, _, _, acc => acc
  | fuel + 1, n, t, acc =>
    if t = 0 ∨ t = -1 then acc
    else sumSeries w z divisor fuel (n + 1) (fixedMul w t z / divisor (n + 1)) (acc + t)

/-- Sums `t₀ / d₀ + t₁ / d₁ + …`, where each `t` is the one before times `z`. -/
def sumPowers (w : Nat) (z : Int) (divisor : Nat → Int) : Nat → Nat → Int → Int → Int
  | 0, _, _, acc => acc
  | fuel + 1, n, t, acc =>
    if t = 0 ∨ t = -1 then acc
    else sumPowers w z divisor fuel (n + 1) (fixedMul w t z) (acc + t / divisor n)

/-- The inverse tangent of `1 / q`. -/
def fixedArctanInverse (w q : Nat) : Int :=
  go w 0 (((1 : Int) <<< w) / q) 0
where
  go : Nat → Nat → Int → Int → Int
    | 0, _, _, acc => acc
    | fuel + 1, n, t, acc =>
      if t = 0 then acc
      else
        let part := t / (2 * n + 1)
        go fuel (n + 1) (t / (q * q)) (if n % 2 = 0 then acc + part else acc - part)

/-- The circle constant, from `π = 16 arctan (1/5) - 4 arctan (1/239)`. -/
def fixedPi (w : Nat) : Int :=
  let v := w + 16
  (16 * fixedArctanInverse v 5 - 4 * fixedArctanInverse v 239) >>> (16 : Nat)

/-- The inverse hyperbolic tangent of `1 / q`. -/
def fixedArtanhInverse (w q : Nat) : Int :=
  go w 0 (((1 : Int) <<< w) / q) 0
where
  go : Nat → Nat → Int → Int → Int
    | 0, _, _, acc => acc
    | fuel + 1, n, t, acc =>
      if t = 0 then acc else go fuel (n + 1) (t / (q * q)) (acc + t / (2 * n + 1))

/-- The logarithm of two, from `ln 2 = 18 artanh (1/26) - 2 artanh (1/4801) + 8 artanh (1/8749)`. -/
def fixedLogTwo (w : Nat) : Int :=
  let v := w + 16
  (18 * fixedArtanhInverse v 26 - 2 * fixedArtanhInverse v 4801 + 8 * fixedArtanhInverse v 8749)
    >>> (16 : Nat)

/-- Squares `x` repeatedly, `n` times. -/
def fixedSquareTimes (w : Nat) : Nat → Int → Int
  | 0, x => x
  | n + 1, x => fixedSquareTimes w n (fixedMul w x x)

/-- `e ^ r` for `r` in `[0, 1)`: the series at `r / 2 ^ s`, squared `s` times. -/
def fixedExp (w : Nat) (r : Int) : Int :=
  let s := w.sqrt / 2 + 2
  let v := w + 2 * s + 10
  let x := (r <<< (v - w)) >>> s
  let y := sumSeries v x (fun n => n) v 0 ((1 : Int) <<< v) 0
  fixedSquareTimes v s y >>> (v - w)

/-- `e ^ x`, to about `bits` digits. -/
def exp (bits : Nat) (x : Dyadic) : Dyadic :=
  let m := x.magnitude
  if x.sign = 0 then 1
  else if m < -(bits : Int) - 4 then Dyadic.addTo (bits + 4) 1 x
  else
    let w := bits + 16
    let v := w + m.toNat
    let whole := x.toFixed v
    let unit := fixedLogTwo v
    let k := whole / unit
    let r := (whole - k * unit) >>> (v - w)
    (Dyadic.ofIntWithPrec (fixedExp w r) (w - k)).roundTo bits

/-- The inverse hyperbolic tangent of a number of absolute value below one half. -/
def fixedArtanh (w : Nat) (y : Int) : Int :=
  let v := w + 16
  let y := y <<< (16 : Nat)
  sumPowers v (fixedMul v y y) (fun n => 2 * n + 1) v 0 y 0 >>> (16 : Nat)

/-- The natural logarithm of a positive number, to about `bits` digits. -/
def log (bits : Nat) (x : Dyadic) : Dyadic :=
  -- the distance from one matters only close to one
  let isClose : Bool := -1 ≤ x.magnitude ∧ x.magnitude ≤ 0
  let d : Dyadic := if isClose then x - 1 else 1
  if d.sign = 0 then 0
  else
    -- closer to one the logarithm is smaller and needs more digits after the point
    let near : Nat := if d.magnitude < 0 then (-d.magnitude).toNat else 0
    let w := bits + near + 16
    -- write `x` as `2 ^ k * m` with `m` between `3/4` and `3/2`
    let k₀ := x.magnitude
    let m₀ := (x <<< (-k₀)).toFixed w
    let high : Bool := 3 * (1 <<< w) ≤ 2 * m₀
    let k := if high then k₀ + 1 else k₀
    let m := (x <<< (-k)).toFixed w
    let one : Int := 1 <<< w
    let y := fixedDiv w (m - one) (m + one)
    let guard := k.natAbs.log2 + 1
    let whole := (k * fixedLogTwo (w + guard)) >>> guard
    (Dyadic.ofIntWithPrec (whole + 2 * fixedArtanh w y) w).roundTo bits

/-- Cosine and sine of an angle of absolute value at most one. -/
def fixedCosSin (w : Nat) (r : Int) : Int × Int :=
  let v := w + 10
  let x := r <<< (10 : Nat)
  let z := -fixedMul v x x
  let c := sumSeries v z (fun n => (2 * n - 1) * (2 * n)) v 0 ((1 : Int) <<< v) 0
  let s := sumSeries v z (fun n => (2 * n) * (2 * n + 1)) v 0 x 0
  (c >>> (10 : Nat), s >>> (10 : Nat))

/-- Cosine and sine, each to about `bits` digits. The angle is reduced by the nearest multiple of a
quarter turn; if the rest is so small that digits are lost, the reduction is repeated with more. -/
def cosSin (bits : Nat) (x : Dyadic) : Dyadic × Dyadic :=
  if x.sign = 0 then (1, 0)
  else if x.magnitude < -(bits : Int) / 2 - 8 then
    let square := Dyadic.mulTo bits x x
    let cube := Dyadic.mulTo bits x square
    (Dyadic.addTo bits 1 (-(square >>> (1 : Int))),
      Dyadic.addTo bits x (Dyadic.divTo bits cube (-6)))
  else attempt 6 16
where
  attempt : Nat → Nat → Dyadic × Dyadic
    | 0, _ => (1, 0)
    | fuel + 1, extra =>
      let m := x.magnitude
      let small : Nat := if m < 0 then (-m).toNat else 0
      let w := bits + small + extra
      let v := w + m.toNat + 4
      let quarter := fixedPi v >>> (1 : Nat)
      let whole := x.toFixed v
      let q := (whole + quarter / 2) / quarter
      let r := (whole - q * quarter) >>> (v - w)
      let lost : Int := w - r.natAbs.log2
      if (bits : Int) + 12 + lost ≤ w ∨ fuel = 0 then
        let (c, s) := fixedCosSin w r
        let c := (Dyadic.ofIntWithPrec c w).roundTo bits
        let s := (Dyadic.ofIntWithPrec s w).roundTo bits
        match q % 4 with
        | 0 => (c, s)
        | 1 => (-s, c)
        | 2 => (-c, -s)
        | _ => (s, -c)
      else attempt fuel (extra + lost.toNat + 16)

/-- The inverse tangent of a number between zero and one: the argument is halved as an angle a few
times before the series is summed. -/
def fixedArctan (w : Nat) (x : Int) : Int :=
  let s := w.sqrt / 3 + 2
  let v := w + 2 * s + 10
  let y := halve v s (x <<< (v - w))
  (sumPowers v (-fixedMul v y y) (fun n => 2 * n + 1) v 0 y 0 <<< s) >>> (v - w)
where
  halve (v : Nat) : Nat → Int → Int
    | 0, y => y
    | n + 1, y =>
      let one : Int := 1 <<< v
      let root : Int := ((one * one + y * y).toNat.sqrt : Nat)
      halve v n (fixedDiv v y (one + root))

/-- The inverse tangent, to about `bits` digits. -/
def arctan (bits : Nat) (x : Dyadic) : Dyadic :=
  let m := x.magnitude
  if x.sign = 0 then 0
  else if m < -(bits : Int) - 4 then x.roundTo bits
  else
    let a := x.abs
    let y : Dyadic :=
      if 0 ≤ m then
        let w := bits + 16
        let inverse := (Dyadic.divTo (bits + 8) 1 a).toFixed w
        .ofIntWithPrec ((fixedPi w >>> (1 : Nat)) - fixedArctan w inverse) w
      else
        let w := bits + (-m).toNat + 16
        .ofIntWithPrec (fixedArctan w (a.toFixed w)) w
    let y := y.roundTo bits
    if x.sign < 0 then -y else y

/-- The circle constant, to about `bits` digits. -/
def pi (bits : Nat) : Dyadic :=
  (Dyadic.ofIntWithPrec (fixedPi (bits + 8)) (bits + 8)).roundTo bits

/-- How many digits a function of a small argument loses when it is computed from a sum near one. -/
private def smallness (x : Dyadic) : Nat := if x.magnitude < 0 then (-x.magnitude).toNat else 0

/-- `x + x ^ 3 / n`: the value, for a tiny argument, of an odd function whose series starts so. -/
private def tiny (bits : Nat) (x : Dyadic) (n : Int) : Dyadic :=
  let cube := Dyadic.mulTo bits x (Dyadic.mulTo bits x x)
  Dyadic.addTo bits x (Dyadic.divTo bits cube (Dyadic.ofInt n))

private def isTiny (bits : Nat) (x : Dyadic) : Bool := x.magnitude < -(bits : Int) / 2 - 8

/-- Hyperbolic cosine and sine, each to about `bits` digits. -/
def coshSinh (bits : Nat) (x : Dyadic) : Dyadic × Dyadic :=
  let guard := bits + 2 * min (smallness x) bits + 20
  let up := exp guard x
  let down := Dyadic.divTo guard 1 up
  let cosh := (Dyadic.addTo guard up down) >>> (1 : Int)
  let sinh := if isTiny bits x then tiny (bits + 4) x 6
    else (Dyadic.addTo guard up (-down)) >>> (1 : Int)
  (cosh.roundTo bits, sinh.roundTo bits)

def arsinh (bits : Nat) (x : Dyadic) : Dyadic :=
  if isTiny bits x then (tiny (bits + 4) x (-6)).roundTo bits
  else
    let a := x.abs
    let guard := bits + 2 * smallness x + 16
    let root := Dyadic.sqrtTo guard (Dyadic.addTo (2 * guard) 1 (a * a))
    let y := log bits (Dyadic.addTo guard a root)
    if x.sign < 0 then -y else y

/-- The inverse hyperbolic cosine of a number that is at least one. -/
def arcosh (bits : Nat) (x : Dyadic) : Dyadic :=
  let close := Dyadic.addTo (2 * bits + 64) x (-1)
  let guard := bits + smallness close + 16
  let below := Dyadic.addTo (2 * guard) x (-1)
  let above := Dyadic.addTo (2 * guard) x 1
  let root := Dyadic.sqrtTo guard (below * above)
  log bits (Dyadic.addTo guard x root)

/-- The inverse hyperbolic tangent of a number between minus one and one. -/
def artanh (bits : Nat) (x : Dyadic) : Dyadic :=
  if isTiny bits x then (tiny (bits + 4) x 3).roundTo bits
  else
    let guard := bits + 2 * smallness x + 16
    (log bits (Dyadic.divTo guard (1 + x) (1 - x))) >>> (1 : Int)

/-- The inverse sine of a number between minus one and one. -/
def arcsin (bits : Nat) (x : Dyadic) : Dyadic :=
  let guard := bits + 16
  let rest := Dyadic.addTo (2 * guard) 1 (-x) * Dyadic.addTo (2 * guard) 1 x
  if rest.sign = 0 then
    let quarter := (pi bits) >>> (1 : Int)
    if x.sign < 0 then -quarter else quarter
  else arctan bits (Dyadic.divTo guard x (Dyadic.sqrtTo guard rest))

/-- The inverse cosine of a number between minus one and one. -/
def arccos (bits : Nat) (x : Dyadic) : Dyadic :=
  let guard := bits + 16
  let up := Dyadic.addTo (2 * guard) 1 x
  if up.sign = 0 then pi bits
  else (arctan bits (Dyadic.sqrtTo guard (Dyadic.divTo guard (Dyadic.addTo (2 * guard) 1 (-x)) up)))
    <<< (1 : Int)

end DeskCalc.Elementary
