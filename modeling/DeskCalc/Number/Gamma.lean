import DeskCalc.Number.Elementary

/-!
# The gamma function

Factorials of numbers that are not natural. The logarithm of the gamma function is summed by
Stirling's series, whose coefficients are Bernoulli numbers, at an argument that is first moved
far enough to the right; arguments below one half are reflected.
-/

namespace DeskCalc.Elementary

/-- The Bernoulli numbers `B₀, …, Bₙ`, from `Σ C(m + 1, j) Bⱼ = 0`. -/
def bernoulli (n : Nat) : Array Rat :=
  (List.range n).foldl step #[1]
where
  step (bs : Array Rat) (i : Nat) : Array Rat :=
    let m := i + 1
    let (_, total) := (List.range m).foldl
      (fun (choose, total) j =>
        (choose * (m + 1 - j) / (j + 1), total + (choose : Rat) * bs.getD j 0))
      ((1 : Nat), (0 : Rat))
    bs.push (-total / (m + 1 : Nat))

/-- The product `z (z + 1) ⋯ (z + n - 1)`. -/
def risingProduct (bits : Nat) (z : Dyadic) : Nat → Dyadic
  | 0 => 1
  | n + 1 => Dyadic.mulTo bits (risingProduct bits z n) (z + (n : Dyadic))

/-- Stirling's sum `Σ B₂ₖ / (2k (2k - 1) y^(2k - 1))` over the given even Bernoulli numbers. -/
def stirlingSum (bits : Nat) (bs : Array Rat) (count : Nat) (y : Dyadic) : Dyadic :=
  let inverse := Dyadic.divTo bits 1 y
  let square := Dyadic.mulTo bits inverse inverse
  let (_, total) := (List.range count).foldl
    (fun (power, total) i =>
      let k := i + 1
      let b := bs.getD (2 * k) 0 / ((2 * k) * (2 * k - 1) : Nat)
      let part := Dyadic.mulTo bits power (nearestDyadic bits b.num b.den)
      (Dyadic.mulTo bits power square, Dyadic.addTo bits total part))
    (inverse, (0 : Dyadic))
  total

/-- The gamma function right of one half. -/
def gammaRight (bits : Nat) (z : Dyadic) : Dyadic :=
  let count := bits / 5 + 6
  let far : Nat := bits / 4 + 10
  let steps := if (far : Dyadic) ≤ z then 0 else (far - (z.toFixed 0).toNat)
  let y := z + (steps : Dyadic)
  let size := y.magnitude.toNat + y.magnitude.toNat.log2 + 2
  let w := bits + size + 20
  let stirling := stirlingSum w (bernoulli (2 * count)) count y
  let half : Dyadic := .ofIntWithPrec 1 1
  let main := Dyadic.addTo w (Dyadic.mulTo w (y - half) (log w y)) (-y)
  let halfLogTwoPi := (log w (pi w <<< (1 : Int))) >>> (1 : Int)
  let value := exp (bits + 10) (Dyadic.addTo w (Dyadic.addTo w main halfLogTwoPi) stirling)
  (Dyadic.divTo (bits + 10) value (risingProduct (bits + 20) z steps)).roundTo bits

/-- The gamma function, to about `bits` digits, of a number that is no pole. Left of one half it is
`π / (sin (π z) Γ (1 - z))`. -/
def gamma (bits : Nat) (z : Dyadic) : Dyadic :=
  let half : Dyadic := .ofIntWithPrec 1 1
  if half ≤ z then gammaRight bits z
  else
    let w := bits + 16
    let near := (z + half).toFixed 0
    let rest := z - (near : Dyadic)
    let sine := (cosSin w (Dyadic.mulTo w (pi w) rest)).2
    let sine := if near % 2 = 0 then sine else -sine
    Dyadic.divTo bits (pi w) (Dyadic.mulTo w sine (gammaRight w (1 - z)))

end DeskCalc.Elementary
