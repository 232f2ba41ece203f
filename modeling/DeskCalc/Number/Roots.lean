/-!
# Roots of natural numbers

Integer roots, and the factors of a number that roots can be drawn from: the primes below a bound,
each with its exponent, and what remains after them.
-/

namespace DeskCalc

-- The powers meant here are those of the core library, whatever else is in scope.
attribute [local instance (high)] instPowNat

/-- Newton's iteration for the `k`-th root of `n`, from above. -/
def descendToRoot (n k : Nat) : Nat → Nat → Nat
  | 0, x => x
  | fuel + 1, x =>
    let y := ((k - 1) * x + n / x ^ (k - 1)) / k
    if y < x then descendToRoot n k fuel y else x

/-- The greatest natural number whose `k`-th power is at most `n`, for positive `k`. -/
def integerRoot (n k : Nat) : Nat :=
  if n = 0 then 0
  else if k = 2 then n.sqrt
  else descendToRoot n k (n.log2 + 2) (2 ^ (n.log2 / k + 1))

/-- The `k`-th root of a number that is a `k`-th power. -/
def exactRoot? (n k : Nat) : Option Nat :=
  let r := integerRoot n k
  if r ^ k = n then some r else none

/-- Removes a factor as often as it divides, and counts how often. -/
def removeFactor (d : Nat) : Nat → Nat → Nat → Nat × Nat
  | 0, n, count => (n, count)
  | fuel + 1, n, count =>
    if 1 < d ∧ n % d = 0 ∧ n ≠ 0 then removeFactor d fuel (n / d) (count + 1) else (n, count)

/-- How often `d` divides `n`, for `d` above one and `n` above zero. -/
def multiplicity (d n : Nat) : Nat := (removeFactor d n.log2 n 0).2

/-- The exponents tried on what trial division leaves. -/
private def rootExponents : List Nat := [2, 3, 5, 7, 11, 13]

/-- What trial division leaves, as a power if it is one. -/
private def remaining (n : Nat) : List (Nat × Nat) :=
  if n ≤ 1 then []
  else
    match rootExponents.findSome? fun k => (exactRoot? n k).map (·, k) with
    | some p => [p]
    | none => [(n, 1)]

private def trialDivision : Nat → Nat → Nat → List (Nat × Nat)
  | 0, _, n => remaining n
  | fuel + 1, d, n =>
    if n < d * d then remaining n
    else if n % d = 0 then
      let (rest, count) := removeFactor d n.log2 n 0
      (d, count) :: trialDivision fuel (d + 1) rest
    else trialDivision fuel (d + 1) n

/-- A positive number as a product of powers. The bases are the primes below `2 ^ 15` and at most
one number without such factors. -/
def powerFactors (n : Nat) : List (Nat × Nat) := trialDivision (2 ^ (15 : Nat)) 2 n

end DeskCalc
