/-!
# Rounding a quotient

Every rounding of the calculator is the same operation: the integer nearest a quotient, an exact
half going to the even neighbour. Applied to a quotient scaled by a power of two it yields binary
numbers of a given precision, applied to one scaled by a power of ten it yields decimal digits.
`divNearest_close` says that the result is never further than one half from the quotient.
-/

namespace DeskCalc

-- The powers meant here are those of the core library, whatever else is in scope.
attribute [local instance (high)] instPowNat

/-- The natural number nearest `n / d`; an exact half goes to the even neighbour. -/
def divNearest (n d : Nat) : Nat :=
  let q := n / d
  let r := n % d
  if 2 * r < d then q else if d < 2 * r then q + 1 else q + q % 2

theorem divNearest_close (n d : Nat) (hd : 0 < d) :
    2 * (divNearest n d * d) ≤ 2 * n + d ∧ 2 * n ≤ 2 * (divNearest n d * d) + d := by
  have hsplit : n / d * d + n % d = n := by
    have h := Nat.div_add_mod n d
    rwa [Nat.mul_comm] at h
  have hlt := Nat.mod_lt n hd
  have hnext : (n / d + 1) * d = n / d * d + d := Nat.succ_mul _ _
  unfold divNearest
  dsimp only
  split
  · omega
  · split
    · omega
    · rcases Nat.mod_two_eq_zero_or_one (n / d) with h | h <;> rw [h]
      · rw [Nat.add_zero]; omega
      · omega

/-- A quotient that is a natural number is its own rounding. -/
theorem divNearest_mul (k d : Nat) (hd : 0 < d) : divNearest (k * d) d = k := by
  unfold divNearest
  simp [Nat.mul_mod_left, Nat.mul_div_cancel _ hd, hd]

/-- The natural number nearest `n / (d * b ^ e)`, for an exponent of either sign. -/
def divNearestScaled (b : Nat) (e : Int) (n d : Nat) : Nat :=
  match e with
  | .ofNat k => divNearest n (d * b ^ k)
  | .negSucc k => divNearest (n * b ^ (k + 1)) d

/-- The integer part of `n / (d * b ^ e)`, for an exponent of either sign. -/
def divFloorScaled (b : Nat) (e : Int) (n d : Nat) : Nat :=
  match e with
  | .ofNat k => n / (d * b ^ k)
  | .negSucc k => n * b ^ (k + 1) / d

/-- The exponent of the greatest power of two that is at most `n / d`, for positive `n` and `d`. -/
def binaryExponent (n d : Nat) : Int :=
  let e := (n.log2 : Int) - d.log2
  let fits : Bool := match e with
    | .ofNat k => d <<< k ≤ n
    | .negSucc k => d ≤ n <<< (k + 1)
  if fits then e else e - 1

/-- `10 ^ e ≤ n / d`, for an exponent of either sign. -/
def powerOfTenFits (n d : Nat) : Int → Bool
  | .ofNat k => d * 10 ^ k ≤ n
  | .negSucc k => d ≤ n * 10 ^ (k + 1)

/-- Walks from an estimate of the decimal exponent to the exponent itself, at most `fuel` steps
in each direction. -/
def settleDecimalExponent (n d : Nat) : Nat → Int → Int
  | 0, e => e
  | fuel + 1, e =>
    if !powerOfTenFits n d e then settleDecimalExponent n d fuel (e - 1)
    else if powerOfTenFits n d (e + 1) then settleDecimalExponent n d fuel (e + 1)
    else e

/-- The exponent of the greatest power of ten that is at most `n / d`, for positive `n` and `d`.
The estimate multiplies the binary exponent by the logarithm of two. -/
def decimalExponent (n d : Nat) : Int :=
  let b := binaryExponent n d
  settleDecimalExponent n d (n.log2 + d.log2 + 2) (b * 30102999566398 / 100000000000000)

end DeskCalc
