import DeskCalc.Number.Binary
import DeskCalc.Text.Basic

/-!
# Double precision numbers

The 64-bit binary format: 53 significant digits, exponents between `2 ^ (-1074)` and `2 ^ 1023`,
signed zeros, infinities and a value that is no number. Results are displayed through it, and the
numbers of a stored document that carry a point or an exponent are kept in it.
-/

namespace DeskCalc

-- The powers meant here are those of the core library, whatever else is in scope.
attribute [local instance (high)] instPowNat

/-- A number of the 64-bit format. A finite one is `± mantissa * 2 ^ exponent`. -/
inductive Double where
  | finite (negative : Bool) (mantissa : Nat) (exponent : Int)
  | infinite (negative : Bool)
  | notANumber
  deriving DecidableEq, Repr

namespace Double

/-- The double nearest `± num / den`; ties go to the even mantissa, and what would round to
`2 ^ 1024` or more is infinite. -/
def ofRatio (negative : Bool) (num den : Nat) : Double :=
  if num = 0 then .finite negative 0 0
  else
    let e := max (binaryExponent num den - 52) (-1074)
    let m := divNearestScaled 2 e num den
    if 971 ≤ e ∧ 2 ^ (53 : Nat) ≤ m ∨ 971 < e then .infinite negative
    else .finite negative m e

/-- The double nearest an exact number that has first been rounded to 53 digits. -/
def ofDyadic : Dyadic → Double
  | .zero => .finite false 0 0
  | .ofOdd n k _ =>
    -- beyond these sizes the answer is known without writing out the power of two
    let size := (n.natAbs.log2 : Int) - k
    let negative : Bool := n < 0
    if 1024 < size then .infinite negative
    else if size < -1080 then .finite negative 0 0
    else
      match k with
      | .ofNat k => ofRatio negative n.natAbs (2 ^ k)
      | .negSucc k => ofRatio negative (n.natAbs <<< (k + 1)) 1

/-- Numerator and denominator of the absolute value of a finite double. -/
def ratio (mantissa : Nat) : Int → Nat × Nat
  | .ofNat e => (mantissa <<< e, 1)
  | .negSucc e => (mantissa, 2 ^ (e + 1))

/-- The decimal number `digits * 10 ^ e` as a ratio. -/
def decimalRatio (digits : Nat) : Int → Nat × Nat
  | .ofNat e => (digits * 10 ^ e, 1)
  | .negSucc e => (digits, 10 ^ (e + 1))

/-- Searches for the shortest decimal that reads back: with one digit more each time, the two
neighbours of the value are tried, the nearer one first. The result is the digits and the exponent
of the last one. -/
def shortestDecimal (mantissa : Nat) (exponent : Int) : Nat × Int :=
  let (n, d) := ratio mantissa exponent
  let top := decimalExponent n d
  let found := (List.range 17).findSome? fun (i : Nat) =>
    let e := top - (i : Int)
    let nearer := divNearestScaled 10 e n d
    let (rn, rd) := decimalRatio nearer e
    let other := if rn * d ≤ n * rd then nearer + 1 else nearer - 1
    [nearer, other].find? (fun digits =>
      let (p, q) := decimalRatio digits e
      ofRatio false p q == ofRatio false n d) |>.map (·, e)
  found.getD (mantissa, 0)

/-- How a number whose first digit stands at `10 ^ top` is written: with all its places when
`fixedFrom ≤ top < fixedTo`, and with a power of ten otherwise. -/
structure Layout where
  fixedFrom : Int
  fixedTo : Int
  /-- Whether a number without fraction keeps `.0` in positional form. -/
  keepsPoint : Bool

/-- The sign and the digits of an exponent of ten, two digits at least. -/
def exponentText (e : Int) : Text :=
  let digits := Text.ofNat e.natAbs
  (if e < 0 then '-' else '+') :: (if digits.length < 2 then '0' :: digits else digits)

/-- Lays out digits without superfluous zeros at their end, the first standing at `10 ^ top`. -/
def Layout.write (layout : Layout) (digits : Text) (top : Int) : Text :=
  if layout.fixedFrom ≤ top ∧ top < layout.fixedTo then
    if top < 0 then
      '0' :: '.' :: (List.replicate (-top - 1).toNat '0' ++ digits)
    else
      let whole := top.toNat + 1
      let fraction := digits.drop whole
      let integer := digits.take whole ++ List.replicate (whole - digits.length) '0'
      if fraction.isEmpty then
        if layout.keepsPoint then integer ++ ['.', '0'] else integer
      else integer ++ '.' :: fraction
  else
    let head := digits.take 1
    let tail := digits.drop 1
    let mantissa := if tail.isEmpty then head else head ++ '.' :: tail
    mantissa ++ 'e' :: exponentText top

end Double

end DeskCalc
