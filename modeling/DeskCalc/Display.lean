import DeskCalc.Number.Double

/-!
# The display

A result is shown with at most fifteen significant digits. It is rounded once to double
precision and the digits are those of that double; a result beyond the range of doubles is
written with fifteen digits and a power of ten of any size, unless it is an integer, known exactly,
that is too long to be written in full.
-/

namespace DeskCalc

-- The powers meant here are those of the core library, whatever else is in scope.
attribute [local instance (high)] instPowNat

/-- A number that can be shown: exact, of bounded binary precision, or a double. -/
inductive Shown where
  | exact (q : Rat)
  | binary (x : Dyadic)
  | double (x : Double)

namespace Display

def significantDigits : Nat := 15

/-- Positional between one ten-thousandth and `10 ^ 15`, otherwise with a power of ten. -/
def layout : Double.Layout := ⟨-4, 15, false⟩

/-- A number with a power of ten, whatever its size. -/
def scientific : Double.Layout := ⟨0, 0, false⟩

/-- Writes `± n / d`, rounded to fifteen significant digits, in the given layout. -/
def ratio (layout : Double.Layout) (negative : Bool) (n d : Nat) : Text :=
  if n = 0 then ['0']
  else
    let top := decimalExponent n d
    let digits := divNearestScaled 10 (top - 14) n d
    let (digits, top) :=
      if digits = 10 ^ (15 : Nat) then (10 ^ (14 : Nat), top + 1) else (digits, top)
    let body := layout.write (Text.trimRight '0' (Text.ofNat digits)) top
    if negative then '-' :: body else body

def dyadic (layout : Double.Layout) : Dyadic → Text
  | .zero => ['0']
  | .ofOdd n k _ =>
    match k with
    | .ofNat k => ratio layout (n < 0) n.natAbs (2 ^ k)
    | .negSucc k => ratio layout (n < 0) (n.natAbs <<< (k + 1)) 1

/-- The text of a number rounded to 53 binary digits. -/
def rounded (x : Dyadic) : Text :=
  match Double.ofDyadic x with
  | .finite negative m e => let (n, d) := Double.ratio m e; ratio layout negative n d
  | _ => dyadic scientific x

/-- Whether a number is an integer that is too long to be written in full. -/
def isTooLong (q : Rat) : Bool := q.den = 1 && 10 ^ Text.digitLimit ≤ q.num.natAbs

/-- The complaint about such an integer. -/
def tooLong : Text :=
  DeskCalc.text "Exceeds the limit (" ++ Text.ofNat Text.digitLimit ++
    DeskCalc.text (" digits) for integer string conversion; " ++
      "use sys.set_int_max_str_digits() to increase the limit")

/-- The text shown for a number. -/
def text? : Shown → Option Text
  | .exact q => if isTooLong q then none else some (rounded (nearestDyadic 53 q.num q.den))
  | .binary x => some (rounded (x.roundTo 53))
  | .double (.finite negative m e) =>
    let (n, d) := Double.ratio m e
    some (ratio layout negative n d)
  | .double (.infinite false) => some ['o', 'o']
  | .double (.infinite true) => some ['-', 'o', 'o']
  | .double .notANumber => some ['n', 'a', 'n']

end Display

end DeskCalc
