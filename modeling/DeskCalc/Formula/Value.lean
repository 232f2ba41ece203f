import DeskCalc.ClosedForm.Functions
import DeskCalc.Formula.Tree

/-!
# The value of a formula

The closed form that a formula tree stands for. A tree has no value where an operation has none:
a remainder by zero, a binary operation on what is no integer, a double factorial of a fraction.
-/

namespace DeskCalc

namespace ClosedForm

/-- The exact integer that a form is. -/
def integer? : ClosedForm → Option Int
  | number x => x.integer?
  | _ => none

end ClosedForm

/-- The common binary digits of two integers; negative ones have infinitely many ones in front. -/
def bothDigits : Int → Int → Int
  | .ofNat a, .ofNat b => (a &&& b : Nat)
  | .ofNat a, .negSucc b => (a - (a &&& b) : Nat)
  | .negSucc a, .ofNat b => (b - (a &&& b) : Nat)
  | .negSucc a, .negSucc b => .negSucc (a ||| b)

/-- The binary digits that one of two integers has. -/
def eitherDigits : Int → Int → Int
  | .ofNat a, .ofNat b => (a ||| b : Nat)
  | .ofNat a, .negSucc b => .negSucc (b - (a &&& b))
  | .negSucc a, .ofNat b => .negSucc (a - (a &&& b))
  | .negSucc a, .negSucc b => .negSucc (a &&& b)

open ClosedForm

def Constant.value : Constant → ClosedForm
  | .pi => ClosedForm.pi
  | .e => ClosedForm.e
  | .imaginaryUnit => ClosedForm.imaginaryUnit

namespace Operator

/-- An operator on the binary digits of two integers. -/
def onIntegers (f : Int → Int → Option Int) (x y : ClosedForm) : Option ClosedForm := do
  let a ← x.integer?
  let b ← y.integer?
  return ofRat (← f a b)

/-- The value of an operator between two values. A comparison of numbers is true or false, which is
no value; a comparison with a free symbol is left open. -/
def value? (o : Operator) (x y : ClosedForm) : Option ClosedForm :=
  match o with
  | plus => some (x + y)
  | minus => some (x - y)
  | times => some (x * y)
  | .over => some (x / y)
  | floorOver => floorDiv? x y
  | modulo => modulo? x y
  | power => some (x ^ y)
  | both => onIntegers (fun a b => some (bothDigits a b)) x y
  | either => onIntegers (fun a b => some (eitherDigits a b)) x y
  | shiftLeft => onIntegers (fun a b => if b < 0 then none else some (a <<< b.toNat)) x y
  | shiftRight => onIntegers (fun a b => if b < 0 then none else some (a >>> b.toNat)) x y
  | compare => if (x - y).hasSymbol then some indefinite else none
  | invert => none

end Operator

namespace Tree

/-- The closed form that a tree stands for, if it has a value. -/
def value? : Tree → Option ClosedForm
  | number x => x.value?.map .number
  | constant c => some c.value
  | symbol s => some (.symbol s)
  | signed .plus x => x.value?
  | signed .minus x => x.value?.map (-·)
  | signed .invert x => do
    let n ← (← x.value?).integer?
    return ofRat (-n - 1 : Int)
  | binary o x y => do o.value? (← x.value?) (← y.value?)
  | call .sqrt x => x.value?.map sqrt
  | call .log10 x => x.value?.map (logBase · (ofRat 10))
  | call (.fn f) x => x.value?.bind f.eval?
  | callTwo f x y => do
    let a ← x.value?
    let b ← y.value?
    return if f = .sqrt then sqrt a else logBase a b

end Tree

end DeskCalc
