import DeskCalc.Formula.Numeral
import Mathlib.Data.Nat.Factorial.Basic

/-!
# Arithmetic on the keypad

Expressions of the four operations, signs, squares, cubes and factorials of numerals, the fractions
that they stand for, and the texts that write them. A text may have more parentheses than it needs,
and a product with a parenthesis needs no times sign.
-/

namespace DeskCalc

/-- A decimal numeral that is not too long to be read. Zeros in front do not count. -/
structure Literal where
  digits : Text
  isDigits : ∀ c ∈ digits, Numeral.isPlainDigit c = true
  nonempty : digits ≠ []
  short : (digits.dropWhile (· = '0')).length ≤ Text.digitLimit

namespace Literal

def value (n : Literal) : Nat := Numeral.ofDigits 10 n.digits

end Literal

inductive Arithmetic where
  | numeral (n : Literal)
  | factorial (n : Literal)
  | negate (x : Arithmetic)
  | add (x y : Arithmetic)
  | subtract (x y : Arithmetic)
  | multiply (x y : Arithmetic)
  | divide (x y : Arithmetic)
  | square (x : Arithmetic)
  | cube (x : Arithmetic)

namespace Arithmetic

/-- The exact value of an expression. -/
def value : Arithmetic → Rat
  | numeral n => n.value
  | factorial n => n.value.factorial
  | negate x => -x.value
  | add x y => x.value + y.value
  | subtract x y => x.value - y.value
  | multiply x y => x.value * y.value
  | divide x y => x.value / y.value
  | square x => x.value ^ 2
  | cube x => x.value ^ 3

/-- Whether nothing is divided by zero. -/
def IsDefined : Arithmetic → Prop
  | numeral _ | factorial _ => True
  | negate x | square x | cube x => x.IsDefined
  | add x y | subtract x y | multiply x y => x.IsDefined ∧ y.IsDefined
  | divide x y => x.IsDefined ∧ y.IsDefined ∧ y.value ≠ 0

/-- How high the tree of an expression is. A numeral is a call on its digits, a factorial is a call
on a numeral, and the exponent of a power is a numeral. -/
def height : Arithmetic → Nat
  | numeral _ => 2
  | factorial _ => 3
  | negate x => x.height + 1
  | add x y | subtract x y | multiply x y | divide x y => max x.height y.height + 1
  | square x | cube x => max x.height 2 + 1

/-- How tightly a text holds together, the tightest first. -/
inductive Level where
  | atom | power | factor | product | sum
  deriving DecidableEq

/-- Whether a text may be followed by a parenthesis that it multiplies. -/
def EndsFactor (t : Text) : Prop :=
  ∃ u c, t = u ++ [c] ∧ (Numeral.isPlainDigit c = true ∨ c = ')')

/-- The texts that write an expression. `start` says whether the text begins the whole text or a
parenthesis, where alone a sign may stand. -/
inductive Rendered : Level → Bool → Arithmetic → Text → Prop
  | numeral {start} (n : Literal) : Rendered .atom start (.numeral n) n.digits
  | group {start x t} : Rendered .sum true x t → Rendered .atom start x ('(' :: t ++ [')'])
  | factorial {start} (n : Literal) : Rendered .power start (.factorial n) (n.digits ++ ['!'])
  | square {start x t} :
      Rendered .atom start x t → Rendered .power start (.square x) (t ++ ['^', '2'])
  | cube {start x t} : Rendered .atom start x t → Rendered .power start (.cube x) (t ++ ['^', '3'])
  | ofAtom {start x t} : Rendered .atom start x t → Rendered .power start x t
  | negate {x t} : Rendered .power false x t → Rendered .factor true (.negate x) ('-' :: t)
  | ofPower {start x t} : Rendered .power start x t → Rendered .factor start x t
  | times {start x y s t} : Rendered .product start x s → Rendered .factor false y t →
      Rendered .product start (.multiply x y) (s ++ '*' :: t)
  | adjacent {start x y s t} : Rendered .product start x s → Rendered .factor false y ('(' :: t) →
      EndsFactor s → Rendered .product start (.multiply x y) (s ++ '(' :: t)
  | over {start x y s t} : Rendered .product start x s → Rendered .factor false y t →
      Rendered .product start (.divide x y) (s ++ '/' :: t)
  | ofFactor {start x t} : Rendered .factor start x t → Rendered .product start x t
  | plus {start x y s t} : Rendered .sum start x s → Rendered .product false y t →
      Rendered .sum start (.add x y) (s ++ '+' :: t)
  | minus {start x y s t} : Rendered .sum start x s → Rendered .product false y t →
      Rendered .sum start (.subtract x y) (s ++ '-' :: t)
  | ofProduct {start x t} : Rendered .product start x t → Rendered .sum start x t

/-- The text of a whole expression. -/
def Writes (t : Text) (x : Arithmetic) : Prop := Rendered .sum true x t

/-- How many more parentheses are open after a character. -/
def openAfter (depth : Nat) (c : Char) : Nat :=
  if c = '(' then depth + 1 else if c = ')' then depth - 1 else depth

/-- How deep a character reaches: a numeral counts for one pair of parentheses of its own, a
factorial for two. -/
def reach (depth : Nat) (c : Char) : Nat :=
  if Numeral.isPlainDigit c then depth + 1 else if c = '!' then depth + 2 else 0

/-- How deep a text reaches that stands inside so many parentheses. -/
def nestingFrom (depth : Nat) : Text → Nat
  | [] => 0
  | c :: t => max (reach depth c) (nestingFrom (openAfter depth c) t)

/-- How deep parentheses are nested in a text when everything is written out. -/
def nesting (t : Text) : Nat := nestingFrom 0 t

end Arithmetic

end DeskCalc
