import DeskCalc.ClosedForm.Basic

/-!
# Numerals

Integers in decimal, hexadecimal, octal or binary digits, and decimals with a point, an exponent or
both. Single underscores may stand between digits. An integer is exact; a decimal is rounded to as
many binary digits as its decimal digits call for, and to no fewer than fifteen decimal ones.
-/

namespace DeskCalc

-- The powers meant here are those of the core library, whatever else is in scope.
attribute [local instance (high)] instPowNat

/-- The binary digits that a number of the given decimal digits is kept to. -/
def binaryDigits (decimal : Nat) : Nat :=
  max 1 (divNearest ((decimal + 1) * 33219280948873626) (10 ^ (16 : Nat)))

inductive Numeral where
  /-- An integer in the given base. -/
  | integer (base : Nat) (digits : Text)
  /-- Whole digits, digits after the point if there is one, and a power of ten. -/
  | decimal (whole : Text) (fraction : Option Text) (exponent : Int)
  deriving DecidableEq

namespace Numeral

/-- Whether the character is one of the ten digits of plain text. -/
def isPlainDigit (c : Char) : Bool := '0' ≤ c ∧ c ≤ '9'

def isHexadecimal (c : Char) : Bool :=
  isPlainDigit c || ('a' ≤ c ∧ c ≤ 'f') || ('A' ≤ c ∧ c ≤ 'F')

def digitValue (c : Char) : Nat :=
  if isPlainDigit c then c.toNat - '0'.toNat
  else if 'a' ≤ c then c.toNat - 'a'.toNat + 10
  else c.toNat - 'A'.toNat + 10

/-- The number that digits stand for in the given base. -/
def ofDigits (base : Nat) (digits : Text) : Nat :=
  digits.foldl (fun n c => n * base + digitValue c) 0

/-- Further digits, each possibly after one underscore, and what follows them. -/
def moreDigits (p : Char → Bool) : Text → Text × Text
  | [] => ([], [])
  | c :: cs =>
    if p c then
      let (digits, rest) := moreDigits p cs
      (c :: digits, rest)
    else
      match c, cs with
      | '_', d :: ds =>
        if p d then
          let (digits, rest) := moreDigits p ds
          (d :: digits, rest)
        else ([], c :: cs)
      | _, _ => ([], c :: cs)

/-- Digits, with single underscores between them, and what follows them. -/
def digitRun (p : Char → Bool) : Text → Text × Text
  | [] => ([], [])
  | c :: cs =>
    if p c then
      let (digits, rest) := moreDigits p cs
      (c :: digits, rest)
    else ([], c :: cs)

/-- Whether the digits of an exponent have a minus sign before them, and what follows the sign. -/
def exponentSign : Text → Bool × Text
  | '-' :: r => (true, r)
  | '+' :: r => (false, r)
  | r => (false, r)

/-- The power of ten after an `e`, and what follows it. -/
def readExponent? : Text → Option (Int × Text)
  | mark :: cs =>
    if mark = 'e' ∨ mark = 'E' then
      let (negative, cs) := exponentSign cs
      match digitRun isPlainDigit cs with
      | ([], _) => none
      | (digits, rest) =>
        let n : Int := ofDigits 10 digits
        some (if negative then -n else n, rest)
    else none
  | [] => none

/-- The letter that announces a base other than ten, and the digits of that base. -/
def radix? (c : Char) : Option (Nat × (Char → Bool)) :=
  if c = 'x' ∨ c = 'X' then some (16, isHexadecimal)
  else if c = 'o' ∨ c = 'O' then some (8, fun d => '0' ≤ d ∧ d ≤ '7')
  else if c = 'b' ∨ c = 'B' then some (2, fun d => d = '0' ∨ d = '1')
  else none

/-- An integer at the start of a text. A decimal one that begins with zero has only zeros. -/
def readInteger (whole rest : Text) : Numeral × Text :=
  match whole, rest with
  | ['0'], c :: cs =>
    match radix? c with
    | some (base, p) =>
      match moreDigits p cs with
      | ([], _) => (integer 10 whole, rest)
      | (digits, rest) => (integer base digits, rest)
    | none => (integer 10 whole, rest)
  | _, _ => (integer 10 whole, rest)

/-- The numeral at the start of a text, as long as possible, and what follows it. -/
def read? (t : Text) : Option (Numeral × Text) :=
  match digitRun isPlainDigit t with
  | ([], '.' :: r) =>
    match digitRun isPlainDigit r with
    | ([], _) => none
    | (fraction, r) => some (withExponent [] (some fraction) r)
  | ([], _) => none
  | (whole, '.' :: r) =>
    let (fraction, r) := digitRun isPlainDigit r
    some (withExponent whole (some fraction) r)
  | (whole, r) =>
    match readExponent? r with
    | some (e, r) => some (decimal whole none e, r)
    | none =>
      match whole with
      | '0' :: _ =>
        let (zeros, r) := digitRun (· = '0') t
        some (readInteger zeros r)
      | _ => some (readInteger whole r)
where
  withExponent (whole : Text) (fraction : Option Text) (r : Text) : Numeral × Text :=
    match readExponent? r with
    | some (e, r) => (decimal whole fraction e, r)
    | none => (decimal whole fraction 0, r)

/-- `n * 10 ^ e` -/
def shiftDecimal (n : Nat) (e : Int) : Rat :=
  match e with
  | .ofNat k => (n * 10 ^ k : Nat)
  | .negSucc k => (n : Rat) / (10 ^ (k + 1) : Nat)

/-- The decimal digits that a decimal is kept to. One without a point counts all the digits of the
integer it may stand for. -/
def decimalDigits (n : Nat) (e : Int) (hasPoint : Bool) : Nat :=
  let significant := (Text.ofNat n).length
  let value := shiftDecimal n e
  let whole := if !hasPoint ∧ value.den = 1 then (Text.ofNat value.num.natAbs).length else 0
  max 15 (max significant whole)

/-- The number that a numeral stands for, unless it is an integer in decimal digits that is too long
to be read. -/
def value? : Numeral → Option Scalar
  | integer base digits =>
    if base = 10 ∧ Text.digitLimit < digits.length then none
    else some (.exact (ofDigits base digits))
  | decimal whole fraction exponent =>
    let n := ofDigits 10 (whole ++ fraction.getD [])
    let e := exponent - (fraction.getD []).length
    let value := shiftDecimal n e
    let bits := binaryDigits (decimalDigits n e fraction.isSome)
    some (.inexact (nearestDyadic bits value.num value.den) bits)

end Numeral

end DeskCalc
