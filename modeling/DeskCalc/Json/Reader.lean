import DeskCalc.Json.Basic
import DeskCalc.Formula.Numeral

/-!
# Reading JSON

One value, with blanks around it, and nothing else. Control characters inside quotes, commas before
a closing bracket and a byte order mark are refused; the names of the values that are no numbers are
understood. Of two members with one key the last counts, in the place of the first. Reading goes
from left to right and ends at the first damage, which may also be an integer that has more digits
than can be read, or a bracket inside more brackets than there is room for.
-/

namespace DeskCalc

namespace Double

/-- The double nearest `± n * 10 ^ e`. Far outside the range of doubles the power of ten is not
written out. -/
def ofDecimal (negative : Bool) (n : Nat) (e : Int) : Double :=
  let length : Int := (Text.ofNat n).length + e
  if n = 0 ∨ length < -400 then .finite negative 0 0
  else if 400 < length then .infinite negative
  else
    let (p, q) := decimalRatio n e
    ofRatio negative p q

end Double

namespace Json

/-- The characters that may stand between two parts of a document. -/
def isBlank (c : Char) : Bool := c = ' ' ∨ c = '\t' ∨ c = '\n' ∨ c = '\r'

def skipBlanks (t : Text) : Text := t.dropWhile isBlank

def hexValue? (c : Char) : Option Nat :=
  if Numeral.isHexadecimal c then some (Numeral.digitValue c) else none

def codeUnit? : Text → Option (Nat × Text)
  | a :: b :: c :: d :: rest => do
    let a ← hexValue? a
    let b ← hexValue? b
    let c ← hexValue? c
    let d ← hexValue? d
    return (((a * 16 + b) * 16 + c) * 16 + d, rest)
  | _ => none

/-- What follows `\u`: one code unit, or the two halves of a pair, if the second one follows at
once. -/
def unicodeEscape? (t : Text) : Option (DocChar × Text) := do
  let (high, rest) ← codeUnit? t
  if 0xD800 ≤ high ∧ high < 0xDC00 then
    match rest with
    | '\\' :: 'u' :: more =>
      let (low, last) ← codeUnit? more
      if 0xDC00 ≤ low ∧ low < 0xE000 then
        return (.char (Char.ofNat (0x10000 + (high - 0xD800) * 0x400 + (low - 0xDC00))), last)
      else return (.half high, rest)
    | _ => return (.half high, rest)
  else if 0xDC00 ≤ high ∧ high < 0xE000 then return (.half high, rest)
  else return (.char (Char.ofNat high), rest)

/-- What follows a backslash. -/
def escape? : Text → Option (DocChar × Text)
  | 'u' :: rest => unicodeEscape? rest
  | c :: rest =>
    (match c with
      | '"' => some '"'
      | '\\' => some '\\'
      | '/' => some '/'
      | 'b' => some '\x08'
      | 'f' => some '\x0c'
      | 'n' => some '\n'
      | 'r' => some '\r'
      | 't' => some '\t'
      | _ => none).map (.char ·, rest)
  | [] => none

/-- The characters up to the closing quote, in at most `fuel` steps. -/
def stringWithin : Nat → Text → Option (DocText × Text)
  | 0, _ => none
  | _ + 1, [] => none
  | fuel + 1, c :: cs =>
    if c = '"' then some ([], cs)
    else if c = '\\' then do
      let (c, rest) ← escape? cs
      let (s, rest) ← stringWithin fuel rest
      return (c :: s, rest)
    else if c.toNat < 0x20 then none
    else do
      let (s, rest) ← stringWithin fuel cs
      return (.char c :: s, rest)

/-- The text up to the closing quote, and what follows it. -/
def readString? (t : Text) : Option (DocText × Text) := stringWithin t.length t

/-- The digits after a point, if there are any. -/
def readFraction (t : Text) : Option (Text × Text) :=
  match t with
  | '.' :: r =>
    match r.takeWhile Numeral.isPlainDigit with
    | [] => none
    | digits => some (digits, r.dropWhile Numeral.isPlainDigit)
  | _ => none

/-- The power of ten after an `e`, if there is one. -/
def readPower (t : Text) : Option (Int × Text) :=
  match t with
  | mark :: r =>
    if mark = 'e' ∨ mark = 'E' then
      let (negative, r) := match r with
        | '-' :: r => (true, r)
        | '+' :: r => (false, r)
        | r => (false, r)
      match r.takeWhile Numeral.isPlainDigit with
      | [] => none
      | digits =>
        let n : Int := Numeral.ofDigits 10 digits
        some (if negative then -n else n, r.dropWhile Numeral.isPlainDigit)
    else none
  | [] => none

/-- The digits of a whole number: one zero, or any digits that do not start with zero. -/
def readWhole? : Text → Option (Text × Text)
  | '0' :: r => some (['0'], r)
  | t =>
    match t.takeWhile Numeral.isPlainDigit with
    | [] => none
    | digits => some (digits, t.dropWhile Numeral.isPlainDigit)

/-- Why a text holds no value. -/
inductive Damage where
  /-- The text breaks the rules. -/
  | malformed
  /-- An integer has so many digits, more than can be read. -/
  | tooLong (digits : Nat)
  /-- An array or an object is nested too deep. -/
  | tooDeep (isArray : Bool)
  deriving DecidableEq

/-- A number without its sign. -/
def readUnsigned (negative : Bool) (t : Text) : Except Damage (Json × Text) :=
  match readWhole? t with
  | none => .error .malformed
  | some (whole, r) =>
    let (fraction, r) := ((readFraction r).map fun (d, r) => (some d, r)).getD (none, r)
    let (exponent, r) := ((readPower r).map fun (e, r) => (some e, r)).getD (none, r)
    if fraction.isNone ∧ exponent.isNone then
      if Text.digitLimit < whole.length then .error (.tooLong whole.length)
      else
        let n : Int := Numeral.ofDigits 10 whole
        .ok (integer (if negative then -n else n), r)
    else
      let digits := whole ++ fraction.getD []
      let e : Int := exponent.getD 0 - (fraction.getD []).length
      .ok (number (Double.ofDecimal negative (Numeral.ofDigits 10 digits) e), r)

def words : List (Text × Json) :=
  [("null", Json.null), ("true", .bool true), ("false", .bool false),
    ("NaN", .number .notANumber), ("Infinity", .number (.infinite false)),
    ("-Infinity", .number (.infinite true))].map fun (w, x) => (text w, x)

/-- A word or a number. -/
def readSimple (t : Text) : Except Damage (Json × Text) :=
  match words.find? fun (w, _) => w.isPrefixOf t with
  | some (w, x) => .ok (x, t.drop w.length)
  | none =>
    match t with
    | '-' :: r => readUnsigned true r
    | r => readUnsigned false r

/-- A text up to its closing quote. -/
def readString (t : Text) : Except Damage (DocText × Text) :=
  match readString? t with
  | some p => .ok p
  | none => .error .malformed

mutual

/-- The value at the start of a text, in which brackets are nested at most `room` deep. Every call
takes one step, of which there are at most `fuel`. -/
def valueWithin : Nat → Nat → Text → Except Damage (Json × Text)
  | 0, _, _ => .error .malformed
  | fuel + 1, room, t =>
    match t with
    | '"' :: r => (readString r).map fun (s, rest) => (string s, rest)
    | '[' :: r =>
      match room with
      | 0 => .error (.tooDeep true)
      | room + 1 =>
        match skipBlanks r with
        | ']' :: rest => .ok (array [], rest)
        | r => (itemsWithin fuel room r).map fun (xs, rest) => (array xs, rest)
    | '\x7b' :: r =>
      match room with
      | 0 => .error (.tooDeep false)
      | room + 1 =>
        match skipBlanks r with
        | '\x7d' :: rest => .ok (object [], rest)
        | r => (membersWithin fuel room [] r).map fun (ms, rest) => (object ms, rest)
    | t => readSimple t

/-- Items up to the closing bracket. -/
def itemsWithin : Nat → Nat → Text → Except Damage (List Json × Text)
  | 0, _, _ => .error .malformed
  | fuel + 1, room, t => do
    let (x, r) ← valueWithin fuel room t
    match skipBlanks r with
    | ']' :: rest => return ([x], rest)
    | ',' :: r =>
      let (xs, rest) ← itemsWithin fuel room (skipBlanks r)
      return (x :: xs, rest)
    | _ => .error .malformed

/-- Members up to the closing brace, after those already read. -/
def membersWithin : Nat → Nat → List (DocText × Json) → Text →
    Except Damage (List (DocText × Json) × Text)
  | 0, _, _, _ => .error .malformed
  | fuel + 1, room, ms, t =>
    match t with
    | '"' :: r => do
      let (key, r) ← readString r
      match skipBlanks r with
      | ':' :: r =>
        let (x, r) ← valueWithin fuel room (skipBlanks r)
        let ms := set key x ms
        match skipBlanks r with
        | '\x7d' :: rest => return (ms, rest)
        | ',' :: r => membersWithin fuel room ms (skipBlanks r)
        | _ => .error .malformed
      | _ => .error .malformed
    | _ => .error .malformed

end

/-- The value that a text holds, if brackets are nested in it at most `room` deep. -/
def ofText (room : Nat) (t : Text) : Except Damage Json := do
  let (x, rest) ← valueWithin (t.length + 1) room (skipBlanks t)
  if (skipBlanks rest).isEmpty then return x else .error .malformed

end Json

end DeskCalc
