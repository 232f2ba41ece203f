import DeskCalc.Formula.Numeral
import DeskCalc.Text.Letter

/-!
# Tokens of a formula

A formula is read as numerals, names, operators, parentheses, commas and exclamation marks, each as
long as possible. Blanks separate tokens and mean nothing else, except that one directly before an
exclamation mark counts: the mark then has no operand right before it. A line may end inside
parentheses only, and a number sign makes the rest of its line a comment.
-/

namespace DeskCalc

-- The empty sum meant here is the numeral zero, whatever else is in scope.
attribute [local instance (high)] Zero.ofOfNat0

inductive Operator where
  | plus | minus | times | over | floorOver | modulo | power
  | both | either | shiftLeft | shiftRight | invert
  /-- One of the four orders; which of them makes no difference to whether a formula is a number. -/
  | compare
  deriving DecidableEq, Repr

inductive Token where
  | number (x : Numeral)
  | name (x : Text)
  | op (o : Operator)
  | opening
  | closing
  | comma
  | bang
  /-- A blank directly before an exclamation mark. -/
  | gap
  | lineEnd
  deriving DecidableEq

namespace Token

/-- The blanks that may stand inside a line. -/
def isSpace (c : Char) : Bool := c = ' ' ∨ c = '\t' ∨ c = '\x0c'

/-- What follows a character that may be preceded by blanks. -/
def after? (c : Char) (cs : Text) : Option Text :=
  match cs.dropWhile isSpace with
  | d :: r => if d = c then some r else none
  | [] => none

/-- An operator of two characters or of one. The two characters may have blanks between them. -/
def operator? (c : Char) (cs : Text) : Option (Operator × Text) :=
  let longer (d : Char) (o : Operator) (short : Option Operator) : Option (Operator × Text) :=
    match after? d cs with
    | some r => some (o, r)
    | none => short.map (·, cs)
  match c with
  | '+' => some (.plus, cs)
  | '-' => some (.minus, cs)
  | '*' => longer '*' .power (some .times)
  | '/' => longer '/' .floorOver (some .over)
  | '%' => some (.modulo, cs)
  | '^' => some (.power, cs)
  | '&' => some (.both, cs)
  | '|' => some (.either, cs)
  | '~' => some (.invert, cs)
  | '<' => (longer '<' .shiftLeft none).or (longer '=' .compare (some .compare))
  | '>' => (longer '>' .shiftRight none).or (longer '=' .compare (some .compare))
  | _ => none

/-- An exclamation mark that is not the first half of an inequality sign. -/
def startsWithBang : Text → Bool
  | '!' :: '=' :: _ => false
  | '!' :: _ => true
  | _ => false

/-- A numeral with an imaginary unit after it is a product. -/
def ofNumeral (x : Numeral) (cs : Text) : List Token × Text :=
  match cs with
  | c :: r =>
    if (c = 'j' ∨ c = 'J') ∧ isPlain x then ([number x, op .times, name ['I']], r)
    else ([number x], c :: r)
  | [] => ([number x], [])
where
  isPlain : Numeral → Bool
    | .integer base _ => base = 10
    | .decimal _ _ _ => true

/-- The tokens at the start of a text, if any token can stand there, and the rest. Whether
parentheses are open decides whether a line may end. -/
def next? (inside : Bool) : Text → Option (List Token × Text)
  | [] => some ([], [])
  | c :: cs =>
    if isSpace c then
      if startsWithBang (cs.dropWhile isSpace) then some ([gap], cs) else some ([], cs)
    else if c = '\n' then if inside then some ([lineEnd], cs) else none
    else if c = '\r' ∧ cs.head? = some '\n' then
      if inside then some ([lineEnd], cs.drop 1) else none
    else if c = '#' then some ([], cs.dropWhile (· ≠ '\n'))
    else if c = '(' then some ([opening], cs)
    else if c = ')' then some ([closing], cs)
    else if c = ',' then some ([comma], cs)
    else if startsWithBang (c :: cs) then some ([bang], cs)
    else if Text.isNameStart c then
      some ([name (c :: cs.takeWhile Text.isWordChar)], cs.dropWhile Text.isWordChar)
    else
      match Numeral.read? (c :: cs) with
      | some (x, rest) => some (ofNumeral x rest)
      | none => (operator? c cs).map fun (o, rest) => ([op o], rest)

/-- How many more parentheses are open after a token. -/
def opens : Token → Int
  | opening => 1
  | closing => -1
  | _ => 0

/-- The tokens of a text, the first of which stand inside `depth` open parentheses. -/
def lex (depth : Int) (t : Text) : Option (List Token) :=
  if t.isEmpty then some []
  else do
    let (tokens, rest) ← next? (0 < depth) t
    if rest.length < t.length then
      return tokens ++ (← lex (depth + (tokens.map opens).sum) rest)
    else none
  termination_by t.length

/-- The tokens of a text. -/
def ofText (t : Text) : Option (List Token) := lex 0 t

end Token

end DeskCalc
