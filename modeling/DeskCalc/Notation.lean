import DeskCalc.Modes
import DeskCalc.Text.Digit

/-!
# From keypad notation to formulas

What the keys write is rewritten step by step into what formulas understand. Three reciprocal
functions become quotients, the logarithms get the names they have in formulas, a factorial of a
numeral becomes a call, the letter `π` becomes a name, and in degrees the argument of a sine, cosine
or tangent is multiplied by `π / 180`. A name counts only if no letter stands before it, and the
argument in degrees ends at the first closing parenthesis.
-/

namespace DeskCalc.Notation

def isPlainLetter (c : Char) : Bool := ('A' ≤ c ∧ c ≤ 'Z') || ('a' ≤ c ∧ c ≤ 'z')

/-- Rewrites the calls of one function; `replacement` takes the place of the name and the opening
parenthesis. The first `skip` characters are left out, and `afterLetter` says whether a letter
stands before the text. -/
def renameFrom (name replacement : Text) (skip : Nat) (afterLetter : Bool) : Text → Text
  | [] => []
  | c :: cs =>
    match skip with
    | k + 1 => renameFrom name replacement k (isPlainLetter c) cs
    | 0 =>
      if !afterLetter && (name ++ ['(']).isPrefixOf (c :: cs) then
        replacement ++ renameFrom name replacement name.length (isPlainLetter c) cs
      else c :: renameFrom name replacement 0 (isPlainLetter c) cs

/-- Rewrites the calls of one function. -/
def rename (name replacement : Text) (t : Text) : Text := renameFrom name replacement 0 false t

/-- The names that are rewritten, in this order: the first logarithm has to go before the second
one takes its name. -/
def renames : List (Text × Text) :=
  [("cot", "1/tan("), ("sec", "1/cos("), ("csc", "1/sin("), ("log", "log10("), ("ln", "log(")].map
    fun (name, replacement) => (text name, text replacement)

/-- Rewrites factorials of digits; `run` holds the digits read last, in reverse. -/
def factorialsFrom (run : Text) : Text → Text
  | [] => run.reverse
  | c :: cs =>
    if Text.isDigit c then factorialsFrom (c :: run) cs
    else if c = '!' ∧ run ≠ [] then
      text "factorial(" ++ run.reverse ++ ')' :: factorialsFrom [] cs
    else run.reverse ++ c :: factorialsFrom [] cs

/-- Rewrites every factorial of a run of digits as a call. -/
def factorials (t : Text) : Text := factorialsFrom [] t

def piLetter : Char := 'π'

/-- Writes the letter out as a name. -/
def nameConstants (t : Text) : Text :=
  t.flatMap fun c => if c = piLetter then ['p', 'i'] else [c]

/-- The functions whose argument is an angle. -/
def angleFunctions : List Text := ["sin", "cos", "tan"].map text

/-- The argument of a call, up to the first closing parenthesis, if it is not empty. -/
def argument? (t : Text) : Option Text :=
  match t.takeWhile (· ≠ ')'), t.dropWhile (· ≠ ')') with
  | [], _ => none
  | _, [] => none
  | arg, _ => some arg

/-- The name and the argument of the call of an angle function that a text starts with. -/
def angleCall? (t : Text) : Option (Text × Text) :=
  angleFunctions.findSome? fun name =>
    if (name ++ ['(']).isPrefixOf t then (argument? (t.drop (name.length + 1))).map (name, ·)
    else none

/-- Rewrites angles from degrees. The first `skip` characters are left out. -/
def convertFrom (skip : Nat) (afterLetter : Bool) : Text → Text
  | [] => []
  | c :: cs =>
    match skip with
    | k + 1 => convertFrom k (isPlainLetter c) cs
    | 0 =>
      match if afterLetter then none else angleCall? (c :: cs) with
      | some (name, arg) =>
        name ++ '(' :: arg ++ text " * pi/180)" ++
          convertFrom (name.length + arg.length + 1) (isPlainLetter c) cs
      | none => c :: convertFrom 0 (isPlainLetter c) cs

/-- Rewrites the arguments of angle functions from degrees. -/
def convertDegrees (t : Text) : Text := convertFrom 0 false t

/-- The formula that an expression of the keypad stands for. -/
def normalize (unit : AngleUnit) (t : Text) : Text :=
  let t := nameConstants (factorials (renames.foldl (fun t (name, new) => rename name new t) t))
  match unit with
  | .degrees => convertDegrees t
  | .radians => t

end DeskCalc.Notation
