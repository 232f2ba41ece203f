import DeskCalc.Formula.Token

/-!
# Formula trees

What a formula says once precedence and adjacency have been resolved: numerals, the named
constants, free symbols, operators and calls of the functions that formulas know by name.
-/

namespace DeskCalc

inductive Constant where
  | pi | e | imaginaryUnit
  deriving DecidableEq, Repr

inductive Operation where
  | fn (f : Fn)
  | sqrt
  | log10
  deriving DecidableEq, Repr

inductive Meaning where
  | constant (c : Constant)
  | operation (f : Operation)
  deriving DecidableEq, Repr

/-- The names that formulas know. Every other name is a free symbol. -/
def vocabulary : List (Text × Meaning) :=
  [("pi", Meaning.constant .pi), ("e", .constant .e), ("I", .constant .imaginaryUnit),
    ("sqrt", .operation .sqrt), ("log", .operation (.fn .log)), ("ln", .operation (.fn .log)),
    ("log10", .operation .log10),
    ("factorial", .operation (.fn .factorial)),
    ("sin", .operation (.fn .sin)), ("cos", .operation (.fn .cos)),
    ("tan", .operation (.fn .tan)), ("csc", .operation (.fn .csc)),
    ("sec", .operation (.fn .sec)), ("cot", .operation (.fn .cot)),
    ("asin", .operation (.fn .asin)), ("acos", .operation (.fn .acos)),
    ("atan", .operation (.fn .atan)), ("acsc", .operation (.fn .acsc)),
    ("asec", .operation (.fn .asec)), ("acot", .operation (.fn .acot)),
    ("sinh", .operation (.fn .sinh)), ("cosh", .operation (.fn .cosh)),
    ("tanh", .operation (.fn .tanh)), ("csch", .operation (.fn .csch)),
    ("sech", .operation (.fn .sech)), ("coth", .operation (.fn .coth)),
    ("asinh", .operation (.fn .asinh)), ("acosh", .operation (.fn .acosh)),
    ("atanh", .operation (.fn .atanh)), ("acsch", .operation (.fn .acsch)),
    ("asech", .operation (.fn .asech)), ("acoth", .operation (.fn .acoth))].map
      fun (name, meaning) => (text name, meaning)

def reservedWords : List Text :=
  ["False", "None", "True", "and", "as", "assert", "async", "await", "break", "class", "continue",
    "def", "del", "elif", "else", "except", "finally", "for", "from", "global", "if", "import",
    "in", "is", "lambda", "nonlocal", "not", "or", "pass", "raise", "return", "try", "while",
    "with", "yield"].map text

/-- Signs before an operand. -/
inductive Sign where
  | plus | minus | invert
  deriving DecidableEq, Repr

inductive Tree where
  | number (x : Numeral)
  | constant (c : Constant)
  | symbol (name : Text)
  | signed (s : Sign) (x : Tree)
  | binary (o : Operator) (x y : Tree)
  | call (f : Operation) (x : Tree)
  /-- A call with two arguments. -/
  | callTwo (f : Operation) (x y : Tree)
  deriving DecidableEq

/-- How high a tree is in which a numeral and a free symbol are calls on what they are written
with. -/
def Tree.height : Tree → Nat
  | number _ => 2
  | constant _ => 1
  | symbol _ => 2
  | signed _ x => x.height + 1
  | binary _ x y => max x.height y.height + 1
  | call _ x => x.height + 1
  | callTwo _ x y => max x.height y.height + 1

namespace Operation

/-- The call with the given arguments, if the operation takes that many. A logarithm may be given
its base, and a second argument of a square root has no effect on its value. -/
def call? (f : Operation) : List Tree → Option Tree
  | [x] => some (.call f x)
  | [x, y] => if f = .sqrt ∨ f = .fn .log then some (.callTwo f x y) else none
  | _ => none

end Operation

end DeskCalc
