import DeskCalc.Text.Blank

/-!
# Files of environment variables

One assignment a line: a name, an equals sign and a value, with `export` and blanks before the name,
blanks around the sign and a comment after the value. A value between quotes may span lines and have
escapes; a value without quotes ends at the line's end or at a blank before a number sign. A line
that does not parse is skipped. A value may refer to another variable as `${name}`, with a default
after `:-`. A file may assign what no variable can hold; the first such variable is reported.
-/

namespace DeskCalc.EnvironmentFile

/-- Reads the two characters of a line end as one. -/
def unifyLineEnds : Text → Text
  | '\r' :: '\n' :: cs => '\n' :: unifyLineEnds cs
  | '\r' :: cs => '\n' :: unifyLineEnds cs
  | c :: cs => c :: unifyLineEnds cs
  | [] => []

/-- A blank that does not end the line. -/
def isInnerBlank (c : Char) : Bool := Text.isBlank c && c ≠ '\n' && c ≠ '\r'

def skipInner (t : Text) : Text := t.dropWhile isInnerBlank

/-- A quoted value up to its closing mark. A backslash keeps a mark from closing the value, unless
no other mark closes it. -/
def quoted? (mark : Char) : Text → Option (Text × Text)
  | [] => none
  | c :: cs =>
    if c = mark then some ([], cs)
    else if c = '\\' then
      match cs with
      | d :: rest =>
        if d = mark then
          match quoted? mark rest with
          | some (v, after) => some (c :: d :: v, after)
          | none => some ([c], rest)
        else (quoted? mark (d :: rest)).map fun (v, after) => (c :: v, after)
      | [] => none
    else (quoted? mark cs).map fun (v, after) => (c :: v, after)

/-- Replaces backslashes with the character after them by what the two stand for. -/
def unescape (meaning : Char → Option Char) : Text → Text
  | '\\' :: c :: cs =>
    match meaning c with
    | some d => d :: unescape meaning cs
    | none => '\\' :: unescape meaning (c :: cs)
  | c :: cs => c :: unescape meaning cs
  | [] => []

/-- The escapes between single quotes. -/
def singleEscape (c : Char) : Option Char := if c = '\\' ∨ c = '\'' then some c else none

/-- The escapes between double quotes. -/
def doubleEscape (c : Char) : Option Char :=
  match c with
  | '\\' => some '\\'
  | '\'' => some '\''
  | '"' => some '"'
  | 'a' => some '\x07'
  | 'b' => some '\x08'
  | 'f' => some '\x0c'
  | 'n' => some '\n'
  | 'r' => some '\r'
  | 't' => some '\t'
  | 'v' => some '\x0b'
  | _ => none

/-- A value without quotes, up to a blank before a number sign. -/
def dropComment : Text → Text
  | [] => []
  | c :: cs =>
    if Text.isBlank c ∧ (cs.dropWhile Text.isBlank).head? = some '#' then []
    else c :: dropComment cs

def stripRight (t : Text) : Text := (t.reverse.dropWhile Text.isBlank).reverse

/-- The value after the equals sign, and what follows it. -/
def value? (t : Text) : Option (Text × Text) :=
  match t with
  | '\'' :: r => (quoted? '\'' r).map fun (v, rest) => (unescape singleEscape v, rest)
  | '"' :: r => (quoted? '"' r).map fun (v, rest) => (unescape doubleEscape v, rest)
  | t =>
    let line := t.takeWhile (· ≠ '\n')
    some (stripRight (dropComment line), t.dropWhile (· ≠ '\n'))

/-- The name at the start of a text; a comment has none. -/
def name? (t : Text) : Option (Option Text × Text) :=
  match t with
  | '#' :: _ => some (none, t)
  | '\'' :: r =>
    match r.takeWhile (· ≠ '\''), r.dropWhile (· ≠ '\'') with
    | [], _ => none
    | _, [] => none
    | name, _ :: rest => some (some name, rest)
  | t =>
    let inName (c : Char) : Bool := c ≠ '=' && c ≠ '#' && !Text.isBlank c
    match t.takeWhile inName with
    | [] => none
    | name => some (some name, t.dropWhile inName)

/-- Drops the word `export` and the blanks after it. -/
def skipExport (t : Text) : Text :=
  let word := text "export"
  let rest := t.drop word.length
  if word.isPrefixOf t ∧ rest.head?.any isInnerBlank then skipInner rest else t

/-- Where reading stops on a line: after it, or in it because it does not parse. -/
inductive Line where
  | binding (name : Option Text) (value : Option Text) (rest : Text)
  | invalid (rest : Text)

/-- What a line may end with: blanks and a comment. -/
def endLine (name value : Option Text) (t : Text) : Line :=
  let afterComment := match skipInner t with
    | '#' :: r => r.dropWhile (· ≠ '\n')
    | _ => t
  match skipInner afterComment with
  | [] => .binding name value []
  | '\n' :: rest => .binding name value rest
  | _ => .invalid afterComment

/-- Reads one line, from its first character that is no blank. -/
def line (t : Text) : Line :=
  let t := skipExport t
  match name? t with
  | none => .invalid t
  | some (name, r) =>
    match skipInner r with
    | '=' :: r =>
      let r := skipInner r
      match value? r with
      | none => .invalid r
      | some (v, rest) => endLine name (some v) rest
    | r => endLine name none r

/-- Names with their values in the order of the lines, from at most `fuel` lines. -/
def bindingsWithin : Nat → Text → List (Text × Option Text)
  | 0, _ => []
  | fuel + 1, t =>
    match t.dropWhile Text.isBlank with
    | [] => []
    | t =>
      match line t with
      | .binding (some name) value rest => (name, value) :: bindingsWithin fuel rest
      | .binding none _ rest => bindingsWithin fuel rest
      | .invalid rest => bindingsWithin fuel ((rest.dropWhile (· ≠ '\n')).drop 1)

/-- The names of a file with their values, in the order of the lines. -/
def bindings (t : Text) : List (Text × Option Text) :=
  bindingsWithin t.length (unifyLineEnds t)

/-- A reference to a variable at the start of a text: its name, its default and what follows. The
dollar sign and the brace have been read. -/
def reference? (t : Text) : Option (Text × Text × Text) :=
  let name := t.takeWhile fun c => c ≠ '\x7d' ∧ c ≠ ':'
  match t.drop name.length with
  | '\x7d' :: rest => some (name, [], rest)
  | ':' :: '-' :: r =>
    match r.dropWhile (· ≠ '\x7d') with
    | _ :: rest => some (name, r.takeWhile (· ≠ '\x7d'), rest)
    | [] => none
  | _ => none

/-- Replaces references by the values of variables, in at most `fuel` steps. -/
def expandWithin (lookup : Text → Option Text) : Nat → Text → Text
  | 0, t => t
  | _ + 1, [] => []
  | fuel + 1, c :: cs =>
    match c, cs with
    | '$', '\x7b' :: r =>
      match reference? r with
      | some (name, default, rest) => (lookup name).getD default ++ expandWithin lookup fuel rest
      | none => c :: expandWithin lookup fuel cs
    | _, _ => c :: expandWithin lookup fuel cs

/-- Replaces references by the values of variables. -/
def expand (lookup : Text → Option Text) (t : Text) : Text := expandWithin lookup t.length t

/-- The value of a name that the lines so far assign, the last one first. A name without a value
counts as empty. -/
def assigned? (name : Text) (earlier : List (Text × Option Text)) : Option (Option Text) :=
  earlier.lookup name

/-- The assignments of a file after references are replaced, the last one first. The variables of
the environment come before those of the file. -/
def assignments (environment : Text → Option Text) (t : Text) : List (Text × Option Text) :=
  (bindings t).foldl
    (fun earlier (name, value) =>
      let lookup (x : Text) : Option Text :=
        (environment x).or ((assigned? x earlier).map (·.getD []))
      (name, value.map (expand lookup)) :: earlier)
    []

inductive SetError where
  /-- The null character ends every text that the system keeps. -/
  | nullCharacter
  /-- An equals sign ends every name that the system keeps. -/
  | illegalName
  deriving DecidableEq

namespace SetError

def message : SetError → Text
  | nullCharacter => text "embedded null byte"
  | illegalName => text "illegal environment variable name"

/-- What goes wrong when a variable is set to a value. -/
def of? (name value : Text) : Option SetError :=
  if '\x00' ∈ name ∨ '\x00' ∈ value then some nullCharacter
  else if '=' ∈ name then some illegalName
  else none

end SetError

/-- What goes wrong when the variables of a file are set, each to the value that is assigned to it
last. Those of the environment stay as they are. -/
def setError? (environment : Text → Option Text) (file : Text) : Option SetError :=
  let settled := assignments environment file
  settled.reverse.findSome? fun (name, _) =>
    if (environment name).isSome then none
    else ((assigned? name settled).bind id).bind (SetError.of? name)

/-- The value of a variable: that of the environment, or else the one a file assigns last. -/
def get? (environment : Text → Option Text) (file : Text) (name : Text) : Option Text :=
  (environment name).or ((assigned? name (assignments environment file)).bind id)

end DeskCalc.EnvironmentFile
