import DeskCalc.Text.Blank
import DeskCalc.Text.Digit

/-!
# Written integers

An integer in a setting is written with decimal digits of any script, with single underscores
between them, a sign before and white space around. `digits?` is defined exactly on runs of digits
with single underscores between them.
-/

namespace DeskCalc.Text

/-- The values of digits with single underscores between them. -/
def digits? : Text → Option (List Nat)
  | [] => none
  | [c] => (digitValue? c).map ([·])
  | c :: '_' :: rest => do
    let d ← digitValue? c
    return d :: (← digits? rest)
  | c :: rest => do
    let d ← digitValue? c
    return d :: (← digits? rest)

/-- The integer that a text writes. -/
def integer? (t : Text) : Option Int := do
  let (negative, body) := match t.trim isWhiteSpace with
    | '-' :: r => (true, r)
    | '+' :: r => (false, r)
    | r => (false, r)
  let ds ← digits? body
  if digitLimit < ds.length then none
  else
    let n : Int := (ds.foldl (fun n d => n * 10 + d) 0 : Nat)
    return if negative then -n else n

end DeskCalc.Text
