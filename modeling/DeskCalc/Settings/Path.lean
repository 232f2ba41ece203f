import DeskCalc.Text.Basic

/-!
# Paths

A path is kept without empty parts and without parts that are a single point. Two slashes in front
are kept, more count as one. A first part that is a tilde stands for the home directory, and one
with a name after the tilde for that of the named user.
-/

namespace DeskCalc

/-- A path: the slashes in front and the parts between slashes. -/
structure FilePath where
  root : Text
  parts : List Text
  deriving DecidableEq

namespace FilePath

def splitAtSlashes : Text → List Text
  | [] => [[]]
  | c :: cs =>
    if c = '/' then [] :: splitAtSlashes cs
    else
      match splitAtSlashes cs with
      | [] => [[c]]
      | p :: ps => (c :: p) :: ps

/-- The path that a text writes. -/
def ofText (t : Text) : FilePath :=
  let slashes := t.takeWhile (· = '/')
  let root : Text := match slashes.length with
    | 0 => []
    | 2 => ['/', '/']
    | _ => ['/']
  ⟨root, (splitAtSlashes t).filter fun p => p ≠ [] ∧ p ≠ ['.']⟩

def toText (p : FilePath) : Text :=
  if p.root = [] ∧ p.parts = [] then ['.'] else p.root ++ ['/'].intercalate p.parts

/-- The path of a home directory, given as a text. Nothing but slashes is the root, and a text that
begins with a tilde is no directory. -/
def ofHome? (home : Text) : Option FilePath :=
  let directory := home.trimRight '/'
  if directory = [] then some ⟨['/'], []⟩
  else if directory.head? = some '~' then none
  else some (ofText directory)

/-- Replaces a tilde in front by the home directory of the user whose name follows it. The name is
empty for the user who runs the program. -/
def expandHome? (homeOf : Text → Option FilePath) (p : FilePath) : Option FilePath :=
  match p.root, p.parts with
  | [], ('~' :: user) :: rest => (homeOf user).map fun home => ⟨home.root, home.parts ++ rest⟩
  | _, _ => some p

end FilePath

end DeskCalc
