import DeskCalc.Formula.Tree

/-!
# Reading formulas

Tokens become items, items become trees. An item is an operand, a name, a parenthesised group or an
operator. Exclamation marks apply to the item before them, together with a name that stands right
before that item; names of functions take the group that follows; operands that stand side by side
are multiplied; and what is left is operators between operands, resolved layer by layer.

Powers bind tightest and to the right, then signs, then products and quotients, then sums, then the
operators on the binary digits of integers, then one comparison.
-/

namespace DeskCalc.Formula

/-- An operand or an operator of an expression without parentheses. -/
inductive Element where
  | operand (x : Tree)
  | op (o : Operator)
  deriving DecidableEq

/-- Multiplies operands that stand side by side. -/
def joinAdjacent : List Element → List Element
  | .operand x :: .operand y :: rest =>
    .operand x :: .op .times :: joinAdjacent (.operand y :: rest)
  | e :: rest => e :: joinAdjacent rest
  | [] => []

/-- The sign that an operator is before an operand. -/
def sign? : Operator → Option Sign
  | .plus => some .plus
  | .minus => some .minus
  | .invert => some .invert
  | _ => none

def isBinary (o : Operator) : Bool := o ≠ .invert

/-- An operand with the signs before it, outermost first. -/
structure Signed where
  signs : List Sign
  operand : Tree

/-- Puts the signs before a tree. -/
def applySigns (signs : List Sign) (x : Tree) : Tree :=
  signs.foldr (fun s x => .signed s x) x

mutual

/-- Reads signs and an operand, and the operators and operands that follow. -/
def operands? (signs : List Sign) : List Element → Option (Signed × List (Operator × Signed))
  | .operand x :: rest => do
    let more ← moreOperands? rest
    return (⟨signs.reverse, x⟩, more)
  | .op o :: rest => do
    let s ← sign? o
    operands? (s :: signs) rest
  | [] => none

/-- Reads operators, each with its right operand. -/
def moreOperands? : List Element → Option (List (Operator × Signed))
  | [] => some []
  | .op o :: rest =>
    if isBinary o then do
      let (x, more) ← operands? [] rest
      return (o, x) :: more
    else none
  | .operand _ :: _ => none

end

/-- Resolves powers, from the right: the exponent takes its signs with it, the base does not. -/
def powers : Signed → List (Operator × Signed) → Tree × List (Operator × Tree)
  | x, [] => (applySigns x.signs x.operand, [])
  | x, (o, y) :: rest =>
    let (right, others) := powers y rest
    if o = .power then (applySigns x.signs (.binary .power x.operand right), others)
    else (applySigns x.signs x.operand, (o, right) :: others)

/-- Resolves the operators of one layer, from the left. -/
def layer (ops : List Operator) : Tree → List (Operator × Tree) → Tree × List (Operator × Tree)
  | x, [] => (x, [])
  | x, (o, y) :: rest =>
    if o ∈ ops then layer ops (.binary o x y) rest
    else
      let (right, others) := layer ops y rest
      (x, (o, right) :: others)

/-- The layers below powers, tightest first. -/
def layers : List (List Operator) :=
  [[.times, .over, .floorOver, .modulo], [.plus, .minus], [.shiftLeft, .shiftRight], [.both],
    [.either]]

/-- The tree of an expression without parentheses. -/
def tree? (elements : List Element) : Option Tree := do
  let (first, rest) ← operands? [] elements
  match layers.foldl (fun (x, rest) ops => layer ops x rest) (powers first rest) with
  | (x, []) => some x
  | (x, [(.compare, y)]) => some (.binary .compare x y)
  | _ => none

/-- What stands between two parentheses: the parts between commas, and whether there was a comma. -/
structure Group where
  parts : List Tree
  hasComma : Bool

def Group.single? (g : Group) : Option Tree :=
  match g.parts, g.hasComma with
  | [x], false => some x
  | _, _ => none

inductive Item where
  | operand (x : Tree)
  | name (m : Meaning)
  /-- An unknown name directly before a group, which it multiplies. -/
  | head (name : Text)
  | group (g : Group)
  | op (o : Operator)
  | comma
  | blank

/-- An item with the number of parentheses nested inside it when everything is written out: a
numeral or a free symbol counts for one pair. -/
structure Nested where
  item : Item
  depth : Nat

/-- How deep parentheses may be nested. -/
def nestingLimit : Nat := 200

/-- Drops the blanks, applies names to groups, and makes operands of the rest. -/
def elements? : List Item → Option (List Element)
  | [] => some []
  | .blank :: rest => elements? rest
  | .operand x :: rest => (elements? rest).map (.operand x :: ·)
  | .name (.operation f) :: .group g :: rest => do
    let x ← f.call? g.parts
    return .operand x :: (← elements? rest)
  | .name (.constant c) :: rest => (elements? rest).map (.operand (.constant c) :: ·)
  | .head s :: .group g :: rest => do
    let x ← g.single?
    return .operand (.symbol s) :: .operand x :: (← elements? rest)
  | .group g :: rest => do
    let x ← g.single?
    return .operand x :: (← elements? rest)
  | .op o :: rest => (elements? rest).map (.op o :: ·)
  | .name (.operation _) :: _ => none
  | .head _ :: _ => none
  | .comma :: _ => none

/-- Whether an operand or a group can end here. -/
private def endsOperand : Item → Bool
  | .operand _ | .group _ | .name _ => true
  | _ => false

/-- Whether an operand can begin here. -/
private def beginsOperand : Item → Bool
  | .operand _ | .group _ | .name _ | .head _ => true
  | _ => false

/-- Whether a blank that counts stands between two operands, which nothing then joins. -/
def splitByBlank : List Item → Bool
  | x :: .blank :: rest =>
    (endsOperand x && (rest.find? fun i => match i with
      | .blank => false
      | _ => true).any beginsOperand) || splitByBlank (.blank :: rest)
  | _ :: rest => splitByBlank rest
  | [] => false

/-- The tree of the items between two commas. -/
def part? (items : List Item) : Option Tree :=
  if splitByBlank items then none
  else (elements? items).bind fun es => tree? (joinAdjacent es)

/-- Splits items at the commas. -/
def splitAtCommas : List Item → List (List Item)
  | [] => [[]]
  | .comma :: rest => [] :: splitAtCommas rest
  | i :: rest =>
    match splitAtCommas rest with
    | [] => [[i]]
    | p :: ps => (i :: p) :: ps

/-- The group that items form. A comma may end it, but it must not be all there is. -/
def group? (items : List Item) : Option Group :=
  match splitAtCommas items with
  | [[]] => some ⟨[], false⟩
  | [one] => (part? one).map fun x => ⟨[x], false⟩
  | parts => do
    let parts := if (parts.getLast?.map (·.isEmpty)).getD false then parts.dropLast else parts
    return ⟨← parts.mapM part?, true⟩

/-- The factorial or double factorial for so many exclamation marks. -/
def factorial? : Nat → Option Operation
  | 1 => some (.fn .factorial)
  | 2 => some (.fn .doubleFactorial)
  | _ => none

def factorialOf? (f : Operation) (items : List Nested) : Option Nested := do
  let x ← part? (items.map (·.item))
  return ⟨.operand (.call f x), (items.map (·.depth)).foldl max 0 + 1⟩

/-- Applies exclamation marks to the items before them, which are given last first. -/
def applyBangs (bangs : Nat) (items : List Nested) : Option (List Nested) :=
  if bangs = 0 then some items
  else do
    let f ← factorial? bangs
    match items with
    | [] => none
    | last :: before =>
      match last.item, before with
      | .operand _, _ => return (← factorialOf? f [last]) :: before
      | _, ⟨.name m, d⟩ :: earlier => return (← factorialOf? f [⟨.name m, d⟩, last]) :: earlier
      | _, _ => return (← factorialOf? f [last]) :: before

/-- How far reading has come: the items of the enclosing groups and of the present one, last first,
and the exclamation marks that wait for the next token. -/
structure Progress where
  enclosing : List (List Nested)
  items : List Nested
  bangs : Nat

namespace Progress

/-- Adds an item after the exclamation marks before it have been applied. -/
def push (p : Progress) (item : Item) (depth : Nat) : Option Progress := do
  let items ← applyBangs p.bangs p.items
  return { p with items := ⟨item, depth⟩ :: items, bangs := 0 }

def close (p : Progress) : Option Progress := do
  let items ← applyBangs p.bangs p.items
  match p.enclosing with
  | [] => none
  | outer :: enclosing =>
    let g ← group? (items.reverse.map (·.item))
    return ⟨enclosing, ⟨.group g, (items.map (·.depth)).foldl max 0 + 1⟩ :: outer, 0⟩

/-- Reads one token; `next` is the one after it. -/
def read (p : Progress) (next : Option Token) : Token → Option Progress
  | .number x => p.push (.operand (.number x)) 1
  | .name s =>
    if s ∈ reservedWords then none
    else
      match vocabulary.lookup s with
      | some m => p.push (.name m) 0
      | none => if next = some .opening then p.push (.head s) 1 else p.push (.operand (.symbol s)) 1
  | .op o => p.push (.op o) 0
  | .comma => p.push .comma 0
  | .lineEnd => p.push .blank 0
  -- marks before a blank that counts are lost
  | .gap => some { p with items := ⟨.blank, 0⟩ :: p.items, bangs := 0 }
  | .bang => some { p with bangs := p.bangs + 1 }
  | .opening => do
    let items ← applyBangs p.bangs p.items
    return ⟨items :: p.enclosing, [], 0⟩
  | .closing => p.close

def readAll (p : Progress) : List Token → Option Progress
  | [] => some p
  | t :: ts => (p.read ts.head? t).bind (·.readAll ts)

end Progress

/-- The tree of a formula given by its tokens. -/
def ofTokens? (ts : List Token) : Option Tree := do
  let p ← Progress.readAll ⟨[], [], 0⟩ ts
  let items ← applyBangs p.bangs p.items
  if ¬p.enclosing.isEmpty ∨ nestingLimit < (items.map (·.depth)).foldl max 0 then none
  else (← group? (items.reverse.map (·.item))).single?

def ofText? (t : Text) : Option Tree := (Token.ofText t).bind ofTokens?

end DeskCalc.Formula
