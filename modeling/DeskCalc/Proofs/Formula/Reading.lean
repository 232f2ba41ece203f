import DeskCalc.Proofs.Formula.Lexing
import DeskCalc.Proofs.Formula.Precedence

/-!
# Reading the parts of a formula

Formulas from the keypad have neither commas nor blanks between operands. What is read from such a
text can then be put together from what is read from its parts: operators and operands that stand
side by side join the elements of both, and parentheses make one operand of them.
-/

namespace DeskCalc.Formula

-- The empty sum meant here is the numeral zero, whatever else is in scope.
attribute [local instance (high)] Zero.ofOfNat0

section elements

/-- An operator keeps the operands left and right of it from being multiplied. -/
theorem joinAdjacent_op (es fs : List Element) (o : Operator) :
    joinAdjacent (es ++ .op o :: fs) = joinAdjacent es ++ .op o :: joinAdjacent fs := by
  induction es with
  | nil => simp [joinAdjacent]
  | cons e es ih =>
    cases e with
    | op o' => simp [joinAdjacent, ih]
    | operand x =>
      cases es with
      | nil => simp [joinAdjacent]
      | cons f es =>
        cases f with
        | op o' => simpa [joinAdjacent] using ih
        | operand y => simpa [joinAdjacent] using ih

/-- Operands that stand side by side are multiplied. -/
theorem joinAdjacent_operand (es fs : List Element) (x y : Tree) :
    joinAdjacent (es ++ .operand x :: .operand y :: fs) =
      joinAdjacent (es ++ [.operand x]) ++ .op .times :: joinAdjacent (.operand y :: fs) := by
  induction es with
  | nil => simp [joinAdjacent]
  | cons e es ih =>
    cases e with
    | op o' => simp [joinAdjacent, ih]
    | operand z =>
      cases es with
      | nil => simp [joinAdjacent]
      | cons f es =>
        cases f with
        | op o' => simpa [joinAdjacent] using ih
        | operand w => simpa [joinAdjacent] using ih

end elements

section items

/-- Whether an item is neither a comma nor a blank. -/
def Item.isPlain : Item → Bool
  | .comma | .blank => false
  | _ => true

/-- Whether the items stand for the given elements, whatever follows them. -/
def StandFor (items : List Item) (es : List Element) : Prop :=
  ∀ js, elements? (items ++ js) = (elements? js).map (es ++ ·)

variable {is js : List Item} {es fs : List Element}

private theorem StandFor.elements (h : StandFor is es) : elements? is = some es := by
  have hnil := h []
  simpa [elements?] using hnil

theorem StandFor.append (hi : StandFor is es) (hj : StandFor js fs) :
    StandFor (is ++ js) (es ++ fs) := by
  intro ks
  rw [List.append_assoc, hi, hj, Option.map_map]
  congr 1
  funext gs
  simp

theorem standFor_operand (x : Tree) : StandFor [.operand x] [.operand x] := fun _ => rfl

theorem standFor_op (o : Operator) : StandFor [.op o] [.op o] := fun _ => rfl

theorem standFor_constant (c : Constant) :
    StandFor [.name (.constant c)] [.operand (.constant c)] := fun _ => rfl

theorem standFor_group (x : Tree) : StandFor [.group ⟨[x], false⟩] [.operand x] := fun js => by
  simp only [List.cons_append, List.nil_append, elements?, Group.single?]
  cases elements? js <;> rfl

theorem standFor_call (f : Operation) (x : Tree) :
    StandFor [.name (.operation f), .group ⟨[x], false⟩] [.operand (.call f x)] := fun js => by
  simp only [List.cons_append, List.nil_append, elements?, Operation.call?]
  cases elements? js <;> rfl

/-- What no group begins does not reach back into the items before it. -/
theorem elements?_append {js : List Item} (hjs : ∀ g, js.head? ≠ some (.group g)) (is : List Item) :
    elements? (is ++ js) = (elements? is).bind fun es => (elements? js).map (es ++ ·) := by
  fun_induction elements? is with
  | case1 => simp
  | case2 rest ih => exact ih
  | case3 x rest ih =>
    simp only [List.cons_append, elements?, ih]
    cases elements? rest <;> cases elements? js <;> rfl
  | case4 f g rest ih =>
    simp only [List.cons_append, elements?, ih]
    cases f.call? g.parts <;> cases elements? rest <;> cases elements? js <;> rfl
  | case5 c rest ih =>
    simp only [List.cons_append, elements?, ih]
    cases elements? rest <;> cases elements? js <;> rfl
  | case6 s g rest ih =>
    simp only [List.cons_append, elements?, ih]
    cases g.single? <;> cases elements? rest <;> cases elements? js <;> rfl
  | case7 g rest ih =>
    simp only [List.cons_append, elements?, ih]
    cases g.single? <;> cases elements? rest <;> cases elements? js <;> rfl
  | case8 o rest ih =>
    simp only [List.cons_append, elements?, ih]
    cases elements? rest <;> cases elements? js <;> rfl
  | case9 f rest hrest =>
    rw [Option.bind_none, List.cons_append]
    cases rest with
    | nil =>
      cases js with
      | nil => rfl
      | cons j js => cases j <;> first | rfl | exact absurd rfl (hjs _)
    | cons i rest => cases i <;> first | rfl | exact absurd rfl (hrest _ _)
  | case10 s rest hrest =>
    rw [Option.bind_none, List.cons_append]
    cases rest with
    | nil =>
      cases js with
      | nil => rfl
      | cons j js => cases j <;> first | rfl | exact absurd rfl (hjs _)
    | cons i rest => cases i <;> first | rfl | exact absurd rfl (hrest _ _)
  | case11 rest => rfl

theorem elements?_op (is js : List Item) (o : Operator) :
    elements? (is ++ .op o :: js) =
      (elements? is).bind fun es => (elements? js).map (es ++ .op o :: ·) := by
  rw [elements?_append (by simp)]
  simp only [elements?, Option.map_map]
  rfl

private theorem splitByBlank_of_plain (h : ∀ i ∈ is, i.isPlain = true) :
    splitByBlank is = false := by
  induction is with
  | nil => rfl
  | cons i is ih =>
    have htail := ih fun j hj => h j (List.mem_cons_of_mem i hj)
    cases is with
    | nil => rfl
    | cons j js =>
      have hj : j.isPlain = true := h j (by simp)
      cases j with
      | blank => simp [Item.isPlain] at hj
      | _ => cases i <;> exact htail

private theorem splitAtCommas_of_plain (h : ∀ i ∈ is, i.isPlain = true) :
    splitAtCommas is = [is] := by
  induction is with
  | nil => rfl
  | cons i is ih =>
    have htail := ih fun j hj => h j (List.mem_cons_of_mem i hj)
    have hi : i.isPlain = true := h i (by simp)
    cases i with
    | comma => simp [Item.isPlain] at hi
    | _ => simp [splitAtCommas, htail]

theorem part?_of_plain (h : ∀ i ∈ is, i.isPlain = true) :
    part? is = (elements? is).bind fun es => tree? (joinAdjacent es) := by
  simp [part?, splitByBlank_of_plain h]

theorem group?_of_plain (h : ∀ i ∈ is, i.isPlain = true) (hne : is ≠ []) :
    group? is = (part? is).map fun x => ⟨[x], false⟩ := by
  simp only [group?, splitAtCommas_of_plain h]

end items

section deepest

/-- How deep parentheses are nested in the items read so far. -/
def deepest (items : List Nested) : Nat := (items.map (·.depth)).foldl max 0

theorem deepest_cons (i : Nested) (items : List Nested) :
    deepest (i :: items) = max i.depth (deepest items) := by
  have hfold : ∀ (ds : List Nat) (m n : Nat), ds.foldl max (max m n) = max m (ds.foldl max n) := by
    intro ds
    induction ds with
    | nil => intro m n; rfl
    | cons d ds ih => intro m n; rw [List.foldl_cons, Nat.max_assoc, ih, List.foldl_cons]
  simp only [deepest, List.map_cons, List.foldl_cons, Nat.zero_max]
  rw [← hfold, Nat.max_zero]

theorem deepest_append (items others : List Nested) :
    deepest (items ++ others) = max (deepest items) (deepest others) := by
  induction items with
  | nil => simp [deepest]
  | cons i items ih => rw [List.cons_append, deepest_cons, deepest_cons, ih, Nat.max_assoc]

theorem deepest_reverse (items : List Nested) : deepest items.reverse = deepest items := by
  induction items with
  | nil => rfl
  | cons i items ih =>
    rw [List.reverse_cons, deepest_append, ih, deepest_cons, deepest_cons, Nat.max_comm]
    simp [deepest]

end deepest

/-- Tokens that add the given items to whatever has been read before them. -/
structure Adds (ts : List Token) (items : List Nested) : Prop where
  closed : (ts.map Token.opens).sum = 0
  readAll : ∀ enclosing before rest,
    Progress.readAll ⟨enclosing, before, 0⟩ (ts ++ rest) =
      Progress.readAll ⟨enclosing, items.reverse ++ before, 0⟩ rest

namespace Adds

variable {ts us : List Token} {items others : List Nested}

theorem append (h : Adds ts items) (h' : Adds us others) : Adds (ts ++ us) (items ++ others) where
  closed := by rw [List.map_append, List.sum_append, h.closed, h'.closed]; rfl
  readAll enclosing before rest := by
    rw [List.append_assoc, h.readAll, h'.readAll, List.reverse_append, List.append_assoc]

theorem number (n : Numeral) : Adds [.number n] [⟨.operand (.number n), 1⟩] where
  closed := rfl
  readAll _ _ _ := rfl

theorem op (o : Operator) : Adds [.op o] [⟨.op o, 0⟩] where
  closed := rfl
  readAll _ _ _ := rfl

theorem name {s : Text} {m : Meaning} (hs : s ∉ reservedWords) (hm : vocabulary.lookup s = some m) :
    Adds [.name s] [⟨.name m, 0⟩] where
  closed := rfl
  readAll enclosing before rest := by
    simp [Progress.readAll, Progress.read, hs, hm, Progress.push, applyBangs]

private theorem group {g : Group} (h : Adds ts items) (hg : group? (items.map (·.item)) = some g) :
    Adds (.opening :: ts ++ [.closing]) [⟨.group g, deepest items + 1⟩] where
  closed := by
    simp [h.closed, Token.opens]
  readAll enclosing before rest := by
    have hinner := h.readAll (before :: enclosing) [] (.closing :: rest)
    have hdeepest : (items.reverse.map (·.depth)).foldl max 0 = deepest items :=
      deepest_reverse items
    simp only [List.append_nil] at hinner
    simp only [List.cons_append, List.append_assoc, List.nil_append, Progress.readAll,
      Progress.read, applyBangs, if_true, Option.bind_eq_bind, Option.pure_def, Option.bind_some,
      hinner, Progress.close, List.reverse_reverse, hg, hdeepest]
    rfl

end Adds

/-- Whether a text, wherever it stands, reads as the given elements with parentheses nested to the
given depth. -/
structure ReadsAs (t : Text) (es : List Element) (depth : Nat) : Prop where
  isText : IsFormulaText t
  exists_items : ∃ ts items, (∀ d, Token.lex d t = some ts) ∧ Adds ts items ∧
    (∀ i ∈ items, i.item.isPlain = true) ∧ items ≠ [] ∧ StandFor (items.map (·.item)) es ∧
    deepest items = depth

namespace ReadsAs

variable {a b : Text} {es fs : List Element} {d e : Nat}

/-- Texts side by side, if the second one begins a token of its own. -/
theorem append {x : Char} (ha : ReadsAs a es d) (hb : ReadsAs (x :: b) fs e)
    (hx : BreaksAfter x a) : ReadsAs (a ++ x :: b) (es ++ fs) (max d e) := by
  obtain ⟨ts, items, hts, hadds, hplain, hne, hstand, hdepth⟩ := ha.exists_items
  obtain ⟨us, others, hus, hadds', hplain', -, hstand', hdepth'⟩ := hb.exists_items
  refine ⟨?_, ts ++ us, items ++ others, ?_, hadds.append hadds', ?_, by simp [hne], ?_, ?_⟩
  · intro c hc
    rcases List.mem_append.mp hc with h | h
    · exact ha.isText c h
    · exact hb.isText c h
  · intro depth
    rw [Token.lex_append depth ha.isText hx, hts]
    simp [hus]
  · intro i hi
    rcases List.mem_append.mp hi with h | h
    · exact hplain i h
    · exact hplain' i h
  · rw [List.map_append]
    exact hstand.append hstand'
  · rw [deepest_append, hdepth, hdepth']

/-- An operator before a text. -/
theorem operator {x : Char} {o : Operator} (ha : ReadsAs a es d) (hx : isFormulaChar x = true)
    (hnext : ∀ inside, Token.next? inside (x :: a) = some ([.op o], a)) :
    ReadsAs (x :: a) (.op o :: es) d := by
  obtain ⟨ts, items, hts, hadds, hplain, hne, hstand, hdepth⟩ := ha.exists_items
  refine ⟨?_, .op o :: ts, ⟨.op o, 0⟩ :: items, ?_, (Adds.op o).append hadds, ?_, by simp, ?_, ?_⟩
  · intro c hc
    rcases List.mem_cons.mp hc with rfl | h
    · exact hx
    · exact ha.isText c h
  · intro depth
    rw [Token.lex_of_next? (hnext _) (by simp), hts]
    rfl
  · intro i hi
    rcases List.mem_cons.mp hi with rfl | h
    · rfl
    · exact hplain i h
  · exact (standFor_op o).append hstand
  · rw [deepest_cons, hdepth]
    exact Nat.zero_max d

/-- A single token that is an operand. -/
theorem numeral {n : Numeral} (ha : IsFormulaText a) (hne : a ≠ [])
    (hread : ∀ inside, Token.next? inside a = some ([.number n], [])) :
    ReadsAs a [.operand (.number n)] 1 := by
  refine ⟨ha, [.number n], _, ?_, Adds.number n, ?_, by simp, standFor_operand _, rfl⟩
  · intro depth
    rw [Token.lex_of_next? (hread _) (by simpa using List.length_pos_iff.mpr hne)]
    rw [Token.lex.eq_def]
    rfl
  · intro i hi
    rw [List.mem_singleton.mp hi]
    rfl

private theorem isText_parentheses (ha : IsFormulaText a) : IsFormulaText ('(' :: a ++ [')']) := by
  intro c hc
  simp only [List.cons_append, List.mem_cons, List.mem_append, List.not_mem_nil, or_false] at hc
  rcases hc with rfl | h | rfl
  · rfl
  · exact ha c h
  · rfl

private theorem lex_parentheses {ts : List Token} (ha : IsFormulaText a)
    (hts : ∀ depth, Token.lex depth a = some ts) (depth : Int) :
    Token.lex depth ('(' :: a ++ [')']) = some (.opening :: ts ++ [.closing]) := by
  have hnil : ∀ depth, Token.lex depth [] = some [] := fun depth => by
    rw [Token.lex.eq_def]
    rfl
  rw [List.cons_append, Token.lex_opening, Token.lex_append _ ha (breaksAfter_closing a), hts,
    Option.bind_some, Token.lex_closing, hnil]
  rfl

/-- The group of a text in parentheses. -/
private theorem group?_of_reads {items : List Nested} {x : Tree}
    (hplain : ∀ i ∈ items, i.item.isPlain = true) (hne : items ≠ [])
    (hstand : StandFor (items.map (·.item)) es) (hx : tree? (joinAdjacent es) = some x) :
    group? (items.map (·.item)) = some ⟨[x], false⟩ := by
  have hplain' : ∀ i ∈ items.map (·.item), i.isPlain = true := by
    intro i hi
    obtain ⟨j, hj, rfl⟩ := List.mem_map.mp hi
    exact hplain j hj
  rw [group?_of_plain hplain' (by simpa using hne), part?_of_plain hplain', hstand.elements]
  simp [hx]

/-- Parentheses make one operand of a text. -/
theorem parentheses {x : Tree} (ha : ReadsAs a es d) (hx : tree? (joinAdjacent es) = some x) :
    ReadsAs ('(' :: a ++ [')']) [.operand x] (d + 1) := by
  obtain ⟨ts, items, hts, hadds, hplain, hne, hstand, hdepth⟩ := ha.exists_items
  have hgroup := hadds.group (group?_of_reads hplain hne hstand hx)
  rw [hdepth] at hgroup
  refine ⟨isText_parentheses ha.isText, _, _, lex_parentheses ha.isText hts, hgroup, ?_, by simp,
    standFor_group x, ?_⟩
  · intro i hi
    rw [List.mem_singleton.mp hi]
    rfl
  · simp [deepest]

/-- A call is one operand. -/
theorem call {x : Tree} {name : Text} {f : Operation} (ha : ReadsAs a es d)
    (hx : tree? (joinAdjacent es) = some x) (hname : IsFormulaText name)
    (hlex : ∀ depth, Token.lex depth name = some [.name name]) (hword : name ∉ reservedWords)
    (hf : vocabulary.lookup name = some (.operation f)) :
    ReadsAs (name ++ '(' :: a ++ [')']) [.operand (.call f x)] (d + 1) := by
  obtain ⟨ts, items, hts, hadds, hplain, hne, hstand, hdepth⟩ := ha.exists_items
  have hgroup := hadds.group (group?_of_reads hplain hne hstand hx)
  rw [hdepth] at hgroup
  refine ⟨?_, _, _, ?_, (Adds.name hword hf).append hgroup, ?_, by simp, standFor_call f x, ?_⟩
  · intro c hc
    rw [List.append_assoc] at hc
    rcases List.mem_append.mp hc with h | h
    · exact hname c h
    · exact isText_parentheses ha.isText c h
  · intro depth
    have hparentheses :=
      lex_parentheses ha.isText hts (depth + ([Token.name name].map Token.opens).sum)
    rw [List.cons_append] at hparentheses
    rw [List.append_assoc, List.cons_append, Token.lex_append _ hname (breaksAfter_opening name),
      hlex, Option.bind_some, hparentheses]
    rfl
  · intro i hi
    simp only [List.cons_append, List.nil_append, List.mem_cons, List.not_mem_nil, or_false] at hi
    rcases hi with rfl | rfl <;> rfl
  · simp [deepest]

/-- The tree of a text that reads as a whole, unless parentheses are nested too deep. -/
theorem ofText? {x : Tree} (ha : ReadsAs a es d) (hx : tree? (joinAdjacent es) = some x) :
    ofText? a = if d ≤ nestingLimit then some x else none := by
  obtain ⟨ts, items, hts, hadds, hplain, hne, hstand, hdepth⟩ := ha.exists_items
  have hread := hadds.readAll [] [] []
  have hgroup := group?_of_reads hplain hne hstand hx
  have hdeepest : (items.reverse.map (·.depth)).foldl max 0 = d :=
    (deepest_reverse items).trans hdepth
  simp only [List.append_nil] at hread
  simp only [Formula.ofText?, Token.ofText, hts, Option.bind_some, ofTokens?, hread,
    Progress.readAll, Option.bind_eq_bind, applyBangs, if_true, hdeepest, List.reverse_reverse,
    hgroup, List.isEmpty_nil, not_true_eq_false, false_or]
  by_cases hd : d ≤ nestingLimit
  · simp [hd, Group.single?]
  · simp [hd, Nat.lt_of_not_le hd]

end ReadsAs

end DeskCalc.Formula
