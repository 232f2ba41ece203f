import DeskCalc.Proofs.Arithmetic.Expression
import DeskCalc.Proofs.Formula.Reading
import DeskCalc.Proofs.Notation.Splitting

/-!
# Reading arithmetic

The formula of a text of arithmetic has no zeros before its numerals and calls in place of its
factorials. Each rule by which such texts are formed says what is read from the larger text in
terms of what is read from its parts.
-/

namespace DeskCalc

theorem isDigit_of_plainDigit {c : Char} (h : Numeral.isPlainDigit c = true) :
    Text.isDigit c = true := by
  simp only [Numeral.isPlainDigit, decide_eq_true_eq] at h
  exact Text.isDigit_of_asciiDigit h.1 h.2

/-- Dropping the zeros in front leaves the number as it is. -/
theorem dropLeadingZeros_literal {ds : Text} (hds : ∀ c ∈ ds, Numeral.isPlainDigit c = true)
    (hne : ds ≠ []) :
    let rest := Evaluation.dropLeadingZeros true ds
    rest ≠ [] ∧ (rest = ['0'] ∨ rest.head? ≠ some '0') ∧
      Numeral.ofDigits 10 rest = Numeral.ofDigits 10 ds ∧
      (rest = ['0'] ∨ rest = ds.dropWhile (· = '0')) := by
  induction ds with
  | nil => simp at hne
  | cons d ds ih =>
    have hds' : ∀ c ∈ ds, Numeral.isPlainDigit c = true := fun c hc => hds c (by simp [hc])
    have hdigits : ∀ c ∈ d :: ds, Text.isDigit c = true :=
      fun c hc => isDigit_of_plainDigit (hds c hc)
    have hkeep : Evaluation.dropLeadingZeros false ds = ds :=
      Evaluation.dropLeadingZeros_digits fun c hc => hdigits c (by simp [hc])
    have hd : Text.isDigit d = true := hdigits d (by simp)
    by_cases hzero : d = '0'
    · subst hzero
      cases ds with
      | nil => decide
      | cons d' ds =>
        have hd' : Text.isDigit d' = true := hdigits d' (by simp)
        have hdrop : Evaluation.dropLeadingZeros true ('0' :: d' :: ds) =
            Evaluation.dropLeadingZeros true (d' :: ds) := by
          rw [Evaluation.dropLeadingZeros]
          simp [hd']
        rw [hdrop]
        exact ih hds' (by simp)
    · have hdrop : Evaluation.dropLeadingZeros true (d :: ds) = d :: ds := by
        rw [Evaluation.dropLeadingZeros]
        simp [hzero, hd, hkeep]
      rw [hdrop]
      exact ⟨by simp, .inr (by simpa using hzero), rfl, .inr (by simp [hzero])⟩

namespace Literal

/-- The digits of a literal without the zeros in front. -/
def significant (n : Literal) : Text := Evaluation.dropLeadingZeros true n.digits

variable (n : Literal)

theorem significant_value :
    (Numeral.integer 10 n.significant).value? = some (.exact (n.value : Rat)) := by
  obtain ⟨-, -, hvalue, hrest⟩ := dropLeadingZeros_literal n.isDigits n.nonempty
  have hshort : n.significant.length ≤ Text.digitLimit := by
    rcases hrest with h | h
    · simp [significant, h, Text.digitLimit]
    · rw [significant, h]
      exact n.short
  have hvalue' : Numeral.ofDigits 10 n.significant = n.value := hvalue
  simp [Numeral.value?, Nat.not_lt.mpr hshort, hvalue']

end Literal

namespace Arithmetic

open Formula

/-- The characters of the arithmetic keys. -/
def isArithmeticChar (c : Char) : Bool :=
  Numeral.isPlainDigit c || c ∈ ['+', '-', '*', '/', '^', '!', '(', ')']

/-- The formula that a text of arithmetic is rewritten to, without zeros before its numerals. -/
def formula (t : Text) : Text := Evaluation.dropLeadingZeros true (Notation.factorials t)

section formula

private theorem formula_append {x : Char} (hdigit : Text.isDigit x = false) (hbang : x ≠ '!')
    (hpoint : x ≠ '.') (a b : Text) : formula (a ++ x :: b) = formula a ++ x :: formula b := by
  rw [formula, Notation.factorials_append hdigit hbang, Evaluation.dropLeadingZeros_append hdigit]
  simp [formula, hpoint]

private theorem formula_cons {x : Char} (hdigit : Text.isDigit x = false) (hbang : x ≠ '!')
    (hpoint : x ≠ '.') (t : Text) : formula (x :: t) = x :: formula t :=
  formula_append hdigit hbang hpoint [] t

private theorem mem_formula {c : Char} {t : Text} (ht : ∀ c ∈ t, isArithmeticChar c = true)
    (h : c ∈ formula t) : isArithmeticChar c = true ∨ c ∈ text "factorial()" := by
  rcases Notation.mem_factorials (Evaluation.mem_dropLeadingZeros h) with h | h
  · exact .inl (ht c h)
  · exact .inr h

private theorem not_mark_mem_formula {t : Text} (ht : ∀ c ∈ t, isArithmeticChar c = true) :
    'e' ∉ formula t ∧ 'E' ∉ formula t := by
  constructor <;> intro h <;> rcases mem_formula ht h with h | h <;> exact absurd h (by decide)

end formula

section nesting

private theorem nestingFrom_digits {ds : Text} (hds : ∀ c ∈ ds, Numeral.isPlainDigit c = true)
    (hne : ds ≠ []) (k : Nat) (rest : Text) :
    nestingFrom k (ds ++ rest) = max (k + 1) (nestingFrom k rest) := by
  induction ds with
  | nil => simp at hne
  | cons d ds ih =>
    have hd := hds d (by simp)
    have hparen : d ≠ '(' ∧ d ≠ ')' := ⟨ne_of_class hd (by decide), ne_of_class hd (by decide)⟩
    have hreach : reach k d = k + 1 := by simp [reach, hd]
    have hopen : openAfter k d = k := by simp [openAfter, hparen]
    rw [List.cons_append, nestingFrom, hreach, hopen]
    by_cases hds' : ds = []
    · simp [hds']
    · rw [ih (fun c hc => hds c (by simp [hc])) hds', ← Nat.max_assoc, Nat.max_self]

private theorem nestingFrom_operator {x : Char} {o : Operator} (hx : (x, o) ∈ Token.operatorChars)
    (k : Nat) (t : Text) : nestingFrom k (x :: t) = nestingFrom k t := by
  have hspec : ∀ p ∈ Token.operatorChars, p.1 ≠ '(' ∧ p.1 ≠ ')' ∧ p.1 ≠ '!' ∧
      Numeral.isPlainDigit p.1 = false := by decide
  obtain ⟨hopening, hclosing, hbang, hdigit⟩ := hspec _ hx
  simp only at hopening hclosing hbang hdigit
  simp [nestingFrom, reach, openAfter, hopening, hclosing, hbang, hdigit]

end nesting

/-- What is read from a text of arithmetic, wherever it stands: its elements, and how deep its
parentheses are nested. -/
structure Reading (t : Text) (es : List Element) (d : Nat) : Prop where
  reads : ReadsAs (formula t) es d
  nesting : ∀ k rest, nestingFrom k (t ++ rest) = max (k + d) (nestingFrom k rest)
  chars : ∀ c ∈ t, isArithmeticChar c = true
  first : ∃ c r, formula t = c :: r ∧ c ≠ '*' ∧ c ≠ '/'
  last : ∃ r c, formula t = r ++ [c] ∧ c ≠ '*' ∧ c ≠ '/'

namespace Reading

variable {a b : Text} {es fs : List Element} {d e : Nat} {x : Char} {o : Operator}

private theorem operator_spec : ∀ p ∈ Token.operatorChars, Text.isDigit p.1 = false ∧ p.1 ≠ '!' ∧
    p.1 ≠ '.' ∧ isArithmeticChar p.1 = true ∧ p.1 ∈ breakChars := by decide

private theorem breaksAfter (ha : Reading a es d) (hx : x ∈ breakChars) :
    BreaksAfter x (formula a) where
  isBreak := hx
  noExponent _ h := by
    obtain ⟨u, c, m, hu, -, rfl | rfl⟩ := h
    · exact (not_mark_mem_formula ha.chars).1 (by simp [hu])
    · exact (not_mark_mem_formula ha.chars).2 (by simp [hu])
  noDouble _ c hc := by
    obtain ⟨r, c', hr, hc'⟩ := ha.last
    rw [hr, List.getLast?_append, List.getLast?_singleton, Option.some_or, Option.some.injEq] at hc
    exact hc ▸ hc'

private theorem operator (hb : Reading b fs e) (hx : (x, o) ∈ Token.operatorChars) :
    ReadsAs (x :: formula b) (.op o :: fs) e := by
  refine hb.reads.operator (Token.operatorChars_spec _ hx).1 fun inside =>
    Token.next?_operator hx inside hb.reads.isText fun c hc => ?_
  obtain ⟨c', r, hr, hc'⟩ := hb.first
  rw [hr, List.head?_cons, Option.some.injEq] at hc
  exact hc ▸ hc'

private theorem chars_append (ha : ∀ c ∈ a, isArithmeticChar c = true)
    (hx : isArithmeticChar x = true) (hb : ∀ c ∈ b, isArithmeticChar c = true) :
    ∀ c ∈ a ++ x :: b, isArithmeticChar c = true := by
  intro c hc
  rcases List.mem_append.mp hc with h | h
  · exact ha c h
  · rcases List.mem_cons.mp h with rfl | h
    · exact hx
    · exact hb c h

/-- Two texts with an operator between them. -/
theorem binary (ha : Reading a es d) (hb : Reading b fs e) (hx : (x, o) ∈ Token.operatorChars) :
    Reading (a ++ x :: b) (es ++ .op o :: fs) (max d e) := by
  obtain ⟨hdigit, hbang, hpoint, hchar, hbreak⟩ := operator_spec _ hx
  have hformula := formula_append hdigit hbang hpoint a b
  refine ⟨?_, fun k rest => ?_, chars_append ha.chars hchar hb.chars, ?_, ?_⟩
  · rw [hformula]
    exact ha.reads.append (hb.operator hx) (ha.breaksAfter hbreak)
  · rw [List.append_assoc, List.cons_append, ha.nesting, nestingFrom_operator hx, hb.nesting]
    omega
  · obtain ⟨c, r, hr, hc⟩ := ha.first
    exact ⟨c, r ++ x :: formula b, by rw [hformula, hr, List.cons_append], hc⟩
  · obtain ⟨r, c, hr, hc⟩ := hb.last
    exact ⟨formula a ++ x :: r, c, by rw [hformula, hr]; simp, hc⟩

/-- A sign before a text. -/
theorem sign (ha : Reading a es d) : Reading ('-' :: a) (.op .minus :: es) d := by
  have hformula : formula ('-' :: a) = '-' :: formula a :=
    formula_cons (by decide) (by decide) (by decide) a
  refine ⟨?_, fun k rest => ?_, chars_append (a := []) (by simp) (by decide) ha.chars, ?_, ?_⟩
  · rw [hformula]
    exact ha.operator (by decide)
  · rw [List.cons_append, nestingFrom_operator (o := .minus) (by decide), ha.nesting]
  · exact ⟨'-', formula a, hformula, by decide⟩
  · obtain ⟨r, c, hr, hc⟩ := ha.last
    exact ⟨'-' :: r, c, by rw [hformula, hr, List.cons_append], hc⟩

/-- A text before one that begins with a parenthesis. -/
theorem adjacent (ha : Reading a es d) (hb : Reading ('(' :: b) fs e) :
    Reading (a ++ '(' :: b) (es ++ fs) (max d e) := by
  have hdigit : Text.isDigit '(' = false := by decide
  have hb' : formula ('(' :: b) = '(' :: formula b := formula_cons hdigit (by decide) (by decide) b
  have hformula : formula (a ++ '(' :: b) = formula a ++ '(' :: formula b :=
    formula_append hdigit (by decide) (by decide) a b
  have hreads := hb.reads
  rw [hb'] at hreads
  refine ⟨?_, fun k rest => ?_, ?_, ?_, ?_⟩
  · rw [hformula]
    exact ha.reads.append hreads (breaksAfter_opening _)
  · rw [List.append_assoc, ha.nesting, hb.nesting]
    omega
  · exact chars_append ha.chars (by decide) fun c hc => hb.chars c (List.mem_cons_of_mem _ hc)
  · obtain ⟨c, r, hr, hc⟩ := ha.first
    exact ⟨c, r ++ '(' :: formula b, by rw [hformula, hr, List.cons_append], hc⟩
  · obtain ⟨r, c, hr, hc⟩ := hb.last
    exact ⟨formula a ++ r, c, by rw [hformula, ← hb', hr, List.append_assoc], hc⟩

/-- Parentheses around a text. -/
theorem group {y : Tree} (ha : Reading a es d) (hy : tree? (joinAdjacent es) = some y) :
    Reading ('(' :: a ++ [')']) [.operand y] (d + 1) := by
  have hformula : formula ('(' :: a ++ [')']) = '(' :: formula a ++ [')'] := by
    rw [List.cons_append, formula_cons (by decide) (by decide) (by decide),
      formula_append (by decide) (by decide) (by decide)]
    rfl
  refine ⟨?_, fun k rest => ?_, ?_, ?_, ?_⟩
  · rw [hformula]
    exact ha.reads.parentheses hy
  · have hinner := ha.nesting (k + 1) (')' :: rest)
    have hclosing : nestingFrom (k + 1) (')' :: rest) = nestingFrom k rest := by
      simp [nestingFrom, reach, openAfter, Numeral.isPlainDigit]
    have hopening : ∀ t, nestingFrom k ('(' :: t) = nestingFrom (k + 1) t := fun t => by
      simp [nestingFrom, reach, openAfter, Numeral.isPlainDigit]
    rw [List.cons_append, List.cons_append, hopening, List.append_assoc, List.singleton_append,
      hinner, hclosing]
    omega
  · exact chars_append (a := []) (by simp) (by decide)
      (chars_append ha.chars (by decide) (by simp))
  · exact ⟨'(', formula a ++ [')'], hformula, by decide⟩
  · exact ⟨'(' :: formula a, ')', hformula, by decide⟩

/-- Digits are read without the zeros in front. -/
theorem digits {ds : Text} (hds : ∀ c ∈ ds, Numeral.isPlainDigit c = true) (hne : ds ≠ []) :
    Reading ds [.operand (.number (.integer 10 (Evaluation.dropLeadingZeros true ds)))] 1 := by
  obtain ⟨hrest, hzero, -⟩ := dropLeadingZeros_literal hds hne
  obtain ⟨rest, hdrop⟩ : ∃ rest, Evaluation.dropLeadingZeros true ds = rest := ⟨_, rfl⟩
  have hformula : formula ds = rest := by
    rw [formula, Notation.factorials_digits fun c hc => isDigit_of_plainDigit (hds c hc), hdrop]
  have hdigits : ∀ c ∈ rest, Numeral.isPlainDigit c = true :=
    fun c hc => hds c (Evaluation.mem_dropLeadingZeros (hdrop ▸ hc))
  have hne_of_digit : ∀ c ∈ rest, c ≠ '*' ∧ c ≠ '/' := fun c hc =>
    ⟨ne_of_class (hdigits c hc) (by decide), ne_of_class (hdigits c hc) (by decide)⟩
  have htext : IsFormulaText rest := isFormulaText_digits hdigits
  rw [hdrop] at hrest hzero ⊢
  refine ⟨?_, ?_, fun c hc => ?_, ?_, ?_⟩
  · rw [hformula]
    exact ReadsAs.numeral htext hrest fun inside => Token.next?_digits inside hdigits hrest hzero
  · exact nestingFrom_digits hds hne
  · simp [isArithmeticChar, hds c hc]
  · obtain ⟨c, r, hr⟩ := List.exists_cons_of_ne_nil hrest
    exact ⟨c, r, hformula.trans hr, hne_of_digit c (by simp [hr])⟩
  · obtain ⟨r, c, hr⟩ := List.eq_nil_or_concat rest |>.resolve_left hrest
    rw [List.concat_eq_append] at hr
    exact ⟨r, c, hformula.trans hr, hne_of_digit c (by simp [hr])⟩

theorem numeral (n : Literal) :
    Reading n.digits [.operand (.number (.integer 10 n.significant))] 1 :=
  digits n.isDigits n.nonempty

/-- A factorial of a literal is read as a call. -/
theorem factorial (n : Literal) :
    Reading (n.digits ++ ['!'])
      [.operand (.call (.fn .factorial) (.number (.integer 10 n.significant)))] 2 := by
  have hdigits : ∀ c ∈ n.digits, Text.isDigit c = true :=
    fun c hc => isDigit_of_plainDigit (n.isDigits c hc)
  have hformula : formula (n.digits ++ ['!']) =
      text "factorial" ++ '(' :: formula n.digits ++ [')'] := by
    have hsplit : text "factorial(" ++ n.digits ++ [')'] =
        text "factorial" ++ '(' :: (n.digits ++ ')' :: []) := by
      simp [text]
    rw [formula, formula, Notation.factorials_digits hdigits,
      Notation.factorials_bang hdigits n.nonempty, hsplit,
      Evaluation.dropLeadingZeros_append (by decide),
      Evaluation.dropLeadingZeros_append (by decide)]
    rfl
  refine ⟨?_, fun k rest => ?_, chars_append (numeral n).chars (by decide) (by simp), ?_, ?_⟩
  · rw [hformula]
    have hname : IsFormulaText (text "factorial") := by decide
    refine (numeral n).reads.call (tree?_of_outline (outline?_operand _ _)) hname ?_ (by decide)
      (by decide)
    intro depth
    rw [Token.lex_of_next? (show Token.next? _ (text "factorial") =
      some ([.name (text "factorial")], []) from rfl) (by decide), Token.lex.eq_def]
    rfl
  · have hreach : nestingFrom k ('!' :: rest) = max (k + 2) (nestingFrom k rest) := by
      simp [nestingFrom, reach, openAfter, Numeral.isPlainDigit]
    rw [List.append_assoc, List.singleton_append, (numeral n).nesting, hreach]
    omega
  · exact ⟨'f', text "actorial" ++ '(' :: formula n.digits ++ [')'], hformula, by decide⟩
  · exact ⟨text "factorial" ++ '(' :: formula n.digits, ')', hformula, by decide⟩

end Reading

end Arithmetic

end DeskCalc
