import DeskCalc.Answer
import DeskCalc.Proofs.Formula.Lexing
import DeskCalc.Proofs.Number.Rounding

/-!
# Results

The result of a formula depends on its tree alone; the text only shows in what is said when there is
no result. A tree whose value is a fraction has a result: an integer is the result as it stands, any
other fraction is rounded.
-/

namespace DeskCalc

section strip

theorem isBlank_of_formulaChar {c : Char} (h : isFormulaChar c = true) :
    Text.isBlank c = false := by
  obtain ⟨hlow, hhigh⟩ := formulaChar_range h
  rw [Text.isBlank, List.any_eq_false]
  intro (low, high) hmem
  simp only [Text.blankRanges, List.mem_cons, Prod.mk.injEq, List.not_mem_nil, or_false] at hmem
  simp only [decide_eq_true_eq]
  omega

theorem IsFormulaText.strip {t : Text} (h : IsFormulaText t) : t.strip = t :=
  Text.strip_eq (fun c hc => isBlank_of_formulaChar (h c (List.mem_of_head? hc)))
    fun c hc => isBlank_of_formulaChar (h c (List.mem_of_getLast? hc))

end strip

namespace Evaluation

/-- The number that a closed form is rounded to, if it has a result. -/
def shown? (x : ClosedForm) : Option Shown := (settle [] x).toOption.map (·.shown)

private theorem settle_toOption (formula : Text) (x : ClosedForm) :
    (settle formula x).toOption = (settle [] x).toOption := by
  unfold settle
  split
  · rfl
  · split
    · rfl
    · split <;> rfl

/-- The formula tree of a text, once the zeros before its numerals are dropped. -/
def tree? (formula : Text) : Option Tree :=
  Formula.ofText? (dropLeadingZeros true formula).strip

section stack

variable [Stack]

theorem evaluate_eq (formula : Text) :
    Answer.evaluate formula = ((tree? formula).bind value?).bind shown? := by
  cases htree : (tree? formula).bind value? with
  | none =>
    rw [tree?] at htree
    rw [Answer.evaluate, run, htree]
    rfl
  | some x =>
    rw [tree?] at htree
    rw [Answer.evaluate, run, htree, Option.bind_some, shown?, ← settle_toOption formula x]

/-- The result of a formula as it is shown, if it has one. -/
def result? (formula : Text) : Option Text := (Answer.evaluate formula).bind Display.text?

/-- Formulas that are read alike have the same result. -/
theorem result?_congr {s t : Text} (h : tree? s = tree? t) : result? s = result? t := by
  rw [result?, result?, evaluate_eq, evaluate_eq, h]

/-- A low tree has its value on every stack. -/
theorem value?_of_height_le {x : Tree} (h : x.height ≤ 1000) : value? x = x.value? :=
  if_pos (h.trans Stack.le_formula)

/-- The result of a formula if the stack is high enough for it. -/
def unboundedResult? (formula : Text) : Option Text :=
  (((tree? formula).bind Tree.value?).bind shown?).bind Display.text?

/-- Whether a formula is low enough for every stack. -/
def isLow (formula : Text) : Bool := (tree? formula).all fun x => x.height ≤ 1000

theorem result?_of_isLow {formula : Text} (h : isLow formula = true) :
    result? formula = unboundedResult? formula := by
  rw [result?, evaluate_eq, unboundedResult?]
  rw [isLow] at h
  cases htree : tree? formula with
  | none => rfl
  | some x =>
    rw [htree, Option.all_some, decide_eq_true_eq] at h
    rw [Option.bind_some, value?_of_height_le h, Option.bind_some]

end stack

/-- The tree of a formula without blanks. -/
theorem tree?_eq {t : Text} (h : IsFormulaText (dropLeadingZeros true t)) :
    tree? t = Formula.ofText? (dropLeadingZeros true t) := by
  rw [tree?, h.strip]

/-- The result of a fraction. -/
theorem shown?_ofRat (q : Rat) :
    shown? (.ofRat q) = some (if q.den = 1 then .exact q.num else
      .binary ((truncatedDyadic (Scalar.functionDigits resultDigits) q.num q.den).roundTo
        resultDigits)) := by
  by_cases hden : q.den = 1
  · have hinteger : (ClosedForm.ofRat q).integer? = some q.num := by
      simp [ClosedForm.ofRat, ClosedForm.integer?, Scalar.integer?, hden]
    simp [shown?, settle, hinteger, hden, Except.toOption, Outcome.shown]
  · have hinteger : (ClosedForm.ofRat q).integer? = none := by
      simp [ClosedForm.ofRat, ClosedForm.integer?, Scalar.integer?, hden]
    have hnum : q.num ≠ 0 := by
      intro h
      exact hden (by rw [Rat.num_eq_zero.mp h]; rfl)
    have hsign : (nearestDyadic workingDigits q.num q.den).sign ≠ 0 :=
      nearestDyadic_sign hnum q.den_pos
    have hsign' : ((truncatedDyadic (Scalar.functionDigits resultDigits) q.num q.den).roundTo
        resultDigits).sign ≠ 0 := truncatedDyadic_roundTo_sign hnum q.den_pos
    have happrox : (ClosedForm.ofRat q).approximate workingDigits =
        .ok ⟨some (nearestDyadic workingDigits q.num q.den), none⟩ := by
      rw [ClosedForm.ofRat, ClosedForm.approximate, Approximation.ofReal, Approximation.part,
        Scalar.toDyadic, if_neg hsign]
    have hsymbol : (ClosedForm.ofRat q).hasSymbol = false := rfl
    simp only [shown?, settle, hinteger, hsymbol, Bool.false_eq_true, if_false, happrox]
    have hround : round (ClosedForm.ofRat q) (nearestDyadic workingDigits q.num q.den) =
        (truncatedDyadic (Scalar.functionDigits resultDigits) q.num q.den).roundTo resultDigits :=
        rfl
    rw [if_neg hden, hround, if_neg hsign']
    rfl

end Evaluation

end DeskCalc
