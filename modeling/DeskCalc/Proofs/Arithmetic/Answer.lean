import DeskCalc.Proofs.Arithmetic.Meaning
import DeskCalc.Proofs.Evaluation.Results
import DeskCalc.Proofs.Notation.Angles

/-!
# The answer to arithmetic

The equals key computes arithmetic exactly and rounds the value only to show it, in either unit of
angles. What it cannot do is read parentheses nested too deep or a tree too high for the stack, or
show an integer of too many digits. The value is rounded to the nearest number of 53 binary digits,
but a fraction that ends half way is cut off.
-/

namespace DeskCalc.Arithmetic

open Formula

/-- The number that is shown for an exact value. -/
def displayed (q : Rat) : Shown :=
  if q.den ≠ 1 ∧ EndsHalfway Evaluation.resultDigits q.num q.den then
    .binary (truncatedDyadic Evaluation.resultDigits q.num q.den)
  else .exact q

private theorem normalize_of_chars {t : Text} (ht : ∀ c ∈ t, isArithmeticChar c = true)
    (unit : AngleUnit) : Notation.normalize unit t = Notation.factorials t := by
  have hletters : ∀ c ∈ Notation.nameLetters, isArithmeticChar c = false := by decide
  exact Notation.normalize_of_no_name (fun c hc hname => not_mem_of_class ht (hletters c hname) hc)
    unit

/-- The text shown for a fraction. -/
theorem text?_displayed (q : Rat) :
    (Evaluation.shown? (.ofRat q)).bind Display.text? = Display.text? (displayed q) := by
  rw [Evaluation.shown?_ofRat, Option.bind_some, displayed]
  by_cases hden : q.den = 1
  · have hq : (q.num : Rat) = q := (Rat.den_eq_one_iff q).mp hden
    rw [if_pos hden, if_neg (by simp [hden]), hq]
  · have hnum : q.num ≠ 0 := by
      intro h
      exact hden (by rw [Rat.num_eq_zero.mp h]; rfl)
    have hidempotent := roundTo_roundTo (show 0 < Evaluation.resultDigits by decide)
      (truncatedDyadic (Scalar.functionDigits Evaluation.resultDigits) q.num q.den)
    have hbinary : ∀ x, Display.text? (.binary x) =
        some (Display.rounded (x.roundTo Evaluation.resultDigits)) := fun _ => rfl
    rw [if_neg hden, hbinary, hidempotent]
    by_cases hhalf : EndsHalfway Evaluation.resultDigits q.num q.den
    · have hcut :
          (truncatedDyadic (Scalar.functionDigits Evaluation.resultDigits) q.num q.den).roundTo
          Evaluation.resultDigits = truncatedDyadic Evaluation.resultDigits q.num q.den :=
        truncatedDyadic_roundTo_halfway hnum q.den_pos hhalf
      rw [hcut] at hidempotent
      rw [if_pos ⟨hden, hhalf⟩, hbinary, hidempotent, hcut]
    · have hcut :
          (truncatedDyadic (Scalar.functionDigits Evaluation.resultDigits) q.num q.den).roundTo
          Evaluation.resultDigits = nearestDyadic Evaluation.resultDigits q.num q.den :=
        truncatedDyadic_roundTo hnum q.den_pos hhalf
      have hlong : Display.isTooLong q = false := by simp [Display.isTooLong, hden]
      rw [if_neg (fun h => hhalf h.2), hcut, Display.text?, hlong]
      rfl

theorem text?_displayed_isSome (q : Rat) :
    (Display.text? (displayed q)).isSome = !Display.isTooLong q := by
  rw [displayed]
  split
  · next h => simp [Display.text?, Display.isTooLong, h.1]
  · rw [Display.text?]
    cases Display.isTooLong q <;> rfl

theorem Reading.nesting_eq {t : Text} {es : List Element} {d : Nat} (h : Reading t es d) :
    Arithmetic.nesting t = d := by
  have hall := h.nesting 0 []
  simpa [Arithmetic.nesting, nestingFrom] using hall

/-- A text of arithmetic is read as a whole, unless its parentheses are nested too deep. -/
theorem Reading.evaluation_tree? {t : Text} {es : List Element} {d : Nat} {x : Tree}
    (h : Reading t es d) (hx : tree? (joinAdjacent es) = some x) (unit : AngleUnit) :
    Evaluation.tree? (Notation.normalize unit t) =
      if Arithmetic.nesting t ≤ nestingLimit then some x else none := by
  have hread := h.reads
  have hformula : Evaluation.dropLeadingZeros true (Notation.factorials t) = formula t := rfl
  rw [normalize_of_chars h.chars, Evaluation.tree?, hformula, hread.isText.strip,
    hread.ofText? hx, h.nesting_eq]

/-- Nothing that is read as arithmetic stands for a failure. -/
theorem Reading.expression_eq {t : Text} {es : List Element} {d : Nat} (h : Reading t es d) :
    Answer.expression t = t := by
  rw [Answer.expression, if_neg]
  rintro rfl
  exact not_mem_of_class h.chars (x := 'E') (by decide) (by decide)

section stack

variable [Stack]

private theorem answer_of_writes {e : Arithmetic} {t : Text} (ht : Writes t e) (he : e.IsDefined)
    (unit : AngleUnit) (limit : Int) (history : List DocText) :
    Answer.run unit limit history t = Answer.ofResult limit t history
      (if nesting t ≤ nestingLimit ∧ e.height ≤ Stack.formula then Display.text? (displayed e.value)
        else none) := by
  obtain ⟨es, d, x, hsense, hheight⟩ := ht.sense he
  have htree := hsense.reading.evaluation_tree? hsense.tree? unit
  have hvalue : Evaluation.value? x =
      if e.height ≤ Stack.formula then some (ClosedForm.ofRat e.value) else none := by
    rw [Evaluation.value?, hheight, hsense.value]
  have hanswer : (Answer.evaluate (Notation.normalize unit t)).bind Display.text? =
      if nesting t ≤ nestingLimit ∧ e.height ≤ Stack.formula then Display.text? (displayed e.value)
        else none := by
    rw [Evaluation.evaluate_eq, htree]
    by_cases hnesting : nesting t ≤ nestingLimit
    · rw [if_pos hnesting, Option.bind_some, hvalue]
      by_cases hlow : e.height ≤ Stack.formula
      · rw [if_pos hlow, if_pos ⟨hnesting, hlow⟩, Option.bind_some, text?_displayed]
      · rw [if_neg hlow, if_neg fun h => hlow h.2]
        rfl
    · rw [if_neg hnesting, if_neg fun h => hnesting h.1]
      rfl
  rw [Answer.run, Answer.runWith, hsense.reading.expression_eq, hanswer]

/-- The equals key shows the exact value of arithmetic, or a failure if its parentheses are nested
too deep, its tree is too high for the stack or its value is an integer of too many digits. -/
theorem run_of_writes {e : Arithmetic} {t : Text} (ht : Writes t e) (he : e.IsDefined)
    (unit : AngleUnit) (limit : Int) (history : List DocText) :
    Answer.run unit limit history t = Answer.ofResult limit t history
      (if nesting t ≤ nestingLimit ∧ e.height ≤ Stack.formula then Display.text? (displayed e.value)
        else none) ∧
    ((Display.text? (displayed e.value)).isSome ↔ Display.isTooLong e.value = false) :=
  ⟨answer_of_writes ht he unit limit history, by simp [text?_displayed_isSome]⟩

end stack

section instances

attribute [local instance] Stack.shallow

/-- The literal with the given digits. -/
private def literal (digits : Text) (isDigits : ∀ c ∈ digits, Numeral.isPlainDigit c = true)
    (nonempty : digits ≠ []) (short : digits.length ≤ Text.digitLimit) : Literal :=
  ⟨digits, isDigits, nonempty, Nat.le_trans (List.dropWhile_sublist _).length_le short⟩

private def two : Literal := literal ['2'] (by decide) (by decide) (by decide)
private def three : Literal := literal ['3'] (by decide) (by decide) (by decide)
private def five : Literal := literal ['0', '5'] (by decide) (by decide) (by decide)
private def seven : Literal := literal ['7'] (by decide) (by decide) (by decide)

/-- `-2²·3 + 5! / 7` -/
private def mixed : Arithmetic :=
  .add (.multiply (.negate (.square (.numeral two))) (.numeral three))
    (.divide (.factorial five) (.numeral seven))

private theorem writes_mixed : Writes (text "-2^2(3)+05!/7") mixed :=
  .plus
    (.ofProduct (.adjacent (.ofFactor (.negate (.square (.numeral two))))
      (.ofPower (.ofAtom (.group (.ofProduct (.ofFactor (.ofPower (.ofAtom (.numeral three))))))))
      ⟨text "-2^", '2', rfl, .inl (by decide)⟩))
    (.over (.ofFactor (.ofPower (.factorial five))) (.ofPower (.ofAtom (.numeral seven))))

theorem run_of_writes_mixed : Writes (text "-2^2(3)+05!/7") mixed ∧ mixed.IsDefined ∧
    Answer.run .degrees 20 [] (text "-2^2(3)+05!/7") =
      ⟨text "5.14285714285714", 16, true, [.ofText (text "-2^2(3)+05!/7")]⟩ := by
  have hdefined : mixed.IsDefined := by
    refine ⟨⟨trivial, trivial⟩, trivial, trivial, ?_⟩
    decide +kernel
  have hshown :
      (if nesting (text "-2^2(3)+05!/7") ≤ nestingLimit ∧ mixed.height ≤ Stack.formula then
      Display.text? (displayed mixed.value) else none) = some (text "5.14285714285714") := by
    decide +kernel
  refine ⟨writes_mixed, hdefined, ?_⟩
  rw [(run_of_writes writes_mixed hdefined .degrees 20 []).1, hshown]
  rfl

/-- A text in so many pairs of parentheses. -/
def enclose : Nat → Text → Text
  | 0, t => t
  | n + 1, t => '(' :: enclose n t ++ [')']

private theorem writes_enclose {e : Arithmetic} {t : Text} (h : Writes t e) (n : Nat) :
    Writes (enclose n t) e := by
  induction n with
  | zero => exact h
  | succ n ih => exact .ofProduct (.ofFactor (.ofPower (.ofAtom (.group ih))))

private def one : Literal := literal ['1'] (by decide) (by decide) (by decide)
private def twoThousand : Literal := literal (text "2000") (by decide) (by decide) (by decide)
private def numerator : Literal :=
  literal (text "600000000000000562500000000000000000000000001") (by decide) (by decide) (by decide)
private def denominator : Literal :=
  literal (text "1000000000000000000000000000000") (by decide) (by decide) (by decide)

/-- A sum of so many ones and one more. -/
def sumOfOnes : Nat → Arithmetic
  | 0 => .numeral one
  | n + 1 => .add (sumOfOnes n) (.numeral one)

/-- The sum without parentheses. -/
def plusOnes : Nat → Text
  | 0 => ['1']
  | n + 1 => plusOnes n ++ ['+', '1']

private theorem sumOfOnes_height (n : Nat) : (sumOfOnes n).height = n + 2 := by
  induction n with
  | zero => rfl
  | succ n ih =>
    rw [sumOfOnes, height, ih, height]
    omega

private theorem sumOfOnes_isDefined (n : Nat) : (sumOfOnes n).IsDefined := by
  induction n with
  | zero => trivial
  | succ n ih => exact ⟨ih, trivial⟩

private theorem writes_plusOnes (n : Nat) : Writes (plusOnes n) (sumOfOnes n) := by
  induction n with
  | zero => exact .ofProduct (.ofFactor (.ofPower (.ofAtom (.numeral one))))
  | succ n ih => exact .plus ih (.ofFactor (.ofPower (.ofAtom (.numeral one))))

/-- Arithmetic may fail for its parentheses, for its height or for the length of its value, and what
it shows may differ from the exact value in the last digit. -/
theorem run_not_always_exact :
    (Writes (enclose 200 ['1']) (.numeral one) ∧
      (Answer.run .radians 20 [] (enclose 200 ['1'])).ok = false) ∧
    (Writes (plusOnes 3999) (sumOfOnes 3999) ∧ (sumOfOnes 3999).IsDefined ∧
      (Answer.run .radians 20 [] (plusOnes 3999)).ok = false) ∧
    (Writes (text "2000!") (.factorial twoThousand) ∧
      (Answer.run .radians 20 [] (text "2000!")).ok = false) ∧
    (Writes (text "600000000000000562500000000000000000000000001/1000000000000000000000000000000")
        (.divide (.numeral numerator) (.numeral denominator)) ∧
      (Arithmetic.divide (.numeral numerator) (.numeral denominator)).IsDefined ∧
      Display.text? (.exact (Arithmetic.divide (.numeral numerator) (.numeral denominator)).value) =
        some (text "600000000000001") ∧
      (Answer.run .radians 20 [] (text
        "600000000000000562500000000000000000000000001/1000000000000000000000000000000")).buffer =
        text "600000000000000") := by
  refine ⟨⟨?_, by decide +kernel⟩, ⟨writes_plusOnes _, sumOfOnes_isDefined _, ?_⟩,
    ⟨?_, by decide +kernel⟩, ?_, ⟨trivial, trivial, ?_⟩, ?_, ?_⟩
  · exact writes_enclose (.ofProduct (.ofFactor (.ofPower (.ofAtom (.numeral one))))) 200
  · have hhigh : ¬(sumOfOnes 3999).height ≤ Stack.formula := by
      rw [sumOfOnes_height]
      decide
    rw [answer_of_writes (writes_plusOnes _) (sumOfOnes_isDefined _), if_neg fun h => hhigh h.2]
    rfl
  · exact .ofProduct (.ofFactor (.ofPower (.factorial twoThousand)))
  · exact .ofProduct (.over (.ofFactor (.ofPower (.ofAtom (.numeral numerator))))
      (.ofPower (.ofAtom (.numeral denominator))))
  · decide +kernel
  · decide +kernel
  · decide +kernel

end instances

end DeskCalc.Arithmetic
