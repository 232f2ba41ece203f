import DeskCalc.Proofs.Buffer.Coherent
import DeskCalc.Proofs.Display.Again

/-!
# What a result looks like

A result is shown as digits or as a decimal, with a minus sign or without. Its only operators are
that sign and the one after the mark of its power of ten, and it has one point at most, so it is a
coherent text.
-/

namespace DeskCalc

open Buffer

private theorem isNeutral_of_digit {c : Char} (h : Numeral.isPlainDigit c = true) :
    isNeutral c = true := by
  have hmarks : ∀ d ∈ ['.', '+', '-', '*', '/'], Numeral.isPlainDigit d = false := by decide
  have hne : ∀ d ∈ ['.', '+', '-', '*', '/'], c ≠ d := by
    rintro d hd rfl
    exact Bool.false_ne_true ((hmarks c hd).symm.trans h)
  simp only [List.forall_mem_cons] at hne
  simp [isNeutral, isOperator, Keypad.binaryOperators, text, hne]

section pieces

variable {t : Text}

private theorem Buffer.Coherent.point (h : Coherent t) (hpoint : '.' ∉ t) :
    Coherent (t ++ ['.']) := by
  refine h.concat ?_
  rw [← Bool.not_eq_true, refuses_singleton_iff]
  rintro (⟨-, hmem⟩ | ⟨hoperator, -⟩)
  · exact hpoint ((currentNumber_suffix t).subset hmem)
  · exact absurd hoperator (by decide)

/-- The mark of a power of ten, its sign and its digits stand rightly at the end of any coherent
text. -/
theorem Buffer.Coherent.power (h : Coherent t) {s : Char} {es : Text} (hs : s = '+' ∨ s = '-')
    (hes : es.IsDigitRun) : Coherent (t ++ 'e' :: s :: es) := by
  have hmark : Coherent (t ++ ['e']) := h.append_neutral (by decide)
  have hsign : Coherent (t ++ ['e'] ++ [s]) := by
    refine hmark.concat ?_
    rw [← Bool.not_eq_true, refuses_singleton_iff]
    rintro (⟨rfl, -⟩ | ⟨-, d, hd, hoperator⟩)
    · exact absurd hs (by decide)
    · obtain rfl : 'e' = d := by simpa using hd
      exact absurd hoperator (by decide)
  have hall := hsign.append_neutral fun c hc => isNeutral_of_digit (hes.2 c hc)
  simpa using hall

private theorem coherent_withSign (negative : Bool) {ds : Text} (hds : ds.IsDigitRun) :
    Coherent (withSign negative ds) ∧ '.' ∉ withSign negative ds := by
  have hneutral : ∀ c ∈ ds, isNeutral c = true := fun c hc => isNeutral_of_digit (hds.2 c hc)
  cases negative with
  | false => exact ⟨coherent_of_neutral hneutral, not_mem_of_class hds.2 (by decide)⟩
  | true =>
    have hminus : Coherent ['-'] := coherent_nil.concat (refuses_nil ['-'])
    refine ⟨hminus.append_neutral hneutral, ?_⟩
    have hpoint : '.' ∉ ds := not_mem_of_class hds.2 (by decide)
    simpa [withSign] using hpoint

private theorem withSign_append (negative : Bool) (t u : Text) :
    withSign negative (t ++ u) = withSign negative t ++ u := by
  cases negative <;> rfl

private theorem coherent_decimal (negative : Bool) (d : Json.Decimal) :
    Coherent (withSign negative d.text) := by
  obtain ⟨hwhole, hnone⟩ := coherent_withSign negative d.isWhole
  have hfraction :
      Coherent (withSign negative (d.whole ++ Json.fractionText d.fraction)) := by
    rw [withSign_append]
    cases hf : d.fraction with
    | none => simpa [Json.fractionText] using hwhole
    | some ds =>
      have hds := d.isFraction ds hf
      have hall := (hwhole.point hnone).append_neutral fun c hc => isNeutral_of_digit (hds.2 c hc)
      simpa [Json.fractionText] using hall
  rw [Json.Decimal.text, ← List.append_assoc, withSign_append]
  cases hp : d.power with
  | none => simpa [Json.powerText] using hfraction
  | some p =>
    obtain ⟨hs, hes⟩ := d.isPower p hp
    exact hfraction.power hs hes

end pieces

theorem Display.coherent_rounded (z : Dyadic) : Coherent (rounded z) := by
  obtain ⟨negative, ⟨ds, hds, h⟩ | ⟨d, h⟩⟩ := rounded_cases z
  · rw [h]
    exact (coherent_withSign negative hds).1
  · rw [h]
    exact coherent_decimal negative d

theorem coherent_errorSentinel : Coherent errorSentinel := coherent_of_neutral (by decide)

/-- The equals key shows a failure or a number. -/
theorem Answer.buffer_cases [Stack] (unit : AngleUnit) (limit : Int) (history : List DocText)
    (buffer : Text) :
    (run unit limit history buffer).buffer = errorSentinel ∨
      ∃ z, (run unit limit history buffer).buffer = Display.rounded z := by
  rw [run_eq]
  cases hresult : Evaluation.result? (Notation.normalize unit (expression buffer)) with
  | none => exact .inl rfl
  | some shown => exact .inr (exists_rounded_of_result hresult)

end DeskCalc
