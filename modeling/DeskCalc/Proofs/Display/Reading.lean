import DeskCalc.Proofs.Arithmetic.Reading
import DeskCalc.Proofs.Evaluation.Results
import DeskCalc.Proofs.Json.Numbers
import DeskCalc.Proofs.Notation.Angles

/-!
# Reading a decimal

A decimal in an expression, with a minus sign or without, is left as it is by the rewriting of
keypad notation, except for zeros in front of the digits of its power of ten. It is one numeral.
-/

namespace DeskCalc

/-- The characters that numbers are shown with. -/
def isNumberChar (c : Char) : Bool := Numeral.isPlainDigit c || c ∈ ['.', 'e', '+', '-']

section notation_

variable {t : Text}

end notation_

namespace Json.Decimal

open Text

variable (d : Decimal)

/-- The numeral that a decimal is read as. -/
def numeral : Numeral := .decimal d.whole d.fraction ((d.power.map powerValue).getD 0)

/-- The decimal without zeros in front of the digits of its power of ten. -/
def withoutZeros : Decimal where
  whole := d.whole
  fraction := d.fraction
  power := d.power.map fun (s, ds) => (s, Evaluation.dropLeadingZeros true ds)
  isWhole := d.isWhole
  zero := d.zero
  isFraction := d.isFraction
  isPower p hp := by
    obtain ⟨⟨s, ds⟩, hmem, rfl⟩ := Option.mem_map.mp hp
    obtain ⟨hs, hds⟩ := d.isPower (s, ds) hmem
    exact ⟨hs, (dropLeadingZeros_literal hds.2 hds.1).1,
      fun c hc => hds.2 c (Evaluation.mem_dropLeadingZeros hc)⟩
  inexact := by simpa using d.inexact

private theorem text_cases :
    (∃ ds, d.fraction = some ds ∧ d.text = d.whole ++ '.' :: (ds ++ powerText d.power)) ∨
      ∃ s es, d.fraction = none ∧ d.power = some (s, es) ∧ d.text = d.whole ++ 'e' :: s :: es := by
  have hinexact := d.inexact
  rw [text]
  cases hfraction : d.fraction with
  | some ds => exact .inl ⟨ds, rfl, rfl⟩
  | none =>
    cases hpower : d.power with
    | some p => exact .inr ⟨p.1, p.2, rfl, rfl, rfl⟩
    | none => simp [hfraction, hpower] at hinexact

section marks

variable {ds r : Text}

private theorem digitRun_mark (hds : IsDigitRun ds)
    (hr : ∀ c, r.head? = some c → c = '.' ∨ c = 'e') :
    Numeral.digitRun Numeral.isPlainDigit (ds ++ r) = (ds, r) := by
  cases r with
  | nil => rw [List.append_nil, Numeral.digitRun_all hds.2]
  | cons c r =>
    have hc : Numeral.isPlainDigit c = false ∧ c ≠ '_' := by
      rcases hr c rfl with rfl | rfl <;> decide
    rw [Numeral.digitRun_append hc.1 hc.2, Numeral.digitRun_all hds.2, List.nil_append]

private theorem head?_powerText (p : Option (Char × Text)) (c : Char)
    (h : (powerText p).head? = some c) : c = '.' ∨ c = 'e' := by
  cases p with
  | none => simp [powerText] at h
  | some p => exact .inr (Option.some.inj h).symm

private theorem readExponent?_powerText {s : Char} {es : Text} (hs : s = '+' ∨ s = '-')
    (hes : IsDigitRun es) :
    Numeral.readExponent? ('e' :: s :: es) = some (powerValue (s, es), []) := by
  rw [Numeral.readExponent?_cons, if_pos (.inl rfl)]
  obtain ⟨c, cs, rfl⟩ := List.exists_cons_of_ne_nil hes.1
  rcases hs with rfl | rfl <;> simp [Numeral.exponentSign, Numeral.digitRun_all hes.2, powerValue]

end marks

private theorem read?_text : Numeral.read? d.text = some (d.numeral, []) := by
  rcases d.text_cases with ⟨ds, hfraction, htext⟩ | ⟨s, es, hfraction, hpower, htext⟩
  · have hds : IsDigitRun ds := d.isFraction ds hfraction
    have hwhole := digitRun_mark (r := '.' :: (ds ++ powerText d.power)) d.isWhole (by simp)
    have hrun := digitRun_mark hds (head?_powerText d.power)
    rw [htext, Numeral.read?_of_point hwhole d.isWhole.1, hrun, numeral, hfraction]
    cases hpower : d.power with
    | none => rfl
    | some p =>
      obtain ⟨hs, hes⟩ := d.isPower p hpower
      rw [powerText, Numeral.read?.withExponent, readExponent?_powerText hs hes]
      rfl
  · obtain ⟨hs, hes⟩ := d.isPower (s, es) hpower
    have hwhole := digitRun_mark (r := 'e' :: s :: es) d.isWhole (by simp)
    rw [htext, Numeral.read?_of_whole hwhole d.isWhole.1 (by simp), readExponent?_powerText hs hes,
      numeral, hfraction, hpower]
    rfl

private theorem dropLeadingZeros_whole {ds : Text} (hds : IsDigitRun ds)
    (hzero : ds = ['0'] ∨ ds.head? ≠ some '0') : Evaluation.dropLeadingZeros true ds = ds := by
  rcases hzero with rfl | hzero
  · rfl
  · obtain ⟨c, cs, rfl⟩ := List.exists_cons_of_ne_nil hds.1
    have hc : c ≠ '0' := by simpa using hzero
    rw [Evaluation.dropLeadingZeros, if_neg (by simp [hc]),
      isDigit_of_plainDigit (hds.2 c List.mem_cons_self)]
    exact congrArg (c :: ·) (Evaluation.dropLeadingZeros_digits fun e he =>
      isDigit_of_plainDigit (hds.2 e (List.mem_cons_of_mem c he)))

/-- Only in front of the digits of the power of ten there may be zeros to drop. -/
private theorem dropLeadingZeros_text :
    Evaluation.dropLeadingZeros true d.text = d.withoutZeros.text := by
  have hwhole := dropLeadingZeros_whole d.isWhole d.zero
  have hpower : ∀ {s : Char} {es a : Text}, s = '+' ∨ s = '-' → ∀ free,
      Evaluation.dropLeadingZeros free (a ++ 'e' :: s :: es) =
        Evaluation.dropLeadingZeros free a ++ 'e' :: s :: Evaluation.dropLeadingZeros true es := by
    intro s es a hs free
    have hsign : Text.isDigit s = false ∧ s ≠ '.' := by rcases hs with rfl | rfl <;> decide
    have hrest := Evaluation.dropLeadingZeros_append hsign.1 true [] es
    rw [decide_eq_true hsign.2] at hrest
    rw [Evaluation.dropLeadingZeros_append (by decide)]
    exact congrArg (fun t => Evaluation.dropLeadingZeros free a ++ 'e' :: t) hrest
  rcases d.text_cases with ⟨ds, hfraction, htext⟩ | ⟨s, es, hfraction, hpower', htext⟩
  · have hds : IsDigitRun ds := d.isFraction ds hfraction
    have hkeep : Evaluation.dropLeadingZeros false ds = ds :=
      Evaluation.dropLeadingZeros_digits fun c hc => isDigit_of_plainDigit (hds.2 c hc)
    rw [htext, Evaluation.dropLeadingZeros_append (by decide), hwhole, text, withoutZeros]
    dsimp only
    rw [hfraction, fractionText]
    cases hp : d.power with
    | none => simp [powerText, hkeep]
    | some p =>
      have hrest := @hpower p.1 p.2 ds (d.isPower p hp).1 false
      rw [hkeep] at hrest
      simpa [powerText] using hrest
  · rw [htext, hpower (d.isPower (s, es) hpower').1, hwhole, text, withoutZeros]
    dsimp only
    rw [hfraction, hpower']
    rfl

theorem isNumber_text : ∀ c ∈ d.text, isNumberChar c = true := by
  have hdigits : ∀ {ds : Text}, IsDigitRun ds → ∀ c ∈ ds, isNumberChar c = true := fun h c hc => by
    rw [isNumberChar, h.2 c hc, Bool.true_or]
  intro c hc
  rw [text] at hc
  rcases List.mem_append.mp hc with hc | hc
  · exact hdigits d.isWhole c hc
  rcases List.mem_append.mp hc with hc | hc
  · cases hfraction : d.fraction with
    | none => simp [hfraction, fractionText] at hc
    | some ds =>
      rw [hfraction, fractionText] at hc
      rcases List.mem_cons.mp hc with rfl | hc
      · rfl
      · exact hdigits (d.isFraction ds hfraction) c hc
  · cases hpower : d.power with
    | none => simp [hpower, powerText] at hc
    | some p =>
      obtain ⟨hs, hes⟩ := d.isPower p hpower
      rw [hpower, powerText] at hc
      rcases List.mem_cons.mp hc with rfl | hc
      · rfl
      rcases List.mem_cons.mp hc with rfl | hc
      · rcases hs with hs | hs <;> rw [hs] <;> rfl
      · exact hdigits hes c hc

end Json.Decimal

open Formula

/-- A text that is one numeral, also once zeros before its digits are dropped. -/
structure IsNumeral (t : Text) (x : Numeral) : Prop where
  isNumber : ∀ c ∈ t, isNumberChar c = true
  nonempty : Evaluation.dropLeadingZeros true t ≠ []
  read? : Numeral.read? t = some (x, [])
  next? : ∀ inside,
    Token.next? inside (Evaluation.dropLeadingZeros true t) = some ([.number x], [])

/-- A text after a minus sign if there is one. -/
def withSign (negative : Bool) (t : Text) : Text := if negative then '-' :: t else t

namespace IsNumeral

variable {t : Text} {x : Numeral}

theorem of_digits {ds : Text} (hds : Text.IsDigitRun ds)
    (hzero : ds = ['0'] ∨ ds.head? ≠ some '0') : IsNumeral ds (.integer 10 ds) where
  isNumber c hc := by rw [isNumberChar, hds.2 c hc, Bool.true_or]
  nonempty := by
    rw [Json.Decimal.dropLeadingZeros_whole hds hzero]
    exact hds.1
  read? := Numeral.read?_digits hds.2 hds.1 hzero
  next? inside := by
    rw [Json.Decimal.dropLeadingZeros_whole hds hzero]
    exact Token.next?_digits inside hds.2 hds.1 hzero

end IsNumeral

end DeskCalc
