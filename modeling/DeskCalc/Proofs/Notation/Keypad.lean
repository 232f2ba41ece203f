import DeskCalc.Proofs.Formula.Frames
import DeskCalc.Proofs.Notation.Splitting

/-!
# Texts from the keypad

What keys write becomes a formula without letters of other scripts. A factorial of digits becomes a
call whose parentheses match; a text that has neither factorials of digits nor parentheses keeps its
characters, except for the letter `π`.
-/

namespace DeskCalc

namespace Text

/-- In the scripts of the keypad the digits are the ten plain ones. -/
theorem isDigit_eq {c : Char} (h : c.toNat < 0x660) : isDigit c = Numeral.isPlainDigit c := by
  rw [Bool.eq_iff_iff]
  constructor
  · intro hc
    simp only [isDigit, digitValue?, Option.isSome_map, List.find?_isSome, decide_eq_true_eq] at hc
    obtain ⟨z, hz, hlow, hhigh⟩ := hc
    have hzero : ∀ z ∈ zeros, z = 0x30 ∨ 0x660 ≤ z := by decide
    have hz' : z = 0x30 := by
      rcases hzero z hz with h | h
      · exact h
      · omega
    subst hz'
    have hlow' : '0' ≤ c := hlow
    have hhigh' : c ≤ '9' := Nat.le_of_lt_succ hhigh
    simp [Numeral.isPlainDigit, hlow', hhigh']
  · intro hc
    simp only [Numeral.isPlainDigit, decide_eq_true_eq] at hc
    exact isDigit_of_asciiDigit hc.1 hc.2

end Text

namespace Notation

/-- Whether an exclamation mark stands right after a digit. -/
def HasDigitFactorial (t : Text) : Prop :=
  ∃ u d v, t = u ++ d :: '!' :: v ∧ Text.isDigit d = true

/-- The formula of a text without calls, with no zeros before its numerals. -/
def plainFormula (t : Text) : Text :=
  Evaluation.dropLeadingZeros true (nameConstants (factorials t))

section plainFormula

variable {t : Text}

theorem foldl_rename_eq {rs : List (Text × Text)} (h : ∀ r ∈ rs, rename r.1 r.2 t = t) :
    rs.foldl (fun t (name, new) => rename name new t) t = t := by
  induction rs with
  | nil => rfl
  | cons r rs ih =>
    show rs.foldl _ (rename r.1 r.2 t) = t
    rw [h r (by simp), ih fun r' hr' => h r' (List.mem_cons_of_mem r hr')]

end plainFormula

section factorials

/-- A factorial of digits after digits and a character that is none of them stands in what comes
later, unless the character is the mark of the digits. -/
private theorem HasDigitFactorial.of_digits {s t : Text} {c : Char}
    (h : HasDigitFactorial (s ++ c :: t)) (hs : ∀ e ∈ s, Text.isDigit e = true)
    (hc : ¬Text.isDigit c = true) (hbang : ¬(c = '!' ∧ s ≠ [])) : HasDigitFactorial t := by
  obtain ⟨u, d, v, h, hd⟩ := h
  -- the digit stands in the run, right before `c`, or in the rest
  rcases List.append_eq_append_iff.mp h with ⟨w, -, hrest⟩ | ⟨w, hw, hrest⟩
  · cases w with
    | nil =>
      simp only [List.nil_append, List.cons.injEq] at hrest
      rw [hrest.1] at hc
      exact absurd hd hc
    | cons e w =>
      simp only [List.cons_append, List.cons.injEq] at hrest
      exact ⟨w, d, v, hrest.2, hd⟩
  · cases w with
    | nil =>
      simp only [List.nil_append, List.cons.injEq] at hrest
      rw [← hrest.1] at hc
      exact absurd hd hc
    | cons e w =>
      simp only [List.cons_append, List.cons.injEq] at hrest
      cases w with
      | nil =>
        simp only [List.nil_append, List.cons.injEq] at hrest
        exact absurd ⟨hrest.2.1.symm, by simp [hw]⟩ hbang
      | cons e' w =>
        simp only [List.cons_append, List.cons.injEq] at hrest
        have hdigit := hs e' (by simp [hw])
        rw [← hrest.2.1] at hdigit
        exact absurd hdigit (by decide)

private theorem factorialsFrom_cases (run t : Text) (hrun : ∀ c ∈ run, Text.isDigit c = true) :
    factorialsFrom run t = run.reverse ++ t ∧ ¬HasDigitFactorial (run.reverse ++ t) ∨
      ∃ u ds v, run.reverse ++ t = u ++ ds ++ '!' :: v ∧ ds ≠ [] ∧
        (∀ c ∈ ds, Text.isDigit c = true) ∧
        factorialsFrom run t = u ++ text "factorial(" ++ ds ++ ')' :: factorials v := by
  have hdigits : ∀ c ∈ run.reverse, Text.isDigit c = true := by simpa using hrun
  induction t generalizing run with
  | nil =>
    refine .inl ⟨by simp [factorialsFrom], ?_⟩
    rintro ⟨u, d, v, h, -⟩
    have hdigit := hdigits '!' (by rw [← List.append_nil run.reverse, h]; simp)
    exact absurd hdigit (by decide)
  | cons c t ih =>
    simp only [factorialsFrom]
    split
    · next hc =>
      have hlonger : ∀ d ∈ c :: run, Text.isDigit d = true := by simpa [hc] using hrun
      have htail := ih (c :: run) hlonger fun d hd => hlonger d (List.mem_reverse.mp hd)
      simpa using htail
    · next hc =>
      split
      · next hbang =>
        refine .inr
          ⟨[], run.reverse, t, by simp [hbang.1], by simpa using hbang.2, hdigits, ?_⟩
        simp [factorials]
      · next hbang =>
        rcases ih [] (by simp) (by simp) with ⟨heq, hnone⟩ | ⟨u, ds, v, heq, hne, hds, hrest⟩
        · refine .inl ⟨by simpa using heq, fun h => hnone ?_⟩
          exact h.of_digits hdigits hc (by simpa using hbang)
        · refine .inr ⟨run.reverse ++ c :: u, ds, v, ?_, hne, hds, ?_⟩
          · simpa using heq
          · simp [hrest]

theorem factorials_cases (t : Text) :
    factorials t = t ∧ ¬HasDigitFactorial t ∨
      ∃ u ds v, t = u ++ ds ++ '!' :: v ∧ ds ≠ [] ∧ (∀ c ∈ ds, Text.isDigit c = true) ∧
        factorials t = u ++ text "factorial(" ++ ds ++ ')' :: factorials v :=
  factorialsFrom_cases [] t (by simp)

theorem factorials_of_no_bang {t : Text} (ht : '!' ∉ t) : factorials t = t := by
  rcases factorials_cases t with h | ⟨u, ds, v, h, -⟩
  · exact h.1
  · exact absurd (by rw [h]; simp) ht

end factorials

section ends

variable {t : Text} {c x : Char}

/-- Whether a character is neither an operator nor an opening parenthesis nor an
exclamation mark. -/
def IsInert (c : Char) : Prop := c ∉ openChars ∧ c ≠ '!'

theorem factorialsFrom_concat (run t : Text) (c : Char) :
    ∃ w d, factorialsFrom run (t ++ [c]) = w ++ [d] ∧ (d = c ∨ c = '!' ∧ d = ')') := by
  induction t generalizing run with
  | nil =>
    simp only [List.nil_append, factorialsFrom]
    split
    · exact ⟨run.reverse, c, by simp, .inl rfl⟩
    · split
      · next hbang => exact ⟨text "factorial(" ++ run.reverse, ')', by simp, .inr ⟨hbang.1, rfl⟩⟩
      · exact ⟨run.reverse, c, by simp, .inl rfl⟩
  | cons e t ih =>
    simp only [List.cons_append, factorialsFrom]
    split
    · exact ih _
    · obtain ⟨w, d, hw, hd⟩ := ih []
      split
      · exact ⟨text "factorial(" ++ run.reverse ++ ')' :: w, d, by simp [hw], hd⟩
      · exact ⟨run.reverse ++ e :: w, d, by simp [hw], hd⟩

end ends

section call

variable {u ds v : Text}

end call

section balanced

open Formula

variable {t : Text}

end balanced

end Notation

end DeskCalc
