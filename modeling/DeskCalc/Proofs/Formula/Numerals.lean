import DeskCalc.Proofs.Arithmetic.Reading
import DeskCalc.Proofs.Evaluation.Results
import DeskCalc.Proofs.Formula.Tokens
import DeskCalc.Proofs.Json.Numbers
import DeskCalc.Proofs.Notation.Angles

/-!
# Numerals and what follows them

A numeral is read as long as possible. Where no digit and no letter of an exponent or of a base
follows, digits are a number of their own, and so are digits with a point among them or beside them.
-/

namespace DeskCalc

/-- Digits of any number, with any zeros in front. -/
structure Digits where
  text : Text
  isDigits : ∀ c ∈ text, Numeral.isPlainDigit c = true
  nonempty : text ≠ []

namespace Digits

def value (n : Digits) : Nat := Numeral.ofDigits 10 n.text

/-- The digits without the zeros in front. -/
def significant (n : Digits) : Text := Evaluation.dropLeadingZeros true n.text

variable (n : Digits)

theorem isDigit_text : ∀ c ∈ n.text, Text.isDigit c = true :=
  fun c hc => isDigit_of_plainDigit (n.isDigits c hc)

theorem not_mem_text {c : Char} (hc : Numeral.isPlainDigit c = false) : c ∉ n.text :=
  fun h => Bool.false_ne_true (hc.symm.trans (n.isDigits c h))

theorem significant_isDigits : ∀ c ∈ n.significant, Numeral.isPlainDigit c = true :=
  fun c hc => n.isDigits c (Evaluation.mem_dropLeadingZeros hc)

theorem significant_spec :
    n.significant ≠ [] ∧ (n.significant = ['0'] ∨ n.significant.head? ≠ some '0') ∧
      Numeral.ofDigits 10 n.significant = n.value := by
  obtain ⟨hrest, hzero, hvalue, -⟩ := dropLeadingZeros_literal n.isDigits n.nonempty
  exact ⟨hrest, hzero, hvalue⟩

/-- The digits of a natural number. -/
def ofNat (n : Nat) : Digits where
  text := Text.ofNat n
  isDigits := (Text.isDigitRun_ofNat n).2
  nonempty := (Text.isDigitRun_ofNat n).1

@[simp]
theorem value_ofNat (k : Nat) : (ofNat k).value = k := Text.ofDigits_ofNat k

@[simp]
theorem significant_ofNat (k : Nat) : (ofNat k).significant = Text.ofNat k := by
  by_cases hk : k = 0
  · subst hk
    rfl
  obtain ⟨-, -, hvalue, hrest⟩ :=
    dropLeadingZeros_literal (Text.isDigitRun_ofNat k).2 (Text.isDigitRun_ofNat k).1
  rcases hrest with hzero | hrest
  · rw [hzero, Text.ofDigits_ofNat] at hvalue
    exact absurd hvalue.symm hk
  · obtain ⟨c, cs, hcs⟩ := List.exists_cons_of_ne_nil (Text.isDigitRun_ofNat k).1
    have hhead : c ≠ '0' := by
      rintro rfl
      exact Text.head?_ofNat (Nat.pos_of_ne_zero hk) (by rw [hcs]; rfl)
    refine hrest.trans ?_
    rw [hcs, List.dropWhile_cons_of_neg (by simpa using hhead)]

end Digits

namespace Numeral

variable {p : Char → Bool} {w f ds rest : Text}

theorem digitRun_stop (hds : ∀ c ∈ ds, p c = true)
    (hrest : ∀ c, rest.head? = some c → p c = false ∧ c ≠ '_') :
    digitRun p (ds ++ rest) = (ds, rest) := by
  cases rest with
  | nil => rw [List.append_nil, digitRun_all hds]
  | cons c rest =>
    obtain ⟨hc, hunderscore⟩ := hrest c rfl
    rw [digitRun_append hc hunderscore, digitRun_all hds, List.nil_append]

/-- Whether a text can follow a number, which then ends before it. -/
structure EndsBefore (rest : Text) : Prop where
  head : ∀ c, rest.head? = some c →
    isPlainDigit c = false ∧ c ∉ ['_', '.', 'j', 'J'] ∧ radix? c = none
  exponent : readExponent? rest = none

theorem endsBefore_cons {c : Char} (hdigit : isPlainDigit c = false)
    (hc : c ∉ ['_', '.', 'j', 'J', 'e', 'E']) (hradix : radix? c = none) (rest : Text) :
    EndsBefore (c :: rest) := by
  refine ⟨?_, ?_⟩
  · intro d hd
    rw [List.head?_cons, Option.some.injEq] at hd
    subst hd
    refine ⟨hdigit, fun hmem => hc ?_, hradix⟩
    exact List.mem_append_left ['e', 'E'] hmem
  · rw [readExponent?_cons, if_neg]
    rintro (rfl | rfl) <;> simp at hc

namespace EndsBefore

private theorem digitRun (h : EndsBefore rest) (hds : ∀ c ∈ ds, isPlainDigit c = true) :
    digitRun isPlainDigit (ds ++ rest) = (ds, rest) := by
  refine digitRun_stop hds fun c hc => ?_
  obtain ⟨hdigit, hmem, -⟩ := h.head c hc
  exact ⟨hdigit, fun hunderscore => hmem (by simp [hunderscore])⟩

private theorem ofNumeral (h : EndsBefore rest) (x : Numeral) :
    Token.ofNumeral x rest = ([.number x], rest) := by
  cases rest with
  | nil => rfl
  | cons c rest =>
    obtain ⟨-, hmem, -⟩ := h.head c rfl
    rw [Token.ofNumeral, if_neg]
    rintro ⟨rfl | rfl, -⟩ <;> simp at hmem

end EndsBefore

/-- Digits with a point among them or beside them. -/
theorem read?_decimal (hw : ∀ c ∈ w, isPlainDigit c = true) (hf : ∀ c ∈ f, isPlainDigit c = true)
    (hne : w ≠ [] ∨ f ≠ []) (hrest : EndsBefore rest) :
    read? (w ++ '.' :: (f ++ rest)) = some (.decimal w (some f) 0, rest) := by
  have hwhole : digitRun isPlainDigit (w ++ '.' :: (f ++ rest)) = (w, '.' :: (f ++ rest)) := by
    apply digitRun_stop hw
    intro c hc
    rw [List.head?_cons, Option.some.injEq] at hc
    exact hc ▸ by decide
  have hexponent : read?.withExponent w (some f) rest = (.decimal w (some f) 0, rest) := by
    rw [read?.withExponent, hrest.exponent]
  by_cases hempty : w = []
  · obtain ⟨c, f, rfl⟩ := List.exists_cons_of_ne_nil (hne.resolve_left (not_not.mpr hempty))
    have hfraction := hrest.digitRun hf
    rw [hempty] at hexponent
    unfold read?
    rw [hwhole, hempty]
    simp only [hfraction]
    exact congrArg some hexponent
  · rw [read?_of_point hwhole hempty, hrest.digitRun hf, hexponent]

/-- Digits alone. -/
theorem read?_integer (hw : ∀ c ∈ w, isPlainDigit c = true) (hne : w ≠ [])
    (hzero : w = ['0'] ∨ w.head? ≠ some '0') (hrest : EndsBefore rest) :
    read? (w ++ rest) = some (.integer 10 w, rest) := by
  have hpoint : ∀ r, rest ≠ '.' :: r := by
    rintro r rfl
    exact (hrest.head '.' rfl).2.1 (by simp)
  have hinteger : readInteger w rest = (.integer 10 w, rest) := by
    unfold readInteger
    split
    · next c cs => rw [(hrest.head c rfl).2.2]
    · rfl
  rw [read?_of_whole (hrest.digitRun hw) hne hpoint, hrest.exponent]
  dsimp only
  rcases hzero with rfl | hzero
  · have hzeros : digitRun (fun c => decide (c = '0')) (['0'] ++ rest) = (['0'], rest) := by
      apply digitRun_stop (by simp)
      intro c hc
      obtain ⟨hdigit, hmem, -⟩ := hrest.head c hc
      refine ⟨decide_eq_false ?_, fun hunderscore => hmem (by simp [hunderscore])⟩
      rintro rfl
      exact absurd hdigit (by decide)
    rw [if_pos List.head?_cons, hzeros, hinteger]
  · rw [if_neg hzero, hinteger]

end Numeral

namespace Token

variable {t rest : Text} {x : Numeral}

private theorem next?_of_read? (inside : Bool) (ht : IsFormulaText t)
    (hread : Numeral.read? t = some (x, rest)) (hrest : Numeral.EndsBefore rest) :
    next? inside t = some ([.number x], rest) := by
  cases t with
  | nil =>
    have hnil : Numeral.read? [] = none := rfl
    rw [hnil] at hread
    simp at hread
  | cons c t =>
    have hspec : c ≠ '(' ∧ c ≠ ')' ∧ c ≠ '!' ∧ Text.isNameStart c = false := by
      by_cases hdigit : Numeral.isPlainDigit c = true
      · exact (plainDigit_spec hdigit).2
      · by_cases hpoint : c = '.'
        · subst hpoint
          decide
        · have hnone : Numeral.read? (c :: t) = none := by
            simp [Numeral.read?, Numeral.digitRun, hdigit, hpoint]
          rw [hnone] at hread
          simp at hread
    obtain ⟨hopening, hclosing, hbang, hname⟩ := hspec
    rw [next?_cons inside (ht c List.mem_cons_self) (head_ne_of_isText ht.tail), hread]
    simp [hopening, hclosing, hbang, hname, hrest.ofNumeral]

/-- The tokens of a text that begins with a numeral. -/
theorem lex_of_read? (depth : Int) (ht : IsFormulaText t) (hread : Numeral.read? t = some (x, rest))
    (hrest : Numeral.EndsBefore rest) (hshort : rest.length < t.length) :
    lex depth t = (lex depth rest).map (.number x :: ·) := by
  have hnext := next?_of_read? (decide (0 < depth)) ht hread hrest
  rw [lex_of_next? hnext hshort]
  simp [opens]

/-- The tokens of a number and of what follows it. -/
theorem lex_digits (a : Digits) (depth : Int) (ht : IsFormulaText t)
    (hrest : Numeral.EndsBefore t) :
    IsFormulaText (a.significant ++ t) ∧ lex depth (a.significant ++ t) =
      (lex depth t).map (.number (.integer 10 a.significant) :: ·) := by
  obtain ⟨hne, hzero, -⟩ := a.significant_spec
  have htext : IsFormulaText (a.significant ++ t) :=
    isFormulaText_append.mpr ⟨isFormulaText_digits a.significant_isDigits, ht⟩
  have hread := Numeral.read?_integer a.significant_isDigits hne hzero hrest
  refine ⟨htext, lex_of_read? depth htext hread hrest ?_⟩
  have hpos := List.length_pos_of_ne_nil hne
  rw [List.length_append]
  omega

end Token

end DeskCalc
