import DeskCalc.Proofs.Arithmetic.ZeroDivision
import DeskCalc.Proofs.Degrees.Conversion
import DeskCalc.Proofs.Degrees.HalfTurns
import DeskCalc.Proofs.Evaluation.LeadingZeros
import DeskCalc.Proofs.Notation.Calls
import DeskCalc.Proofs.Notation.Insertion

/-!
# Whole turns in degrees

The call of a trigonometric key on a number of degrees has a value that depends on the angle up to
whole turns alone, and for the tangent and the cotangent up to half turns, since the angle is an
exact multiple of a half turn until its function is taken. The keys of the reciprocal functions
divide one by the function that they are the reciprocal of.
-/

namespace DeskCalc

open Formula Evaluation

namespace Degrees

/-- What stands in a formula for the name of a trigonometric key: the name of an angle function, or
one divided by its call. -/
def head (reciprocal : Bool) (name : Text) : Text := if reciprocal then text "1/" ++ name else name

def headTokens (reciprocal : Bool) (name : Text) : List Token :=
  (if reciprocal then [.number (.integer 10 ['1']), .op .over] else []) ++ [.name name]

/-- The tree of the call of a trigonometric key. -/
def headTree (reciprocal : Bool) (x : Tree) : Tree :=
  if reciprocal then .binary .over (.number (.integer 10 ['1'])) x else x

/-- The value of the call of a trigonometric key at a multiple of a half turn. -/
def headValue? (reciprocal : Bool) (f : Fn) (q : Rat) : Option ClosedForm :=
  if reciprocal then (f.atHalfTurns q).map (ClosedForm.ofRat 1 / ·) else f.atHalfTurns q

/-- The degrees after which a trigonometric key repeats. -/
def turn (name : Text) : Nat := if name = text "tan" ∨ name = text "cot" then 180 else 360

section texts

variable {name : Text} {f : Fn}

private theorem exists_head :
    ∀ name ∈ Notation.trigonometricNames, ∃ p ∈ angleOperations, ∃ reciprocal,
    Notation.renamed (name ++ ['(']) = head reciprocal p.1 ++ ['('] ∧
      (turn name : Rat) = 180 * p.2.period := by
  decide +kernel

private theorem head_spec : ∀ p ∈ angleOperations, ∀ reciprocal,
    p.1 ∈ Notation.angleFunctions ∧ IsFormulaText (head reciprocal p.1) ∧
      '!' ∉ head reciprocal p.1 ∧ Notation.piLetter ∉ head reciprocal p.1 ∧
      Token.lex 0 (head reciprocal p.1) = some (headTokens reciprocal p.1) := by
  decide +kernel

variable (hf : (name, f) ∈ angleOperations) (reciprocal : Bool) (a : Digits)

include hf

private theorem convertDegrees_head :
    Notation.convertDegrees (head reciprocal name ++ '(' :: (a.text ++ [')'])) =
      head reciprocal name ++ '(' :: (a.text ++ text " * pi/180)") := by
  obtain ⟨hname, -⟩ := head_spec _ hf reciprocal
  have hclosing : ')' ∉ a.text := a.not_mem_text (by decide)
  have hcall := Notation.Converted.call hname a.nonempty hclosing (.nil false)
  rw [List.append_nil] at hcall
  cases reciprocal with
  | false => exact hcall.eq
  | true =>
    exact (Notation.converted_cons (c := '1') (by decide)
      (Notation.converted_cons (c := '/') (by decide) hcall false) false).eq

private theorem normalize_head {key : Text}
    (hkey : Notation.renamed (key ++ ['(']) = head reciprocal name ++ ['(']) :
    Notation.normalize .degrees (key ++ '(' :: (a.text ++ [')'])) =
      head reciprocal name ++ '(' :: (a.text ++ text " * pi/180)") := by
  obtain ⟨-, -, hbang, hpi, -⟩ := head_spec _ hf reciprocal
  have hopening : '(' ∉ a.text := a.not_mem_text (by decide)
  have hradians := Notation.normalize_radians_call hkey hopening
    (by simp [hbang, a.not_mem_text (c := '!') (by decide)])
    (by simp [hpi, a.not_mem_text (c := Notation.piLetter) (by decide)])
  calc Notation.normalize .degrees (key ++ '(' :: (a.text ++ [')']))
      = Notation.convertDegrees (Notation.normalize .radians (key ++ '(' :: (a.text ++ [')']))) :=
        rfl
    _ = head reciprocal name ++ '(' :: (a.text ++ text " * pi/180)") := by
      rw [hradians, convertDegrees_head hf]

omit hf in
private theorem lex_degrees (depth : Int) :
    Token.lex depth (a.significant ++ text " * pi/180)") =
      some (.number (.integer 10 a.significant) :: (radiansTokens ++ [.closing])) := by
  obtain ⟨hne, hzero, -⟩ := a.significant_spec
  have hends : ∀ c, a.significant.getLast? = some c → c ∉ openChars := by
    intro c hc hopen
    have hdigit := a.significant_isDigits c (List.mem_of_getLast? hc)
    have hnone : ∀ d ∈ openChars, Numeral.isPlainDigit d = false := by decide
    exact Bool.false_ne_true ((hnone c hopen).symm.trans hdigit)
  rw [lex_append_radians depth (isFormulaText_digits a.significant_isDigits) hends,
    lex_digits a.significant_isDigits hne hzero]
  rfl

private theorem lex_head :
    Token.lex 0 (head reciprocal name ++ '(' :: (a.significant ++ text " * pi/180)")) =
      some (headTokens reciprocal name ++
        .opening :: .number (.integer 10 a.significant) :: (radiansTokens ++ [.closing])) := by
  obtain ⟨-, hhead, -, -, hlex⟩ := head_spec _ hf reciprocal
  rw [Token.lex_append 0 hhead (breaksAfter_opening _), hlex, Option.bind_some, Token.lex_opening,
    lex_degrees]
  rfl

private theorem tree?_head :
    Evaluation.tree? (head reciprocal name ++ '(' :: (a.text ++ text " * pi/180)")) =
      some (headTree reciprocal (.call (.fn f) (.binary .over
        (.binary .times (.number (.integer 10 a.significant)) (.constant .pi))
        (.number (.integer 10 (text "180")))))) := by
  obtain ⟨hname, hhead, -⟩ := head_spec _ hf reciprocal
  have hradians := dropLeadingZeros_radians a.text []
  have hdrop :
      dropLeadingZeros true (head reciprocal name ++ '(' :: (a.text ++ text " * pi/180)")) =
      head reciprocal name ++ '(' :: (a.significant ++ text " * pi/180)") := by
    have hcall := dropLeadingZeros_call hname (a.text ++ text " * pi/180)")
    rw [List.append_nil] at hradians
    rw [hradians] at hcall
    cases reciprocal with
    | false => exact hcall
    | true => exact congrArg (text "1/" ++ ·) hcall
  have hstrip : (head reciprocal name ++ '(' :: (a.significant ++ text " * pi/180)")).strip =
      head reciprocal name ++ '(' :: (a.significant ++ text " * pi/180)") := by
    have hcall := strip_call hhead (a.significant ++ text " * pi/180")
    rw [List.append_assoc] at hcall
    exact hcall
  rw [Evaluation.tree?, hdrop, hstrip, ofText?, Token.ofText, lex_head hf, Option.bind_some]
  simp only [angleOperations, List.mem_cons, Prod.mk.injEq, List.not_mem_nil, or_false] at hf
  rcases hf with ⟨rfl, rfl⟩ | ⟨rfl, rfl⟩ | ⟨rfl, rfl⟩ <;> cases reciprocal <;> rfl

end texts

section values

variable {f : Fn} {a : Digits}

private theorem value?_head (hf : f = .sin ∨ f = .cos ∨ f = .tan) (reciprocal : Bool)
    (ha : a.isShort = true) :
    (headTree reciprocal (.call (.fn f) (.binary .over
        (.binary .times (.number (.integer 10 a.significant)) (.constant .pi))
        (.number (.integer 10 (text "180")))))).value? =
        headValue? reciprocal f (a.value / 180) := by
  have hnumber :
      (Tree.number (.integer 10 a.significant)).value? = some (ClosedForm.ofRat a.value) := by
    rw [Calculation.numeral_value?, if_pos ha]
    rfl
  have hstraight :
      (Tree.number (.integer 10 (text "180"))).value? = some (ClosedForm.ofRat 180) := by
    decide +kernel
  have hone : (Tree.number (.integer 10 ['1'])).value? = some (ClosedForm.ofRat 1) := by
    decide +kernel
  have hproduct :
      (Tree.binary .times (.number (.integer 10 a.significant)) (.constant .pi)).value? =
      some (ClosedForm.halfTurn a.value) := by
    rw [← ClosedForm.ofRat_mul_pi, Tree.value?, hnumber]
    rfl
  have hangle :
      (Tree.binary .over (.binary .times (.number (.integer 10 a.significant)) (.constant .pi))
      (.number (.integer 10 (text "180")))).value? =
      some (ClosedForm.halfTurn (a.value / 180)) := by
    rw [← ClosedForm.halfTurn_div, Tree.value?, hproduct, hstraight]
    rfl
  have hnonneg : (0 : Rat) ≤ a.value / 180 := by positivity
  have hcall : (Tree.call (.fn f) (.binary .over
      (.binary .times (.number (.integer 10 a.significant)) (.constant .pi))
      (.number (.integer 10 (text "180"))))).value? = f.atHalfTurns (a.value / 180) := by
    rw [Tree.value?, hangle, Option.bind_some, Fn.eval?_halfTurn hf hnonneg]
  cases reciprocal with
  | false => exact hcall
  | true =>
    have hquotient :
        ∀ x : Tree, (headTree true x).value? = x.value?.map (ClosedForm.ofRat 1 / ·) := by
      intro x
      rw [headTree, if_pos rfl, Tree.value?, hone]
      cases x.value? <;> rfl
    rw [hquotient, hcall]
    rfl

private theorem height_head_le (reciprocal : Bool) (f : Fn) (a : Digits) :
    (headTree reciprocal (.call (.fn f) (.binary .over
        (.binary .times (.number (.integer 10 a.significant)) (.constant .pi))
        (.number (.integer 10 (text "180")))))).height ≤ 1000 := by
  cases reciprocal with
  | false => exact (by decide : 5 ≤ 1000)
  | true => exact (by decide : 6 ≤ 1000)

private theorem headValue?_add (reciprocal : Bool) (f : Fn) (q : Rat) (k : Int) :
    headValue? reciprocal f (q + k * f.period) = headValue? reciprocal f q := by
  rw [headValue?, headValue?, Fn.atHalfTurns_add]

end values

end Degrees

namespace Answer

open Degrees

section run

variable [Stack]

private theorem run_trigonometric {key : Text} (hkey : key ∈ Notation.trigonometricNames) :
    ∃ reciprocal f, (turn key : Rat) = 180 * Fn.period f ∧
      ∀ (a : Digits), a.isShort = true → ∀ limit history,
        run .degrees limit history (key ++ '(' :: (a.text ++ [')'])) =
          ofResult limit (key ++ '(' :: (a.text ++ [')'])) history
            (((headValue? reciprocal f (a.value / 180)).bind shown?).bind Display.text?) := by
  obtain ⟨⟨name, f⟩, hf, reciprocal, hhead, hturn⟩ := exists_head key hkey
  have hfn : f = .sin ∨ f = .cos ∨ f = .tan := by
    simp only [angleOperations, List.mem_cons, Prod.mk.injEq, List.not_mem_nil, or_false] at hf
    tauto
  refine ⟨reciprocal, f, hturn, fun a ha limit history => ?_⟩
  obtain ⟨d, hd⟩ := List.exists_mem_of_ne_nil _ a.nonempty
  have hmem : d ∈ key ++ '(' :: (a.text ++ [')']) := by simp [hd]
  rw [run_of_digit .degrees limit history (a.isDigit_text d hd) hmem, result?, evaluate_eq,
    normalize_head hf reciprocal a hhead, tree?_head hf, Option.bind_some,
    value?_of_height_le (height_head_le reciprocal f a), value?_head hfn reciprocal ha]

/-- The trigonometric keys repeat after whole turns in degrees, and those of the tangent and the
cotangent after half turns: what is shown and whether there is a result are the same. -/
theorem run_periodic {pair : Keypad.Pair} (hpair : pair ∈ Keypad.trigonometricPairs) {n k : Nat}
    (hshort : (Text.ofNat (n + k * turn pair.primary)).length ≤ Text.digitLimit) (limit : Int)
    (history : List DocText) :
    let answer (degrees : Nat) :=
      run .degrees limit history (pair.primary ++ '(' :: (Text.ofNat degrees ++ [')']))
    (answer (n + k * turn pair.primary)).ok = (answer n).ok ∧
      (answer (n + k * turn pair.primary)).buffer = (answer n).buffer := by
  intro answer
  have hkey : pair.primary ∈ Notation.trigonometricNames := List.mem_map_of_mem hpair
  obtain ⟨reciprocal, f, hturn, hrun⟩ := run_trigonometric hkey
  have hlimit : 0 < Text.digitLimit := by decide
  have hfirst : (Text.ofNat n).length ≤ Text.digitLimit := by
    have hlt := (Nat.length_toDigits_le_iff (by decide) hlimit).mp hshort
    exact (Nat.length_toDigits_le_iff (by decide) hlimit).mpr (by omega)
  have hangle :
      ((n + k * turn pair.primary : Nat) : Rat) / 180 = n / 180 + (k : Int) * f.period := by
    push_cast
    rw [hturn]
    ring
  have hlater : answer (n + k * turn pair.primary) = _ :=
    hrun (.ofNat _) (by simpa [Digits.isShort] using hshort) limit history
  have hearlier : answer n = _ :=
    hrun (.ofNat n) (by simpa [Digits.isShort] using hfirst) limit history
  rw [hlater, hearlier, Digits.value_ofNat, Digits.value_ofNat, hangle, headValue?_add]
  exact ofResult_shown limit history _ _ _

end run

attribute [local instance] Stack.shallow

/-- A quarter turn and a half turn more. -/
theorem run_periodic_of_cotangent :
    Keypad.pairOf "cot" ∈ Keypad.trigonometricPairs ∧
      (run .degrees 15 [] (text "cot(270)")).buffer =
      (run .degrees 15 [] (text "cot(90)")).buffer := by
  have hpair : Keypad.pairOf "cot" ∈ Keypad.trigonometricPairs := by decide
  have hshort :
      (Text.ofNat (90 + 1 * turn (Keypad.pairOf "cot").primary)).length ≤ Text.digitLimit := by
    decide
  exact ⟨hpair, (run_periodic hpair hshort 15 []).2⟩

end Answer

end DeskCalc
