import DeskCalc.Proofs.Arithmetic.Answer
import DeskCalc.Proofs.Display.Again
import DeskCalc.Proofs.Formula.Numerals

/-!
# Division by zero

A calculation with the four operations always has a value. A quotient of zero is infinite, or
undefined if its dividend is zero too, and nothing but the final value has to be finite. An
undefined value stays undefined. An infinite one stays infinite or becomes undefined, with one
exception: what is divided by it vanishes. So a division by zero shows in the result unless its
value stands in a divisor.
-/

namespace DeskCalc

open ClosedForm Formula

/-- Whether a number can be read: it must not be too long. -/
def Digits.isShort (n : Digits) : Bool := n.significant.length ≤ Text.digitLimit

/-- The keys of the four operations. -/
inductive OperationKey where
  | plus | minus | times | over
  deriving DecidableEq

/-- A calculation with the four operations. -/
inductive Calculation where
  | numeral (n : Digits)
  | apply (k : OperationKey) (x y : Calculation)

/-- A value that may be infinite, in no direction, or undefined. -/
inductive Extended where
  | finite (q : Rat)
  | infinite
  | undefined
  deriving DecidableEq

namespace OperationKey

def char : OperationKey → Char
  | plus => '+'
  | minus => '-'
  | times => '*'
  | .over => '/'

def operator : OperationKey → Operator
  | plus => .plus
  | minus => .minus
  | times => .times
  | .over => .over

/-- The operation on fractions. -/
def onFractions : OperationKey → Rat → Rat → Rat
  | plus, p, q => p + q
  | minus, p, q => p - q
  | times, p, q => p * q
  | .over, p, q => p / q

/-- The operation on values of any kind. -/
def value (k : OperationKey) : Extended → Extended → Extended
  | .finite p, .finite q =>
    if k = .over ∧ q = 0 then if p = 0 then .undefined else .infinite
    else .finite (k.onFractions p q)
  | .undefined, _ | _, .undefined => .undefined
  | .infinite, .infinite => if k = .times then .infinite else .undefined
  | .infinite, .finite q => if k = .times ∧ q = 0 then .undefined else .infinite
  | .finite p, .infinite =>
    if k = .over then .finite 0 else if k = .times ∧ p = 0 then .undefined else .infinite

end OperationKey

namespace Extended

def form : Extended → ClosedForm
  | finite q => ofRat q
  | infinite => infinity .unsigned
  | undefined => .undefined

/-- What is shown for a value. -/
def text? : Extended → Option Text
  | finite q => Display.text? (Arithmetic.displayed q)
  | _ => none

end Extended

section operations

private theorem undefined_mul (x : ClosedForm) : ClosedForm.undefined * x = .undefined := by
  cases x <;> rfl

private theorem undefined_add (x : ClosedForm) : ClosedForm.undefined + x = .undefined := by
  cases x <;> rfl

private theorem scaleDirection_unsigned (p : Rat) :
    scaleDirection .unsigned (some p.num.sign) = if p = 0 then
    .undefined else infinity .unsigned := by
  by_cases hp : p = 0
  · rw [if_pos hp, hp]
    rfl
  · have hsign : p.num.sign ≠ 0 := by simpa [Int.sign_eq_zero_iff_zero] using hp
    rw [if_neg hp, scaleDirection]
    simpa using hsign

private theorem infinity_mul (p : Rat) :
    infinity .unsigned * ofRat p = if p = 0 then .undefined else infinity .unsigned :=
  scaleDirection_unsigned p

private theorem mul_infinity (p : Rat) :
    ofRat p * infinity .unsigned = if p = 0 then .undefined else infinity .unsigned :=
  scaleDirection_unsigned p

private theorem inverse_number {q : Rat} (hq : q ≠ 0) : ofRat q ^ ofRat (-1) = ofRat q⁻¹ := by
  have hpow : ofRat q ^ ofRat (-1) = scalarPower (.exact q) (.exact (-1)) := rfl
  rw [hpow, scalarPower]
  by_cases hone : q = 1
  · rw [if_pos (.inr (congrArg Scalar.exact hone)), hone, inv_one]
    rfl
  · have hone' : Scalar.exact q ≠ 1 := fun h => hone (Scalar.exact.inj h)
    have hzero : ¬(Scalar.exact (-1) = 0 ∨ Scalar.exact q = 1) := by
      rintro (h | h)
      · exact absurd (Scalar.exact.inj h) (by norm_num)
      · exact hone' h
    have hexponent : Scalar.exact (-1) ≠ 1 := fun h => absurd (Scalar.exact.inj h) (by norm_num)
    have hnonzero : Scalar.isZero (.exact q) = false := by simp [Scalar.isZero, hq]
    rw [if_neg hzero, if_neg hexponent, hnonzero]
    simp

private theorem infinity_div (q : Rat) : infinity .unsigned / ofRat q = infinity .unsigned := by
  have hdiv : infinity .unsigned / ofRat q = infinity .unsigned * (ofRat q ^ ofRat (-1)) := rfl
  by_cases hq : q = 0
  · rw [hdiv, hq]
    rfl
  · rw [hdiv, inverse_number hq, infinity_mul, if_neg (inv_ne_zero hq)]

private theorem div_infinity (p : Rat) : ofRat p / infinity .unsigned = ofRat 0 := by
  have hdiv : ofRat p / infinity .unsigned = ofRat (p * 0) := rfl
  rw [hdiv, mul_zero]

private theorem div_zero (p : Rat) :
    ofRat p / ofRat 0 = if p = 0 then .undefined else infinity .unsigned := by
  by_cases hp : p = 0
  · rw [if_pos hp, hp]
    rfl
  · have hdividend : Scalar.isZero (.exact p) = false := by simp [Scalar.isZero, hp]
    have hdiv : ofRat p / ofRat 0 =
        if Scalar.isZero (.exact p) then .undefined else infinity .unsigned := rfl
    rw [hdiv, hdividend, if_neg hp]
    rfl

private theorem OperationKey.div_form (p q : Rat) :
    ofRat p / ofRat q = (OperationKey.over.value (.finite p) (.finite q)).form := by
  by_cases hq : q = 0
  · rw [OperationKey.value, if_pos ⟨rfl, hq⟩, hq, div_zero]
    split <;> rfl
  · have hvalue : OperationKey.over.value (.finite p) (.finite q) = .finite (p / q) :=
      if_neg fun h => hq h.2
    rw [hvalue]
    exact div_number p q hq

private theorem OperationKey.mul_infinity_form (p : Rat) :
    ofRat p * infinity .unsigned = (OperationKey.times.value (.finite p) .infinite).form ∧
      infinity .unsigned * ofRat p = (OperationKey.times.value .infinite (.finite p)).form := by
  rw [mul_infinity, infinity_mul]
  simp only [OperationKey.value, reduceCtorEq, if_false, true_and]
  constructor <;> split <;> rfl

private theorem OperationKey.value?_operator (k : OperationKey) (x y : Extended) :
    k.operator.value? x.form y.form = some (k.value x y).form := by
  cases x with
  | finite p =>
    cases y with
    | finite q =>
      cases k with
      | plus => rfl
      | minus => exact congrArg some (sub_number p q)
      | times => rfl
      | «over» => exact congrArg some (div_form p q)
    | infinite =>
      cases k with
      | plus => rfl
      | minus => rfl
      | times => exact congrArg some (mul_infinity_form p).1
      | «over» => exact congrArg some (div_infinity p)
    | undefined => cases k <;> rfl
  | infinite =>
    cases y with
    | finite q =>
      cases k with
      | plus => rfl
      | minus => rfl
      | times => exact congrArg some (mul_infinity_form q).2
      | «over» => exact congrArg some (infinity_div q)
    | infinite => cases k <;> rfl
    | undefined => cases k <;> rfl
  | undefined =>
    have hvalue : k.value .undefined y = .undefined := by cases y <;> rfl
    rw [hvalue]
    cases k with
    | plus => exact congrArg some (undefined_add _)
    | minus => exact congrArg some (undefined_add _)
    | times => exact congrArg some (undefined_mul _)
    | «over» => exact congrArg some (undefined_mul (y.form ^ ofRat (-1)))

end operations

namespace Calculation

/-- The value of a calculation, whatever is divided by zero in it. -/
def value : Calculation → Extended
  | numeral n => .finite n.value
  | apply k x y => k.value x.value y.value

/-- The fraction that a calculation stands for, unless something is divided by zero in it. -/
def rational? : Calculation → Option Rat
  | numeral n => some n.value
  | apply k x y =>
    x.rational?.bind fun p => y.rational?.bind fun q =>
      if k = .over ∧ q = 0 then none else some (k.onFractions p q)

/-- What is divided by somewhere in a calculation. -/
def divisors : Calculation → List Calculation
  | numeral _ => []
  | apply k x y => x.divisors ++ y.divisors ++ if k = .over then [y] else []

def DividesByZero (e : Calculation) : Prop := ∃ d ∈ e.divisors, d.rational? = some 0

/-- Whether all numbers in a calculation can be read. -/
def isShort : Calculation → Bool
  | numeral n => n.isShort
  | apply _ x y => x.isShort && y.isShort

def tree : Calculation → Tree
  | numeral n => .number (.integer 10 n.significant)
  | apply k x y => .binary k.operator x.tree y.tree

/-- The texts of a calculation in which every operand is a number or stands in parentheses. The
first argument says whether the whole text is such an operand. -/
inductive Renders : Bool → Calculation → Text → Prop
  | numeral (n : Digits) : Renders true (.numeral n) n.text
  | apply {x y s t} (k : OperationKey) : Renders true x s → Renders true y t →
      Renders false (.apply k x y) (s ++ k.char :: t)
  | group {operand e t} : Renders operand e t → Renders true e ('(' :: t ++ [')'])

variable {e : Calculation} {t : Text} {operand : Bool}

section reading

theorem numeral_value? (n : Digits) :
    (Tree.number (.integer 10 n.significant)).value? =
      if n.isShort then some (Extended.finite n.value).form else none := by
  obtain ⟨-, -, hvalue⟩ := n.significant_spec
  rw [Tree.value?, Numeral.value?, hvalue]
  by_cases hshort : n.isShort = true
  · have hlength : n.significant.length ≤ Text.digitLimit := by simpa [Digits.isShort] using hshort
    rw [if_pos hshort, if_neg (by omega)]
    rfl
  · have hlength : Text.digitLimit < n.significant.length := by
      simpa [Digits.isShort] using hshort
    rw [if_neg hshort, if_pos ⟨rfl, hlength⟩]
    rfl

private theorem tree_value? (e : Calculation) :
    e.tree.value? = if e.isShort then some e.value.form else none := by
  induction e with
  | numeral n => exact numeral_value? n
  | apply k x y ihx ihy =>
    have hoperator := k.value?_operator x.value y.value
    rw [tree, Tree.value?, ihx, ihy, isShort, value]
    cases x.isShort <;> cases y.isShort
    · rfl
    · rfl
    · rfl
    · exact hoperator

private theorem operatorChars_key (k : OperationKey) :
    (k.char, k.operator) ∈ Token.operatorChars := by
  cases k <;> decide

private theorem tree?_apply (k : OperationKey) (x y : Tree) :
    tree? (joinAdjacent [.operand x, .op k.operator, .operand y]) =
      some (.binary k.operator x y) := by
  cases k <;> rfl

/-- Every operation but the outermost has its own parentheses, so they are nested about as deep as
the tree is high. -/
private theorem Renders.reading (h : Renders operand e t) :
    ∃ es d, Arithmetic.Reading t es d ∧ tree? (joinAdjacent es) = some e.tree ∧
      (operand = true → es = [.operand e.tree]) ∧
      e.tree.height ≤ d + if operand then 1 else 2 := by
  induction h with
  | numeral n => exact ⟨_, _, .digits n.isDigits n.nonempty, rfl, fun _ => rfl, Nat.le_refl 2⟩
  | @apply x y s t k _ _ ihx ihy =>
    obtain ⟨es, d, hx, -, hes, hxheight⟩ := ihx
    obtain ⟨fs, d', hy, -, hfs, hyheight⟩ := ihy
    have hreading := hx.binary hy (operatorChars_key k)
    rw [hes rfl, hfs rfl] at hreading
    rw [if_pos rfl] at hxheight hyheight
    refine ⟨_, _, hreading, tree?_apply k x.tree y.tree, by simp, ?_⟩
    rw [tree, Tree.height, if_neg (by simp)]
    omega
  | group _ ih =>
    obtain ⟨es, d, hreading, htree, -, hheight⟩ := ih
    refine ⟨_, _, hreading.group htree, rfl, fun _ => rfl, ?_⟩
    rw [if_pos rfl]
    split at hheight <;> omega

end reading

section results

private theorem text?_form (v : Extended) :
    (Evaluation.shown? v.form).bind Display.text? = v.text? := by
  cases v with
  | finite q => exact Arithmetic.text?_displayed q
  | infinite => rfl
  | undefined => rfl

private theorem run_of_renders [Stack] (h : Renders operand e t) (unit : AngleUnit) (limit : Int)
    (history : List DocText) :
    Answer.run unit limit history t = Answer.ofResult limit t history
      (if Arithmetic.nesting t ≤ nestingLimit ∧ e.isShort then e.value.text? else none) := by
  obtain ⟨es, d, hreading, htree, -, hheight⟩ := h.reading
  have hresult : Evaluation.result? (Notation.normalize unit t) =
      if Arithmetic.nesting t ≤ nestingLimit ∧ e.isShort then e.value.text? else none := by
    rw [Evaluation.result?, Evaluation.evaluate_eq, hreading.evaluation_tree? htree]
    by_cases hnesting : Arithmetic.nesting t ≤ nestingLimit
    · have hlow : e.tree.height ≤ 1000 := by
        have hlimit : nestingLimit = 200 := rfl
        rw [hreading.nesting_eq] at hnesting
        split at hheight <;> omega
      rw [if_pos hnesting, Option.bind_some, Evaluation.value?_of_height_le hlow, tree_value?]
      cases hshort : e.isShort with
      | true => rw [if_pos rfl, if_pos ⟨hnesting, rfl⟩, Option.bind_some, text?_form]
      | false => rw [if_neg (by simp), if_neg (by simp)]; rfl
    · rw [if_neg hnesting, if_neg fun h => hnesting h.1]
      rfl
  rw [Answer.run_eq, hreading.expression_eq, hresult]

end results

section zero

/-- A finite value comes from finite values and no divisor that is zero, or from an
infinite divisor. -/
private theorem value_eq_finite {k : OperationKey} {x y : Extended} {q : Rat}
    (h : k.value x y = .finite q) :
    (k = .over ∧ y = .infinite) ∨ ∃ p r, x = .finite p ∧ y = .finite r ∧ ¬(k = .over ∧ r = 0) := by
  cases x with
  | finite p =>
    cases y with
    | finite r =>
      right
      refine ⟨p, r, rfl, rfl, ?_⟩
      intro hzero
      rw [OperationKey.value, if_pos hzero] at h
      split at h <;> simp at h
    | infinite =>
      left
      refine ⟨?_, rfl⟩
      by_contra hk
      rw [OperationKey.value, if_neg hk] at h
      split at h <;> simp at h
    | undefined => simp [OperationKey.value] at h
  | infinite =>
    cases y with
    | finite r =>
      rw [OperationKey.value] at h
      split at h <;> simp at h
    | infinite =>
      rw [OperationKey.value] at h
      split at h <;> simp at h
    | undefined => simp [OperationKey.value] at h
  | undefined => cases y <;> simp [OperationKey.value] at h

private theorem value_of_rational? {q : Rat} (h : e.rational? = some q) : e.value = .finite q := by
  induction e generalizing q with
  | numeral n => exact congrArg Extended.finite (Option.some.inj h)
  | apply k x y ihx ihy =>
    rw [rational?, Option.bind_eq_some_iff] at h
    obtain ⟨p, hx, h⟩ := h
    rw [Option.bind_eq_some_iff] at h
    obtain ⟨r, hy, h⟩ := h
    rw [value, ihx hx, ihy hy, OperationKey.value]
    split at h
    · simp at h
    · next hk => rw [if_neg hk, Option.some.inj h]

private theorem DividesByZero.value_ne (hzero : e.DividesByZero)
    (hfinite : ∀ d ∈ e.divisors, d.value ≠ .infinite) (q : Rat) : e.value ≠ .finite q := by
  induction e generalizing q with
  | numeral n =>
    obtain ⟨d, hd, -⟩ := hzero
    simp [divisors] at hd
  | apply k x y ihx ihy =>
    intro h
    rcases value_eq_finite h with ⟨hk, hy⟩ | ⟨p, r, hx, hy, hk⟩
    · exact hfinite y (by simp [divisors, hk]) hy
    obtain ⟨d, hd, hexact⟩ := hzero
    simp only [divisors, List.mem_append] at hd hfinite
    rcases hd with (hd | hd) | hd
    · exact ihx ⟨d, hd, hexact⟩ (fun d hd => hfinite d (.inl (.inl hd))) p hx
    · exact ihy ⟨d, hd, hexact⟩ (fun d hd => hfinite d (.inl (.inr hd))) r hy
    · split at hd
      · next hover =>
        rw [List.mem_singleton.mp hd] at hexact
        rw [value_of_rational? hexact] at hy
        exact hk ⟨hover, (Extended.finite.inj hy).symm⟩
      · simp at hd

/-- What the equals key answers when there is no result. -/
def failure (history : List DocText) : Answer :=
  ⟨errorSentinel, errorSentinel.length, false, history⟩

private theorem ofResult_eq_failure (limit : Int) (history : List DocText) (r : Option Text) :
    Answer.ofResult limit t history r = failure history ↔ r = none := by
  cases r with
  | none => exact ⟨fun _ => rfl, fun _ => rfl⟩
  | some s => simp [Answer.ofResult, failure]

/-- A calculation that divides by zero fails, unless its value is finite all the same, which takes
an infinite value in a divisor. -/
theorem run_of_zero_division [Stack] (h : Renders operand e t) (hzero : e.DividesByZero)
    (unit : AngleUnit) (limit : Int) (history : List DocText) :
    (Answer.run unit limit history t = failure history ↔
      ∀ q, e.value = .finite q →
        nestingLimit < Arithmetic.nesting t ∨ e.isShort = false ∨ Display.isTooLong q = true) ∧
    ((∀ d ∈ e.divisors, d.value ≠ .infinite) →
      Answer.run unit limit history t = failure history) := by
  have hiff : Answer.run unit limit history t = failure history ↔
      ∀ q, e.value = .finite q →
        nestingLimit < Arithmetic.nesting t ∨ e.isShort = false ∨ Display.isTooLong q = true := by
    rw [run_of_renders h, ofResult_eq_failure, ite_eq_right_iff]
    constructor
    · intro hnone q hq
      by_contra hcon
      simp only [not_or, Nat.not_lt, Bool.not_eq_false, Bool.not_eq_true] at hcon
      have htext := hnone ⟨hcon.1, hcon.2.1⟩
      have hsome := Arithmetic.text?_displayed_isSome q
      rw [hq] at htext
      rw [hcon.2.2] at hsome
      simp only [Extended.text?] at htext
      simp [htext] at hsome
    · rintro hfinite ⟨hnesting, hshort⟩
      cases hvalue : e.value with
      | finite q =>
        have hlong : Display.isTooLong q = true := by
          rcases hfinite q hvalue with hdeep | hlong | hlong
          · omega
          · simp [hshort] at hlong
          · exact hlong
        have hsome := Arithmetic.text?_displayed_isSome q
        rw [hlong] at hsome
        simpa [Extended.text?] using hsome
      | infinite => rfl
      | undefined => rfl
  refine ⟨hiff, ?_⟩
  intro hdivisors
  exact hiff.mpr fun q hq => absurd hq (hzero.value_ne hdivisors q)

section instances

attribute [local instance] Stack.shallow

private def digit (c : Char) (h : Numeral.isPlainDigit c = true) : Digits :=
  ⟨[c], by simpa using h, by simp⟩

private def zero : Calculation := .numeral (digit '0' (by decide))
private def one : Calculation := .numeral (digit '1' (by decide))
private def five : Calculation := .numeral (digit '5' (by decide))

/-- `1 + 5 / (5 - 5)` -/
private def quotient : Calculation := .apply .plus one (.apply .over five (.apply .minus five five))

private theorem renders_quotient : Renders false quotient (text "1+(5/(5-5))") :=
  .apply .plus (.numeral _) (.group (.apply .over (.numeral _) (.group (.apply .minus (.numeral _)
    (.numeral _)))))

theorem run_of_zero_division_in_sum :
    Renders false quotient (text "1+(5/(5-5))") ∧ quotient.DividesByZero ∧
      Answer.run .degrees 20 [] (text "1+(5/(5-5))") = failure [] := by
  have hzero : quotient.DividesByZero := by
    refine ⟨.apply .minus five five, by simp [quotient, divisors, five], ?_⟩
    decide +kernel
  have hfinite : ∀ d ∈ quotient.divisors, d.value ≠ .infinite := by
    have hdivisors : quotient.divisors = [.apply .minus five five] := rfl
    rw [hdivisors]
    intro d hd
    rw [List.mem_singleton.mp hd]
    decide +kernel
  exact ⟨renders_quotient, hzero,
    (run_of_zero_division renders_quotient hzero .degrees 20 []).2 hfinite⟩

/-- `1 / (1 / 0)` -/
private def nested : Calculation := .apply .over one (.apply .over one zero)

private theorem renders_nested : Renders true nested (text "(1/(1/0))") :=
  .group (.apply .over (.numeral _) (.group (.apply .over (.numeral _) (.numeral _))))

/-- One divided by an infinite value is shown as zero. -/
theorem not_run_of_zero_division :
    ¬∀ (operand : Bool) (e : Calculation) (t : Text), Renders operand e t → e.DividesByZero →
      ∀ (unit : AngleUnit) (limit : Int) (history : List DocText),
        Answer.run unit limit history t = failure history := by
  intro h
  have hzero : nested.DividesByZero := ⟨zero, by simp [nested, divisors], rfl⟩
  have hfails := h true nested _ renders_nested hzero .radians 20 []
  have hshown : (Answer.run .radians 20 [] (text "(1/(1/0))")).ok = true := by decide +kernel
  rw [hfails] at hshown
  exact absurd hshown (by decide)

end instances

end zero

end Calculation

end DeskCalc
